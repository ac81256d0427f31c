import Mcsos.VmmModel

/-! # Addresses and entries

    A canonical, aligned address is its four 9-bit indices (`valid_ext`), and
    an entry the walker writes splits back into what it was made of: a link
    into the frame it leads to (`linkEntry_bits`), a leaf into the address and
    the flags a query reports (`installed_bits`). -/

namespace VmmTable

open Word Loop ByteMemory VmmModel

/-! ## Indices and alignment -/

/-- The check for a page's start. -/
theorem aligned_iff (a : U64) : vmmIsAligned4k a = true ↔ a.toNat % 4096 = 0 := by
  rw [vmmIsAligned4k, decide_eq_true_eq]
  exact and_lowMask_eq_zero_iff a (4096 - 1) 12 (by decide)

private theorem idx_toNat (v : U64) (k : Nat) :
    ((v >>> k) &&& 0x1ff).toNat = v.toNat / 2 ^ k % 512 := by
  rw [and_lowMask_toNat (v >>> k) 0x1ff 9 rfl, BitVec.toNat_ushiftRight,
      Nat.shiftRight_eq_div_pow]
  rfl

theorem idxPml4_lt (v : U64) : (idxPml4 v).toNat < 512 := by
  rw [idxPml4, idx_toNat]
  omega

theorem idxPdpt_lt (v : U64) : (idxPdpt v).toNat < 512 := by
  rw [idxPdpt, idx_toNat]
  omega

theorem idxPd_lt (v : U64) : (idxPd v).toNat < 512 := by
  rw [idxPd, idx_toNat]
  omega

theorem idxPt_lt (v : U64) : (idxPt v).toNat < 512 := by
  rw [idxPt, idx_toNat]
  omega

/-- A canonical address is its low 48 bits, sign-extended. -/
theorem canonical_iff (v : U64) :
    vmmIsCanonical v = true ↔
      v.toNat / 2 ^ 48 = if v.toNat / 2 ^ 47 % 2 = 1 then 0xffff else 0 := by
  -- bit 47 decides what the upper bits have to be
  have hsign : ((v >>> 47) &&& 1).toNat = v.toNat / 2 ^ 47 % 2 := by
    rw [and_lowMask_toNat (v >>> 47) 1 1 rfl, BitVec.toNat_ushiftRight,
        Nat.shiftRight_eq_div_pow, Nat.pow_one]
  have hupper : ∀ c : U64, (v >>> 48 = c ↔ v.toNat / 2 ^ 48 = c.toNat) := by
    intro c
    rw [← BitVec.toNat_inj, BitVec.toNat_ushiftRight, Nat.shiftRight_eq_div_pow]
  rw [vmmIsCanonical]
  by_cases hbit : v.toNat / 2 ^ 47 % 2 = 1
  · have hne : (v >>> 47) &&& 1 ≠ 0 := by
      intro h0
      rw [h0] at hsign
      rw [hbit] at hsign
      exact absurd hsign (by decide)
    rw [if_pos hne, if_pos hbit, decide_eq_true_iff, hupper]
    rfl
  · have heq : ¬ (v >>> 47) &&& 1 ≠ 0 := by
      intro hne
      refine hne (BitVec.eq_of_toNat_eq ?_)
      rw [hsign]
      show v.toNat / 2 ^ 47 % 2 = 0
      omega
    rw [if_neg heq, if_neg hbit, decide_eq_true_iff, hupper]
    rfl

/-- The path of indices to the page table of an address. -/
def ptPath (v : U64) : List U64 := [idxPml4 v, idxPdpt v, idxPd v]

/-- The addresses the walker accepts. -/
def Valid (v : U64) : Prop := vmmIsCanonical v = true ∧ vmmIsAligned4k v = true

instance (v : U64) : Decidable (Valid v) := inferInstanceAs (Decidable (_ ∧ _))

/-- **FOUR INDICES** determine a canonical, aligned address. -/
theorem valid_ext {v v' : U64} (hv : Valid v) (hv' : Valid v')
    (hpath : ptPath v = ptPath v') (hpt : idxPt v = idxPt v') : v = v' := by
  obtain ⟨hc, ha⟩ := hv
  obtain ⟨hc', ha'⟩ := hv'
  rw [canonical_iff] at hc hc'
  rw [aligned_iff] at ha ha'
  simp only [ptPath, List.cons.injEq, and_true] at hpath
  obtain ⟨h1, h2, h3⟩ := hpath
  replace h1 := congrArg BitVec.toNat h1
  replace h2 := congrArg BitVec.toNat h2
  replace h3 := congrArg BitVec.toNat h3
  replace hpt := congrArg BitVec.toNat hpt
  rw [idxPml4, idxPml4, idx_toNat, idx_toNat] at h1
  rw [idxPdpt, idxPdpt, idx_toNat, idx_toNat] at h2
  rw [idxPd, idxPd, idx_toNat, idx_toNat] at h3
  rw [idxPt, idxPt, idx_toNat, idx_toNat] at hpt
  -- the indices and the alignment are the low 48 bits, and the rest repeats bit 47
  have hlow : v.toNat % 2 ^ 48 = v'.toNat % 2 ^ 48 := by omega
  have hsign : v.toNat / 2 ^ 47 % 2 = v'.toNat / 2 ^ 47 % 2 := by omega
  rw [hsign] at hc
  rw [← hc'] at hc
  apply BitVec.eq_of_toNat_eq
  omega

/-! ## Entries as bits -/

/-- The entry `get_or_alloc_next_table` links a new table with. -/
def linkEntry (t : U64) : U64 :=
  (t &&& VMM_PTE_ADDR_MASK) ||| VMM_PTE_PRESENT ||| VMM_PTE_WRITABLE

private theorem or3_and (a b c m : U64) :
    (a ||| b ||| c) &&& m = (a &&& m) ||| (b &&& m) ||| (c &&& m) := by
  rw [BitVec.and_or_distrib_right, BitVec.and_or_distrib_right]

/-- The mask keeps bits 12 to 51. -/
theorem addrMask_toNat (a : U64) :
    (a &&& VMM_PTE_ADDR_MASK).toNat = a.toNat % 2 ^ 52 / 2 ^ 12 * 2 ^ 12 := by
  have hsplit : VMM_PTE_ADDR_MASK = 0x000fffffffffffff &&& ~~~(0xfff) := by decide
  rw [hsplit, ← BitVec.and_assoc, and_highMask_toNat _ 0xfff 12 (by decide),
      and_lowMask_toNat _ 0x000fffffffffffff 52 (by decide)]

/-- An entry can hold an aligned address exactly if it is below 2^52. -/
theorem addrMask_eq_iff {a : U64} (ha : a.toNat % 4096 = 0) :
    a &&& VMM_PTE_ADDR_MASK = a ↔ a.toNat < 2 ^ 52 := by
  rw [← BitVec.toNat_inj, addrMask_toNat]
  constructor
  · intro h
    omega
  · intro h
    rw [Nat.mod_eq_of_lt h]
    omega

/-- A link is present, not huge, and leads back to the frame it was made of. -/
theorem linkEntry_bits {t : U64} (ht : t.toNat % 4096 = 0) (hlt : t.toNat < 2 ^ 52) :
    linkEntry t &&& VMM_PTE_PRESENT ≠ 0 ∧ linkEntry t &&& VMM_PTE_HUGE = 0 ∧
    linkEntry t &&& VMM_PTE_ADDR_MASK = t := by
  have ht' : t &&& VMM_PTE_ADDR_MASK = t := (addrMask_eq_iff ht).mpr hlt
  refine ⟨?_, ?_, ?_⟩
  · rw [linkEntry, or3_and, BitVec.and_assoc,
        show VMM_PTE_ADDR_MASK &&& VMM_PTE_PRESENT = 0#64 from by decide,
        show VMM_PTE_PRESENT &&& VMM_PTE_PRESENT = 1#64 from by decide,
        show VMM_PTE_WRITABLE &&& VMM_PTE_PRESENT = 0#64 from by decide,
        BitVec.and_zero, BitVec.zero_or, BitVec.or_zero]
    decide
  · rw [linkEntry, or3_and, BitVec.and_assoc,
        show VMM_PTE_ADDR_MASK &&& VMM_PTE_HUGE = 0#64 from by decide,
        show VMM_PTE_PRESENT &&& VMM_PTE_HUGE = 0#64 from by decide,
        show VMM_PTE_WRITABLE &&& VMM_PTE_HUGE = 0#64 from by decide,
        BitVec.and_zero]
    rfl
  · rw [linkEntry, or3_and, BitVec.and_assoc, BitVec.and_self, ht',
        show VMM_PTE_PRESENT &&& VMM_PTE_ADDR_MASK = 0#64 from by decide,
        show VMM_PTE_WRITABLE &&& VMM_PTE_ADDR_MASK = 0#64 from by decide,
        BitVec.or_zero, BitVec.or_zero]

/-- A leaf entry, from what a query reports of it. -/
def leafEntry : Option (U64 × U64) → U64
  | none => 0
  | some (paddr, flags) => paddr ||| flags

/-- What `vmm_map_page` installs: the masked frame address, and the allowed
    flags with the present bit. -/
def installed (paddr flags : U64) : U64 × U64 :=
  (paddr &&& VMM_PTE_ADDR_MASK, VMM_PTE_PRESENT ||| (flags &&& allowedFlags))

/-- The entry that a mapping installs. -/
theorem leafEntry_installed (paddr flags : U64) :
    leafEntry (some (installed paddr flags))
      = (paddr &&& VMM_PTE_ADDR_MASK) ||| VMM_PTE_PRESENT ||| (flags &&& allowedFlags) :=
  (BitVec.or_assoc ..).symm

/-- An installed entry is present and splits back into address and flags. -/
theorem installed_bits (paddr flags : U64) :
    leafEntry (some (installed paddr flags)) &&& VMM_PTE_PRESENT ≠ 0 ∧
    leafEntry (some (installed paddr flags)) &&& VMM_PTE_ADDR_MASK = (installed paddr flags).1 ∧
    leafEntry (some (installed paddr flags)) &&& ~~~VMM_PTE_ADDR_MASK
      = (installed paddr flags).2 := by
  rw [leafEntry_installed]
  refine ⟨?_, ?_, ?_⟩
  · rw [or3_and, BitVec.and_assoc, BitVec.and_assoc,
        show VMM_PTE_ADDR_MASK &&& VMM_PTE_PRESENT = 0#64 from by decide,
        show VMM_PTE_PRESENT &&& VMM_PTE_PRESENT = 1#64 from by decide,
        show allowedFlags &&& VMM_PTE_PRESENT = 0#64 from by decide,
        BitVec.and_zero, BitVec.and_zero, BitVec.zero_or, BitVec.or_zero]
    decide
  · rw [or3_and, BitVec.and_assoc, BitVec.and_assoc, BitVec.and_self,
        show VMM_PTE_PRESENT &&& VMM_PTE_ADDR_MASK = 0#64 from by decide,
        show allowedFlags &&& VMM_PTE_ADDR_MASK = 0#64 from by decide,
        BitVec.and_zero, BitVec.or_zero, BitVec.or_zero]
    rfl
  · rw [or3_and, BitVec.and_assoc, BitVec.and_assoc,
        show VMM_PTE_ADDR_MASK &&& ~~~VMM_PTE_ADDR_MASK = 0#64 from by decide,
        show VMM_PTE_PRESENT &&& ~~~VMM_PTE_ADDR_MASK = VMM_PTE_PRESENT from by decide,
        show allowedFlags &&& ~~~VMM_PTE_ADDR_MASK = allowedFlags from by decide,
        BitVec.and_zero, BitVec.zero_or]
    rfl

end VmmTable
