import Mcsos.KmemFreeProofs
import Mcsos.KmemValidateProofs

/-! # Initialisation and the checker

    On a heap that is in order `kmem_validate` walks the whole list and finds
    nothing, as long as the list is not longer than its guard allows, and
    `kmemBlocks` reads back the list.  A successful `kmem_init` leaves such a
    heap, with one free block: its own call of `kmem_validate` rules out the
    arenas whose end wraps. -/

namespace KmemInit

open Word ByteMemory KmemModel KmemHeader KmemList KmemAlloc KmemValidate Tiling LinkedChain

variable {lo hi : Nat} {b : Block} {bs : List Block} {m : Mem} {p : U64} {s : KmemState}

/-! ## Reading the list -/

/-- The flag of a block, as a walk over the list reads it. -/
theorem decide_free {q n : U64} (h : Fields m b q n) : decide (hdrFree m b.addr ≠ 0) = b.free := by
  rw [Bool.eq_iff_iff, decide_eq_true_iff]
  exact free_ne_zero h

/-- The walk along `next` finds the blocks that the headers link. -/
theorem walkBlocks_eq (rounds : Nat) (hL : Layout lo hi bs) (hs : Seg m p bs 0)
    (hr : bs.length < rounds) : walkBlocks m rounds (nextAddr bs 0) = some bs := by
  induction bs generalizing lo p rounds with
  | nil =>
      cases rounds with
      | zero => exact absurd hr (Nat.not_lt_zero _)
      | succ rounds => exact if_pos rfl
  | cons b bs ih =>
      cases rounds with
      | zero => exact absurd hr (Nat.not_lt_zero _)
      | succ rounds =>
          have hf := header_fields hs.1
          show walkBlocks m (rounds + 1) b.addr = _
          rw [walkBlocks, if_neg (hL.ne_zero (List.mem_cons_self ..)), hf.next, hf.size,
              decide_free hf, ih rounds hL.tail hs.2 (Nat.lt_of_succ_lt_succ hr)]
          rfl

/-- **BLOCK LIST**: following `next` from `g_head` gives the list. -/
theorem kmemBlocks_eq (h : Heap s bs) : kmemBlocks s = some bs := by
  rw [kmemBlocks, ← h.nextAddr_eq]
  exact walkBlocks_eq ROUNDS h.layout h.linked h.layout.length_lt

/-! ## `kmem_validate` -/

/-- The first block of a layout is one that a round accepts. -/
theorem accepted_head {cursor next : U64} (hL : Layout lo s.gHeapEnd.toNat (b :: bs))
    (hf : Fields s.mem b p next) (hbase : s.gHeapBase.toNat ≤ lo) (hcur : cursor.toNat = lo) :
    Accepted s p cursor b.addr ∧ behind s b.addr = b.addr + 48 + b.size := by
  have hb : b ∈ b :: bs := List.mem_cons_self ..
  have hmem := hL.mem hb
  have htop := hL.top
  have hsize := hL.sizes b hb
  have hal : b.addr.toNat % 16 = 0 := hL.addr_aligned hb
  have haddr : b.addr.toNat = lo := hL.tiles.1
  have hend : (b.addr + 48 + b.size).toNat = b.addr.toNat + 48 + b.size.toNat := by bv_omega
  -- sizes and addresses are multiples of 16, so the next header is right behind
  have hbehind : behind s b.addr = b.addr + 48 + b.size := by
    rw [behind, hf.size]
    refine kmemAlignUpPtr_aligned ?_ ?_
    · show (b.addr + 48 + b.size).toNat % 16 = 0
      omega
    · show (b.addr + 48 + b.size).toNat ≤ _
      omega
  refine ⟨⟨BitVec.eq_of_toNat_eq (haddr.trans hcur.symm), ?_, ?_, hf.magic, hf.prev, ?_, ?_, ?_⟩,
    hbehind⟩
  · bv_omega
  · rw [HEADER]
    bv_omega
  · rw [hf.size, kmemPayload, HEADER]
    bv_omega
  · rw [hbehind]
    bv_omega
  · rw [hbehind]
    bv_omega

/-- The addresses of a layout are a chain that the checker accepts. -/
theorem chain_of_layout {cursor : U64} (hL : Layout lo s.gHeapEnd.toNat bs)
    (hs : Seg s.mem p bs 0) (hbase : s.gHeapBase.toNat ≤ lo) (hcur : cursor.toNat = lo) :
    Linked (hdrNext s.mem) 0 (nextAddr bs 0) (bs.map Block.addr) ∧
      Chain s p cursor (bs.map Block.addr) := by
  induction bs generalizing lo p cursor with
  | nil => exact ⟨rfl, trivial⟩
  | cons b bs ih =>
      have hb : b ∈ b :: bs := List.mem_cons_self ..
      have hf := header_fields hs.1
      have hmem := hL.mem hb
      have htop := hL.top
      have haddr : b.addr.toNat = lo := hL.tiles.1
      obtain ⟨hok, hbehind⟩ := accepted_head hL hf hbase hcur
      have hnext : (behind s b.addr).toNat = lo + 48 + b.size.toNat := by
        rw [hbehind]
        bv_omega
      obtain ⟨hlinked, hchain⟩ := ih hL.tail hs.2 (by omega) hnext
      rw [← hf.next] at hlinked
      exact ⟨⟨rfl, hL.ne_zero hb, hlinked⟩, hok, hchain⟩

/-- A heap that is laid out and linked is accepted, up to the guard. -/
theorem kmemValidate_of_layout (hinit : s.gInitialized = true) (hhead : s.gHead = s.gHeapBase)
    (hL : Layout s.gHeapBase.toNat s.gHeapEnd.toNat bs) (hs : Seg s.mem 0 bs 0)
    (hb : b ∈ bs) (hfirst : nextAddr bs 0 = s.gHead) (hlen : bs.length ≤ 1048576) :
    kmemValidate s = 0 := by
  have hpos := hL.pos
  have hmem := hL.mem hb
  have hlt : s.gHeapBase.toNat < s.gHeapEnd.toNat := by omega
  obtain ⟨hlinked, hchain⟩ := chain_of_layout hL hs (Nat.le_refl _) rfl
  rw [hfirst] at hlinked
  refine kmemValidate_zero_iff.mpr ⟨bs.map Block.addr, hinit, ?_, hlt, hhead, hlinked, hchain, ?_⟩
  · intro hzero
    rw [hzero] at hpos
    exact absurd hpos (by decide)
  · rw [List.length_map]
    exact hlen

/-- **VALIDATE** accepts a heap that is in order, up to its guard. -/
theorem kmemValidate_eq (h : Heap s bs) (hlen : bs.length ≤ 1048576) : kmemValidate s = 0 := by
  obtain ⟨b, hb⟩ := List.exists_mem_of_ne_nil bs h.nonempty
  exact kmemValidate_of_layout h.init h.head h.layout h.linked hb h.nextAddr_eq hlen

/-! ## `kmem_init` -/

/-- `start` of `kmem_init`. -/
def arenaStart (base : U64) : U64 := kmemAlignUpPtr base KMEM_ALIGN

/-- `usable` of `kmem_init`. -/
def arenaUsable (base bytes : U64) : U64 :=
  (bytes - (arenaStart base - base)) &&& ~~~(KMEM_ALIGN - 1)

/-- The heap `kmem_init` sets up at `start`, in `usable` bytes. -/
def initialHeap (m : Mem) (start usable : U64) : KmemState :=
  ⟨writeHeader m start ⟨KMEM_MAGIC, usable - HEADER, 1, 0, 0⟩, start, start + usable, start, true⟩

/-- The arenas that pass the checks of the arguments: what is left of the
    `bytes` bytes from `base` on once both ends are rounded holds a header and
    more than the smallest size worth splitting off. -/
structure Admitted (base bytes : U64) : Prop where
  ne_zero : base ≠ 0
  start_fits : base.toNat ≤ 2 ^ 64 - 16
  large : (base.toNat + 15) / 16 * 16 + 96 ≤ (base.toNat + bytes.toNat) / 16 * 16

variable {base bytes : U64}

/-- The start, rounded up to a multiple of 16. -/
theorem arenaStart_toNat (h : base.toNat ≤ 2 ^ 64 - 16) :
    (arenaStart base).toNat = (base.toNat + 15) / 16 * 16 := by
  rcases kmemAlignUpPtr_cases base with ⟨hbig, -⟩ | ⟨-, hval⟩
  · omega
  · exact hval

/-- Both ends are rounded inwards. -/
theorem arenaUsable_toNat (bytes : U64) (h : base.toNat ≤ 2 ^ 64 - 16) (hlost : 15 ≤ bytes.toNat) :
    (arenaStart base).toNat + (arenaUsable base bytes).toNat
      = (base.toNat + bytes.toNat) / 16 * 16 := by
  have hstart := arenaStart_toNat h
  have hmask := and_highMask_toNat (bytes - (arenaStart base - base)) (KMEM_ALIGN - 1) 4
    (by decide)
  have hrest : (bytes - (arenaStart base - base)).toNat
      = bytes.toNat - ((arenaStart base).toNat - base.toNat) := by bv_omega
  rw [hrest] at hmask
  rw [arenaUsable, hmask]
  omega

/-- **WHAT A CALL CAN DO**: arguments that are refused change nothing; otherwise
    the heap is set up, and then checked. -/
theorem kmemInit_cases (s : KmemState) (base bytes : U64) :
    (¬ Admitted base bytes ∧ ∃ rc, rc ≠ 0 ∧ kmemInit s base bytes = (rc, s)) ∨
    (Admitted base bytes ∧ kmemInit s base bytes
      = (kmemValidate (initialHeap s.mem (arenaStart base) (arenaUsable base bytes)),
        initialHeap s.mem (arenaStart base) (arenaUsable base bytes))) := by
  have hH : HEADER = (48 : U64) := rfl
  have hS : KMEM_MIN_SPLIT = (32 : U64) := rfl
  have hfold : kmemAlignUpPtr base KMEM_ALIGN = arenaStart base := rfl
  rw [kmemInit]
  simp only [hfold]
  by_cases hargs : base = 0 ∨ bytes < HEADER + KMEM_MIN_SPLIT
  · refine Or.inl ⟨fun h => ?_, -1, by decide, if_pos hargs⟩
    have hlarge := h.large
    have hne := h.ne_zero
    rw [hH, hS] at hargs
    bv_omega
  rw [if_neg hargs]
  rw [hH, hS] at hargs
  by_cases hstart : arenaStart base = 0 ∨ arenaStart base < base
  · refine Or.inl ⟨fun h => ?_, -2, by decide, if_pos hstart⟩
    have hval := arenaStart_toNat h.start_fits
    bv_omega
  rw [if_neg hstart]
  -- the base is so low that rounding it up does not wrap
  have hfits : base.toNat ≤ 2 ^ 64 - 16 := by
    rcases kmemAlignUpPtr_cases base with ⟨-, hzero⟩ | ⟨hle, -⟩
    · exact absurd (Or.inl hzero) hstart
    · exact hle
  have hval := arenaStart_toNat hfits
  have huse := arenaUsable_toNat bytes hfits (by bv_omega)
  by_cases hlost : bytes ≤ arenaStart base - base + HEADER + KMEM_MIN_SPLIT
  · refine Or.inl ⟨fun h => ?_, -3, by decide, if_pos hlost⟩
    have hlarge := h.large
    rw [hH, hS] at hlost
    bv_omega
  rw [if_neg hlost]
  by_cases husable : arenaUsable base bytes ≤ HEADER + KMEM_MIN_SPLIT
  · refine Or.inl ⟨fun h => ?_, -4, by decide, if_pos husable⟩
    have hlarge := h.large
    rw [hH, hS] at husable
    bv_omega
  · refine Or.inr ⟨⟨fun h => hargs (Or.inl h), hfits, ?_⟩, if_neg husable⟩
    rw [hH, hS] at husable
    bv_omega

/-- What the checks of `kmem_init` establish about `start` and `usable`. -/
structure Usable (base bytes start usable : U64) : Prop where
  start_aligned : Aligned start
  usable_aligned : Aligned usable
  pos : 0 < start.toNat
  large : 96 ≤ usable.toNat
  no_wrap : start.toNat + usable.toNat ≤ 2 ^ 64 - 16
  above : base.toNat ≤ start.toNat
  below : start.toNat + usable.toNat ≤ base.toNat + bytes.toNat

/-- An arena that ends below the top of the address space is usable. -/
theorem Admitted.usable (h : Admitted base bytes) (htop : base.toNat + bytes.toNat < 2 ^ 64) :
    Usable base bytes (arenaStart base) (arenaUsable base bytes) := by
  have hne := h.ne_zero
  have hlarge := h.large
  have hval := arenaStart_toNat h.start_fits
  have huse := arenaUsable_toNat bytes h.start_fits (by omega)
  refine ⟨show _ % 16 = 0 by omega, show _ % 16 = 0 by omega, ?_, ?_, ?_, ?_, ?_⟩
  · bv_omega
  · omega
  · omega
  · omega
  · omega

/-! ## The fresh heap -/

section Fresh

variable {start usable : U64}

/-- One free block tiles the arena. -/
theorem layout_initialHeap (hu : Usable base bytes start usable) :
    Layout start.toNat (start + usable).toNat [⟨start, usable - HEADER, true⟩] := by
  have h1 : start.toNat % 16 = 0 := hu.start_aligned
  have h2 : usable.toNat % 16 = 0 := hu.usable_aligned
  have h4 := hu.large
  have h5 := hu.no_wrap
  have hsize : (usable - 48).toNat = usable.toNat - 48 := by bv_omega
  have hend : (start + usable).toNat = start.toNat + usable.toNat := by bv_omega
  refine ⟨⟨rfl, ?_⟩, hu.pos, h1, by omega, ?_⟩
  · show start.toNat + 48 + (usable - 48).toNat = (start + usable).toNat
    omega
  · intro b hb
    obtain rfl := List.mem_singleton.mp hb
    show (usable - 48).toNat % 16 = 0 ∧ 16 ≤ (usable - 48).toNat
    omega

/-- The first header is in memory, and links nothing. -/
theorem seg_initialHeap (hroom : Room start) :
    Seg (initialHeap m start usable).mem 0 [⟨start, usable - HEADER, true⟩] 0 :=
  ⟨readHeader_writeHeader hroom _, trivial⟩

/-- **FRESH HEAP PASSES**: the last check of `kmem_init` finds nothing, -/
theorem kmemValidate_initialHeap (hu : Usable base bytes start usable) :
    kmemValidate (initialHeap m start usable) = 0 := by
  have hL := layout_initialHeap hu
  have hb := List.mem_singleton_self (⟨start, usable - HEADER, true⟩ : Block)
  exact kmemValidate_of_layout rfl rfl hL (seg_initialHeap (hL.room hb)) hb rfl
    (show 1 ≤ 1048576 by decide)

/-- unless the end has wrapped. -/
theorem kmemValidate_wrapped (hend : start + usable ≤ start) :
    kmemValidate (initialHeap m start usable) = -1 :=
  if_pos (Or.inr (Or.inr (Or.inl hend)))

end Fresh

/-- The end of an admitted arena wraps if the arena reaches the top of the
    address space. -/
theorem Admitted.end_wraps (h : Admitted base bytes)
    (htop : 2 ^ 64 ≤ base.toNat + bytes.toNat) :
    arenaStart base + arenaUsable base bytes ≤ arenaStart base := by
  have hval := arenaStart_toNat h.start_fits
  have hlarge := h.large
  have huse := arenaUsable_toNat bytes h.start_fits (by omega)
  have hlt := (arenaUsable base bytes).isLt
  bv_omega

/-- **INIT**: success means that the heap was set up inside the arena. -/
theorem kmemInit_success {s₀ : KmemState} (h : kmemInit s₀ base bytes = (0, s)) :
    ∃ start usable, s = initialHeap s₀.mem start usable ∧ Usable base bytes start usable := by
  rcases kmemInit_cases s₀ base bytes with ⟨-, rc, hrc, hrun⟩ | ⟨hadm, hrun⟩
  · exact absurd (congrArg Prod.fst (hrun.symm.trans h)) hrc
  · obtain ⟨hvalid, rfl⟩ := Prod.mk.inj (hrun.symm.trans h)
    refine ⟨_, _, rfl, hadm.usable (Nat.lt_of_not_le fun htop => ?_)⟩
    rw [kmemValidate_wrapped (hadm.end_wraps htop)] at hvalid
    exact absurd hvalid (by decide)

/-- No aligned address of the payload area of a fresh heap holds the magic number. -/
def NoStray (m : Mem) (start usable : U64) : Prop :=
  ∀ a, Aligned a → start.toNat + 48 ≤ a.toNat → a.toNat < start.toNat + usable.toNat →
    load64 m a ≠ KMEM_MAGIC

/-- **FRESH HEAP**: one free block. -/
theorem heap_initialHeap {start usable : U64} (hu : Usable base bytes start usable)
    (hstray : NoStray m start usable) :
    Heap (initialHeap m start usable) [⟨start, usable - HEADER, true⟩] := by
  have hL := layout_initialHeap hu
  have hroom := hL.room (List.mem_singleton_self _)
  have hseg : Seg (initialHeap m start usable).mem 0 [⟨start, usable - HEADER, true⟩] 0 :=
    seg_initialHeap hroom
  have honly := onlyAt_writeHeader m start ⟨KMEM_MAGIC, usable - HEADER, 1, 0, 0⟩
  refine ⟨rfl, rfl, hL, List.cons_ne_nil _ _, hseg, List.isChain_singleton _, ?_⟩
  intro a ha hlo hhi hm
  refine ⟨_, List.mem_singleton_self _, ?_⟩
  show start = a
  by_contra hne
  have h1 : start.toNat % 16 = 0 := hu.start_aligned
  have h5 := hu.no_wrap
  have ha' : a.toNat % 16 = 0 := ha
  have hlo' : start.toNat ≤ a.toNat := hlo
  have hhi' : a.toNat < (start + usable).toNat := hhi
  -- the words of the header itself, or the payload that was not written
  have hstep : a = start + 16 ∨ a = start + 32 ∨ start.toNat + 48 ≤ a.toNat := by bv_omega
  have hf := header_fields hseg.1
  rcases hstep with rfl | rfl | hpay
  · exact free_not_magic (by rw [hf.free]; exact (show (1 : U32).toNat ≤ 1 from by decide)) hm
  · exact absurd (hm.symm.trans hf.prev) (show KMEM_MAGIC ≠ 0 from by decide)
  · refine hstray a ha hpay (by bv_omega) (Eq.trans ?_ hm)
    refine load64_congr (fun i hi => (honly _ (fun hin => ?_)).symm)
    have hin' := (inRange_iff hroom _).mp hin
    bv_omega

end KmemInit
