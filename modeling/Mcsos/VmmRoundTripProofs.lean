import Mcsos.VmmRightsProofs

/-! # Mapping an address and asking for it

    An entry of a page table has room for bits 12 to 51 of a physical address.
    `vmm_map_page` asks for an aligned address and masks the rest, so that an
    address with higher bits is mapped with success to another page.  Of the
    virtual address every bit is checked. -/

namespace VmmRoundTrip

open Word ByteMemory VmmModel VmmTable VmmTree VmmRefinement VmmRights

variable {Ctx : Type} {space : VmmSpace Ctx} {p2v : U64 → U64} {F : U64 → Prop}
variable {A : Ctx → (U64 → Prop) → Prop} {w : VmmWorld Ctx} {M : PageMap}
variable {vaddr paddr flags : U64}

/-- **MAP, THEN QUERY**: the query reports what was installed. -/
theorem query_mapped (hE : Env space p2v F A) (h : Holds space p2v F A w M)
    (hok : (vmmMapPage space w vaddr paddr flags).1 = .ok ()) :
    vmmQueryPage space (vmmMapPage space w vaddr paddr flags).2.mem vaddr
      = .ok ⟨vaddr, (installed paddr flags).1, (installed paddr flags).2⟩ := by
  have hnext := vmmMapPage_spec hE h vaddr paddr flags
  rw [Refines, hok] at hnext
  rw [vmmQueryPage_spec hE hnext (vmmMapPage_ok_args hok).1, answer,
      show mapStep M (.map vaddr paddr flags) (.ok ()) vaddr = some (installed paddr flags)
        from if_pos rfl]

/-- **ROUND TRIP**: from a zeroed root and a stream of fresh frames, after any
    calls of `vmm_map_page` and `vmm_unmap_page`, a page that is mapped with
    success is reported at the physical address it was mapped to, exactly if
    that address is below 2^52. -/
theorem vmm_map_query_iff {root : U64} {allocFrame : Option (Ctx → U64 × Ctx)}
    {freeFrame : Option (Ctx → U64 → Ctx)} {mem : Mem} {ctx : Ctx}
    (hinit : vmmSpaceInit root allocFrame freeFrame (some p2v) = .ok space)
    (hs : Storage p2v F) (hroot : F root)
    (hzero : ∀ i : U64, i.toNat < 512 → load64 mem (entryAddr (p2v root) i) = 0)
    (hfresh : ∀ alloc, allocFrame = some alloc → FreshFrames F root alloc ctx)
    (ops : List VmmOp) (vaddr paddr flags : U64)
    (hok : (vmmMapPage space (Machine.exec (vmmStep space) ⟨mem, ctx⟩ ops)
      vaddr paddr flags).1 = .ok ()) :
    (∃ m, vmmQueryPage space (vmmMapPage space (Machine.exec (vmmStep space) ⟨mem, ctx⟩ ops)
        vaddr paddr flags).2.mem vaddr = .ok m ∧ m.vaddr = vaddr ∧ m.paddr = paddr) ↔
      paddr.toNat < 2 ^ 52 := by
  obtain ⟨hE, -, M, hrun, -⟩ := exec_requested hinit hs hroot hzero hfresh ops
  rw [query_mapped hE hrun hok, ← addrMask_eq_iff (vmmMapPage_ok_args hok).2]
  constructor
  · rintro ⟨m, hm, -, hpaddr⟩
    obtain rfl := Except.ok.inj hm
    exact hpaddr
  · intro hpaddr
    exact ⟨_, rfl, rfl, hpaddr⟩

/-- A first page, below three new tables. -/
theorem vmm_map_query_iff_small :
    ∃ m, vmmQueryPage smallSpace
      (vmmMapPage smallSpace ⟨fun _ => 0, 0⟩ 0x400000 0x7000 3).2.mem 0x400000 = .ok m ∧
      m.vaddr = 0x400000 ∧ m.paddr = 0x7000 := by
  have hstart : Machine.exec (vmmStep smallSpace) ⟨fun _ => 0, 0⟩ [] = ⟨fun _ => 0, 0⟩ := rfl
  have hiff := vmm_map_query_iff small_init small_storage ⟨rfl, by decide⟩ small_zero small_fresh
    [] 0x400000 0x7000 3
  rw [hstart] at hiff
  exact (hiff (small_map_ok 0x7000 3 (by decide))).mpr (by decide)

/-- **REDIRECTED**: a page is mapped with success to `2^52 + 0x7000` and is
    found at `0x7000`. -/
theorem vmm_map_redirected :
    (vmmMapPage smallSpace ⟨fun _ => 0, 0⟩ 0x400000 0x10000000007000 3).1 = .ok () ∧
    vmmQueryPage smallSpace
        (vmmMapPage smallSpace ⟨fun _ => 0, 0⟩ 0x400000 0x10000000007000 3).2.mem 0x400000
      = .ok ⟨0x400000, 0x7000, 3⟩ := by
  have hok : (vmmMapPage smallSpace ⟨fun _ => 0, 0⟩ 0x400000 0x10000000007000 3).1 = .ok () :=
    small_map_ok 0x10000000007000 3 (by decide)
  have hstart : Machine.exec (vmmStep smallSpace) ⟨fun _ => 0, 0⟩ [] = ⟨fun _ => 0, 0⟩ := rfl
  obtain ⟨hE, -, M, hrun, -⟩ := exec_requested small_init small_storage
    ⟨rfl, by decide⟩ small_zero small_fresh []
  rw [hstart] at hrun
  refine ⟨hok, ?_⟩
  rw [query_mapped hE hrun hok]
  decide

end VmmRoundTrip
