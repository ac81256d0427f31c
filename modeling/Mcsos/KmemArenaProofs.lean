import Mcsos.KmemRunProofs

/-! # Initialisation, all or nothing

    `kmem_init` checks its arguments, sets up the heap, and returns what
    `kmem_validate` says of it.  A heap that ends below the top of the address
    space passes that check, and lies in the arena it was given.  If the arena
    reaches the top, then `g_heap_end` wraps and the check fails, but by then
    the globals and the header have been written. -/

namespace KmemArena

open Word ByteMemory KmemModel KmemHeader KmemList KmemInit KmemRun

variable {s s' : KmemState} {base bytes : U64}

/-- One free block fills the heap, which is aligned and lies in the arena. -/
structure FreshIn (base bytes : U64) (s : KmemState) : Prop where
  base_aligned : Aligned s.gHeapBase
  end_aligned : Aligned s.gHeapEnd
  above : base.toNat ≤ s.gHeapBase.toNat
  ordered : s.gHeapBase.toNat < s.gHeapEnd.toNat
  below : s.gHeapEnd.toNat ≤ base.toNat + bytes.toNat
  initialized : s.gInitialized = true
  oneBlock : ∃ b : Block, kmemBlocks s = some [b] ∧ b.free = true ∧ b.addr = s.gHeapBase ∧
    b.addr.toNat + 48 + b.size.toNat = s.gHeapEnd.toNat

/-- All or nothing, for one call. -/
def AllOrNothing (s : KmemState) (base bytes : U64) : Prop :=
  ((kmemInit s base bytes).1 = 0 → FreshIn base bytes (kmemInit s base bytes).2) ∧
  ((kmemInit s base bytes).1 ≠ 0 → (kmemInit s base bytes).2 = s)

/-- An arena that passes the checks of the arguments and reaches the top of the
    address space. -/
structure ReachesTop (base bytes : U64) : Prop where
  admitted : Admitted base bytes
  top : 2 ^ 64 ≤ base.toNat + bytes.toNat

/-- What `kmem_init` leaves is one free block over the whole arena. -/
theorem freshIn_initialHeap {m : Mem} {start usable : U64}
    (hu : Usable base bytes start usable) : FreshIn base bytes (initialHeap m start usable) := by
  have hL := layout_initialHeap hu
  have hroom := hL.room (List.mem_singleton_self _)
  have h1 : start.toNat % 16 = 0 := hu.start_aligned
  have h2 : usable.toNat % 16 = 0 := hu.usable_aligned
  have hlarge := hu.large
  have hwrap := hu.no_wrap
  -- the arena does not wrap
  have hend : (start + usable).toNat = start.toNat + usable.toNat := by bv_omega
  refine ⟨h1, show (start + usable).toNat % 16 = 0 by omega, hu.above, ?_, ?_, rfl,
    ⟨start, usable - HEADER, true⟩, ?_, rfl, rfl, ?_⟩
  · show start.toNat < (start + usable).toNat
    omega
  · show (start + usable).toNat ≤ base.toNat + bytes.toNat
    rw [hend]
    exact hu.below
  · exact walkBlocks_eq ROUNDS hL (seg_initialHeap hroom) hL.length_lt
  · exact hL.tiles.2

/-- **ALL OR NOTHING**: a call of `kmem_init` sets up a heap inside the arena or
    changes nothing, exactly if the arena is none that reaches the top of the
    address space, or the state was the one such a call leaves already. -/
theorem kmem_init_all_or_nothing_iff (s : KmemState) (base bytes : U64) :
    AllOrNothing s base bytes ↔
      ¬ (ReachesTop base bytes ∧
        s ≠ initialHeap s.mem (arenaStart base) (arenaUsable base bytes)) := by
  rw [AllOrNothing]
  rcases kmemInit_cases s base bytes with ⟨hno, rc, hrc, hrun⟩ | ⟨hadm, hrun⟩
  · rw [hrun]
    exact iff_of_true ⟨fun h => absurd h hrc, fun _ => rfl⟩ (fun h => hno h.1.admitted)
  · rw [hrun]
    by_cases htop : base.toNat + bytes.toNat < 2 ^ 64
    · have hu := hadm.usable htop
      rw [kmemValidate_initialHeap hu]
      refine iff_of_true ⟨fun _ => freshIn_initialHeap hu, fun h => absurd rfl h⟩ (fun h => ?_)
      exact absurd h.1.top (Nat.not_le.mpr htop)
    · have htop' := Nat.le_of_not_lt htop
      rw [kmemValidate_wrapped (hadm.end_wraps htop')]
      have hcode : (-1 : Int) ≠ 0 := by decide
      -- the check fails, so that nothing may have changed
      constructor
      · rintro ⟨-, hsame⟩ ⟨-, hne⟩
        exact hne (hsame hcode).symm
      · intro h
        refine ⟨fun hzero => absurd hzero hcode, fun _ => ?_⟩
        by_contra hne
        exact h ⟨⟨hadm, htop'⟩, fun heq => hne heq.symm⟩

/-- **HALF DONE**: the last page of the address space is refused, and the
    allocator is initialised with a heap that ends at address 0. -/
theorem kmem_init_half_done :
    (kmemInit (constState 0) 0xfffffffffffff000 4096).1 = -1 ∧
    (kmemInit (constState 0) 0xfffffffffffff000 4096).2.gInitialized = true ∧
    (kmemInit (constState 0) 0xfffffffffffff000 4096).2.gHeapBase = 0xfffffffffffff000 ∧
    (kmemInit (constState 0) 0xfffffffffffff000 4096).2.gHeapEnd = 0 ∧
    hdrMagic (kmemInit (constState 0) 0xfffffffffffff000 4096).2.mem 0xfffffffffffff000
      = KMEM_MAGIC ∧
    ¬ AllOrNothing (constState 0) 0xfffffffffffff000 4096 := by
  have hcode : (kmemInit (constState 0) 0xfffffffffffff000 4096).1 = -1 := by decide +kernel
  have hinit : (kmemInit (constState 0) 0xfffffffffffff000 4096).2.gInitialized = true := by
    decide +kernel
  refine ⟨hcode, hinit, by decide +kernel, by decide +kernel, by decide +kernel, fun h => ?_⟩
  have hsame := h.2 (by rw [hcode]; decide)
  rw [hsame] at hinit
  exact absurd hinit (by decide)

end KmemArena
