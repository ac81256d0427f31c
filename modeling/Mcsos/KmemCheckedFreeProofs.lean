import Mcsos.KmemInvariantProofs

/-! # Which pointers can be freed

    `kmem_free_checked` finds a header by subtracting its size from whatever
    pointer it is given.  What stands there is a header exactly if its magic
    number does, since a merge clears the one it takes in and nothing else puts
    one at an aligned address.  So the pointers that are freed are the payloads
    of the blocks in use, and every other one is refused before anything is
    written. -/

namespace KmemCheckedFree

open Word KmemModel KmemHeader KmemList KmemAlloc KmemFree KmemInit KmemRunModel KmemRun
open KmemInvariant

variable {bs bs' : List Block} {c : KmemSys} {ptr : U64}

/-- `ptr` is the payload of a block in use. -/
def Allocated (bs : List Block) (ptr : U64) : Prop :=
  ∃ b ∈ bs, b.free = false ∧ kmemPayload b.addr = ptr

/-- The blocks in use are the live allocations. -/
theorem allocated_iff (howned : Owned c.live bs) :
    Allocated bs ptr ↔ ptr ∈ c.live.map Prod.fst := by
  rw [List.mem_map]
  constructor
  · rintro ⟨b, hb, hfree, rfl⟩
    exact howned.entry b hb hfree
  · rintro ⟨e, he, rfl⟩
    obtain ⟨b, hb, hfree, hptr, -⟩ := howned.block e he
    exact ⟨b, hb, hfree, hptr⟩

/-- **CHECKED FREE**: after any run on an arena of at most 64 MiB, a pointer is
    freed exactly if it is null or the payload of a block in use; then that block
    and no other is no longer in use, and for every other pointer the answer is
    negative and nothing changes. -/
theorem kmem_free_checked_exact {base bytes : U64} {c : KmemSys}
    (harena : bytes.toNat ≤ 64 * 2 ^ 20) (h : Reachable base bytes c) (ptr : U64) :
    ∃ rc s' bs bs', kmemFreeChecked c.heap ptr = some (rc, s') ∧
      kmemBlocks c.heap = some bs ∧ kmemBlocks s' = some bs' ∧
      (Allocated bs ptr ↔ ptr ∈ c.live.map Prod.fst) ∧
      (rc = 0 ↔ ptr = 0 ∨ Allocated bs ptr) ∧
      (∀ b ∈ bs, b.free = false → kmemPayload b.addr = ptr →
        ∀ d : Block, d.free = false → (d ∈ bs' ↔ d ∈ bs ∧ d ≠ b)) ∧
      (¬ (ptr = 0 ∨ Allocated bs ptr) → rc < 0) ∧
      (¬ Allocated bs ptr → s' = c.heap) := by
  have hsafe := reachable_safe h
  have htotal := reachable_total h
  obtain ⟨bs, hheap, howned⟩ := hsafe.heap (by omega)
  rcases kmemFreeChecked_spec hheap ptr with
    ⟨b, hb, hfree, hptr, m', bs', hrun, hfreed⟩ | ⟨hno, rc, hle, hzero, hrun⟩
  · have halloc : Allocated bs ptr := ⟨b, hb, hfree, hptr⟩
    -- an arena of this size has few enough blocks for the check behind the free
    have hvalid := kmemValidate_small hfreed.heap (show (totalBytes c.heap).toNat ≤ _ by omega)
    refine ⟨_, _, bs, bs', hrun, kmemBlocks_eq hheap, kmemBlocks_eq hfreed.heap,
      allocated_iff howned, iff_of_true hvalid (Or.inr halloc), ?_,
      fun h => absurd (Or.inr halloc) h, fun h => absurd halloc h⟩
    intro d hd _ hdptr
    obtain rfl := eq_of_payload_eq hheap hd hb (hdptr.trans hptr.symm)
    exact hfreed.live
  · have hnot : ¬ Allocated bs ptr := fun ⟨b, hb, hfree, hptr⟩ => hno b hb hfree hptr
    refine ⟨rc, c.heap, bs, bs, hrun, kmemBlocks_eq hheap, kmemBlocks_eq hheap,
      allocated_iff howned, ?_, fun b hb hfree hptr => absurd hptr (hno b hb hfree), ?_,
      fun _ => rfl⟩
    · rw [hzero, or_iff_left hnot]
    · intro h
      have hne : rc ≠ 0 := fun hrc => h (Or.inl (hzero.mp hrc))
      omega

/-- A page with one allocation: its pointer is freed, the one behind it is not. -/
theorem kmem_free_checked_exact_page :
    (∃ s', kmemFreeChecked (afterAlloc smallStart 32).heap 4144 = some (0, s')) ∧
    ∃ rc, rc < 0 ∧ kmemFreeChecked (afterAlloc smallStart 32).heap 4160
      = some (rc, (afterAlloc smallStart 32).heap) := by
  have hreach := reachable_afterAlloc reachable_smallStart 32
  have harena : (4096 : U64).toNat ≤ 64 * 2 ^ 20 := by decide
  have hlive : (afterAlloc smallStart 32).live.map Prod.fst = [4144] := by decide +kernel
  refine ⟨?_, ?_⟩
  · obtain ⟨rc, s', bs, bs', hrun, -, -, hiff, hzero, -⟩ :=
      kmem_free_checked_exact harena hreach 4144
    rw [hlive] at hiff
    have hrc : rc = 0 := hzero.mpr (Or.inr (hiff.mpr (by decide)))
    exact ⟨s', by rw [hrun, hrc]⟩
  · obtain ⟨rc, s', bs, bs', hrun, -, -, hiff, -, -, hneg, hsame⟩ :=
      kmem_free_checked_exact harena hreach 4160
    rw [hlive] at hiff
    have hno : ¬ Allocated bs 4160 := fun ha => absurd (hiff.mp ha) (by decide)
    refine ⟨rc, hneg (fun h => ?_), by rw [hrun, hsame hno]⟩
    rcases h with h | h
    · exact absurd h (by decide)
    · exact hno h

end KmemCheckedFree
