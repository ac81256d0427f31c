import Mcsos.KmemRunProofs

/-! # The block list of a reachable heap

    What safety means for the list that is reached from `g_head`: the blocks
    tile the heap, their headers are in order, and `kmem_validate` finds nothing
    to complain about.  The arena is bounded because the guard of
    `kmem_validate` is: a list of more than 2^20 blocks would not be accepted,
    and every block takes 64 bytes or more. -/

namespace KmemInvariant

open Word ByteMemory KmemModel KmemHeader KmemList KmemAlloc KmemInit KmemRunModel KmemRun Tiling

variable {s : KmemState} {bs : List Block} {b : Block}

/-! ## Links -/

/-- The block behind points back. -/
theorem next_inverse (h : Heap s bs) (hb : b ∈ bs) (hne : hdrNext s.mem b.addr ≠ 0) :
    ∃ c ∈ bs, c.addr = hdrNext s.mem b.addr ∧ hdrPrev s.mem c.addr = b.addr := by
  obtain ⟨pre, post, rfl⟩ := List.append_of_mem hb
  obtain ⟨-, hseg⟩ := seg_append.mp h.linked
  have hnext := (header_fields hseg.1).next
  cases post with
  | nil => exact absurd hnext hne
  | cons c post =>
      have hc : c ∈ pre ++ b :: c :: post := by simp
      exact ⟨c, hc, hnext.symm, (header_fields hseg.2.1).prev⟩

/-- The block before points forward. -/
theorem prev_inverse (h : Heap s bs) (hb : b ∈ bs) (hne : hdrPrev s.mem b.addr ≠ 0) :
    ∃ c ∈ bs, c.addr = hdrPrev s.mem b.addr ∧ hdrNext s.mem c.addr = b.addr := by
  obtain ⟨pre, post, rfl⟩ := List.append_of_mem hb
  obtain ⟨-, hseg⟩ := seg_append.mp h.linked
  have hprev := (header_fields hseg.1).prev
  rcases List.eq_nil_or_concat' pre with rfl | ⟨pre', q, rfl⟩
  · exact absurd hprev hne
  · rw [lastAddr_concat] at hprev
    have hq : q ∈ pre' ++ [q] ++ b :: post := by simp
    have hlinked : Seg s.mem 0 (pre' ++ (q :: b :: post)) 0 := by simpa using h.linked
    obtain ⟨-, hsegq⟩ := seg_append.mp hlinked
    exact ⟨q, hq, hprev.symm, (header_fields hsegq.1).next⟩

/-! ## Sizes -/

/-- The bytes between the bounds. -/
theorem totalBytes_toNat (h : Heap s bs) :
    (totalBytes s).toNat = s.gHeapEnd.toNat - s.gHeapBase.toNat := by
  have hle := tiles_le h.layout.tiles
  rw [totalBytes]
  bv_omega

/-- Headers and payloads together are the arena. -/
theorem sum_eq_totalBytes (h : Heap s bs) :
    (bs.map (fun b => 48 + b.size.toNat)).sum = (totalBytes s).toNat := by
  have hsum := tiles_sum h.layout.tiles
  rw [totalBytes_toNat h]
  omega

/-- Each block takes at least 64 bytes. -/
theorem length_le (h : Heap s bs) : 64 * bs.length ≤ (totalBytes s).toNat := by
  rw [totalBytes_toNat h]
  refine tiles_length h.layout.tiles (fun b hb => ?_)
  have := h.layout.sizes b hb
  omega

/-- A list of blocks of 64 bytes or more in 2^26 bytes is no longer than the
    guard of `kmem_validate` allows. -/
theorem kmemValidate_small (h : Heap s bs) (htotal : (totalBytes s).toNat ≤ 64 * 2 ^ 20) :
    kmemValidate s = 0 := by
  have hlen := length_le h
  exact kmemValidate_eq h (by omega)

/-! ## The invariant -/

/-- **HEAP INVARIANT OVER RUNS**: after any run on an arena of at most 64 MiB,
    every call returns, and the blocks reached from `g_head` tile the heap with
    headers that are aligned, linked both ways, marked with the magic number and
    accepted by `kmem_validate`. -/
theorem kmem_reachable_invariant {base bytes : U64} {c : KmemSys}
    (harena : bytes.toNat ≤ 64 * 2 ^ 20) (h : Reachable base bytes c) :
    ∃ bs, kmemBlocks c.heap = some bs ∧
      BlockTiles c.heap.gHeapBase.toNat c.heap.gHeapEnd.toNat bs ∧
      (∀ b ∈ bs, Aligned b.addr ∧ Aligned (kmemPayload b.addr) ∧ b.size.toNat % 16 = 0) ∧
      (∀ b ∈ bs,
        (hdrNext c.heap.mem b.addr ≠ 0 → ∃ d ∈ bs, d.addr = hdrNext c.heap.mem b.addr ∧
          hdrPrev c.heap.mem d.addr = b.addr) ∧
        (hdrPrev c.heap.mem b.addr ≠ 0 → ∃ d ∈ bs, d.addr = hdrPrev c.heap.mem b.addr ∧
          hdrNext c.heap.mem d.addr = b.addr)) ∧
      (∀ b ∈ bs, hdrMagic c.heap.mem b.addr = KMEM_MAGIC) ∧
      (bs.map (fun b => 48 + b.size.toNat)).sum = (totalBytes c.heap).toNat ∧
      kmemValidate c.heap = 0 ∧
      (∀ n, (kmemAlloc c.heap n).isSome) ∧
      (∀ count n, (kmemCalloc c.heap count n).isSome) ∧
      ∀ ptr, (kmemFreeChecked c.heap ptr).isSome := by
  have hsafe := reachable_safe h
  have htotal := reachable_total h
  -- no call of the run can have wrapped in an arena of this size
  obtain ⟨bs, hheap, -⟩ := hsafe.heap (by omega)
  refine ⟨bs, kmemBlocks_eq hheap, hheap.layout.tiles, ?_, ?_, ?_, sum_eq_totalBytes hheap, ?_, ?_,
    ?_, ?_⟩
  · intro b hb
    have hal : b.addr.toNat % 16 = 0 := hheap.layout.addr_aligned hb
    have hpay := payload_toNat hheap hb
    exact ⟨hal, show _ % 16 = 0 by omega, (hheap.layout.sizes b hb).1⟩
  · exact fun b hb => ⟨next_inverse hheap hb, prev_inverse hheap hb⟩
  · intro b hb
    obtain ⟨prev, next, hf⟩ := hheap.fields hb
    exact hf.magic
  · exact kmemValidate_small hheap (by omega)
  · intro n
    obtain ⟨p, s', hrun, -⟩ := safe_alloc hsafe n (fun _ => trivial)
    rw [hrun]
    rfl
  · intro count n
    obtain ⟨p, s', hrun, -⟩ := safe_calloc hsafe count n (fun _ _ => trivial)
    rw [hrun]
    rfl
  · intro ptr
    obtain ⟨rc, s', hrun, -⟩ := safe_free hsafe ptr
    rw [hrun]
    rfl

/-- A page with one allocation of 32 bytes. -/
theorem kmem_reachable_invariant_page :
    ∃ bs, kmemBlocks (afterAlloc smallStart 32).heap = some bs ∧
      (bs.map (fun b => 48 + b.size.toNat)).sum
        = (totalBytes (afterAlloc smallStart 32).heap).toNat ∧
      kmemValidate (afterAlloc smallStart 32).heap = 0 := by
  obtain ⟨bs, hblocks, -, -, -, -, hsum, hvalid, -⟩ :=
    kmem_reachable_invariant (show (4096 : U64).toNat ≤ 64 * 2 ^ 20 by decide)
      (reachable_afterAlloc reachable_smallStart 32)
  exact ⟨bs, hblocks, hsum, hvalid⟩

end KmemInvariant
