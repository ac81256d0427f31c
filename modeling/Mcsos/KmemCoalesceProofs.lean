import Mcsos.KmemInvariantProofs

/-! # Maximal coalescing

    No two neighbours of a reachable heap are both free.  A tiling of that kind
    is determined by its bounds and its blocks in use, so the block list does
    not depend on the order in which the heap came to hold what it holds.

    The one request that wraps (`KmemWrap`) has to be left out: it wrecks the
    list, and no free brings it back. -/

namespace KmemCoalesce

open Word ByteMemory KmemModel KmemHeader KmemList KmemAlloc KmemFree KmemInit KmemRunModel KmemRun
open KmemWrap KmemInvariant Tiling

variable {s s' : KmemState} {bs bs' : List Block} {b : Block} {c : KmemSys}

/-- The blocks of the live allocations: where their headers are, and the sizes
    those give. -/
def liveBlocks (c : KmemSys) : List (U64 × U64) :=
  c.live.map (fun e => (kmemHeaderFromPayload e.1,
    hdrSize c.heap.mem (kmemHeaderFromPayload e.1)))

/-- The live blocks are those in use. -/
theorem mem_liveBlocks (h : Heap c.heap bs) (howned : Owned c.live bs) {d : Block}
    (hd : d.free = false) : (d.addr, d.size) ∈ liveBlocks c ↔ d ∈ bs := by
  constructor
  · intro hmem
    obtain ⟨e, he, heq⟩ := List.mem_map.mp hmem
    obtain ⟨b, hb, hfree, hptr, -⟩ := howned.block e he
    obtain ⟨prev, next, hf⟩ := h.fields hb
    rw [← hptr, headerFromPayload_payload, hf.size] at heq
    obtain ⟨haddr, hsize⟩ := Prod.mk.inj heq
    -- address and size are all there is to a used block
    have hbd : b = d := by
      cases b
      cases d
      simp_all
    exact hbd ▸ hb
  · intro hmem
    obtain ⟨e, he, hptr⟩ := howned.entry d hmem hd
    obtain ⟨prev, next, hf⟩ := h.fields hmem
    refine List.mem_map.mpr ⟨e, he, ?_⟩
    rw [hptr, headerFromPayload_payload, hf.size]

/-- **UNIQUE LIST**: bounds and blocks in use determine the list. -/
theorem heap_unique (h : Heap s bs) (h' : Heap s' bs') (hbase : s.gHeapBase = s'.gHeapBase)
    (htop : s.gHeapEnd = s'.gHeapEnd) (hlive : ∀ d, d.free = false → (d ∈ bs ↔ d ∈ bs')) :
    bs = bs' := by
  have htiles := h'.layout.tiles
  rw [← hbase, ← htop] at htiles
  refine maximal_unique (by decide) ?_ h.layout.tiles htiles h.maximal h'.maximal hlive
  intro b c haddr hsize hfree
  cases b
  cases c
  simp only [Block.mk.injEq]
  exact ⟨BitVec.eq_of_toNat_eq haddr, BitVec.eq_of_toNat_eq hsize, hfree⟩

/-! ## Freeing everything -/

/-- With nothing in use there is one block. -/
theorem all_free (h : Heap s bs) (hfree : ∀ b ∈ bs, b.free = true) :
    bs = [⟨s.gHeapBase, totalBytes s - HEADER, true⟩] := by
  obtain ⟨b, rest, rfl⟩ := List.exists_cons_of_ne_nil h.nonempty
  have hb : b.free = true := hfree b (List.mem_cons_self ..)
  cases rest with
  | cons c rest =>
      have hc : c.free = true := hfree c (List.mem_cons_of_mem b (List.mem_cons_self ..))
      exact absurd ⟨hb, hc⟩ (List.isChain_cons_cons.mp h.maximal).1
  | nil =>
      have haddr : b.addr.toNat = s.gHeapBase.toNat := h.layout.tiles.1
      have hend : s.gHeapBase.toNat + 48 + b.size.toNat = s.gHeapEnd.toNat := h.layout.tiles.2
      have hsize : b.size = totalBytes s - HEADER := by
        show b.size = s.gHeapEnd - s.gHeapBase - 48
        bv_omega
      rw [← hsize, ← BitVec.eq_of_toNat_eq haddr, ← hb]

/-- With nothing live the arena is one free block. -/
theorem idle_blocks (h : Heap c.heap bs) (howned : Owned c.live bs) (hidle : c.live = []) :
    bs = [⟨c.heap.gHeapBase, totalBytes c.heap - HEADER, true⟩] := by
  refine all_free h (fun b hb => ?_)
  cases hf : b.free with
  | true => rfl
  | false =>
      obtain ⟨e, he, -⟩ := howned.entry b hb hf
      rw [hidle] at he
      exact absurd he List.not_mem_nil

/-! ## Freeing what was just allocated -/

/-- What a request and the free of its pointer do to the block list. -/
def Restores (s : KmemState) (n : U64) : Prop :=
  ∃ p s₁ rc s₂, kmemAlloc s n = some (p, s₁) ∧ kmemFreeChecked s₁ p = some (rc, s₂) ∧
    kmemBlocks s₂ = kmemBlocks s

/-- An allocation that does not wrap, freed at once, leaves the blocks as they were. -/
theorem restores_of_not_wraps (h : Heap c.heap bs) (howned : Owned c.live bs) {n : U64}
    (hno : ¬ Wraps c n) : Restores c.heap n := by
  rcases kmemAlloc_cases h n with ⟨hrun, -⟩ | ⟨pre, b, post, wanted, rfl, hreq, -, hfit, hrun⟩
  · exact ⟨0, c.heap, 0, c.heap, hrun, if_pos rfl, rfl⟩
  · have hb : b ∈ pre ++ b :: post := List.mem_append_right pre (List.mem_cons_self ..)
    have hnowrap : wanted.toNat < 2 ^ 64 - 80 := by
      by_contra hwrap
      exact hno (alloc_wrap h howned hb hreq hfit hwrap).2.2
    obtain ⟨h₁, -⟩ := h.take hreq hfit hnowrap
    have htaken : taken b wanted ∈ pre ++ (placed b wanted ++ post) :=
      (mem_after_take hfit.1 (taken_free b wanted)).mpr (Or.inr rfl)
    have hptr : kmemPayload (taken b wanted).addr = kmemPayload b.addr := by rw [taken_addr]
    rcases kmemFreeChecked_spec h₁ (kmemPayload b.addr) with
      ⟨d, hd, -, hdptr, m', bs', hfree, hfreed⟩ | ⟨hrefused, -⟩
    · refine ⟨_, _, _, _, hrun, hfree, ?_⟩
      obtain rfl : d = taken b wanted := eq_of_payload_eq h₁ hd htaken (hdptr.trans hptr.symm)
      have hnew : taken b wanted ∉ pre ++ b :: post := by
        intro hmem
        have hfree' : (taken b wanted).free = true := by
          rw [eq_of_payload_eq h hmem hb hptr]
          exact hfit.1
        exact Bool.false_ne_true ((taken_free b wanted).symm.trans hfree')
      -- the lists have the same blocks in use, and both are maximal
      have hsame : bs' = pre ++ b :: post := by
        refine heap_unique hfreed.heap h rfl rfl (fun d hd => ?_)
        rw [hfreed.live d hd, mem_after_take hfit.1 hd]
        constructor
        · rintro ⟨hold | heq, hne⟩
          · exact hold
          · exact absurd heq hne
        · intro hold
          exact ⟨Or.inl hold, fun heq => hnew (heq ▸ hold)⟩
      rw [kmemBlocks_eq hfreed.heap, kmemBlocks_eq h, hsame]
    · exact absurd hptr (hrefused _ htaken (taken_free b wanted))

/-- The heap a request wraps in. -/
theorem blocks_of_wraps (h : Heap c.heap bs) (howned : Owned c.live bs) {n : U64}
    (hw : Wraps c n) :
    bs = [⟨16, ALL, true⟩] ∧ c.heap.gHeapBase = 16 ∧ c.heap.gHeapEnd = TOP := by
  have hbs := idle_blocks h howned hw.idle
  have hsize : totalBytes c.heap - HEADER = ALL := by
    rw [hw.whole]
    decide
  have hpos := h.layout.pos
  have hal := h.layout.aligned
  have htop := h.layout.top
  have hTOP := TOP_toNat
  have hwhole : (totalBytes c.heap).toNat = 2 ^ 64 - 32 := by
    rw [hw.whole]
    decide
  rw [totalBytes_toNat h] at hwhole
  have hbase : c.heap.gHeapBase = 16 := BitVec.eq_of_toNat_eq (by show _ = 16; omega)
  refine ⟨?_, hbase, BitVec.eq_of_toNat_eq (by omega)⟩
  rw [hbs, hsize, hbase]

/-- A request that wraps asks for all of the payload that the address space has room for. -/
theorem request_of_wraps {n : U64} (hw : Wraps c n) : Request n ALL := by
  have hlarge := hw.large
  have hfits := hw.fits
  have hALL := ALL_toNat
  refine ⟨by decide, by decide, by omega, BitVec.eq_of_toNat_eq ?_⟩
  have hval := kmemAlignUpSize_cases n
  omega

/-- A walk starts with the block at `g_head`, and reads its flag. -/
theorem kmemBlocks_ne_of_used {size : U64} (hhead : s.gHead = 16) (hused : hdrFree s.mem 16 = 0) :
    kmemBlocks s ≠ some [⟨16, size, true⟩] := by
  intro h
  obtain ⟨rounds, hrounds⟩ : ∃ rounds, ROUNDS = rounds + 1 := ⟨2 ^ 64 - 1, by decide⟩
  rw [kmemBlocks, hrounds, hhead, walkBlocks, if_neg (by decide), hused] at h
  obtain ⟨rest, -, heq⟩ := Option.map_eq_some_iff.mp h
  simp only [List.cons.injEq, Block.mk.injEq] at heq
  exact absurd heq.1.2.2 (by decide)

/-- The request that wraps is served, from the one block there is. -/
theorem kmemAlloc_of_wraps (h : Heap c.heap [⟨16, ALL, true⟩]) (htop : c.heap.gHeapEnd = TOP)
    {n : U64} (hreq : Request n ALL) :
    kmemAlloc c.heap n
      = some (kmemPayload 16, { c.heap with mem := takeBlock TOP c.heap.mem 16 ALL }) := by
  have hfits : Fits ALL ⟨16, ALL, true⟩ := ⟨rfl, BitVec.le_refl ALL⟩
  rcases kmemAlloc_cases h n with ⟨-, hno⟩ | ⟨pre, b, post, wanted, hsplit, hreq', -, -, hrun⟩
  · exact absurd hfits (hno ALL hreq _ (List.mem_singleton_self _))
  · have hb : b = ⟨16, ALL, true⟩ :=
      List.mem_singleton.mp (hsplit ▸ List.mem_append_right pre (List.mem_cons_self ..))
    obtain rfl : wanted = ALL := hreq'.eq.trans hreq.eq.symm
    have hmem : takeBlock c.heap.gHeapEnd c.heap.mem b.addr ALL
        = takeBlock TOP c.heap.mem 16 ALL := by rw [hb, htop]
    rw [hmem, hb] at hrun
    exact hrun

/-- The block of the wreck is marked in use, and nothing changes that. -/
theorem not_restores_of_wraps (h : Heap c.heap bs) (howned : Owned c.live bs) {n : U64}
    (hw : Wraps c n) : ¬ Restores c.heap n := by
  obtain ⟨rfl, hbase, htop⟩ := blocks_of_wraps h howned hw
  rintro ⟨p, s₁, rc, s₂, halloc, hfree, hback⟩
  rw [kmemAlloc_of_wraps h htop (request_of_wraps hw)] at halloc
  obtain ⟨-, rfl⟩ := Prod.mk.inj (Option.some.inj halloc)
  have hwrecked := wrecked_takeBlock h hbase htop
  obtain ⟨rc', hfree'⟩ := kmemFreeChecked_wrecked hwrecked p
  obtain ⟨-, rfl⟩ := Prod.mk.inj (Option.some.inj (hfree'.symm.trans hfree))
  have hf := header_fields h.linked.1
  obtain ⟨-, -, hused, -, -⟩ := fields_of_readHeader (readHeader_wrap hf.size hf.prev hf.next)
  exact kmemBlocks_ne_of_used (s := { c.heap with mem := takeBlock TOP c.heap.mem 16 ALL })
    hwrecked.head hused (hback.trans (kmemBlocks_eq h))

/-! ## The theorem -/

/-- **MAXIMAL COALESCING**: in every run without a call that wraps, no two
    neighbours are both free; the bounds and the live blocks determine the block
    list; freeing what was just allocated restores it, exactly if that request
    does not wrap; and once nothing is live there is one free block. -/
theorem kmem_maximal_coalescing {base bytes : U64} {c : KmemSys}
    (h : Run (fun c call => ¬ CallWraps c call) base bytes c) :
    (∃ bs, kmemBlocks c.heap = some bs ∧ Maximal Block.free bs) ∧
    (∀ base' bytes' c', Run (fun c call => ¬ CallWraps c call) base' bytes' c' →
      c'.heap.gHeapBase = c.heap.gHeapBase → c'.heap.gHeapEnd = c.heap.gHeapEnd →
      (∀ x, x ∈ liveBlocks c' ↔ x ∈ liveBlocks c) → kmemBlocks c'.heap = kmemBlocks c.heap) ∧
    (∀ n, Restores c.heap n ↔ ¬ Wraps c n) ∧
    (c.live = [] → kmemBlocks c.heap
      = some [⟨c.heap.gHeapBase, totalBytes c.heap - HEADER, true⟩]) := by
  obtain ⟨bs, hheap, howned⟩ := run_inOrder h
  refine ⟨⟨bs, kmemBlocks_eq hheap, hheap.maximal⟩, ?_, ?_, ?_⟩
  · intro base' bytes' c' h' hbase htop hlive
    obtain ⟨bs', hheap', howned'⟩ := run_inOrder h'
    have heq : bs' = bs := heap_unique hheap' hheap hbase htop (fun d hd => by
      rw [← mem_liveBlocks hheap' howned' hd, hlive, mem_liveBlocks hheap howned hd])
    rw [kmemBlocks_eq hheap', kmemBlocks_eq hheap, heq]
  · intro n
    exact ⟨fun hrestores hw => not_restores_of_wraps hheap howned hw hrestores,
      restores_of_not_wraps hheap howned⟩
  · intro hidle
    rw [kmemBlocks_eq hheap]
    exact congrArg some (idle_blocks hheap howned hidle)

/-- A page: what it held before does not matter, and its fresh list comes back
    after an allocation of 32 bytes. -/
theorem kmem_maximal_coalescing_page :
    kmemBlocks smallStart.heap = some [⟨4096, 4048, true⟩] ∧
    kmemBlocks (kmemInit (constState 1) 4096 4096).2 = some [⟨4096, 4048, true⟩] ∧
    ∃ p s₁ rc s₂, kmemAlloc smallStart.heap 32 = some (p, s₁) ∧
      kmemFreeChecked s₁ p = some (rc, s₂) ∧
      kmemBlocks s₂ = some [⟨4096, 4048, true⟩] := by
  obtain ⟨-, hsame, hfree, hnone⟩ := kmem_maximal_coalescing (fresh_run 0 (by decide) (by decide))
  have hone : kmemBlocks smallStart.heap = some [⟨4096, 4048, true⟩] := hnone rfl
  have hlive : ∀ x, x ∈ liveBlocks ⟨(kmemInit (constState 1) 4096 4096).2, []⟩ ↔
      x ∈ liveBlocks smallStart := fun x => by simp [liveBlocks, smallStart]
  obtain ⟨p, s₁, rc, s₂, halloc, hrun, hback⟩ := (hfree 32).mpr (fun hw => by
    exact absurd hw.large (by decide))
  exact ⟨hone, (hsame 4096 4096 _ (fresh_run 1 (by decide) (by decide)) (by decide) (by decide)
    hlive).trans hone, p, s₁, rc, s₂, halloc, hrun, hback.trans hone⟩

/-! ## The heap that fills the address space -/

/-- Fresh, from address 16 on. -/
def wrapStart : KmemSys := ⟨(kmemInit (constState 0) 16 0xffffffffffffffe0).2, []⟩

/-- Any run may start with it. -/
theorem run_wrapStart {ok : KmemSys → KmemCall → Prop} : Run ok 16 0xffffffffffffffe0 wrapStart :=
  .init (show kmemInit (constState 0) 16 0xffffffffffffffe0 = (0, _) from
    Prod.ext (by decide) rfl) (noStray_const (by decide) _ _)

/-- **NOT RESTORED**: the pointer that a request for the whole block returns is
    refused when it is freed, and the one free block does not come back. -/
theorem kmem_coalescing_wrap :
    Reachable 16 0xffffffffffffffe0 wrapStart ∧
    kmemBlocks wrapStart.heap = some [⟨16, ALL, true⟩] ∧
    (kmemAlloc wrapStart.heap ALL).map Prod.fst = some 64 ∧
    (kmemFreeChecked (afterAlloc wrapStart ALL).heap 64).map (fun r => (r.1, kmemBlocks r.2))
      = some (-3, some [⟨16, ALL, false⟩, ⟨TOP, 0 - HEADER, true⟩, ⟨ALL, 0, false⟩]) := by
  refine ⟨run_wrapStart, ?_, ?_, ?_⟩
  · decide +kernel
  · decide +kernel
  · decide +kernel

end KmemCoalesce
