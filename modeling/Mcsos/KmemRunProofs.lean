import Mcsos.KmemWrapProofs

/-! # The heap invariant over whole runs

    A state is `Safe` if its heap is in order and the live allocations are the
    blocks in use, or if it is the wreck of the one request that wraps.  Every
    step keeps a state safe, and the calls do not touch the bytes of live
    allocations.

    `kmem_calloc` is `kmem_alloc` followed by a store of its caller to the
    payload it was given, so that its case follows from two others. -/

namespace KmemRun

open Word ByteMemory KmemModel KmemHeader KmemList KmemAlloc KmemFree KmemInit KmemRunModel KmemWrap
open Tiling

variable {s : KmemState} {bs bs' : List Block} {b : Block} {live : List (U64 × U64)}
variable {e : U64 × U64} {w : Prop} {c : KmemSys}

/-- The live allocations are the blocks in use. -/
structure Owned (live : List (U64 × U64)) (bs : List Block) : Prop where
  block : ∀ e ∈ live, ∃ b ∈ bs, b.free = false ∧ kmemPayload b.addr = e.1 ∧
    e.2.toNat ≤ b.size.toNat
  entry : ∀ b ∈ bs, b.free = false → ∃ e ∈ live, e.1 = kmemPayload b.addr

/-- **SAFETY** of a heap and its clients; `w` says whether the request that
    wraps may have been made. -/
structure Safe (w : Prop) (c : KmemSys) : Prop where
  nodup : (c.live.map Prod.fst).Nodup
  state : (∃ bs, Heap c.heap bs ∧ Owned c.live bs) ∨
    (w ∧ Wrecked c.heap ∧ ∀ e ∈ c.live, e.1 = 64 ∧ e.2.toNat ≤ ALL.toNat)

/-! ## Live allocations -/

/-- The payload is 48 bytes behind its block's address. -/
theorem payload_toNat (h : Heap s bs) (hb : b ∈ bs) :
    (kmemPayload b.addr).toNat = b.addr.toNat + 48 := by
  have hmem := h.layout.mem hb
  have htop := h.layout.top
  show (b.addr + 48).toNat = _
  bv_omega

/-- Two blocks with the same payload are the same. -/
theorem eq_of_payload_eq (h : Heap s bs) {d : Block} (hb : b ∈ bs) (hd : d ∈ bs)
    (heq : kmemPayload b.addr = kmemPayload d.addr) : b = d := by
  have h1 := payload_toNat h hb
  have h2 := payload_toNat h hd
  rw [heq] at h1
  rcases tiles_apart h.layout.tiles hb hd with heq' | hlt | hlt <;> [exact heq'; omega; omega]

/-- The bytes of a payload, counted from its pointer. -/
theorem inRange_payload (h : Heap s bs) (hb : b ∈ bs) {n : Nat} (hn : n ≤ b.size.toNat) {x : U64}
    (hx : InRange (kmemPayload b.addr) n x) : InPayload b x := by
  have hpay := payload_toNat h hb
  have hmem := h.layout.mem hb
  have htop := h.layout.top
  have hx' := (inRange_iff (by omega) x).mp hx
  exact ⟨by omega, by omega⟩

/-- The bytes of an allocation lie in the payload of its block. -/
theorem inBytes_payload (h : Heap s bs) (hb : b ∈ bs) (hptr : kmemPayload b.addr = e.1)
    (hle : e.2.toNat ≤ b.size.toNat) {x : U64} (hx : InBytes e x) : InPayload b x := by
  rw [InBytes, ← hptr] at hx
  exact inRange_payload h hb hle hx

/-- Where a live allocation is, and that its header gives it room enough. -/
structure Placed (s : KmemState) (e : U64 × U64) : Prop where
  aligned : Aligned e.1
  above : s.gHeapBase.toNat + 48 ≤ e.1.toNat
  below : e.1.toNat + e.2.toNat ≤ s.gHeapEnd.toNat
  top : s.gHeapEnd.toNat ≤ 2 ^ 64 - 16
  room : e.2.toNat ≤ (hdrSize s.mem (kmemHeaderFromPayload e.1)).toNat

/-- A live allocation is aligned, inside the arena and no longer than its block's payload. -/
theorem Safe.placed (h : Safe w c) (he : e ∈ c.live) : Placed c.heap e := by
  rcases h.state with ⟨bs, hheap, howned⟩ | ⟨hmay, hw, hlive⟩
  · obtain ⟨b, hb, -, hptr, hle⟩ := howned.block e he
    obtain ⟨prev, next, hf⟩ := hheap.fields hb
    have hpay := payload_toNat hheap hb
    have hmem := hheap.layout.mem hb
    have hal : b.addr.toNat % 16 = 0 := hheap.layout.addr_aligned hb
    rw [hptr] at hpay
    refine ⟨show e.1.toNat % 16 = 0 by omega, by omega, by omega, hheap.layout.top, ?_⟩
    rw [← hptr, headerFromPayload_payload, hf.size]
    exact hle
  · obtain ⟨hptr, hle⟩ := hlive e he
    have hTOP := TOP_toNat
    have hALL := ALL_toNat
    have h64 : (64 : U64).toNat = 64 := rfl
    have h16 : (16 : U64).toNat = 16 := rfl
    have hhdr : kmemHeaderFromPayload 64 = 16 := by decide
    refine ⟨?_, ?_, ?_, ?_, ?_⟩
    · rw [hptr]
      decide
    · rw [hptr, hw.base]
      decide
    · rw [hptr, hw.top]
      omega
    · rw [hw.top]
      omega
    · rw [hptr, hhdr, hw.size]
      exact hle

/-- **DISJOINT**: live allocations have no byte in common. -/
theorem Safe.disjoint (h : Safe w c) {e' : U64 × U64} (he : e ∈ c.live)
    (he' : e' ∈ c.live) (hne : e.1 ≠ e'.1) {x : U64} (hx : InBytes e x) : ¬ InBytes e' x := by
  intro hx'
  rcases h.state with ⟨bs, hheap, howned⟩ | ⟨hmay, hw, hlive⟩
  · obtain ⟨b, hb, -, hptr, hle⟩ := howned.block e he
    obtain ⟨b', hb', -, hptr', hle'⟩ := howned.block e' he'
    have heq := eq_of_inPayload hheap.layout hb hb' (inBytes_payload hheap hb hptr hle hx)
      (inBytes_payload hheap hb' hptr' hle' hx')
    exact hne (by rw [← hptr, ← hptr', heq])
  · exact hne ((hlive e he).1.trans (hlive e' he').1.symm)

/-- What a call leaves as it was. -/
structure Keeps (c : KmemSys) (s' : KmemState) : Prop where
  base : s'.gHeapBase = c.heap.gHeapBase
  top : s'.gHeapEnd = c.heap.gHeapEnd
  bytes : ∀ e ∈ c.live, ∀ x, InBytes e x → s'.mem x = c.heap.mem x

theorem Keeps.refl (c : KmemSys) : Keeps c c.heap := ⟨rfl, rfl, fun _ _ _ _ => rfl⟩

/-! ## `kmem_alloc` -/

/-- The blocks in use after a block was taken. -/
theorem mem_after_take {pre post : List Block} (hb : b.free = true) {wanted : U64} {d : Block}
    (hd : d.free = false) :
    d ∈ pre ++ (placed b wanted ++ post) ↔ d ∈ pre ++ b :: post ∨ d = taken b wanted := by
  have hne : d ≠ b := by
    rintro rfl
    exact Bool.false_ne_true (hd.symm.trans hb)
  rw [List.mem_append, List.mem_append, List.mem_append, mem_placed hd, List.mem_cons,
      or_iff_right hne]
  tauto

/-- The taken block belongs to the new allocation, the others to the old ones. -/
theorem owned_take {pre post : List Block} {n wanted : U64} (howned : Owned live (pre ++ b :: post))
    (hreq : Request n wanted) (hfit : Fits wanted b) :
    Owned ((kmemPayload b.addr, n) :: live) (pre ++ (placed b wanted ++ post)) := by
  have htaken : taken b wanted ∈ pre ++ (placed b wanted ++ post) :=
    (mem_after_take hfit.1 (taken_free b wanted)).mpr (Or.inr rfl)
  refine ⟨?_, ?_⟩
  · intro e he
    rcases List.mem_cons.mp he with rfl | hmem
    · refine ⟨taken b wanted, htaken, taken_free b wanted, ?_, ?_⟩
      · rw [taken_addr]
      · have hle : wanted.toNat ≤ (taken b wanted).size.toNat := le_taken_size hfit.2
        exact Nat.le_trans hreq.le hle
    · obtain ⟨d, hd, hfree, hptr, hle⟩ := howned.block e hmem
      exact ⟨d, (mem_after_take hfit.1 hfree).mpr (Or.inl hd), hfree, hptr, hle⟩
  · intro d hd hfree
    rcases (mem_after_take hfit.1 hfree).mp hd with hold | rfl
    · obtain ⟨e, he, hptr⟩ := howned.entry d hold hfree
      exact ⟨e, List.mem_cons_of_mem _ he, hptr⟩
    · exact ⟨_, List.mem_cons_self .., by rw [taken_addr]⟩

/-- The pointer to a free block is not live. -/
theorem payload_not_live (h : Heap s bs) (howned : Owned live bs) (hb : b ∈ bs)
    (hfree : b.free = true) : kmemPayload b.addr ∉ live.map Prod.fst := by
  intro hmem
  obtain ⟨e, he, hptr⟩ := List.mem_map.mp hmem
  obtain ⟨d, hd, hdfree, hdptr, -⟩ := howned.block e he
  obtain rfl := eq_of_payload_eq h hd hb (hdptr.trans hptr)
  exact Bool.false_ne_true (hdfree.symm.trans hfree)

/-- The request that wraps wrecks a heap in which nothing was live. -/
theorem alloc_wrap {n wanted : U64} (h : Heap c.heap bs) (howned : Owned c.live bs) (hb : b ∈ bs)
    (hreq : Request n wanted) (hfit : Fits wanted b) (hwrap : ¬ wanted.toNat < 2 ^ 64 - 80) :
    Wrecked { c.heap with mem := takeBlock c.heap.gHeapEnd c.heap.mem b.addr wanted } ∧
    kmemPayload b.addr = 64 ∧ Wraps c n := by
  -- only the one block over the whole address space is large enough
  obtain ⟨rfl, hbeq, hbase, htop, rfl⟩ := block_eq_of_wrap h hb hfit hwrap
  have haddr : b.addr = 16 := by rw [hbeq]
  have hALL := ALL_toNat
  refine ⟨?_, ?_, ?_, ?_, ?_, ?_⟩
  · have hmem : takeBlock c.heap.gHeapEnd c.heap.mem b.addr ALL
        = takeBlock TOP c.heap.mem 16 ALL := by rw [haddr, htop]
    rw [hmem]
    exact wrecked_takeBlock h hbase htop
  · rw [haddr]
    decide
  · rw [totalBytes, hbase, htop]
    decide
  · refine List.eq_nil_iff_forall_not_mem.mpr (fun e he => ?_)
    obtain ⟨d, hd, hfree, -, -⟩ := howned.block e he
    rw [List.mem_singleton.mp hd] at hfree
    exact Bool.false_ne_true hfree.symm
  · have hval := hreq.eq ▸ kmemAlignUpSize_cases n
    omega
  · exact hALL ▸ hreq.le

/-- **ALLOC STEP**: an allocation terminates, keeps the heap and its live payloads, and adds
    what it hands out; it may wrap only where the run allows it. -/
theorem safe_alloc (h : Safe w c) (n : U64) (hmay : Wraps c n → w) :
    ∃ p s', kmemAlloc c.heap n = some (p, s') ∧ Safe w ⟨s', handOut c.live p n⟩ ∧ Keeps c s' := by
  have hsame : kmemAlloc c.heap n = some (0, c.heap) →
      ∃ p s', kmemAlloc c.heap n = some (p, s') ∧ Safe w ⟨s', handOut c.live p n⟩ ∧ Keeps c s' :=
    fun hrun => ⟨0, c.heap, hrun, ⟨h.nodup, h.state⟩, Keeps.refl c⟩
  rcases h.state with ⟨bs, hheap, howned⟩ | ⟨-, hw, -⟩
  · rcases kmemAlloc_cases hheap n with ⟨hrun, -⟩ | ⟨pre, b, post, wanted, rfl, hreq, -, hfit, hrun⟩
    · exact hsame hrun
    · have hb : b ∈ pre ++ b :: post := List.mem_append_right pre (List.mem_cons_self ..)
      have hne : kmemPayload b.addr ≠ 0 := by
        have hpay := payload_toNat hheap hb
        bv_omega
      have hout : handOut c.live (kmemPayload b.addr) n = (kmemPayload b.addr, n) :: c.live :=
        if_neg hne
      have hnodup : (((kmemPayload b.addr, n) :: c.live).map Prod.fst).Nodup :=
        List.nodup_cons.mpr ⟨payload_not_live hheap howned hb hfit.1, h.nodup⟩
      refine ⟨_, _, hrun, ?_⟩
      rw [hout]
      -- either the heap stays in order or this is the request that wraps
      by_cases hnowrap : wanted.toNat < 2 ^ 64 - 80
      · obtain ⟨hheap', hframe⟩ := hheap.take hreq hfit hnowrap
        refine ⟨⟨hnodup, Or.inl ⟨_, hheap', owned_take howned hreq hfit⟩⟩, rfl, rfl, ?_⟩
        intro e he x hx
        obtain ⟨d, hd, hfree, hptr, hle⟩ := howned.block e he
        exact hframe d hd hfree x (inBytes_payload hheap hd hptr hle hx)
      · obtain ⟨hw, hptr, hwraps⟩ := alloc_wrap hheap howned hb hreq hfit hnowrap
        have hALL := ALL_toNat
        rw [hwraps.idle]
        refine ⟨⟨hwraps.idle ▸ hnodup, Or.inr ⟨hmay hwraps, hw, fun e he => ?_⟩⟩, rfl, rfl, ?_⟩
        · obtain rfl := List.mem_singleton.mp he
          exact ⟨hptr, hALL ▸ hwraps.fits⟩
        · intro e he
          rw [hwraps.idle] at he
          exact absurd he List.not_mem_nil
  · exact hsame (kmemAlloc_wrecked hw n)

/-! ## `kmem_free_checked` -/

/-- The pointers that stay live. -/
theorem mem_giveBack {ptr : U64} : e ∈ giveBack live ptr ↔ e ∈ live ∧ e.1 ≠ ptr := by
  rw [giveBack, List.mem_filter, decide_eq_true_iff]

/-- The pointers that stay live stay different. -/
theorem nodup_giveBack {ptr : U64} (h : (live.map Prod.fst).Nodup) :
    ((giveBack live ptr).map Prod.fst).Nodup :=
  h.sublist (List.filter_sublist.map Prod.fst)

/-- The pointer leaves the live allocations, and its block the blocks in use. -/
theorem owned_giveBack {ptr : U64} (howned : Owned live bs)
    (hlive : ∀ d : Block, d.free = false → (d ∈ bs' ↔ d ∈ bs ∧ kmemPayload d.addr ≠ ptr)) :
    Owned (giveBack live ptr) bs' := by
  refine ⟨?_, ?_⟩
  · intro e he
    obtain ⟨hmem, hne⟩ := mem_giveBack.mp he
    obtain ⟨d, hd, hfree, hptr, hle⟩ := howned.block e hmem
    exact ⟨d, (hlive d hfree).mpr ⟨hd, hptr ▸ hne⟩, hfree, hptr, hle⟩
  · intro d hd hfree
    obtain ⟨hold, hne⟩ := (hlive d hfree).mp hd
    obtain ⟨e, he, hptr⟩ := howned.entry d hold hfree
    exact ⟨e, mem_giveBack.mpr ⟨he, hptr ▸ hne⟩, hptr⟩

/-- **FREE STEP**: `kmem_free_checked` with any pointer terminates and keeps the heap and the
    payloads that stay live. -/
theorem safe_free (h : Safe w c) (ptr : U64) :
    ∃ rc s', kmemFreeChecked c.heap ptr = some (rc, s') ∧ Safe w ⟨s', giveBack c.live ptr⟩ ∧
      Keeps c s' := by
  rcases h.state with ⟨bs, hheap, howned⟩ | ⟨hmay, hw, hlive⟩
  · rcases kmemFreeChecked_spec hheap ptr with
      ⟨b, hb, -, rfl, m', bs', hrun, hfreed⟩ | ⟨hno, rc, -, -, hrun⟩
    · refine ⟨_, _, hrun, ⟨nodup_giveBack h.nodup, Or.inl ⟨bs', hfreed.heap, ?_⟩⟩, rfl, rfl, ?_⟩
      · refine owned_giveBack howned (fun d hfree => (hfreed.live d hfree).trans ?_)
        refine and_congr_right (fun hd => not_congr ⟨fun heq => by rw [heq], fun heq => ?_⟩)
        exact eq_of_payload_eq hheap hd hb heq
      · intro e he x hx
        obtain ⟨d, hd, -, hptr, hle⟩ := howned.block e he
        exact hfreed.frame d hd x (inBytes_payload hheap hd hptr hle hx)
    · refine ⟨rc, c.heap, hrun, ⟨nodup_giveBack h.nodup, Or.inl ⟨bs, hheap, ?_⟩⟩, Keeps.refl c⟩
      exact owned_giveBack howned (fun d hfree =>
        ⟨fun hd => ⟨hd, hno d hd hfree⟩, fun hd => hd.1⟩)
  · -- in a wrecked heap every free is refused
    obtain ⟨rc, hrun⟩ := kmemFreeChecked_wrecked hw ptr
    refine ⟨rc, c.heap, hrun, ⟨nodup_giveBack h.nodup, Or.inr ⟨hmay, hw, ?_⟩⟩, Keeps.refl c⟩
    intro e he
    exact hlive e (mem_giveBack.mp he).1

/-! ## Stores of the clients -/

/-- A client may not store to a header. -/
theorem not_mayStore_header {c : KmemSys} (hheap : Heap c.heap bs) (howned : Owned c.live bs)
    (hb : b ∈ bs) {x : U64} (hx : InRange b.addr 48 x) : ¬ MayStore c x := by
  have hmem := hheap.layout.mem hb
  have hx' := (inRange_iff (hheap.layout.room hb) x).mp hx
  rintro (hlo | hhi | ⟨e, he, hin⟩)
  · bv_omega
  · bv_omega
  · obtain ⟨d, hd, -, hptr, -⟩ := howned.block e he
    obtain ⟨prev, next, hf⟩ := hheap.fields hd
    rw [InOwned, ← hptr, headerFromPayload_payload, hf.size] at hin
    have hpay := inRange_payload hheap hd (Nat.le_refl _) hin
    exact not_inRange_of_inPayload hheap.layout hd hb hpay hx

/-- **STORE STEP**: clients that store to their own payloads and place no magic word keep the
    heap. -/
theorem safe_store (h : Safe w c) {m' : Mem}
    (hframe : ∀ x, ¬ MayStore c x → m' x = c.heap.mem x) (hmagic : PlacesNoMagic c.heap m') :
    Safe w ⟨{ c.heap with mem := m' }, c.live⟩ := by
  refine ⟨h.nodup, ?_⟩
  rcases h.state with ⟨bs, hheap, howned⟩ | ⟨hmay, hw, hlive⟩
  · refine Or.inl ⟨bs, ⟨hheap.init, hheap.head, hheap.layout, hheap.nonempty, ?_, hheap.maximal,
      ?_⟩, howned⟩
    · -- no client may store to a header
      refine seg_congr (fun b hb => readHeader_congr (fun x hx => hframe x ?_)) hheap.linked
      exact not_mayStore_header hheap howned hb hx
    · intro a ha hlo hhi hm
      exact hheap.magic a ha hlo hhi (hmagic a ha hlo hhi hm)
  · refine Or.inr ⟨hmay, wrecked_store hw (fun x hlo hhi => hframe x ?_) hmagic, hlive⟩
    rintro (hlo' | hhi' | ⟨e, he, hin⟩)
    · rw [hw.base] at hlo'
      bv_omega
    · rw [hw.top] at hhi'
      have htop : (0xfffffffffffffff0 : U64) ≤ x := hhi'
      bv_omega
    · rw [InOwned, (hlive e he).1, show kmemHeaderFromPayload 64 = 16 from by decide,
          hw.size] at hin
      have hin' : (x - 64).toNat < 2 ^ 64 - 80 := hin
      bv_omega

/-! ## `kmem_calloc` -/

/-- The overflow check is exact. -/
theorem calloc_overflow (count bytes : U64) :
    (count ≠ 0 ∧ bytes > UINT64_MAX / count) ↔ 2 ^ 64 ≤ count.toNat * bytes.toNat := by
  have hmax : UINT64_MAX.toNat = 2 ^ 64 - 1 := by decide
  have hdiv : (UINT64_MAX / count).toNat = (2 ^ 64 - 1) / count.toNat := by
    rw [BitVec.toNat_udiv, hmax]
  have hgt : bytes > UINT64_MAX / count ↔ (2 ^ 64 - 1) / count.toNat < bytes.toNat := by
    rw [← hdiv]
    exact Iff.rfl
  rw [hgt]
  by_cases h0 : count = 0
  · rw [h0]
    simp
  · have hpos : 0 < count.toNat := by bv_omega
    -- the division is the product's overflow, without the product
    rw [Nat.div_lt_iff_lt_mul hpos, Nat.mul_comm]
    constructor
    · rintro ⟨-, hlt⟩
      omega
    · intro hle
      exact ⟨h0, by omega⟩

/-- Zeroing an allocation is a store its owner may make. -/
theorem safe_memset (h : Safe w c) (he : e ∈ c.live) :
    Safe w ⟨{ c.heap with mem := kmemMemset c.heap.mem e.1 0 e.2 }, c.live⟩ := by
  have hp := h.placed he
  have htop := hp.top
  have hbelow := hp.below
  have hal : e.1.toNat % 16 = 0 := hp.aligned
  have hfill := fillBytes_apply c.heap.mem e.1 0 (show e.1.toNat + e.2.toNat ≤ 2 ^ 64 by omega)
  refine safe_store h ?_ ?_
  · intro x hx
    rw [kmemMemset, hfill, if_neg]
    intro hin
    have hin' : (x - e.1).toNat < e.2.toNat := hin
    have hroom := hp.room
    exact hx (Or.inr (Or.inr ⟨e, he, show (x - e.1).toNat < _ by omega⟩))
  · intro a ha _ _ hm
    have ha' : a.toNat % 16 = 0 := ha
    -- if any byte of an aligned word is zeroed, then its first byte is
    by_cases hin : InRange e.1 e.2.toNat a
    · have hbyte := magic_low_byte hm
      rw [kmemMemset, hfill, if_pos hin] at hbyte
      exact absurd hbyte (by decide)
    · refine Eq.trans (load64_congr (fun i hi => ?_)) hm
      rw [kmemMemset, hfill, if_neg]
      intro hin'
      have h1 := (inRange_iff (by omega) _).mp hin'
      have h2 := (inRange_iff (n := e.2.toNat) (a := e.1) (by omega) a).not.mp hin
      bv_omega

/-- **CALLOC**: nothing on overflow, otherwise what `kmem_alloc` gives, zeroed. -/
theorem kmemCalloc_eq (s : KmemState) (count bytes : U64) :
    kmemCalloc s count bytes =
      if 2 ^ 64 ≤ count.toNat * bytes.toNat then some (0, s)
      else (kmemAlloc s (count * bytes)).map (fun r =>
        if r.1 ≠ 0 then (r.1, { r.2 with mem := kmemMemset r.2.mem r.1 0 (count * bytes) })
        else r) := by
  rw [kmemCalloc]
  exact if_congr (calloc_overflow count bytes) rfl rfl

/-- **CALLOC STEP**: an overflowing product is refused; any other call is an allocation whose
    payload is cleared. -/
theorem safe_calloc (h : Safe w c) (count bytes : U64)
    (hmay : count.toNat * bytes.toNat < 2 ^ 64 → Wraps c (count * bytes) → w) :
    ∃ p s', kmemCalloc c.heap count bytes = some (p, s') ∧
      Safe w ⟨s', handOut c.live p (count * bytes)⟩ ∧ Keeps c s' := by
  rw [kmemCalloc_eq]
  split
  · exact ⟨0, c.heap, rfl, ⟨h.nodup, h.state⟩, Keeps.refl c⟩
  · rename_i hsmall
    obtain ⟨p, s', hrun, hsafe, hkeeps⟩ := safe_alloc h (count * bytes) (hmay (by omega))
    rw [hrun, Option.map_some]
    by_cases hp : p = 0
    · refine ⟨p, s', by rw [if_neg (not_not_intro hp)], hsafe, hkeeps⟩
    · have hout : handOut c.live p (count * bytes) = (p, count * bytes) :: c.live := if_neg hp
      have hmem : (p, count * bytes) ∈ handOut c.live p (count * bytes) := by
        rw [hout]
        exact List.mem_cons_self ..
      refine ⟨p, _, by rw [if_pos hp], safe_memset hsafe hmem, hkeeps.base, hkeeps.top, ?_⟩
      intro e he x hx
      have hold : e ∈ handOut c.live p (count * bytes) := by
        rw [hout]
        exact List.mem_cons_of_mem _ he
      -- the new pointer is live only once, so clearing it touches no other payload
      have hne : e.1 ≠ p := by
        have hnodup := hsafe.nodup
        rw [hout] at hnodup
        exact fun heq => (List.nodup_cons.mp hnodup).1 (List.mem_map.mpr ⟨e, he, heq⟩)
      have hp' := hsafe.placed hmem
      have hbelow : p.toNat + (count * bytes).toNat ≤ s'.gHeapEnd.toNat := hp'.below
      have htop : s'.gHeapEnd.toNat ≤ 2 ^ 64 - 16 := hp'.top
      have hfit : p.toNat + (count * bytes).toNat ≤ 2 ^ 64 := by omega
      rw [← hkeeps.bytes e he x hx]
      exact (fillBytes_apply s'.mem p 0 hfit x).trans
        (if_neg (hsafe.disjoint hold hmem hne hx))

/-! ## Whole runs -/

/-- **STEP**: safety is kept, and so are the bounds. -/
theorem kmemStep_safe {c' : KmemSys} {call : KmemCall} (h : Safe w c) (hmay : CallWraps c call → w)
    (hstep : KmemStep c call c') :
    Safe w c' ∧ c'.heap.gHeapBase = c.heap.gHeapBase ∧ c'.heap.gHeapEnd = c.heap.gHeapEnd := by
  cases hstep with
  | alloc hrun =>
      obtain ⟨p, s', hrun', hsafe, hkeeps⟩ := safe_alloc h _ hmay
      obtain ⟨rfl, rfl⟩ := Prod.mk.inj (Option.some.inj (hrun.symm.trans hrun'))
      exact ⟨hsafe, hkeeps.base, hkeeps.top⟩
  | calloc hrun =>
      obtain ⟨p, s', hrun', hsafe, hkeeps⟩ := safe_calloc h _ _ (fun hs hw => hmay ⟨hs, hw⟩)
      obtain ⟨rfl, rfl⟩ := Prod.mk.inj (Option.some.inj (hrun.symm.trans hrun'))
      exact ⟨hsafe, hkeeps.base, hkeeps.top⟩
  | free hrun =>
      obtain ⟨rc, s', hrun', hsafe, hkeeps⟩ := safe_free h _
      obtain ⟨rfl, rfl⟩ := Prod.mk.inj (Option.some.inj (hrun.symm.trans hrun'))
      exact ⟨hsafe, hkeeps.base, hkeeps.top⟩
  | store hframe hmagic => exact ⟨safe_store h hframe hmagic, rfl, rfl⟩

/-- The arena is as large as what was usable of it. -/
theorem totalBytes_initialHeap (m : Mem) (start usable : U64) :
    totalBytes (initialHeap m start usable) = usable := by
  show start + usable - start = usable
  bv_omega

/-- **RUNS ARE SAFE**, and not wrecked if no call of theirs wraps. -/
theorem run_safe {ok : KmemSys → KmemCall → Prop} {base bytes : U64}
    (hmay : ∀ c call, ok c call → CallWraps c call → w) (h : Run ok base bytes c) : Safe w c := by
  induction h with
  | init hinit hstray =>
      obtain ⟨start, usable, rfl, hu⟩ := kmemInit_success hinit
      rw [totalBytes_initialHeap] at hstray
      refine ⟨List.nodup_nil, Or.inl ⟨_, heap_initialHeap hu hstray, ?_, ?_⟩⟩
      · exact fun e he => absurd he List.not_mem_nil
      · intro b hb hfree
        rw [List.mem_singleton.mp hb] at hfree
        exact absurd hfree.symm Bool.false_ne_true
  | step _ hok hstep ih => exact (kmemStep_safe ih (hmay _ _ hok) hstep).1

/-- Every reachable heap is safe. -/
theorem reachable_safe {base bytes : U64} (h : Reachable base bytes c) : Safe True c :=
  run_safe (fun _ _ _ _ => trivial) h

/-- Without a call that wraps the heap stays in order. -/
theorem run_inOrder {base bytes : U64} (h : Run (fun c call => ¬ CallWraps c call) base bytes c) :
    ∃ bs, Heap c.heap bs ∧ Owned c.live bs := by
  have hsafe : Safe False c := run_safe (fun _ _ hok => hok) h
  rcases hsafe.state with hheap | ⟨hf, -⟩
  · exact hheap
  · exact hf.elim

/-- The heap lies in the arena it was made from. -/
theorem reachable_total {base bytes : U64} (h : Reachable base bytes c) :
    (totalBytes c.heap).toNat ≤ bytes.toNat := by
  induction h with
  | init hinit _ =>
      obtain ⟨start, usable, rfl, hu⟩ := kmemInit_success hinit
      have habove := hu.above
      have hbelow := hu.below
      rw [totalBytes_initialHeap]
      omega
  | step hr _ hstep ih =>
      obtain ⟨-, hbase, htop⟩ := kmemStep_safe (reachable_safe hr) (fun _ => trivial) hstep
      rw [totalBytes, hbase, htop]
      exact ih

/-- Only the heap that fills the address space can be wrecked. -/
theorem Safe.heap (h : Safe w c) (htotal : (totalBytes c.heap).toNat ≠ 2 ^ 64 - 32) :
    ∃ bs, Heap c.heap bs ∧ Owned c.live bs := by
  rcases h.state with hheap | ⟨-, hw, -⟩
  · exact hheap
  · refine absurd ?_ htotal
    rw [totalBytes, hw.base, hw.top]
    decide

/-! ## A small run -/

/-- All bytes of memory equal, the allocator not initialised. -/
def constState (v : U8) : KmemState := ⟨fun _ => v, 0, 0, 0, false⟩

/-- A fresh heap in one page of zeros. -/
def smallStart : KmemSys := ⟨(kmemInit (constState 0) 4096 4096).2, []⟩

/-- What a heap and its clients become by a request. -/
def afterAlloc (c : KmemSys) (n : U64) : KmemSys :=
  match kmemAlloc c.heap n with
  | some (p, s) => ⟨s, handOut c.live p n⟩
  | none => c

/-- An allocation is a step of a run. -/
theorem step_afterAlloc {c : KmemSys} (h : Safe True c) (n : U64) :
    KmemStep c (.alloc n) (afterAlloc c n) := by
  obtain ⟨p, s', hrun, -⟩ := safe_alloc h n (fun _ => trivial)
  have heq : afterAlloc c n = ⟨s', handOut c.live p n⟩ := by rw [afterAlloc, hrun]
  rw [heq]
  exact .alloc hrun

/-- A run may go on with an allocation that its condition allows. -/
theorem run_afterAlloc {ok : KmemSys → KmemCall → Prop} {base bytes : U64} {c : KmemSys}
    (h : Run ok base bytes c) (n : U64) (hok : ok c (.alloc n)) :
    Run ok base bytes (afterAlloc c n) :=
  h.step hok (step_afterAlloc (reachable_safe h.reachable) n)

/-- Any allocation leads to a reachable heap. -/
theorem reachable_afterAlloc {base bytes : U64} {c : KmemSys} (h : Reachable base bytes c)
    (n : U64) : Reachable base bytes (afterAlloc c n) :=
  run_afterAlloc h n trivial

/-- Memory that is the same byte everywhere holds no magic word. -/
theorem noStray_const {v : U8} (hv : v ≠ 0x41) (start usable : U64) :
    NoStray (constState v).mem start usable := by
  intro a _ _ _ hm
  exact hv (magic_low_byte hm)

/-- Any run may start with a page of equal bytes. -/
theorem fresh_run {ok : KmemSys → KmemCall → Prop} (v : U8) (hv : v ≠ 0x41)
    (hinit : (kmemInit (constState v) 4096 4096).1 = 0) :
    Run ok 4096 4096 ⟨(kmemInit (constState v) 4096 4096).2, []⟩ :=
  .init (show kmemInit (constState v) 4096 4096 = (0, _) from Prod.ext hinit rfl)
    (noStray_const hv _ _)

/-- The example's arena of a page. -/
theorem reachable_smallStart : Reachable 4096 4096 smallStart :=
  fresh_run 0 (by decide) (by decide)

end KmemRun
