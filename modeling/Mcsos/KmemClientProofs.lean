import Mcsos.KmemCoalesceProofs

/-! # The contract of the heap with its clients

    What a client relies on: its bytes lie in the heap, away from everybody
    else's and from the headers, and no call of the allocator touches them.

    The headers are those of the blocks reached from `g_head`.  After the one
    request that wraps (`KmemWrap`) that list runs through the payload which was
    handed out, so that this part of the contract needs runs without it; the
    other parts do not. -/

namespace KmemClient

open Word ByteMemory KmemModel KmemHeader KmemList KmemAlloc KmemFree KmemInit KmemRunModel KmemRun
open KmemWrap KmemInvariant KmemCoalesce

variable {s : KmemState} {bs : List Block}

/-- The headers: what is reached from `g_head` along the `next` fields. -/
inductive Listed (s : KmemState) : U64 → Prop where
  | head (h : s.gHead ≠ 0) : Listed s s.gHead
  | next {a : U64} (h : Listed s a) (hne : hdrNext s.mem a ≠ 0) : Listed s (hdrNext s.mem a)

/-- Every block of a heap in order is reached. -/
theorem listed_of_mem (h : Heap s bs) : ∀ (pre : List Block) {b : Block} {post : List Block},
    bs = pre ++ b :: post → Listed s b.addr := by
  intro pre
  -- along the list: each block is the `next` of the one before it
  induction pre using List.reverseRecOn with
  | nil =>
      rintro b post rfl
      have haddr : b.addr = s.gHead := h.nextAddr_eq
      rw [haddr]
      refine .head ?_
      rw [← haddr]
      exact h.layout.ne_zero (List.mem_cons_self ..)
  | append_singleton pre q ih =>
      rintro b post rfl
      have hb : b ∈ pre ++ [q] ++ b :: post := List.mem_append_right _ (List.mem_cons_self ..)
      have hq : Listed s q.addr := ih (List.append_assoc pre [q] (b :: post))
      have hlinked : Seg s.mem 0 (pre ++ (q :: b :: post)) 0 := by simpa using h.linked
      have hnext : hdrNext s.mem q.addr = b.addr :=
        (header_fields (seg_append.mp hlinked).2.1).next
      rw [← hnext]
      refine hq.next ?_
      rw [hnext]
      exact h.layout.ne_zero hb

/-- In a heap in order the headers are those of its blocks. -/
theorem listed_iff (h : Heap s bs) (a : U64) : Listed s a ↔ ∃ b ∈ bs, b.addr = a := by
  constructor
  · intro ha
    induction ha with
    | head _ =>
        obtain ⟨b, bs', rfl⟩ := List.exists_cons_of_ne_nil h.nonempty
        exact ⟨b, List.mem_cons_self .., h.nextAddr_eq⟩
    | next _ hne ih =>
        obtain ⟨b, hb, rfl⟩ := ih
        obtain ⟨d, hd, hnext, -⟩ := next_inverse h hb hne
        exact ⟨d, hd, hnext⟩
  · rintro ⟨b, hb, rfl⟩
    obtain ⟨pre, post, hsplit⟩ := List.append_of_mem hb
    exact listed_of_mem h pre hsplit

/-- No byte of a live allocation lies in a header. -/
def HeadersApart (c : KmemSys) : Prop :=
  ∀ e ∈ c.live, ∀ a, Listed c.heap a → ∀ x, InBytes e x → ¬ InRange a 48 x

/-- In a heap in order, live bytes are payload. -/
theorem not_inRange_block {c : KmemSys} (h : Heap c.heap bs) (howned : Owned c.live bs)
    {e : U64 × U64} (he : e ∈ c.live) {b : Block} (hb : b ∈ bs) {x : U64} (hx : InBytes e x) :
    ¬ InRange b.addr 48 x := by
  obtain ⟨d, hd, -, hptr, hle⟩ := howned.block e he
  exact not_inRange_of_inPayload h.layout hd hb (inBytes_payload h hd hptr hle hx)

/-- As long as no call wraps, no header lies in live bytes. -/
theorem headersApart_of_run {base bytes : U64} {c : KmemSys}
    (h : Run (fun c call => ¬ CallWraps c call) base bytes c) : HeadersApart c := by
  obtain ⟨bs, hheap, howned⟩ := run_inOrder h
  intro e he a ha x hx
  obtain ⟨b, hb, rfl⟩ := (listed_iff hheap a).mp ha
  exact not_inRange_block hheap howned he hb hx

/-! ## The request that wraps -/

/-- The `next` field of the header at the top of the address space is the size
    field of the one at 16, so that the list goes on at `ALL`. -/
theorem listed_all (hhead : s.gHead = 16) (hnext : hdrNext s.mem 16 = TOP)
    (hsize : hdrSize s.mem 16 = ALL) : Listed s ALL := by
  have hfirst : Listed s 16 := hhead ▸ .head (by rw [hhead]; decide)
  have hsecond : Listed s TOP := hnext ▸ hfirst.next (by rw [hnext]; decide)
  have hfield : hdrNext s.mem TOP = ALL := hsize
  exact hfield ▸ hsecond.next (by rw [hfield]; decide)

/-- `ALL` is inside a payload that starts at 64 and is nearly as large as the address
    space. -/
theorem not_headersApart {c : KmemSys} (h : Listed c.heap ALL) {n : U64} (he : (64, n) ∈ c.live)
    (hn : 2 ^ 64 - 96 < n.toNat) : ¬ HeadersApart c := by
  intro hapart
  have hall : (ALL - 64).toNat = 2 ^ 64 - 144 := by decide
  have hx : (ALL - 64).toNat < n.toNat := by omega
  exact hapart _ he ALL h ALL hx (by decide)

/-- The state that the request leaves. -/
theorem alloc_of_wraps {c : KmemSys} (h : Heap c.heap bs) (howned : Owned c.live bs) {n p : U64}
    (hw : Wraps c n) (hrun : kmemAlloc c.heap n = some (p, s)) :
    p = 64 ∧ s.gHead = 16 ∧ hdrNext s.mem 16 = TOP ∧ hdrSize s.mem 16 = ALL := by
  obtain ⟨rfl, hbase, htop⟩ := blocks_of_wraps h howned hw
  rw [kmemAlloc_of_wraps h htop (request_of_wraps hw)] at hrun
  obtain ⟨rfl, rfl⟩ := Prod.mk.inj (Option.some.inj hrun)
  have hf := header_fields h.linked.1
  obtain ⟨-, hsize, -, -, hnext⟩ :=
    fields_of_readHeader (readHeader_wrap hf.size hf.prev hf.next)
  exact ⟨rfl, h.head.trans hbase, hnext, hsize⟩

/-- What is handed out is live. -/
theorem mem_handOut {p : U64} (hp : p ≠ 0) (live : List (U64 × U64)) (n : U64) :
    (p, n) ∈ handOut live p n := by
  rw [handOut, if_neg hp]
  exact List.mem_cons_self ..

/-- Live allocations have no byte in common. -/
theorem live_pairwise {c : KmemSys} (h : Safe True c) :
    c.live.Pairwise (fun e e' => ∀ x, InBytes e x → ¬ InBytes e' x) := by
  have hne : c.live.Pairwise (fun e e' => e.1 ≠ e'.1) := List.pairwise_map.mp h.nodup
  refine hne.imp_of_mem ?_
  intro e e' he he' hptr x hx
  exact h.disjoint he he' hptr hx

/-! ## `kmem_calloc` -/

/-- A request for nothing is refused. -/
theorem kmemAlloc_zero (s : KmemState) : kmemAlloc s 0 = some (0, s) := if_pos (Or.inr rfl)

/-- No memory for a product that is zero or too large. -/
theorem kmemCalloc_none (s : KmemState) {count n : U64}
    (h : 2 ^ 64 ≤ count.toNat * n.toNat ∨ count.toNat * n.toNat = 0) :
    kmemCalloc s count n = some (0, s) := by
  rw [kmemCalloc_eq]
  rcases h with hbig | hzero
  · exact if_pos hbig
  · have hprod : count * n = 0 := by
      apply BitVec.eq_of_toNat_eq
      rw [BitVec.toNat_mul, hzero]
      rfl
    rw [if_neg (by omega), hprod, kmemAlloc_zero]
    rfl

/-- Otherwise the block of `kmem_alloc`, with its bytes zeroed. -/
theorem kmemCalloc_some {c : KmemSys} (h : Safe True c) {count n : U64}
    (hsmall : count.toNat * n.toNat < 2 ^ 64) :
    ∃ p s₁, kmemAlloc c.heap (count * n) = some (p, s₁) ∧
      kmemCalloc c.heap count n = some (p, if p = 0 then s₁ else
        { s₁ with mem := fun x => if InRange p (count * n).toNat x then 0 else s₁.mem x }) := by
  obtain ⟨p, s₁, hrun, hsafe, -⟩ := safe_alloc h (count * n) (fun _ => trivial)
  refine ⟨p, s₁, hrun, ?_⟩
  rw [kmemCalloc_eq, if_neg (by omega), hrun, Option.map_some]
  by_cases hp : p = 0
  · rw [if_neg (not_not_intro hp), if_pos hp]
  · have hplaced := hsafe.placed (mem_handOut hp c.live (count * n))
    have hbelow : p.toNat + (count * n).toNat ≤ s₁.gHeapEnd.toNat := hplaced.below
    have htop : s₁.gHeapEnd.toNat ≤ 2 ^ 64 - 16 := hplaced.top
    have hfill : kmemMemset s₁.mem p 0 (count * n)
        = fun x => if InRange p (count * n).toNat x then 0 else s₁.mem x :=
      funext (fillBytes_apply s₁.mem p 0 (by omega))
    rw [if_pos hp, if_neg hp, hfill]

/-- **WRAP**: a call that wraps leaves a header inside the allocation it made. -/
theorem not_headersApart_of_wraps {c c' : KmemSys} {call : KmemCall} (h : Heap c.heap bs)
    (howned : Owned c.live bs) (hsafe : Safe True c) (hw : CallWraps c call)
    (hstep : KmemStep c call c') : ¬ HeadersApart c' := by
  cases hstep with
  | alloc hrun =>
      obtain ⟨rfl, hhead, hnext, hsize⟩ := alloc_of_wraps h howned hw hrun
      exact not_headersApart (listed_all hhead hnext hsize) (mem_handOut (by decide) ..)
        (Wraps.large hw)
  | @calloc count n p s' hrun =>
      obtain ⟨hsmall, hwraps⟩ := hw
      obtain ⟨p₁, s₁, halloc, hcalloc⟩ := kmemCalloc_some hsafe hsmall
      obtain ⟨rfl, hhead, hnext, hsize⟩ := alloc_of_wraps h howned hwraps halloc
      rw [hcalloc, if_neg (by decide)] at hrun
      obtain ⟨rfl, rfl⟩ := Prod.mk.inj (Option.some.inj hrun)
      -- the zeros start behind the header at 16
      have hbelow : ∀ x : U64, x < 64 → ¬ InRange 64 (count * n).toNat x := by
        intro x hx
        have hfits := hwraps.fits
        show ¬ (x - 64).toNat < (count * n).toNat
        bv_omega
      have hkept : ∀ a : U64, a.toNat + 8 ≤ 64 →
          load64 (fun x => if InRange 64 (count * n).toNat x then 0 else s₁.mem x) a
            = load64 s₁.mem a := by
        intro a ha
        exact load64_congr (fun i hi => if_neg (hbelow _ (by bv_omega)))
      refine not_headersApart (listed_all hhead ?_ ?_) (mem_handOut (by decide) ..)
        hwraps.large
      · exact (hkept (16 + 40) (by decide)).trans hnext
      · exact (hkept (16 + 8) (by decide)).trans hsize
  | free _ => exact hw.elim
  | store _ _ => exact hw.elim

/-- From a state of a run without a call that wraps, the headers stay apart
    exactly if the next call does not wrap either. -/
theorem headersApart_step_iff {base bytes : U64} {c c' : KmemSys} {call : KmemCall}
    (h : Run (fun c call => ¬ CallWraps c call) base bytes c) (hstep : KmemStep c call c') :
    HeadersApart c' ↔ ¬ CallWraps c call := by
  obtain ⟨bs, hheap, howned⟩ := run_inOrder h
  constructor
  · exact fun hapart hw =>
      not_headersApart_of_wraps hheap howned (reachable_safe h.reachable) hw hstep hapart
  · exact fun hno => headersApart_of_run (h.step hno hstep)

/-! ## The contract -/

/-- **CLIENT CONTRACT**: in every reachable state the live allocations are
    aligned, inside the heap and away from each other; every call returns and
    changes none of their bytes; and `kmem_calloc` is `kmem_alloc` of the
    product, zeroed, or nothing.  In every run without a call that wraps they
    are also away from the header of every block in the list, and the next call
    keeps it so exactly if it does not wrap. -/
theorem kmem_client_contract {base bytes : U64} {c : KmemSys} (h : Reachable base bytes c) :
    (∀ e ∈ c.live, Aligned e.1 ∧ c.heap.gHeapBase.toNat ≤ e.1.toNat ∧
      e.1.toNat + e.2.toNat ≤ c.heap.gHeapEnd.toNat) ∧
    c.live.Pairwise (fun e e' => ∀ x, InBytes e x → ¬ InBytes e' x) ∧
    (∀ n, ∃ p s', kmemAlloc c.heap n = some (p, s') ∧
      Reachable base bytes ⟨s', handOut c.live p n⟩ ∧
      ∀ e ∈ c.live, ∀ x, InBytes e x → s'.mem x = c.heap.mem x) ∧
    (∀ count n, ∃ p s', kmemCalloc c.heap count n = some (p, s') ∧
      Reachable base bytes ⟨s', handOut c.live p (count * n)⟩ ∧
      ∀ e ∈ c.live, ∀ x, InBytes e x → s'.mem x = c.heap.mem x) ∧
    (∀ ptr, ∃ rc s', kmemFreeChecked c.heap ptr = some (rc, s') ∧
      Reachable base bytes ⟨s', giveBack c.live ptr⟩ ∧
      ∀ e ∈ c.live, ∀ x, InBytes e x → s'.mem x = c.heap.mem x) ∧
    (∀ count n : U64, 2 ^ 64 ≤ count.toNat * n.toNat ∨ count.toNat * n.toNat = 0 →
      kmemCalloc c.heap count n = some (0, c.heap)) ∧
    (∀ count n : U64, count.toNat * n.toNat < 2 ^ 64 →
      ∃ p s₁, kmemAlloc c.heap (count * n) = some (p, s₁) ∧
        kmemCalloc c.heap count n = some (p, if p = 0 then s₁ else
          { s₁ with mem := fun x => if InRange p (count * n).toNat x then 0 else s₁.mem x })) ∧
    (Run (fun c call => ¬ CallWraps c call) base bytes c →
      (∃ bs, kmemBlocks c.heap = some bs ∧ (∀ a, Listed c.heap a ↔ ∃ b ∈ bs, b.addr = a) ∧
        ∀ e ∈ c.live, ∀ b ∈ bs, ∀ x, InBytes e x → ¬ InRange b.addr 48 x) ∧
      ∀ call c', KmemStep c call c' → (HeadersApart c' ↔ ¬ CallWraps c call)) := by
  have hsafe := reachable_safe h
  refine ⟨?_, live_pairwise hsafe, ?_, ?_, ?_, fun count n => kmemCalloc_none c.heap,
    fun count n => kmemCalloc_some hsafe, fun hrun => ⟨?_, fun call c' hstep => ?_⟩⟩
  · intro e he
    have hp := hsafe.placed he
    have habove := hp.above
    exact ⟨hp.aligned, by omega, hp.below⟩
  · intro n
    obtain ⟨p, s', hrun, -, hkeeps⟩ := safe_alloc hsafe n (fun _ => trivial)
    exact ⟨p, s', hrun, h.step trivial (.alloc hrun), hkeeps.bytes⟩
  · intro count n
    obtain ⟨p, s', hrun, -, hkeeps⟩ := safe_calloc hsafe count n (fun _ _ => trivial)
    exact ⟨p, s', hrun, h.step trivial (.calloc hrun), hkeeps.bytes⟩
  · intro ptr
    obtain ⟨rc, s', hrun, -, hkeeps⟩ := safe_free hsafe ptr
    exact ⟨rc, s', hrun, h.step trivial (.free hrun), hkeeps.bytes⟩
  · obtain ⟨bs, hheap, howned⟩ := run_inOrder hrun
    exact ⟨bs, kmemBlocks_eq hheap, listed_iff hheap,
      fun e he b hb x hx => not_inRange_block hheap howned he hb hx⟩
  · exact headersApart_step_iff hrun hstep

/-- Two allocations in a page, and a product that is too large. -/
theorem kmem_client_contract_page :
    (afterAlloc (afterAlloc smallStart 32) 100).live.Pairwise
      (fun e e' => ∀ x, InBytes e x → ¬ InBytes e' x) ∧
    (∃ bs, kmemBlocks (afterAlloc (afterAlloc smallStart 32) 100).heap = some bs ∧
      ∀ e ∈ (afterAlloc (afterAlloc smallStart 32) 100).live, ∀ b ∈ bs, ∀ x,
        InBytes e x → ¬ InRange b.addr 48 x) ∧
    kmemCalloc (afterAlloc (afterAlloc smallStart 32) 100).heap 0x100000000 0x100000000
      = some (0, (afterAlloc (afterAlloc smallStart 32) 100).heap) ∧
    ∃ p s₁, kmemAlloc (afterAlloc (afterAlloc smallStart 32) 100).heap (3 * 8) = some (p, s₁) := by
  have hno (c : KmemSys) {n : U64} (hn : n.toNat ≤ 100) : ¬ CallWraps c (.alloc n) :=
    fun hw => absurd (Wraps.large hw) (by omega)
  have hstart : Run (fun c call => ¬ CallWraps c call) 4096 4096 smallStart :=
    fresh_run 0 (by decide) (by decide)
  have hrun := run_afterAlloc (run_afterAlloc hstart 32 (hno _ (by decide))) 100
    (hno _ (by decide))
  obtain ⟨-, hpair, -, -, -, hnone, hsome, hheaders⟩ := kmem_client_contract hrun.reachable
  obtain ⟨⟨bs, hblocks, -, hapart⟩, -⟩ := hheaders hrun
  obtain ⟨p, s₁, halloc, -⟩ := hsome 3 8 (by decide)
  exact ⟨hpair, ⟨bs, hblocks, hapart⟩, hnone _ _ (Or.inl (by decide)), p, s₁, halloc⟩

/-- **A HEADER INSIDE A PAYLOAD**: in the heap that fills the address space a
    request for its whole block is served with 64, and the third block of the
    list then has its header inside the bytes handed out. -/
theorem kmem_header_in_payload :
    Reachable 16 0xffffffffffffffe0 wrapStart ∧
    KmemStep wrapStart (.alloc ALL) (afterAlloc wrapStart ALL) ∧
    (afterAlloc wrapStart ALL).live = [(64, ALL)] ∧
    kmemBlocks (afterAlloc wrapStart ALL).heap
      = some [⟨16, ALL, false⟩, ⟨TOP, 0 - HEADER, true⟩, ⟨ALL, 0, false⟩] ∧
    InBytes (64, ALL) ALL ∧ InRange ALL 48 ALL ∧ ¬ HeadersApart (afterAlloc wrapStart ALL) := by
  have hwraps : CallWraps wrapStart (.alloc ALL) := ⟨by decide, rfl, by decide, by decide⟩
  have hstep := step_afterAlloc (reachable_safe run_wrapStart) ALL
  refine ⟨run_wrapStart, hstep, ?_, ?_, ?_, ?_, ?_⟩
  · decide +kernel
  · decide +kernel
  · exact (show (ALL - 64).toNat < ALL.toNat by decide)
  · decide
  · exact fun hapart => (headersApart_step_iff run_wrapStart hstep).mp hapart hwraps

end KmemClient
