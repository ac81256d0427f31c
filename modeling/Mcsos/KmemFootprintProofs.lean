import Mcsos.KmemRunProofs

/-! # The heap writes its arena only

    Headers lie in the arena, next to what the clients hold, and are found by
    following pointers out of it.  In a heap that is in order all those pointers
    stay inside, so a call changes no byte outside the arena, whatever its arguments
    are.  Inside it writes headers and, for `kmem_calloc`, the block it hands out. -/

namespace KmemFootprint

open Word ByteMemory KmemModel KmemHeader KmemList KmemAlloc KmemFree KmemInit KmemRunModel KmemRun

variable {s s' : KmemState} {bs pre post : List Block} {b : Block} {x : U64}

/-- `x` is no byte of the heap. -/
def Outside (s : KmemState) (x : U64) : Prop := x < s.gHeapBase ∨ s.gHeapEnd ≤ x

/-- No header is outside the arena. -/
theorem Outside.header (h : Heap s bs) (hx : Outside s x) : ∀ d ∈ bs, ¬ InRange d.addr 48 x := by
  intro d hd hin
  have hmem := h.layout.mem hd
  have hin' := (inRange_iff (h.layout.room hd) x).mp hin
  rcases hx with hx | hx
  · rw [BitVec.lt_def] at hx
    omega
  · rw [BitVec.le_def] at hx
    omega

/-- No payload lies outside. -/
theorem Outside.payload (h : Heap s bs) (hx : Outside s x) (hb : b ∈ bs) : ¬ InPayload b x := by
  intro hin
  have hmem := h.layout.mem hb
  obtain ⟨hlo, hhi⟩ := hin
  rcases hx with hx | hx
  · rw [BitVec.lt_def] at hx
    omega
  · rw [BitVec.le_def] at hx
    omega

/-! ## The calls -/

/-- Taking a block writes inside the arena only. -/
theorem take_outside (h : Heap s (pre ++ b :: post)) {bytes wanted : U64}
    (hreq : Request bytes wanted) (hfit : Fits wanted b) (hnowrap : wanted.toNat < 2 ^ 64 - 80)
    (hx : Outside s x) : takeBlock s.gHeapEnd s.mem b.addr wanted x = s.mem x := by
  obtain ⟨mid, -, hmid, -, -⟩ := h.layout.split
  obtain ⟨-, hseg⟩ := seg_append.mp h.linked
  obtain ⟨-, hout, -⟩ := takeBlock_spec hmid rfl hseg hreq.aligned hreq.pos hfit.2 hnowrap
  refine hout x (fun d hd => hx.header h d (List.mem_append_right pre hd)) ?_
  exact hx.payload h (List.mem_append_right pre (List.mem_cons_self ..))

/-- Both passes of `kmem_free_checked` write headers only. -/
theorem releaseBlock_outside (h : Heap s (pre ++ b :: post)) {rc : Int}
    (hrun : releaseBlock s b.addr = some (rc, s'))
    (hx : ∀ d ∈ pre ++ b :: post, ¬ InRange d.addr 48 x) : s'.mem x = s.mem x := by
  obtain ⟨m₁, hfirst, hr⟩ := coalesce_freed h
  have hprev : hdrPrev m₁ b.addr = lastAddr 0 pre := by
    obtain ⟨size, rest, habs⟩ := absorb_cons { b with free := true } post
    have hlinked := hr.linked
    rw [habs] at hlinked
    exact (header_fields hlinked.1).prev
  have hsame : m₁ x = s.mem x := hr.outside x (fun d hd => hx d (List.mem_append_right pre hd))
  rw [releaseBlock, hfirst, Option.bind_some, hprev] at hrun
  split at hrun
  · rename_i hsecond
    rcases List.eq_nil_or_concat' pre with rfl | ⟨pre', q, rfl⟩
    · exact absurd rfl hsecond.1
    · -- the block before takes in what was merged
      rw [lastAddr_concat] at hr hrun
      rw [← List.append_cons] at h hx
      obtain ⟨mid, -, hmid, -, -⟩ := h.layout.split
      obtain ⟨-, hseg⟩ := seg_append.mp h.linked
      have hr' := Rewrites.cons hmid hseg hr
      obtain ⟨m₂, hsecondRun, hr₂⟩ := coalesceLoop_spec ROUNDS (hr'.layout mid hmid) hr'.linked
        (hr'.layout mid hmid).tail.length_lt
      rw [kmemCoalesceForward, hsecondRun] at hrun
      cases hrun
      exact (hr'.trans hr₂).outside x (fun d hd => hx d (List.mem_append_right pre' hd))
  · cases hrun
    exact hsame

variable {c c' : KmemSys} {n p : U64}

/-- An allocation that does not wrap writes nothing outside. -/
theorem alloc_outside (h : Heap c.heap bs) (howned : Owned c.live bs) (hok : ¬ Wraps c n)
    (hrun : kmemAlloc c.heap n = some (p, s')) (hx : Outside c.heap x) :
    s'.mem x = c.heap.mem x := by
  rcases kmemAlloc_cases h n with ⟨hnone, -⟩ | ⟨pre, b, post, wanted, rfl, hreq, -, hfit, hsome⟩
  · rw [hnone] at hrun
    cases hrun
    rfl
  · rw [hsome] at hrun
    cases hrun
    have hb : b ∈ pre ++ b :: post := List.mem_append_right pre (List.mem_cons_self ..)
    refine take_outside h hreq hfit ?_ hx
    by_contra hwrap
    exact hok (alloc_wrap h howned hb hreq hfit hwrap).2.2

/-- A free writes inside the arena only, whatever the pointer. -/
theorem free_outside (h : Heap s bs) {ptr : U64} {rc : Int}
    (hrun : kmemFreeChecked s ptr = some (rc, s')) (hx : Outside s x) : s'.mem x = s.mem x := by
  rcases kmemFreeChecked_cases s ptr with ⟨haccepts, heq⟩ | ⟨-, rc', -, -, heq⟩
  · obtain ⟨b, hb, -, rfl⟩ := (accepts_iff h ptr).mp haccepts
    obtain ⟨pre, post, rfl⟩ := List.append_of_mem hb
    rw [heq, headerFromPayload_payload] at hrun
    exact releaseBlock_outside h hrun (hx.header h)
  · rw [heq] at hrun
    cases hrun
    rfl

/-- The block that `kmem_calloc` zeroes is one that was just handed out. -/
theorem calloc_outside (h : Safe False c) {count bytes : U64}
    (hok : ¬ CallWraps c (.calloc count bytes))
    (hrun : kmemCalloc c.heap count bytes = some (p, s')) (hx : Outside c.heap x) :
    s'.mem x = c.heap.mem x := by
  rw [kmemCalloc_eq] at hrun
  split at hrun
  · cases hrun
    rfl
  · rename_i hsmall
    have hok' : ¬ Wraps c (count * bytes) := fun hw => hok ⟨by omega, hw⟩
    obtain ⟨q, t, halloc, hsafe, hkeeps⟩ := safe_alloc h (count * bytes) hok'
    obtain ⟨bs, hheap, howned⟩ := h.state.resolve_right (fun hw => hw.1)
    have hsame := alloc_outside hheap howned hok' halloc hx
    rw [halloc, Option.map_some] at hrun
    by_cases hq : q = 0
    · rw [if_neg (not_not_intro hq)] at hrun
      cases hrun
      exact hsame
    · rw [if_pos hq] at hrun
      cases hrun
      -- the bytes that are cleared are those of the new allocation, which is in the arena
      have hlive : (q, count * bytes) ∈ handOut c.live q (count * bytes) := by
        rw [handOut, if_neg hq]
        exact List.mem_cons_self ..
      obtain ⟨-, habove, hbelow, htop, -⟩ := hsafe.placed hlive
      dsimp only at habove hbelow htop
      rw [hkeeps.base] at habove
      rw [hkeeps.top] at hbelow htop
      have hfit : q.toNat + (count * bytes).toNat ≤ 2 ^ 64 := by omega
      refine ((fillBytes_apply t.mem q 0 hfit x).trans (if_neg fun hin => ?_)).trans hsame
      have hin' := (inRange_iff hfit x).mp hin
      rcases hx with hx | hx
      · rw [BitVec.lt_def] at hx
        omega
      · rw [BitVec.le_def] at hx
        omega

/-! ## Runs -/

/-- The heap lies in the arena that was passed to `kmem_init`. -/
theorem run_bounds {ok : KmemSys → KmemCall → Prop} {base bytes : U64} (h : Run ok base bytes c) :
    base.toNat ≤ c.heap.gHeapBase.toNat ∧
    c.heap.gHeapEnd.toNat ≤ base.toNat + bytes.toNat := by
  induction h with
  | init hinit _ =>
      obtain ⟨start, usable, rfl, hu⟩ := kmemInit_success hinit
      have hbelow := hu.below
      have hnowrap := hu.no_wrap
      refine ⟨hu.above, ?_⟩
      show (start + usable).toNat ≤ _
      bv_omega
  | step hr _ hstep ih =>
      obtain ⟨-, hbase, htop⟩ :=
        kmemStep_safe (reachable_safe hr.reachable) (fun _ => trivial) hstep
      rw [hbase, htop]
      exact ih

/-- **INSIDE THE ARENA**: in every state of every run, a call of the allocator with any
    arguments changes only bytes of the arena, and none that a client holds. -/
theorem heap_writes_inside {base bytes : U64} {call : KmemCall}
    (h : Run (fun c call => ¬ CallWraps c call) base bytes c) (hok : ¬ CallWraps c call)
    (hcall : call ≠ .store) (hstep : KmemStep c call c') (hx : c'.heap.mem x ≠ c.heap.mem x) :
    base.toNat ≤ x.toNat ∧ x.toNat < base.toNat + bytes.toNat ∧ ∀ e ∈ c.live, ¬ InBytes e x := by
  have hsafe : Safe False c := run_safe (fun _ _ hok => hok) h
  obtain ⟨bs, hheap, howned⟩ := run_inOrder h
  obtain ⟨hlo, hhi⟩ := run_bounds h
  -- each call changes only bytes of the arena, and keeps the live ones
  have hinside : ¬ Outside c.heap x ∧ Keeps c c'.heap := by
    cases hstep with
    | alloc hrun =>
        obtain ⟨p, s', hrun', -, hkeeps⟩ := safe_alloc hsafe _ hok
        obtain ⟨rfl, rfl⟩ := Prod.mk.inj (Option.some.inj (hrun.symm.trans hrun'))
        exact ⟨fun hout => hx (alloc_outside hheap howned hok hrun hout), hkeeps⟩
    | calloc hrun =>
        obtain ⟨p, s', hrun', -, hkeeps⟩ := safe_calloc hsafe _ _ (fun hs hw => hok ⟨hs, hw⟩)
        obtain ⟨rfl, rfl⟩ := Prod.mk.inj (Option.some.inj (hrun.symm.trans hrun'))
        exact ⟨fun hout => hx (calloc_outside hsafe hok hrun hout), hkeeps⟩
    | free hrun =>
        obtain ⟨rc, s', hrun', -, hkeeps⟩ := safe_free hsafe _
        obtain ⟨rfl, rfl⟩ := Prod.mk.inj (Option.some.inj (hrun.symm.trans hrun'))
        exact ⟨fun hout => hx (free_outside hheap hrun hout), hkeeps⟩
    | store => exact absurd rfl hcall
  obtain ⟨hin, hkeeps⟩ := hinside
  rw [Outside, not_or, BitVec.not_lt, BitVec.not_le, BitVec.le_def, BitVec.lt_def] at hin
  exact ⟨by omega, by omega, fun e he hxe => hx (hkeeps.bytes e he x hxe)⟩

/-- A request on a fresh heap of one page. -/
theorem heap_writes_inside_small :
    ∃ p s, kmemAlloc smallStart.heap 64 = some (p, s) ∧ p = 4144 ∧
      ∀ x, s.mem x ≠ smallStart.heap.mem x → 4096 ≤ x.toNat ∧ x.toNat < 8192 := by
  have hrun : Run (fun c call => ¬ CallWraps c call) 4096 4096 smallStart :=
    fresh_run 0 (by decide) (by decide)
  have hok : ¬ CallWraps smallStart (.alloc 64) :=
    fun hw => absurd hw.large (by decide)
  obtain ⟨p, s, halloc, -, -⟩ :=
    safe_alloc (run_safe (w := False) (fun _ _ hok => hok) hrun) 64 hok
  have hp : (kmemAlloc smallStart.heap 64).map Prod.fst = some 4144 := by decide +kernel
  rw [halloc] at hp
  refine ⟨p, s, halloc, Option.some.inj hp, fun x hx => ?_⟩
  obtain ⟨hlo, hhi, -⟩ := heap_writes_inside hrun hok (by rintro ⟨⟩) (.alloc halloc) hx
  exact ⟨hlo, hhi⟩

end KmemFootprint
