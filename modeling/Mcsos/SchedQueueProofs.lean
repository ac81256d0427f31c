import Mcsos.LinkedProofs
import Mcsos.SchedModel
import Mathlib.Data.List.Perm.Subperm

/-! # The ready list in memory

    `ReadyList s l` says that the intrusive list of a scheduler is `l`: the
    links run through `l`, the tail pointer is its last thread and the counter
    its length.  `mcsos_sched_enqueue` appends to `l` and
    `mcsos_sched_pick_next` takes its head.

    The counter does not wrap: the threads of a list are distinct addresses
    and none is null, so there are fewer than 2^64 of them. -/

namespace SchedQueue

open Word SchedModel LinkedChain

variable {s s' : SchedState} {l : List U64} {p q t : U64} {st : ThreadState}

/-! ## Fields after an update -/

@[simp] theorem setState_sched : (s.setState p st).sched = s.sched := rfl

@[simp] theorem setNext_sched : (s.setNext p q).sched = s.sched := rfl

/-- A write to one thread object. -/
theorem setThread_threads (v : Thread) :
    (s.setThread p v).threads q = if q = p then v else s.threads q := rfl

@[simp] theorem setState_state :
    ((s.setState p st).threads q).state = if q = p then st else (s.threads q).state := by
  simp only [SchedState.setState, setThread_threads]
  split <;> rfl

@[simp] theorem setState_next : ((s.setState p st).threads q).next = (s.threads q).next := by
  simp only [SchedState.setState, setThread_threads]
  split <;> rename_i h <;> simp [h]

@[simp] theorem setState_magic : ((s.setState p st).threads q).magic = (s.threads q).magic := by
  simp only [SchedState.setState, setThread_threads]
  split <;> rename_i h <;> simp [h]

@[simp] theorem setNext_state : ((s.setNext p t).threads q).state = (s.threads q).state := by
  simp only [SchedState.setNext, setThread_threads]
  split <;> rename_i h <;> simp [h]

@[simp] theorem setNext_next :
    ((s.setNext p t).threads q).next = if q = p then t else (s.threads q).next := by
  simp only [SchedState.setNext, setThread_threads]
  split <;> rfl

@[simp] theorem setNext_magic : ((s.setNext p t).threads q).magic = (s.threads q).magic := by
  simp only [SchedState.setNext, setThread_threads]
  split <;> rename_i h <;> simp [h]

/-- A counter of a thread is none of the fields the queue is made of. -/
theorem addSwitch_fields : ((s.addSwitch p).threads q).state = (s.threads q).state ∧
    ((s.addSwitch p).threads q).next = (s.threads q).next ∧
    ((s.addSwitch p).threads q).magic = (s.threads q).magic := by
  simp only [SchedState.addSwitch, setThread_threads]
  split <;> rename_i h <;> simp [h]

/-- Counting a tick leaves state, link and magic word. -/
theorem addTick_fields : ((s.addTick p).threads q).state = (s.threads q).state ∧
    ((s.addTick p).threads q).next = (s.threads q).next ∧
    ((s.addTick p).threads q).magic = (s.threads q).magic := by
  simp only [SchedState.addTick, setThread_threads]
  split <;> rename_i h <;> simp [h]

/-- A thread object is recognised by its magic word. -/
theorem valid_congr (h : (s'.threads p).magic = (s.threads p).magic) :
    validThreadObject s' p = validThreadObject s p := by
  simp only [validThreadObject, h]

/-- What makes a thread object valid. -/
theorem valid_iff : validThreadObject s p = true ↔
    p ≠ 0 ∧ (s.threads p).magic = MCSOS_THREAD_MAGIC := by
  rw [validThreadObject, Bool.and_eq_true, decide_eq_true_iff, beq_iff_eq]

/-- The check that every call starts with. -/
theorem ready_iff : ready s = true ↔
    s.sched.initialized = true ∧ validThreadObject s s.sched.current = true := by
  rw [ready, Bool.and_eq_true]

/-! ## `mcsos_thread_prepare` -/

/-- The stack that a thread is given passes the checks. -/
structure StackFits (stackBase stackSize : U64) : Prop where
  size : ¬ stackSize < MCSOS_MIN_KERNEL_STACK
  high : ¬ stackBase + stackSize ≤ stackBase
  top : ¬ alignDown (stackBase + stackSize) MCSOS_STACK_ALIGN ≤ stackBase + 128

/-- The thread object and the stack that a successful call leaves. -/
def prepared (tramp : U64) (s : SchedState) (p stackBase stackSize : U64) : SchedState :=
  let top := alignDown (stackBase + stackSize) MCSOS_STACK_ALIGN
  { s.setThread p
      { magic := MCSOS_THREAD_MAGIC, state := .new,
        context := { zeroContext with rsp := top - 8, rip := tramp },
        next := 0, switches := 0, ticks := 0 } with
    mem := ByteMemory.store64 s.mem (top - 8) 0 }

/-- A call with three arguments that are not null and a stack that fits succeeds. -/
theorem prepare_fits {tramp entry base size : U64} (hargs : ¬ (p = 0 ∨ entry = 0 ∨ base = 0))
    (h : StackFits base size) :
    mcsosThreadPrepare tramp s p entry base size = (.ok (), prepared tramp s p base size) := by
  rw [mcsosThreadPrepare, if_neg hargs, if_neg h.size]
  dsimp only
  rw [if_neg h.high, if_neg h.top]
  rfl

/-- **PREPARE**: a call is refused and changes nothing, or it makes a new thread object. -/
theorem prepare_cases (tramp : U64) (s : SchedState) (p entry base size : U64) :
    (∃ e, mcsosThreadPrepare tramp s p entry base size = (.error e, s)) ∨
    (p ≠ 0 ∧ StackFits base size ∧
      mcsosThreadPrepare tramp s p entry base size = (.ok (), prepared tramp s p base size)) := by
  rw [mcsosThreadPrepare]
  split <;> rename_i hargs
  · exact .inl ⟨_, rfl⟩
  split <;> rename_i hsize
  · exact .inl ⟨_, rfl⟩
  dsimp only
  split <;> rename_i hhigh
  · exact .inl ⟨_, rfl⟩
  split <;> rename_i htop
  · exact .inl ⟨_, rfl⟩
  · exact .inr ⟨fun hp => hargs (Or.inl hp), ⟨hsize, hhigh, htop⟩, rfl⟩

/-- A call that succeeds has made the new thread object. -/
theorem prepare_ok {tramp entry base size : U64}
    (h : mcsosThreadPrepare tramp s p entry base size = (.ok (), s')) :
    p ≠ 0 ∧ s' = prepared tramp s p base size := by
  rcases prepare_cases tramp s p entry base size with ⟨e, heq⟩ | ⟨hp, -, heq⟩
  · rw [heq] at h
    cases h
  · rw [heq] at h
    exact ⟨hp, (Prod.mk.inj h).2.symm⟩

/-- The new object is a thread in state NEW; the queue and the other threads stay as they are. -/
theorem prepared_threads (tramp base size : U64) :
    (prepared tramp s p base size).sched = s.sched ∧
    ((prepared tramp s p base size).threads p).magic = MCSOS_THREAD_MAGIC ∧
    ((prepared tramp s p base size).threads p).state = .new ∧
    ∀ r, r ≠ p → (prepared tramp s p base size).threads r = s.threads r := by
  refine ⟨rfl, ?_, ?_, fun r hr => if_neg hr⟩
  · exact congrArg Thread.magic (if_pos rfl)
  · exact congrArg Thread.state (if_pos rfl)

/-! ## The list -/

/-- The ready list of `s` is `l`. -/
structure ReadyList (s : SchedState) (l : List U64) : Prop where
  linked : Linked (fun p => (s.threads p).next) 0 s.sched.readyHead l
  tail : s.sched.readyTail = l.getLast?.getD 0
  count : s.sched.runnableCount.toNat = l.length

/-- The null pointer is not in the list. -/
theorem ReadyList.ne_zero (h : ReadyList s l) (hp : p ∈ l) : p ≠ 0 := linked_ne_null h.linked hp

/-- No thread is in the list twice. -/
theorem ReadyList.nodup (h : ReadyList s l) : l.Nodup := linked_nodup h.linked

/-- Distinct addresses other than null are fewer than there are addresses. -/
theorem length_lt_of_nodup (hnodup : l.Nodup) (hzero : (0 : U64) ∉ l) : l.length < 2 ^ 64 := by
  have hdistinct : ((0 :: l).map BitVec.toNat).Nodup :=
    (List.nodup_cons.mpr ⟨hzero, hnodup⟩).map (fun _ _ h => BitVec.eq_of_toNat_eq h)
  have hsub : (0 :: l).map BitVec.toNat ⊆ List.range (2 ^ 64) := by
    intro n hn
    obtain ⟨x, -, rfl⟩ := List.mem_map.mp hn
    exact List.mem_range.mpr x.isLt
  have hlen := (List.subperm_of_subset hdistinct hsub).length_le
  rw [List.length_map, List.length_range, List.length_cons] at hlen
  exact hlen

/-- Only the links, the ends and the counter matter to the list. -/
theorem ReadyList.congr (h : ReadyList s l)
    (hnext : ∀ p, (s'.threads p).next = (s.threads p).next)
    (hhead : s'.sched.readyHead = s.sched.readyHead)
    (htail : s'.sched.readyTail = s.sched.readyTail)
    (hcount : s'.sched.runnableCount = s.sched.runnableCount) : ReadyList s' l where
  linked := by
    rw [hhead]
    exact linked_congr h.linked (fun p _ => hnext p)
  tail := htail.trans h.tail
  count := (congrArg BitVec.toNat hcount).trans h.count

/-- The tail is null only for the empty list. -/
theorem ReadyList.tail_eq_zero_iff (h : ReadyList s l) : s.sched.readyTail = 0 ↔ l = [] := by
  rw [h.tail]
  cases hl : l.getLast? with
  | none => exact iff_of_true rfl (List.getLast?_eq_none_iff.mp hl)
  | some y =>
      have hy := List.mem_of_getLast? hl
      exact iff_of_false (h.ne_zero hy) (List.ne_nil_of_mem hy)

/-! ## Appending -/

/-- The first thread of an empty queue. -/
theorem appendReady_first (hz : s.sched.readyTail = 0) : appendReady s p =
    { (s.setState p .ready).setNext p 0 with
      sched := { s.sched with
        readyHead := p, readyTail := p, runnableCount := s.sched.runnableCount + 1 } } := by
  simp only [appendReady]
  rw [if_pos (show ((s.setState p .ready).setNext p 0).sched.readyTail = 0 from hz)]
  rfl

/-- A thread behind the tail. -/
theorem appendReady_behind (hz : s.sched.readyTail ≠ 0) : appendReady s p =
    { ((s.setState p .ready).setNext p 0).setNext s.sched.readyTail p with
      sched := { s.sched with
        readyTail := p, runnableCount := s.sched.runnableCount + 1 } } := by
  simp only [appendReady]
  rw [if_neg (show ((s.setState p .ready).setNext p 0).sched.readyTail ≠ 0 from hz)]
  rfl

/-- The thread is ready, and the others keep their state. -/
theorem appendReady_state :
    ((appendReady s p).threads q).state = if q = p then .ready else (s.threads q).state := by
  by_cases hz : s.sched.readyTail = 0
  · rw [appendReady_first hz]
    simp
  · rw [appendReady_behind hz]
    simp

/-- No magic word changes. -/
theorem appendReady_magic : ((appendReady s p).threads q).magic = (s.threads q).magic := by
  by_cases hz : s.sched.readyTail = 0
  · rw [appendReady_first hz]
    simp
  · rw [appendReady_behind hz]
    simp

/-- The links after an append: the new thread ends the list and hangs behind the old tail. -/
theorem appendReady_next (hp : s.sched.readyTail ≠ p) :
    ((appendReady s p).threads q).next = if q = p then 0
      else if s.sched.readyTail ≠ 0 ∧ q = s.sched.readyTail then p else (s.threads q).next := by
  by_cases hz : s.sched.readyTail = 0
  · have hno : ¬ (s.sched.readyTail ≠ 0 ∧ q = s.sched.readyTail) := fun h => h.1 hz
    rw [appendReady_first hz, if_neg hno]
    simp
  · rw [appendReady_behind hz]
    simp only [setNext_next, setState_next]
    by_cases hq : q = p
    · have hne : p ≠ s.sched.readyTail := Ne.symm hp
      rw [hq, if_neg hne, if_pos rfl, if_pos rfl]
    · simp only [if_neg hq, and_iff_right (show s.sched.readyTail ≠ 0 from hz)]

/-- The scheduler's fields afterwards. -/
theorem appendReady_sched : (appendReady s p).sched =
    { s.sched with
      readyHead := if s.sched.readyTail = 0 then p else s.sched.readyHead
      readyTail := p
      runnableCount := s.sched.runnableCount + 1 } := by
  by_cases hz : s.sched.readyTail = 0
  · rw [appendReady_first hz, if_pos hz]
  · rw [appendReady_behind hz, if_neg hz]

/-- A thread that is not in the list is not its tail. -/
theorem ReadyList.tail_ne (h : ReadyList s l) (hp : p ≠ 0) (hfresh : p ∉ l) :
    s.sched.readyTail ≠ p := by
  rw [h.tail]
  cases hl : l.getLast? with
  | none => exact hp.symm
  | some y =>
      rintro rfl
      exact hfresh (List.mem_of_getLast? hl)

/-- The links behind an append. -/
theorem ReadyList.append_linked (h : ReadyList s l) (hp : p ≠ 0) (hfresh : p ∉ l) :
    Linked (fun x => ((appendReady s p).threads x).next) 0
      (if l = [] then p else s.sched.readyHead) (l ++ [p]) := by
  have htail := h.tail_ne hp hfresh
  refine linked_concat h.linked hp hfresh ?_ ?_ ?_
  · simp only [appendReady_next htail, if_pos]
  · intro y hy
    have hyl := List.mem_of_getLast? hy
    have heq : s.sched.readyTail = y := by rw [h.tail, hy]; rfl
    have hne : y ≠ p := fun hc => hfresh (hc ▸ hyl)
    simp only [appendReady_next htail, heq, if_neg hne]
    exact if_pos ⟨h.ne_zero hyl, trivial⟩
  · intro y hyl hlast
    have hne : y ≠ p := fun hc => hfresh (hc ▸ hyl)
    simp only [appendReady_next htail, if_neg hne]
    refine if_neg ?_
    rintro ⟨hnz, heq⟩
    -- a tail that is not null is the last thread of the list
    rw [h.tail] at hnz heq
    cases hl : l.getLast? with
    | none => exact hnz (by rw [hl]; rfl)
    | some z =>
        rw [hl] at heq
        exact hlast (by rw [hl, heq]; rfl)

/-- **ENQUEUE APPENDS**: a thread that is not queued comes last in the list. -/
theorem ReadyList.append (h : ReadyList s l) (hp : p ≠ 0) (hfresh : p ∉ l) :
    ReadyList (appendReady s p) (l ++ [p]) := by
  have hlink := h.append_linked hp hfresh
  have hlen : (l ++ [p]).length < 2 ^ 64 :=
    length_lt_of_nodup (linked_nodup hlink) (fun hz => linked_ne_null hlink hz rfl)
  constructor
  · rw [appendReady_sched]
    simp only [h.tail_eq_zero_iff]
    exact hlink
  · rw [appendReady_sched]
    simp
  · rw [appendReady_sched]
    show (s.sched.runnableCount + 1).toNat = _
    have hcount := h.count
    rw [List.length_append, List.length_singleton] at hlen ⊢
    bv_omega

/-! ## Taking the head -/

/-- Taking a thread keeps every state. -/
theorem popReady_state : ((popReady s t).threads q).state = (s.threads q).state := by
  simp only [popReady]
  split <;> split <;> simp

/-- Taking a thread keeps every magic word. -/
theorem popReady_magic : ((popReady s t).threads q).magic = (s.threads q).magic := by
  simp only [popReady]
  split <;> split <;> simp

/-- Taking a thread clears its link. -/
theorem popReady_next :
    ((popReady s t).threads q).next = if q = t then 0 else (s.threads q).next := by
  simp only [popReady]
  split <;> split <;> simp

/-- The scheduler's fields afterwards. -/
theorem popReady_sched (hpos : 0 < s.sched.runnableCount) : (popReady s t).sched =
    { s.sched with
      readyHead := (s.threads t).next
      readyTail := if (s.threads t).next = 0 then 0 else s.sched.readyTail
      runnableCount := s.sched.runnableCount - 1 } := by
  by_cases hz : (s.threads t).next = 0
  · simp only [popReady, if_pos hz, setNext_sched, if_pos hpos]
  · simp only [popReady, if_neg hz, setNext_sched, if_pos hpos]

/-- A list with a thread in it is counted as such. -/
theorem ReadyList.count_pos (h : ReadyList s (t :: l)) : 0 < s.sched.runnableCount := by
  have hcount := h.count
  rw [List.length_cons] at hcount
  bv_omega

/-- **PICKING TAKES THE HEAD**: the rest of the list stays as it is. -/
theorem ReadyList.pop (h : ReadyList s (t :: l)) : ReadyList (popReady s t) l := by
  -- the thread's own link is cleared, which is none of the rest's
  have hrest : Linked (fun p => ((popReady s t).threads p).next) 0 (s.threads t).next l := by
    refine linked_tail h.linked (fun y hy => ?_)
    rw [popReady_next, if_neg hy]
  have hcount := h.count
  rw [List.length_cons] at hcount
  constructor
  · rw [popReady_sched h.count_pos]
    exact hrest
  · rw [popReady_sched h.count_pos]
    show (if (s.threads t).next = 0 then 0 else s.sched.readyTail) = _
    cases l with
    | nil => exact if_pos hrest
    | cons y m =>
        rw [if_neg (hrest.1 ▸ hrest.2.1), h.tail, List.getLast?_cons_cons]
  · rw [popReady_sched h.count_pos]
    show (s.sched.runnableCount - 1).toNat = _
    bv_omega

/-! ## Picking and switching -/

/-- The parts of the state that taking a thread off the list leaves alone. -/
structure Kept (s s' : SchedState) : Prop where
  state : ∀ p, (s'.threads p).state = (s.threads p).state
  magic : ∀ p, (s'.threads p).magic = (s.threads p).magic
  current : s'.sched.current = s.sched.current
  idle : s'.sched.idle = s.sched.idle
  initialized : s'.sched.initialized = s.sched.initialized

/-- `mcsos_sched_pick_next` returns the head of the list, or the idle thread. -/
theorem pickNext_spec (h : ReadyList s l) (hinit : s.sched.initialized = true) :
    ∃ s', mcsosSchedPickNext s = (l.headD s.sched.idle, s') ∧ ReadyList s' l.tail ∧ Kept s s' := by
  rw [mcsosSchedPickNext, hinit]
  cases l with
  | nil =>
      have hhead : s.sched.readyHead = 0 := h.linked
      refine ⟨s, ?_, h, ⟨fun _ => rfl, fun _ => rfl, rfl, rfl, rfl⟩⟩
      rw [if_neg (by decide), if_pos hhead]
      rfl
  | cons t l =>
      have hhead : s.sched.readyHead = t := h.linked.1
      refine ⟨popReady s t, ?_, h.pop, ?_⟩
      · rw [hhead, if_neg (by decide), if_neg h.linked.2.1]
        rfl
      · have hsched := popReady_sched (t := t) h.count_pos
        exact ⟨fun _ => popReady_state, fun _ => popReady_magic, by rw [hsched], by rw [hsched],
          by rw [hsched]⟩

/-- A switch marks the next thread as running and counts; it moves nothing in the list. -/
theorem switchTo_fields :
    ((switchTo s p t).threads q).state = (if q = t then .running else (s.threads q).state) ∧
      ((switchTo s p t).threads q).next = (s.threads q).next ∧
      ((switchTo s p t).threads q).magic = (s.threads q).magic := by
  let r : SchedState := { s.setState t .running with sched := { s.sched with current := t } }
  obtain ⟨h1, h2, h3⟩ := addSwitch_fields (s := r) (p := p) (q := q)
  obtain ⟨g1, g2, g3⟩ := addSwitch_fields (s := r.addSwitch p) (p := t) (q := q)
  exact ⟨(g1.trans h1).trans setState_state, (g2.trans h2).trans setState_next,
    (g3.trans h3).trans setState_magic⟩

/-! ## Walking the list -/

/-- The loop counts the threads of the list. -/
theorem countLoop_linked :
    ∀ (l : List U64) (c n : U64) (rounds : Nat),
      Linked (fun p => (s.threads p).next) 0 c l → l.length < rounds →
      countLoop s rounds c n = some (n + BitVec.ofNat 64 l.length) := by
  intro l
  induction l with
  | nil =>
      intro c n rounds hlink hr
      obtain ⟨k, rfl⟩ : ∃ k, rounds = k + 1 := ⟨rounds - 1, by omega⟩
      rw [countLoop, if_pos (show c = 0 from hlink)]
      simp
  | cons x l ih =>
      intro c n rounds hlink hr
      rw [List.length_cons] at hr
      obtain ⟨k, rfl⟩ : ∃ k, rounds = k + 1 := ⟨rounds - 1, by omega⟩
      obtain ⟨rfl, hx, hrest⟩ := hlink
      rw [countLoop, if_neg hx, ih _ _ _ hrest (by omega), List.length_cons]
      congr 1
      bv_omega

/-- The walk of `mcsos_sched_validate` over a list in order reaches its end. -/
theorem validateLoop_linked (htail : s.sched.readyTail = q)
    (hwf : ∀ x ∈ l, validThreadObject s x = true ∧ (s.threads x).state = .ready ∧
      x ≠ s.sched.current) :
    ∀ (c last count : U64) (rounds : Nat),
      Linked (fun p => (s.threads p).next) 0 c l → l.length < rounds →
      l.getLast?.getD last = q → s.sched.runnableCount.toNat = count.toNat + l.length →
      s.sched.runnableCount.toNat + 1 < 2 ^ 64 →
      validateLoop s rounds c last count = some (.ok ()) := by
  induction l with
  | nil =>
      intro c last count rounds hlink hr hlast hcount _
      obtain ⟨k, rfl⟩ : ∃ k, rounds = k + 1 := ⟨rounds - 1, by omega⟩
      have heq : count = s.sched.runnableCount := BitVec.eq_of_toNat_eq hcount.symm
      have hlast' : last = s.sched.readyTail := by rw [htail]; exact hlast
      rw [validateLoop, if_pos (show c = 0 from hlink), if_neg (not_not.mpr hlast'),
        if_neg (not_not.mpr heq)]
  | cons x l ih =>
      intro c last count rounds hlink hr hlast hcount hsmall
      rw [List.length_cons] at hr hcount
      obtain ⟨k, rfl⟩ : ∃ k, rounds = k + 1 := ⟨rounds - 1, by omega⟩
      obtain ⟨rfl, hx, hrest⟩ := hlink
      obtain ⟨hvalid, hready, hcur⟩ := hwf c (List.mem_cons_self ..)
      -- the guard against a cycle allows one round more than there are threads
      have hbound : ¬ s.sched.runnableCount + 1 < count + 1 := by bv_omega
      rw [validateLoop, if_neg hx, if_neg (by simp [hvalid, hready]), if_neg hcur, if_neg hbound]
      refine ih (fun y hy => hwf y (List.mem_cons_of_mem c hy)) _ _ _ _ hrest (by omega) ?_
        (by bv_omega) hsmall
      rw [← hlast, List.getLast?_cons]
      rfl

/-- Counting the list ends, with its length. -/
theorem ReadyList.readyCount (h : ReadyList s l) (hinit : s.sched.initialized = true) :
    mcsosSchedReadyCount s = some (BitVec.ofNat 64 l.length) := by
  rw [mcsosSchedReadyCount, hinit, if_neg (by decide), countLoop_linked _ _ _ _ h.linked]
  · simp
  · exact length_lt_of_nodup h.nodup (fun hz => h.ne_zero hz rfl)

/-- A list of valid READY threads other than the current one passes. -/
theorem ReadyList.validate (h : ReadyList s l) (hready : SchedModel.ready s = true)
    (hwf : ∀ x ∈ l, validThreadObject s x = true ∧ (s.threads x).state = .ready ∧
      x ≠ s.sched.current) : mcsosSchedValidate s = some (.ok ()) := by
  have hcurrent : validThreadObject s s.sched.current = true := by
    rw [SchedModel.ready] at hready
    exact (Bool.and_eq_true_iff.mp hready).2
  -- the list, the null pointer and the current thread are different addresses
  have hlen : (s.sched.current :: l).length < 2 ^ 64 := by
    refine length_lt_of_nodup (List.nodup_cons.mpr ⟨?_, h.nodup⟩) ?_
    · intro hmem
      exact (hwf _ hmem).2.2 rfl
    · intro hz
      rcases List.mem_cons.mp hz with hz | hz
      · exact (valid_iff.mp hcurrent).1 hz.symm
      · exact h.ne_zero hz rfl
  have hcount := h.count
  rw [List.length_cons] at hlen
  rw [mcsosSchedValidate, hready, if_neg (by decide)]
  refine validateLoop_linked h.tail hwf _ _ _ _ h.linked ?_ rfl ?_ ?_
  · show l.length < 2 ^ 64
    omega
  · rw [hcount]
    simp
  · omega

end SchedQueue
