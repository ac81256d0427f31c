import Mcsos.MachineProofs
import Mcsos.SchedRefinementProofs

/-! # The ready queue over whole runs

    A run starts with `mcsos_scheduler_init`, prepares any number of distinct
    threads, each once, and calls the scheduler in any order.  A call names the
    boot thread, a prepared thread, or something that is no thread object; the
    one thing asked of the caller is not to enqueue a thread that is READY.

    Every such run stays a run queue, so that no thread is lost or doubled. -/

namespace SchedInvariant

open Word SchedModel LinkedChain SchedQueue RunQueue SchedRefinement

/-- The calls on the scheduler. -/
inductive SchedOp where
  | enqueue (p : U64)
  | yield
  | tick
  | blockCurrent
  | markReady (p : U64)
deriving DecidableEq, Repr

/-- One call. -/
def schedStep (s : SchedState) : SchedOp → SchedResult × SchedState
  | .enqueue p => mcsosSchedEnqueue s p
  | .yield => mcsosSchedYield s
  | .tick => mcsosSchedTick s
  | .blockCurrent => mcsosThreadBlockCurrent s
  | .markReady p => mcsosThreadMarkReady s p

/-- The calls a run may make. -/
def Admissible (boot : U64) (known : List U64) (s : SchedState) : SchedOp → Prop
  | .enqueue p =>
      (p ∈ boot :: known ∧ (s.threads p).state ≠ .ready) ∨ validThreadObject s p = false
  | .markReady p => p ∈ boot :: known ∨ validThreadObject s p = false
  | .yield | .tick | .blockCurrent => True

/-- The thread a call has enqueued, by its answer. -/
def enqueued : SchedOp → SchedResult → List U64
  | .enqueue p, .ok () => [p]
  | .markReady p, .ok () => [p]
  | _, _ => []

/-- The states of runs, with the threads prepared and those enqueued so far. -/
inductive SchedReach (boot : U64) : List U64 → List U64 → SchedState → Prop where
  | init {s : SchedState} (hok : (mcsosSchedulerInit s boot).1 = .ok ()) :
      SchedReach boot [] [] (mcsosSchedulerInit s boot).2
  | prepare {known queued : List U64} {s : SchedState} (h : SchedReach boot known queued s)
      (tramp p entry base size : U64) (hboot : p ≠ boot) (honce : p ∉ known)
      (hok : (mcsosThreadPrepare tramp s p entry base size).1 = .ok ()) :
      SchedReach boot (p :: known) queued (mcsosThreadPrepare tramp s p entry base size).2
  | step {known queued : List U64} {s : SchedState} (h : SchedReach boot known queued s)
      (op : SchedOp) (hop : Admissible boot known s op) :
      SchedReach boot known (enqueued op (schedStep s op).1 ++ queued) (schedStep s op).2

variable {boot p : U64} {known queued l : List U64} {s : SchedState} {a : Tasks U64} {op : SchedOp}

/-- Where a thread that was enqueued is: it runs, waits in the list, or is blocked. -/
def Placed (s : SchedState) (l : List U64) (p : U64) : Prop :=
  match (s.threads p).state with
  | .running => p = s.sched.current ∧ p ∉ l
  | .ready => l.count p = 1 ∧ p ≠ s.sched.current
  | .blocked => p ∉ l ∧ p ≠ s.sched.current
  | .new | .zombie => False

/-- `l` is the ready list of `s`, and it is in order. -/
structure WellQueued (boot : U64) (known queued : List U64) (s : SchedState) (l : List U64) :
    Prop where
  linked : Linked (fun p => (s.threads p).next) 0 s.sched.readyHead l
  nodup : l.Nodup
  ready : ∀ p, p ∈ l ↔ p ∈ boot :: known ∧ (s.threads p).state = .ready
  tail : s.sched.readyTail = l.getLast?.getD 0
  count : s.sched.runnableCount.toNat = l.length
  current : s.sched.current ∉ l
  idle : s.sched.idle ∉ l
  placed : ∀ p ∈ queued, Placed s l p
  validate : mcsosSchedValidate s = some (.ok ())

/-! ## One call -/

/-- What a call does to the run queue: no thread becomes fresh again, and one
    that was enqueued is not. -/
structure StepsTo (known queued : List U64) (s : SchedState) (a : Tasks U64) : Prop where
  refines : Refines known s a
  alive : ∀ p ∈ queued, p ∈ known ∧ phase a p ≠ .fresh

/-- A call that leaves no thread fresh. -/
theorem StepsTo.congr {a' : Tasks U64} {s' : SchedState} (h : StepsTo known queued s a)
    (hrefines : Refines known s' a')
    (hphase : ∀ p, phase a p ≠ .fresh → phase a' p ≠ .fresh) : StepsTo known queued s' a' :=
  ⟨hrefines, fun p hp => ⟨(h.alive p hp).1, hphase p (h.alive p hp).2⟩⟩

/-- No thread becomes fresh by a yield. -/
theorem fresh_yield (h : phase a p ≠ .fresh) : phase (yield a) p ≠ .fresh := by
  rw [phase_yield]
  split <;> [skip; split] <;> first | exact h | (intro hc; cases hc)

/-- No thread becomes fresh by blocking. -/
theorem fresh_block (hci : a.current ≠ a.idle) (h : phase a p ≠ .fresh) :
    phase (block a hci) p ≠ .fresh := by
  rw [phase_block]
  split <;> [skip; split] <;> first | exact h | (intro hc; cases hc)

/-- No thread becomes fresh by being queued. -/
theorem fresh_join {r : U64} (hrun : phase a r ≠ .running) (hready : phase a r ≠ .ready)
    (h : phase a p ≠ .fresh) : phase (join a r hrun hready) p ≠ .fresh := by
  rw [phase_join]
  split <;> first | exact h | (intro hc; cases hc)

/-- Whether a call handed the processor on, by its answer. -/
def handsOn : SchedOp → SchedResult → Bool
  | .yield, .ok () => true
  | .blockCurrent, .ok () => true
  | _, _ => false

/-- Enqueueing a known thread that is not ready keeps the run queue. -/
theorem enqueue_steps (h : StepsTo known queued s a) (hp : p ∈ a.idle :: known)
    (hready : phase a p ≠ .ready) :
    ∃ a', Move a false a' ∧ StepsTo known
      (enqueued (.enqueue p) (mcsosSchedEnqueue s p).1 ++ queued) (mcsosSchedEnqueue s p).2 a' := by
  rcases enqueue_cases h.refines hp hready with ⟨-, heq⟩ | ⟨hrun, hk, heq, hrefines⟩
  · rw [heq]
    exact ⟨a, .keep, h⟩
  · rw [heq]
    refine ⟨join a p hrun hready, .join p hrun hready, hrefines, ?_⟩
    intro r hr
    rcases List.mem_cons.mp hr with rfl | hr
    · refine ⟨hk, ?_⟩
      rw [phase_join, if_pos rfl]
      intro hc
      cases hc
    · exact ⟨(h.alive r hr).1, fresh_join hrun hready (h.alive r hr).2⟩

/-- **ONE CALL** is a move of the run queue. -/
theorem step_steps (h : StepsTo known queued s a) (hop : Admissible a.idle known s op) :
    ∃ a', Move a (handsOn op (schedStep s op).1) a' ∧
      StepsTo known (enqueued op (schedStep s op).1 ++ queued) (schedStep s op).2 a' := by
  cases op with
  | yield =>
      obtain ⟨s', heq, hrefines⟩ := yield_refines h.refines
      show ∃ a', Move a (handsOn .yield (mcsosSchedYield s).1) a' ∧
        StepsTo known (enqueued .yield (mcsosSchedYield s).1 ++ queued) (mcsosSchedYield s).2 a'
      rw [heq]
      exact ⟨yield a, .yield, h.congr hrefines (fun _ => fresh_yield)⟩
  | tick => exact ⟨a, .keep, h.congr (tick_refines h.refines) (fun _ => id)⟩
  | blockCurrent =>
      show ∃ a', Move a (handsOn .blockCurrent (mcsosThreadBlockCurrent s).1) a' ∧
        StepsTo known (enqueued .blockCurrent (mcsosThreadBlockCurrent s).1 ++ queued)
          (mcsosThreadBlockCurrent s).2 a'
      rcases block_refines h.refines with ⟨-, heq⟩ | ⟨hci, s', heq, hrefines⟩
      · rw [heq]
        exact ⟨a, .keep, h⟩
      · rw [heq]
        exact ⟨block a hci, .block hci, h.congr hrefines (fun _ => fresh_block hci)⟩
  | enqueue p =>
      rcases hop with ⟨hp, hstate⟩ | hinvalid
      · exact enqueue_steps h hp
          (fun hc => hstate ((h.refines.state_iff hp .ready).mpr hc))
      · have heq : mcsosSchedEnqueue s p = (.error .einval, s) := by
          rw [mcsosSchedEnqueue, hinvalid, h.refines.initialized]
          rfl
        show ∃ a', Move a false a' ∧
          StepsTo known (enqueued (.enqueue p) (mcsosSchedEnqueue s p).1 ++ queued)
            (mcsosSchedEnqueue s p).2 a'
        rw [heq]
        exact ⟨a, .keep, h⟩
  | markReady p =>
      show ∃ a', Move a false a' ∧
        StepsTo known (enqueued (.markReady p) (mcsosThreadMarkReady s p).1 ++ queued)
          (mcsosThreadMarkReady s p).2 a'
      rcases hop with hp | hinvalid
      · rw [markReady_eq h.refines hp]
        by_cases hb : phase a p = .blocked
        · -- a blocked thread is enqueued, and `enqueued` counts the call alike
          rw [if_pos hb]
          have hready : phase a p ≠ .ready := by rw [hb]; intro hc; cases hc
          obtain ⟨a', hmove, hsteps⟩ := enqueue_steps h hp hready
          refine ⟨a', hmove, ?_⟩
          cases hres : (mcsosSchedEnqueue s p).1 with
          | ok u => rw [hres] at hsteps; exact hsteps
          | error e => rw [hres] at hsteps; exact hsteps
        · rw [if_neg hb]
          exact ⟨a, .keep, h⟩
      · have heq : mcsosThreadMarkReady s p = (.error .einval, s) := by
          rw [mcsosThreadMarkReady, hinvalid]
          rfl
        rw [heq]
        exact ⟨a, .keep, h⟩

/-! ## Whole runs -/

/-- Every run is a run of the run queue. -/
theorem reach_steps (h : SchedReach boot known queued s) :
    boot ∉ known ∧ ∃ a, a.idle = boot ∧ StepsTo known queued s a := by
  induction h with
  | init hok =>
      refine ⟨List.not_mem_nil, start boot, rfl, init_refines (Prod.ext hok rfl), ?_⟩
      intro p hp
      cases hp
  | prepare _ tramp p entry base size hboot honce hok ih =>
      obtain ⟨hout, a, hidle, hsteps⟩ := ih
      have hrefines := prepare_refines hsteps.refines (hidle ▸ hboot) honce (Prod.ext hok rfl)
      refine ⟨?_, a, hidle, hrefines, ?_⟩
      · intro hmem
        rcases List.mem_cons.mp hmem with heq | hk
        · exact hboot heq.symm
        · exact hout hk
      · intro r hr
        exact ⟨List.mem_cons_of_mem _ (hsteps.alive r hr).1, (hsteps.alive r hr).2⟩
  | step _ op hop ih =>
      obtain ⟨hout, a, hidle, hsteps⟩ := ih
      -- the call is a move of the run queue, which keeps idle
      obtain ⟨a', hmove, hsteps'⟩ := step_steps hsteps (hidle ▸ hop)
      exact ⟨hout, a', hmove.idle.trans hidle, hsteps'⟩

/-- An enqueued thread is in one place. -/
theorem placed_of_steps (h : StepsTo known queued s a) (hout : a.idle ∉ known) (hp : p ∈ queued) :
    Placed s a.ready p := by
  obtain ⟨hk, hfresh⟩ := h.alive p hp
  rw [Placed, h.refines.state p (List.mem_cons_of_mem _ hk), h.refines.current]
  -- the boot thread is never enqueued, so a running thread is the current one
  have hidle : p ≠ a.idle := fun hc => hout (hc ▸ hk)
  cases hph : phase a p with
  | fresh => exact absurd hph hfresh
  | running =>
      have hcur : p = a.current := (phase_running_iff.mp hph).resolve_left hidle
      exact ⟨hcur, hcur ▸ a.current_ready⟩
  | ready =>
      have hmem := phase_ready_iff.mp hph
      refine ⟨List.count_eq_one_of_mem a.nodup hmem, ?_⟩
      rintro rfl
      exact a.current_ready hmem
  | blocked =>
      have hmem := phase_blocked_iff.mp hph
      refine ⟨fun hr => a.apart p hr hmem, ?_⟩
      rintro rfl
      exact a.current_blocked hmem

/-- **THE READY QUEUE IS IN ORDER** in every state of every run: the list is
    the READY threads, each once, without the current and the idle thread, and
    no thread that was ever enqueued is lost. -/
theorem sched_queue_invariant (h : SchedReach boot known queued s) :
    ∃ l, WellQueued boot known queued s l := by
  obtain ⟨hout, a, rfl, hsteps⟩ := reach_steps h
  have hr := hsteps.refines
  refine ⟨a.ready, hr.list.linked, a.nodup, ?_, hr.list.tail, hr.list.count, ?_, ?_,
    fun p hp => placed_of_steps hsteps hout hp, validate_refines hr⟩
  · intro p
    constructor
    · intro hp
      have hk := List.mem_cons_of_mem a.idle (hr.ready_known p hp)
      exact ⟨hk, (hr.state_iff hk .ready).mpr (phase_ready_iff.mpr hp)⟩
    · rintro ⟨hk, hstate⟩
      exact phase_ready_iff.mp ((hr.state_iff hk .ready).mp hstate)
  · rw [hr.current]
    exact a.current_ready
  · rw [hr.idle]
    exact a.idle_ready

/-- Memory before the scheduler is set up. -/
def blankState : SchedState where
  sched := ⟨0, 0, 0, 0, 0, 0, 0, false⟩
  threads := fun _ => ⟨0, .new, zeroContext, 0, 0, 0⟩
  mem := fun _ => 0

/-- A boot thread at address 1 and two prepared threads. -/
def twoThreads : SchedState :=
  (mcsosThreadPrepare 16 (mcsosThreadPrepare 16 (mcsosSchedulerInit blankState 1).2
    2 32 0x10000 0x1000).2 3 32 0x20000 0x1000).2

/-- The two threads are prepared after the boot. -/
theorem reach_twoThreads : SchedReach 1 [3, 2] [] twoThreads :=
  .prepare (.prepare (.init (by decide +kernel)) 16 2 32 0x10000 0x1000 (by decide) (by decide)
    (by decide +kernel)) 16 3 32 0x20000 0x1000 (by decide) (by decide) (by decide +kernel)

/-- Both are enqueued, the first runs, blocks, and is woken again. -/
def wakeOps : List SchedOp := [.enqueue 2, .enqueue 3, .yield, .blockCurrent, .markReady 2]

/-- Both threads are in order after that. -/
theorem sched_queue_invariant_wake :
    ∃ queued l, 2 ∈ queued ∧ 3 ∈ queued ∧
      WellQueued 1 [3, 2] queued (Machine.exec schedStep twoThreads wakeOps) l := by
  have h1 := SchedReach.step reach_twoThreads (.enqueue 2) (Or.inl (by decide +kernel))
  have h2 := h1.step (.enqueue 3) (Or.inl (by decide +kernel))
  have h3 := h2.step .yield trivial
  have h4 := h3.step .blockCurrent trivial
  have h5 := h4.step (.markReady 2) (Or.inl (by decide))
  obtain ⟨l, hl⟩ := sched_queue_invariant h5
  exact ⟨_, l, by decide +kernel, by decide +kernel, hl⟩

end SchedInvariant
