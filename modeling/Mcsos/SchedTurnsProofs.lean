import Mcsos.SchedInvariantProofs

/-! # Turns

    A turn is a call that hands the processor on: a yield or a block that
    succeeds.  Every other call leaves the ready list in place or adds to its
    end, so after a run the list is the old one with as many threads dropped as
    there were turns, and something behind (`run_steps`).  That is the whole of
    FIFO: a thread's turn is its position.

    The idle thread has its turn when the list is empty.  A yield picks the next
    thread before it puts the outgoing one in the list, so a thread that yields
    alone leaves the processor to the idle thread and is ready all the same. -/

namespace SchedTurns

open Word SchedModel LinkedChain SchedQueue RunQueue SchedRefinement SchedInvariant

variable {boot : U64} {known queued l : List U64} {s : SchedState} {a : Tasks U64}
  {ops : List SchedOp} {op : SchedOp}

/-- The turns of a run. -/
def turns : SchedState → List SchedOp → Nat
  | _, [] => 0
  | s, op :: ops => (handsOn op (schedStep s op).1).toNat + turns (schedStep s op).2 ops

/-- Every call of the run may be made where it is made. -/
def AdmissibleRun (boot : U64) (known : List U64) : SchedState → List SchedOp → Prop
  | _, [] => True
  | s, op :: ops => Admissible boot known s op ∧ AdmissibleRun boot known (schedStep s op).2 ops

/-- **THE QUEUE AFTER A RUN** is the old one without those who had their turn,
    and others behind. -/
theorem run_steps (h : StepsTo known queued s a) (hops : AdmissibleRun a.idle known s ops) :
    ∃ queued' a', a'.idle = a.idle ∧ StepsTo known queued' (Machine.exec schedStep s ops) a' ∧
      a.ready.drop (turns s ops) <+: a'.ready := by
  induction ops generalizing s queued a with
  | nil => exact ⟨queued, a, rfl, h, List.prefix_refl _⟩
  | cons op ops ih =>
      obtain ⟨hop, hrest⟩ := hops
      obtain ⟨a₁, hmove, hsteps⟩ := step_steps h hop
      obtain ⟨queued', a', hidle, hsteps', hbefore⟩ := ih hsteps (hmove.idle ▸ hrest)
      refine ⟨queued', a', hidle.trans hmove.idle, hsteps', ?_⟩
      have hdrop := hmove.ready.drop (turns (schedStep s op).2 ops)
      rw [List.drop_drop] at hdrop
      exact hdrop.trans hbefore

/-- A call that hands the processor on gives it to the first in the list, or to
    the idle thread. -/
theorem step_current (h : StepsTo known queued s a) (hop : Admissible a.idle known s op)
    (hturn : handsOn op (schedStep s op).1 = true) :
    (schedStep s op).2.sched.current = successor a := by
  obtain ⟨a', hmove, hsteps⟩ := step_steps h hop
  rw [hsteps.refines.current, hmove.current, hturn]
  rfl

/-- Yields alone turn the whole queue, the current thread first. -/
theorem yields_rotate (h : Refines known s a) (hidle : a.current ≠ a.idle) (hready : a.ready ≠ [])
    (k : Nat) :
    ∃ a', Refines known (Machine.exec schedStep s (List.replicate k .yield)) a' ∧
      a'.current :: a'.ready = (a.current :: a.ready).rotate k := by
  induction k generalizing s a with
  | zero => exact ⟨a, h, (List.rotate_zero _).symm⟩
  | succ k ih =>
      obtain ⟨s', heq, hrefines⟩ := yield_refines h
      have hrot := yield_rotate a hidle hready
      -- the queue has as many threads as before, so the yielding goes on
      have hlen := congrArg List.length hrot
      rw [List.length_rotate, List.length_cons, List.length_cons] at hlen
      have hready' : (yield a).ready ≠ [] := by
        intro hnil
        rw [hnil, List.length_nil] at hlen
        exact hready (List.length_eq_zero_iff.mp (by omega))
      have hidle' : (yield a).current ≠ (yield a).idle :=
        fun hc => hready ((successor_idle_iff a).mp hc)
      obtain ⟨a', hrefines', hrot'⟩ := ih hrefines hidle' hready'
      refine ⟨a', ?_, ?_⟩
      · rw [List.replicate_succ, Machine.exec_cons]
        show Refines known (Machine.exec schedStep (mcsosSchedYield s).2 _) a'
        rw [heq]
        exact hrefines'
      · rw [hrot', hrot, List.rotate_rotate, Nat.add_comm]

/-- **FIFO WITHOUT OVERTAKING**: in every run from every state of every run, the
    thread at index `i` of the ready list is not current before its turn, and
    turn `i + 1` is its own.  Yields alone turn the list round, with the current
    thread as its first. -/
theorem sched_fifo (h : SchedReach boot known queued s)
    (hl : Linked (fun p => (s.threads p).next) 0 s.sched.readyHead l) :
    (∀ ops, AdmissibleRun boot known s ops → ∀ i t, l[i]? = some t →
      (turns s ops ≤ i → (Machine.exec schedStep s ops).sched.current ≠ t) ∧
      (turns s ops = i → ∀ op, Admissible boot known (Machine.exec schedStep s ops) op →
        handsOn op (schedStep (Machine.exec schedStep s ops) op).1 = true →
        (schedStep (Machine.exec schedStep s ops) op).2.sched.current = t)) ∧
    (s.sched.current ≠ s.sched.idle → l ≠ [] → ∀ k,
      (s.sched.current :: l)[k % (l.length + 1)]?
        = some (Machine.exec schedStep s (List.replicate k .yield)).sched.current ∧
      ∃ l', Linked
          (fun p => ((Machine.exec schedStep s (List.replicate k .yield)).threads p).next) 0
          (Machine.exec schedStep s (List.replicate k .yield)).sched.readyHead l' ∧
        (Machine.exec schedStep s (List.replicate k .yield)).sched.current :: l'
          = (s.sched.current :: l).rotate k) := by
  obtain ⟨-, a, rfl, hsteps⟩ := reach_steps h
  have hr := hsteps.refines
  obtain rfl : l = a.ready := linked_unique hl hr.list.linked
  refine ⟨?_, ?_⟩
  · intro ops hops i t ht
    obtain ⟨queued', a', hidle, hsteps', hbefore⟩ := run_steps hsteps hops
    refine ⟨fun hle => ?_, fun heq op hop hturn => ?_⟩
    · -- until its turn a thread is in the list, and the current thread is not
      rw [hsteps'.refines.current]
      rintro rfl
      refine a'.current_ready (hbefore.subset ?_)
      refine List.mem_of_getElem? (i := i - turns s ops) ?_
      rw [List.getElem?_drop, Nat.add_sub_cancel' hle]
      exact ht
    · obtain ⟨hi, hget⟩ := List.getElem?_eq_some_iff.mp ht
      rw [heq, List.drop_eq_getElem_cons hi, hget] at hbefore
      obtain ⟨m, hm⟩ := hbefore
      rw [step_current hsteps' (hidle ▸ hop) hturn, successor, ← hm]
      rfl
  · rw [hr.current, hr.idle]
    intro hidle hready k
    obtain ⟨a', hr', hrot⟩ := yields_rotate hr hidle hready k
    rw [hr'.current]
    refine ⟨?_, a'.ready, hr'.list.linked, hrot⟩
    have hlt : k % (a.ready.length + 1) < (a.current :: a.ready).length :=
      Nat.mod_lt k (Nat.succ_pos _)
    have hhead := List.head?_rotate hlt
    rw [← hhead, ← List.length_cons, List.rotate_mod, ← hrot]
    rfl

/-- Two threads wait, and the second has its turn when the first blocks. -/
theorem sched_fifo_two :
    (schedStep (Machine.exec schedStep (Machine.exec schedStep twoThreads
      [.enqueue 2, .enqueue 3]) [.yield, .tick]) .blockCurrent).2.sched.current = 3 := by
  have h1 := SchedReach.step reach_twoThreads (.enqueue 2) (Or.inl (by decide +kernel))
  have h2 := h1.step (.enqueue 3) (Or.inl (by decide +kernel))
  have hl : Linked (fun p => ((Machine.exec schedStep twoThreads
      [.enqueue 2, .enqueue 3]).threads p).next) 0
      (Machine.exec schedStep twoThreads [.enqueue 2, .enqueue 3]).sched.readyHead [2, 3] :=
    ⟨by decide +kernel, by decide, by decide +kernel, by decide,
      show ((Machine.exec schedStep twoThreads [.enqueue 2, .enqueue 3]).threads 3).next = 0 by
        decide +kernel⟩
  have hturn := ((sched_fifo h2 hl).1 [.yield, .tick] ⟨trivial, trivial, trivial⟩ 1 3 rfl).2
  exact hturn (by decide +kernel) .blockCurrent trivial (by decide +kernel)

/-! ## The idle thread -/

/-- After a call that succeeds, the idle thread is current only if nobody waits. -/
def IdleLast (boot : U64) (known : List U64) (s : SchedState) (op : SchedOp) : Prop :=
  (schedStep s op).1 = .ok () →
    (schedStep s op).2.sched.current = (schedStep s op).2.sched.idle →
    (schedStep s op).2.sched.readyHead = 0 ∧
      ∀ p ∈ boot :: known, ((schedStep s op).2.threads p).state ≠ .ready

/-- The head of the ready list is null exactly if nobody waits. -/
theorem readyHead_iff (h : Refines known s a) : s.sched.readyHead = 0 ↔ a.ready = [] := by
  have hlink := h.list.linked
  constructor
  · intro hz
    rw [hz] at hlink
    exact linked_unique hlink rfl
  · intro hnil
    rw [hnil] at hlink
    exact hlink

/-- Nobody waits exactly when the list is empty. -/
theorem nobody_ready_iff (h : Refines known s a) :
    (s.sched.readyHead = 0 ∧ ∀ p ∈ a.idle :: known, (s.threads p).state ≠ .ready) ↔
      a.ready = [] := by
  rw [readyHead_iff h]
  refine and_iff_left_of_imp (fun hnil p hp hstate => ?_)
  have hmem := phase_ready_iff.mp ((h.state_iff hp .ready).mp hstate)
  rw [hnil] at hmem
  cases hmem

/-- **IDLE RUNS LAST**: a block leaves the processor to the idle thread only if
    nobody waits; a yield does so exactly if it is the idle thread's own, or
    somebody waits already. -/
theorem sched_idle_last_iff (h : SchedReach boot known queued s)
    (hop : op = .yield ∨ op = .blockCurrent) :
    IdleLast boot known s op ↔
      (op = .yield → s.sched.current = s.sched.idle ∨ s.sched.readyHead ≠ 0) := by
  obtain ⟨-, a, rfl, hsteps⟩ := reach_steps h
  have hr := hsteps.refines
  rw [IdleLast]
  rcases hop with rfl | rfl
  · obtain ⟨s', heq, hr'⟩ := yield_refines hr
    -- the run queue decides, and both sides are read off from it
    have hyield := yield_idle_iff a
    rw [← hr'.current, ← hr'.idle, ← nobody_ready_iff hr'] at hyield
    rw [show schedStep s .yield = (.ok (), s') from heq, hr.current, hr.idle, ne_eq,
      readyHead_iff hr]
    exact ⟨fun h _ => hyield.mp (h rfl), fun h _ => hyield.mpr (h rfl)⟩
  · refine iff_of_true ?_ (fun hc => by cases hc)
    rcases block_refines hr with ⟨-, heq⟩ | ⟨hci, s', heq, hr'⟩
    · rw [show schedStep s .blockCurrent = (.error .estate, s) from heq]
      intro hok
      cases hok
    · rw [show schedStep s .blockCurrent = (.ok (), s') from heq]
      intro _ hidle
      rw [hr'.current, hr'.idle] at hidle
      refine (nobody_ready_iff hr').mpr ?_
      show a.ready.tail = []
      rw [(successor_idle_iff a).mp hidle]
      rfl

/-- Two threads wait, so the boot thread may yield. -/
theorem sched_idle_last_iff_two :
    IdleLast 1 [3, 2] (Machine.exec schedStep twoThreads [.enqueue 2, .enqueue 3]) .yield := by
  have h1 := SchedReach.step reach_twoThreads (.enqueue 2) (Or.inl (by decide +kernel))
  have h2 := h1.step (.enqueue 3) (Or.inl (by decide +kernel))
  exact (sched_idle_last_iff h2 (Or.inl rfl)).mpr (fun _ => by decide +kernel)

/-- A thread is alone and yields: the idle thread runs, and the thread is ready. -/
theorem sched_idle_first :
    SchedReach 1 [3, 2] [2] (Machine.exec schedStep twoThreads [.enqueue 2, .yield]) ∧
      (schedStep (Machine.exec schedStep twoThreads [.enqueue 2, .yield]) .yield).1 = .ok () ∧
      (schedStep (Machine.exec schedStep twoThreads [.enqueue 2, .yield]) .yield).2.sched.current
        = (schedStep (Machine.exec schedStep twoThreads [.enqueue 2, .yield]) .yield).2.sched.idle ∧
      (schedStep (Machine.exec schedStep twoThreads [.enqueue 2, .yield]) .yield).2.sched.readyHead
        = 2 := by
  have h1 := SchedReach.step reach_twoThreads (.enqueue 2) (Or.inl (by decide +kernel))
  exact ⟨h1.step .yield trivial, by decide +kernel, by decide +kernel, by decide +kernel⟩

end SchedTurns
