import Mcsos.SchedInvariantProofs

/-! # Which threads may be enqueued

    `mcsos_sched_enqueue` refuses threads that run or are gone and accepts all
    others, the READY ones too: the yield relies on that, which marks the
    outgoing thread READY before it enqueues it.  A READY thread that another
    caller passes is in the list already, and the call overwrites its link.

    So a call does what it is for exactly on the threads that are not READY.
    On a READY one it never does, wherever the thread is in the list. -/

namespace SchedEnqueue

open Word SchedModel LinkedChain SchedQueue RunQueue SchedRefinement SchedInvariant

variable {boot p : U64} {known queued l : List U64} {s : SchedState} {a : Tasks U64}

/-- What enqueueing `p` is for, by the answer of the call: the thread is behind
    the others, and one more is counted; or nothing has changed. -/
def EnqueueSafe (s : SchedState) (p : U64) : Prop :=
  match mcsosSchedEnqueue s p with
  | (.ok (), s') =>
      ∃ l n n', Linked (fun q => (s.threads q).next) 0 s.sched.readyHead l ∧
        Linked (fun q => (s'.threads q).next) 0 s'.sched.readyHead (l ++ [p]) ∧
        mcsosSchedReadyCount s = some n ∧ mcsosSchedReadyCount s' = some n' ∧
        n'.toNat = n.toNat + 1 ∧ mcsosSchedValidate s' = some (.ok ())
  | (.error _, s') => s' = s

/-- The answers of an enqueue. -/
theorem enqueue_result (s : SchedState) (p : U64) :
    (∃ e, mcsosSchedEnqueue s p = (.error e, s)) ∨
      mcsosSchedEnqueue s p = (.ok (), appendReady s p) ∧ validThreadObject s p = true ∧
        (s.threads p).state ≠ .running := by
  rw [mcsosSchedEnqueue]
  split <;> rename_i hvalid
  · exact Or.inl ⟨_, rfl⟩
  have hp : validThreadObject s p = true := by
    rw [Bool.or_eq_true, not_or, Bool.not_eq_true', Bool.not_eq_true', Bool.not_eq_false,
      Bool.not_eq_false] at hvalid
    exact hvalid.2
  cases hstate : (s.threads p).state with
  | new => exact Or.inr ⟨rfl, hp, fun hc => by cases hc⟩
  | ready => exact Or.inr ⟨rfl, hp, fun hc => by cases hc⟩
  | blocked => exact Or.inr ⟨rfl, hp, fun hc => by cases hc⟩
  | running => exact Or.inl ⟨_, rfl⟩
  | zombie => exact Or.inl ⟨_, rfl⟩

/-- A refused thread changes nothing. -/
theorem safe_of_error {e : SchedErr} (h : mcsosSchedEnqueue s p = (.error e, s)) :
    EnqueueSafe s p := by
  rw [EnqueueSafe, h]

/-- A valid thread from outside the list goes behind it. -/
theorem safe_of_append (h : Refines known s a)
    (heq : mcsosSchedEnqueue s p = (.ok (), appendReady s p))
    (hp : validThreadObject s p = true) (hrun : (s.threads p).state ≠ .running)
    (hfresh : p ∉ a.ready) : EnqueueSafe s p := by
  rw [EnqueueSafe, heq]
  -- a thread that was not in the list makes it one longer
  have hlist := h.list.append (valid_iff.mp hp).1 hfresh
  have hlen : (a.ready ++ [p]).length < 2 ^ 64 :=
    length_lt_of_nodup hlist.nodup (fun hz => hlist.ne_zero hz rfl)
  have hinit : (appendReady s p).sched.initialized = true := by
    rw [appendReady_sched]
    exact h.initialized
  have hcurrent : (appendReady s p).sched.current = a.current := by
    rw [appendReady_sched]
    exact h.current
  have hready : SchedModel.ready (appendReady s p) = true := by
    rw [SchedModel.ready, hinit, hcurrent, valid_congr appendReady_magic, h.valid _ h.current_known]
    rfl
  have hstate := (h.state_iff h.current_known .running).mpr (phase_running_iff.mpr (Or.inr rfl))
  rw [List.length_append, List.length_singleton] at hlen
  refine ⟨a.ready, _, _, h.list.linked, hlist.linked, h.list.readyCount h.initialized,
    hlist.readyCount hinit, ?_, hlist.validate hready ?_⟩
  · rw [List.length_append, List.length_singleton, BitVec.toNat_ofNat, BitVec.toNat_ofNat,
      Nat.mod_eq_of_lt hlen, Nat.mod_eq_of_lt (by omega)]
  · intro x hx
    rw [valid_congr appendReady_magic, appendReady_state, hcurrent]
    rcases List.mem_append.mp hx with hx | hx
    · have hk : x ∈ a.idle :: known := List.mem_cons_of_mem _ (h.ready_known x hx)
      have hne : x ≠ p := fun hc => hfresh (hc ▸ hx)
      rw [if_neg hne]
      refine ⟨h.valid x hk, (h.state_iff hk .ready).mpr (phase_ready_iff.mpr hx), ?_⟩
      rintro rfl
      exact a.current_ready hx
    · rw [List.mem_singleton.mp hx, if_pos rfl]
      refine ⟨hp, rfl, ?_⟩
      rintro rfl
      exact hrun hstate

/-- A thread of the list cannot be behind all of the list. -/
theorem not_safe_of_ready (h : Refines known s a) (hp : p ∈ a.ready) : ¬ EnqueueSafe s p := by
  have hk : p ∈ a.idle :: known := List.mem_cons_of_mem _ (h.ready_known p hp)
  have hphase := phase_ready_iff.mpr hp
  rw [EnqueueSafe, enqueue_eq h hk, hphase, if_neg (by decide)]
  -- the list behind the call would have the thread twice
  rintro ⟨l, -, -, hl, hl', -⟩
  rw [linked_unique hl h.list.linked] at hl'
  have hdisjoint := (List.nodup_append.mp (linked_nodup hl')).2.2
  exact hdisjoint p hp p (List.mem_singleton_self p) rfl

/-- **ENQUEUE IS SAFE** on exactly the threads that are not READY, in every state
    of every run whose own enqueues keep to that. -/
theorem sched_enqueue_safe_iff (h : SchedReach boot known queued s) (p : U64) :
    EnqueueSafe s p ↔ ¬ (p ∈ boot :: known ∧ (s.threads p).state = .ready) := by
  obtain ⟨-, a, rfl, hsteps⟩ := reach_steps h
  have hr := hsteps.refines
  -- a thread object says ready exactly if it is in the list
  have hlist : p ∈ a.idle :: known ∧ (s.threads p).state = .ready ↔ p ∈ a.ready := by
    constructor
    · rintro ⟨hk, hstate⟩
      exact phase_ready_iff.mp ((hr.state_iff hk .ready).mp hstate)
    · intro hp
      have hk := List.mem_cons_of_mem a.idle (hr.ready_known p hp)
      exact ⟨hk, (hr.state_iff hk .ready).mpr (phase_ready_iff.mpr hp)⟩
  rw [hlist]
  constructor
  · intro hsafe hp
    exact not_safe_of_ready hr hp hsafe
  · intro hp
    rcases enqueue_result s p with ⟨e, heq⟩ | ⟨heq, hvalid, hrun⟩
    · exact safe_of_error heq
    · exact safe_of_append hr heq hvalid hrun hp

/-- The second thread of a list of two may not be enqueued, and the idle thread may. -/
theorem sched_enqueue_safe_iff_two :
    ¬ EnqueueSafe (Machine.exec schedStep twoThreads [.enqueue 2, .enqueue 3]) 3 ∧
      EnqueueSafe (Machine.exec schedStep twoThreads [.enqueue 2, .enqueue 3]) 1 := by
  have h1 := SchedReach.step reach_twoThreads (.enqueue 2) (Or.inl (by decide +kernel))
  have h2 := h1.step (.enqueue 3) (Or.inl (by decide +kernel))
  refine ⟨fun h => (sched_enqueue_safe_iff h2 3).mp h (by decide +kernel), ?_⟩
  exact (sched_enqueue_safe_iff h2 1).mpr (by decide +kernel)

/-- A thread that is its own successor is counted for ever. -/
theorem countLoop_cycle {c : U64} (hc : c ≠ 0) (hnext : (s.threads c).next = c) :
    ∀ (rounds : Nat) (n : U64), countLoop s rounds c n = none := by
  intro rounds
  induction rounds with
  | zero => intro n; rfl
  | succ rounds ih =>
      intro n
      rw [countLoop, if_neg hc, hnext]
      exact ih (n + 1)

/-- The only ready thread is enqueued again: the call succeeds, and counting the
    list no longer ends. -/
theorem sched_enqueue_twice :
    SchedReach 1 [3, 2] [2] (Machine.exec schedStep twoThreads [.enqueue 2]) ∧
      (mcsosSchedEnqueue (Machine.exec schedStep twoThreads [.enqueue 2]) 2).1 = .ok () ∧
      mcsosSchedReadyCount
        (mcsosSchedEnqueue (Machine.exec schedStep twoThreads [.enqueue 2]) 2).2 = none := by
  refine ⟨SchedReach.step reach_twoThreads (.enqueue 2) (Or.inl (by decide +kernel)),
    by decide +kernel, ?_⟩
  have hinit : (mcsosSchedEnqueue (Machine.exec schedStep twoThreads [.enqueue 2]) 2).2.sched
      = ⟨1, 1, 2, 2, 2, 0, 0, true⟩ := by decide +kernel
  rw [mcsosSchedReadyCount, hinit, if_neg (by decide)]
  exact countLoop_cycle (by decide) (by decide +kernel) SCHED_ROUNDS 0

end SchedEnqueue
