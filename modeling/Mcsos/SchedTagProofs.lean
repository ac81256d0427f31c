import Mcsos.SchedEnqueueProofs

/-! # The scheduler from any state

    A ready list can be spoilt, by enqueueing a thread twice.  What survives even
    that is checked by tag: `mcsos_sched_yield` makes nothing current that is no
    thread object, and no call but `mcsos_thread_prepare` makes a thread object
    (`GoesOn`). -/

namespace SchedTag

open Word SchedModel SchedQueue

variable {s s' : SchedState} {p q : U64}

/-- The scheduler can go on, with the same thread objects. -/
structure GoesOn (s s' : SchedState) : Prop where
  ready : SchedModel.ready s' = true
  valid : ∀ q, validThreadObject s' q = validThreadObject s q

theorem GoesOn.refl (h : SchedModel.ready s = true) : GoesOn s s := ⟨h, fun _ => rfl⟩

theorem GoesOn.trans {s'' : SchedState} (h : GoesOn s s') (h' : GoesOn s' s'') : GoesOn s s'' :=
  ⟨h'.ready, fun q => (h'.valid q).trans (h.valid q)⟩

/-- What keeps the tags, the flag and the current thread. -/
theorem GoesOn.of_magic (h : SchedModel.ready s = true)
    (hmagic : ∀ q, (s'.threads q).magic = (s.threads q).magic)
    (hinit : s'.sched.initialized = s.sched.initialized)
    (hcurrent : s'.sched.current = s.sched.current) : GoesOn s s' := by
  refine ⟨?_, fun q => valid_congr (hmagic q)⟩
  rw [SchedModel.ready, hinit, hcurrent, valid_congr (hmagic _)]
  exact h

/-- Queueing a thread keeps the scheduler going. -/
theorem appendReady_goesOn (h : SchedModel.ready s = true) : GoesOn s (appendReady s p) := by
  refine .of_magic h (fun _ => appendReady_magic) ?_ ?_
  · rw [appendReady_sched]
  · rw [appendReady_sched]

/-- `mcsos_sched_enqueue` keeps the scheduler going, whatever it is given. -/
theorem enqueue_goesOn (h : SchedModel.ready s = true) (p : U64) :
    GoesOn s (mcsosSchedEnqueue s p).2 := by
  rcases SchedEnqueue.enqueue_result s p with ⟨e, heq⟩ | ⟨heq, -, -⟩
  · rw [heq]
    exact .refl h
  · rw [heq]
    exact appendReady_goesOn h

/-- Taking a thread from the queue keeps the scheduler going. -/
theorem popReady_goesOn (h : SchedModel.ready s = true) (t : U64) : GoesOn s (popReady s t) := by
  refine .of_magic h (fun _ => popReady_magic) ?_ ?_
  · simp only [popReady]
    split <;> split <;> rfl
  · simp only [popReady]
    split <;> split <;> rfl

/-- Picking the next thread keeps the scheduler going. -/
theorem pickNext_goesOn (h : SchedModel.ready s = true) :
    GoesOn s (mcsosSchedPickNext s).2 := by
  rw [mcsosSchedPickNext]
  split
  · exact .refl h
  split
  · exact .refl h
  · exact popReady_goesOn h _

/-- A thread's new state keeps the scheduler going. -/
theorem setState_goesOn (h : SchedModel.ready s = true) (p : U64) (st : ThreadState) :
    GoesOn s (s.setState p st) :=
  .of_magic h (fun _ => setState_magic) rfl rfl

/-- A switch to a thread object keeps the scheduler going. -/
theorem switchTo_goesOn (h : SchedModel.ready s = true) (old : U64) {next : U64}
    (hnext : validThreadObject s next = true) : GoesOn s (switchTo s old next) := by
  have hvalid : ∀ q, validThreadObject (switchTo s old next) q = validThreadObject s q :=
    fun q => valid_congr switchTo_fields.2.2
  refine ⟨ready_iff.mpr ⟨(ready_iff.mp h).1, ?_⟩, hvalid⟩
  exact (hvalid next).trans hnext

/-- A yield leaves a thread object current, whatever the ready list has become. -/
theorem yield_goesOn (h : SchedModel.ready s = true) : GoesOn s (mcsosSchedYield s).2 := by
  have hpick := pickNext_goesOn h
  rw [mcsosSchedYield, h]
  cases hp : mcsosSchedPickNext s with
  | mk next s₁ =>
  rw [hp] at hpick
  rw [if_neg (by decide)]
  dsimp only
  -- a next thread that is no thread object is refused
  cases hvalid : validThreadObject s₁ next with
  | false => exact hpick
  | true =>
  by_cases hsame : next = s.sched.current
  · rw [if_neg (by decide), if_pos hsame]
    exact hpick.trans (setState_goesOn hpick.ready _ _)
  rw [if_neg (by decide), if_neg hsame]
  by_cases hrun : (s₁.threads s.sched.current).state = .running ∧ s.sched.current ≠ s₁.sched.idle
  · rw [if_pos hrun]
    have hset := setState_goesOn hpick.ready s.sched.current .ready
    have henq := enqueue_goesOn hset.ready s.sched.current
    cases hq : mcsosSchedEnqueue (s₁.setState s.sched.current .ready) s.sched.current with
    | mk r s₂ =>
    rw [hq] at henq
    have hthere := (hpick.trans hset).trans henq
    cases r with
    | error e => exact hthere
    | ok u =>
        refine hthere.trans (switchTo_goesOn henq.ready _ ?_)
        rw [henq.valid, hset.valid, hvalid]
  · rw [if_neg hrun]
    exact hpick.trans (switchTo_goesOn hpick.ready _ hvalid)

/-- Blocking keeps the scheduler going. -/
theorem block_goesOn (h : SchedModel.ready s = true) :
    GoesOn s (mcsosThreadBlockCurrent s).2 := by
  rw [mcsosThreadBlockCurrent, h, if_neg (by decide)]
  split
  · exact .refl h
  · have hset := setState_goesOn h s.sched.current .blocked
    exact hset.trans (yield_goesOn hset.ready)

/-- Waking a thread keeps the scheduler going. -/
theorem markReady_goesOn (h : SchedModel.ready s = true) (p : U64) :
    GoesOn s (mcsosThreadMarkReady s p).2 := by
  rw [mcsosThreadMarkReady]
  split
  · exact .refl h
  split
  · exact .refl h
  · exact enqueue_goesOn h p

/-- A tick keeps the scheduler going. -/
theorem tick_goesOn (h : SchedModel.ready s = true) : GoesOn s (mcsosSchedTick s).2 := by
  rw [mcsosSchedTick, h, if_neg (by decide)]
  exact .of_magic h (fun _ => addTick_fields.2.2) rfl rfl

/-- A thread that is prepared becomes a thread object; the other objects are left alone. -/
theorem prepare_goesOn (h : SchedModel.ready s = true) {trampoline entry base size : U64}
    (hok : mcsosThreadPrepare trampoline s p entry base size = (.ok (), s')) :
    SchedModel.ready s' = true ∧ validThreadObject s' p = true ∧
      ∀ q, q ≠ p → validThreadObject s' q = validThreadObject s q := by
  obtain ⟨hp, rfl⟩ := prepare_ok hok
  obtain ⟨hsched, hmagic, -, hothers⟩ := prepared_threads (s := s) (p := p) trampoline base size
  have hnew : validThreadObject (prepared trampoline s p base size) p = true :=
    valid_iff.mpr ⟨hp, hmagic⟩
  have hold : ∀ q, q ≠ p → validThreadObject (prepared trampoline s p base size) q
      = validThreadObject s q := fun q hq => valid_congr (by rw [hothers q hq])
  refine ⟨?_, hnew, hold⟩
  rw [ready_iff] at h ⊢
  rw [hsched]
  refine ⟨h.1, ?_⟩
  by_cases hcurrent : s.sched.current = p
  · rw [hcurrent, hnew]
  · rw [hold _ hcurrent, h.2]

/-- A prepare that is refused changes nothing. -/
theorem prepare_refused {trampoline entry base size : U64} {e : SchedErr}
    (herr : mcsosThreadPrepare trampoline s p entry base size = (.error e, s')) : s' = s := by
  rcases prepare_cases trampoline s p entry base size with ⟨e', heq⟩ | ⟨-, -, heq⟩
  · rw [heq] at herr
    exact (Prod.mk.inj herr).2.symm
  · rw [heq] at herr
    cases herr

end SchedTag
