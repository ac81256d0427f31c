import Mcsos.RunQueueProofs
import Mcsos.SchedQueueProofs

/-! # The scheduler refines a run queue

    `Refines known s a` ties the scheduler in memory to the abstract run queue
    `a`: same idle and current thread, the intrusive list is the ready queue,
    and the state field of every known thread is its phase.  Each call on known
    threads is then an operation of the run queue, or fails and changes
    nothing. -/

namespace SchedRefinement

open Word SchedModel LinkedChain SchedQueue RunQueue

variable {s s' : SchedState} {a : Tasks U64} {known : List U64} {p q t : U64} {l : List U64}

/-- How a phase is written in a thread object. -/
def stateOf : Phase → ThreadState
  | .fresh => .new
  | .ready => .ready
  | .running => .running
  | .blocked => .blocked

/-- The state of a thread object tells its phase. -/
theorem stateOf_injective {x y : Phase} (h : stateOf x = stateOf y) : x = y := by
  cases x <;> cases y <;> first | rfl | cases h

/-- The scheduler `s` over the threads `known` is the run queue `a`. -/
structure Refines (known : List U64) (s : SchedState) (a : Tasks U64) : Prop where
  initialized : s.sched.initialized = true
  idle : s.sched.idle = a.idle
  current : s.sched.current = a.current
  list : ReadyList s a.ready
  valid : ∀ p ∈ a.idle :: known, validThreadObject s p = true
  state : ∀ p ∈ a.idle :: known, (s.threads p).state = stateOf (phase a p)
  current_known : a.current ∈ a.idle :: known
  ready_known : ∀ p ∈ a.ready, p ∈ known
  blocked_known : ∀ p ∈ a.blocked, p ∈ known

/-- No thread of the queue is the null pointer. -/
theorem Refines.ne_zero (h : Refines known s a) (hp : p ∈ a.idle :: known) : p ≠ 0 :=
  (valid_iff.mp (h.valid p hp)).1

/-- Calls pass the check at their start. -/
theorem Refines.ready (h : Refines known s a) : SchedModel.ready s = true := by
  rw [SchedModel.ready, h.initialized, h.current, h.valid _ h.current_known]
  rfl

/-- A thread object's state is its phase. -/
theorem Refines.state_iff (h : Refines known s a) (hp : p ∈ a.idle :: known) (x : Phase) :
    (s.threads p).state = stateOf x ↔ phase a p = x := by
  rw [h.state p hp]
  exact ⟨stateOf_injective, fun heq => by rw [heq]⟩

/-- The next thread is a known one. -/
theorem successor_known (h : Refines known s a) : successor a ∈ a.idle :: known := by
  rcases successor_cases a with hs | hs
  · rw [hs]
    exact List.mem_cons_self ..
  · exact List.mem_cons_of_mem _ (h.ready_known _ hs)

/-! ## Starting and preparing -/

/-- The boot thread alone is the run queue at the start. -/
theorem init_refines (hinit : mcsosSchedulerInit s p = (.ok (), s')) :
    Refines [] s' (start p) := by
  rw [mcsosSchedulerInit] at hinit
  split at hinit <;> rename_i hp
  · cases hinit
  cases hinit
  -- there is no thread but the boot thread
  have hself : ∀ r ∈ (start p).idle :: [], r = p := fun r hr => List.mem_singleton.mp hr
  refine ⟨rfl, rfl, rfl, ⟨rfl, rfl, rfl⟩, ?_, ?_, List.mem_cons_self .., ?_, ?_⟩
  · intro r hr
    rw [hself r hr]
    refine valid_iff.mpr ⟨hp, ?_⟩
    simp [setThread_threads]
  · intro r hr
    have hrun : phase (start p) p = .running := phase_running_iff.mpr (Or.inl rfl)
    rw [hself r hr, hrun]
    simp [setThread_threads, stateOf]
  · intro r hr
    cases hr
  · intro r hr
    cases hr

/-- A thread that is not known is none of the known ones, and has no part in the queue. -/
theorem Refines.unknown (h : Refines known s a) (hidle : p ≠ a.idle) (hfresh : p ∉ known) :
    (∀ r ∈ a.idle :: known, r ≠ p) ∧ p ∉ a.ready ∧ phase a p = .fresh := by
  have hold : ∀ r ∈ a.idle :: known, r ≠ p := by
    rintro r hr rfl
    rcases List.mem_cons.mp hr with hi | hk
    · exact hidle hi
    · exact hfresh hk
  have hcur : p ≠ a.current := (hold a.current h.current_known).symm
  have hready : p ∉ a.ready := fun hr => hfresh (h.ready_known p hr)
  have hblocked : p ∉ a.blocked := fun hb => hfresh (h.blocked_known p hb)
  refine ⟨hold, hready, ?_⟩
  simp [phase, hidle, hcur, hready, hblocked]

/-- A prepared thread is known and fresh. -/
theorem prepare_refines {tramp entry base size : U64} (h : Refines known s a)
    (hidle : p ≠ a.idle) (hfresh : p ∉ known)
    (hprep : mcsosThreadPrepare tramp s p entry base size = (.ok (), s')) :
    Refines (p :: known) s' a := by
  obtain ⟨hp, rfl⟩ := prepare_ok hprep
  obtain ⟨hsched, hmagic, hnew, hother⟩ := prepared_threads (s := s) (p := p) tramp base size
  -- the new object is in no list, so writing it disturbs none
  obtain ⟨hold, hready, hphase⟩ := h.unknown hidle hfresh
  have hcases : ∀ r ∈ a.idle :: p :: known, r = p ∨ r ∈ a.idle :: known := by
    intro r hr
    simp only [List.mem_cons] at hr ⊢
    tauto
  constructor
  case initialized => rw [hsched]; exact h.initialized
  case idle => rw [hsched]; exact h.idle
  case current => rw [hsched]; exact h.current
  case list =>
    constructor
    · rw [hsched]
      refine linked_congr h.list.linked (fun r hr => ?_)
      rw [hother r (fun hc => hready (hc ▸ hr))]
    · rw [hsched]; exact h.list.tail
    · rw [hsched]; exact h.list.count
  case valid =>
    intro r hr
    rcases hcases r hr with rfl | hk
    · exact valid_iff.mpr ⟨hp, hmagic⟩
    · rw [valid_congr (congrArg Thread.magic (hother r (hold r hk)))]
      exact h.valid r hk
  case state =>
    intro r hr
    rcases hcases r hr with rfl | hk
    · rw [hnew, hphase]
      rfl
    · rw [hother r (hold r hk)]
      exact h.state r hk
  case current_known =>
    rcases List.mem_cons.mp h.current_known with hi | hk
    · rw [hi]
      exact List.mem_cons_self ..
    · exact List.mem_cons_of_mem _ (List.mem_cons_of_mem _ hk)
  case ready_known => exact fun r hr => List.mem_cons_of_mem _ (h.ready_known r hr)
  case blocked_known => exact fun r hr => List.mem_cons_of_mem _ (h.blocked_known r hr)

/-! ## Enqueueing -/

/-- A queued thread joins the run queue. -/
theorem append_refines (h : Refines known s a) (hp : p ∈ known) (hrun : phase a p ≠ .running)
    (hready : phase a p ≠ .ready) :
    Refines known (appendReady s p) (join a p hrun hready) := by
  have hmem : p ∈ a.idle :: known := List.mem_cons_of_mem _ hp
  -- a second time would break the list
  have hfresh : p ∉ a.ready := fun hr => hready (phase_ready_iff.mpr hr)
  constructor
  case initialized => rw [appendReady_sched]; exact h.initialized
  case idle => rw [appendReady_sched]; exact h.idle
  case current => rw [appendReady_sched]; exact h.current
  case list => exact h.list.append (h.ne_zero hmem) hfresh
  case valid =>
    intro r hr
    rw [valid_congr appendReady_magic]
    exact h.valid r hr
  case state =>
    intro r hr
    rw [appendReady_state, phase_join]
    by_cases hrp : r = p
    · rw [if_pos hrp, if_pos hrp]
      rfl
    · rw [if_neg hrp, if_neg hrp]
      exact h.state r hr
  case current_known => exact h.current_known
  case ready_known =>
    intro r hr
    rcases List.mem_append.mp hr with hr | hr
    · exact h.ready_known r hr
    · rw [List.mem_singleton.mp hr]
      exact hp
  case blocked_known => exact fun r hr => h.blocked_known r (List.mem_filter.mp hr).1

/-- Only a running thread is refused. -/
theorem enqueue_eq (h : Refines known s a) (hp : p ∈ a.idle :: known) :
    mcsosSchedEnqueue s p =
      if phase a p = .running then (.error .estate, s) else (.ok (), appendReady s p) := by
  rw [mcsosSchedEnqueue, h.initialized, h.valid p hp, if_neg (by decide), h.state p hp]
  cases phase a p <;> rfl

/-- Enqueueing a known thread that is not ready admits it, or it runs and is refused. -/
theorem enqueue_cases (h : Refines known s a) (hp : p ∈ a.idle :: known)
    (hready : phase a p ≠ .ready) :
    (phase a p = .running ∧ mcsosSchedEnqueue s p = (.error .estate, s)) ∨
      ∃ hrun : phase a p ≠ .running, p ∈ known ∧
        mcsosSchedEnqueue s p = (.ok (), appendReady s p) ∧
        Refines known (appendReady s p) (join a p hrun hready) := by
  rw [enqueue_eq h hp]
  by_cases hrun : phase a p = .running
  · exact Or.inl ⟨hrun, if_pos hrun⟩
  · have hknown : p ∈ known :=
      (List.mem_cons.mp hp).resolve_left (fun hi => hrun (phase_running_iff.mpr (Or.inl hi)))
    exact Or.inr ⟨hrun, hknown, if_neg hrun, append_refines h hknown hrun hready⟩

/-! ## Giving up the processor -/

/-- The end of a yield: everything is as `b` has it, but the next thread is
    still to become current. -/
theorem switchTo_refines {b : Tasks U64} (hinit : s.sched.initialized = true)
    (hidle : s.sched.idle = b.idle) (hlist : ReadyList s b.ready)
    (hvalid : ∀ r ∈ b.idle :: known, validThreadObject s r = true)
    (hstate : ∀ r ∈ b.idle :: known, r ≠ b.current → (s.threads r).state = stateOf (phase b r))
    (hcurrent : b.current ∈ b.idle :: known) (hready : ∀ r ∈ b.ready, r ∈ known)
    (hblocked : ∀ r ∈ b.blocked, r ∈ known) :
    Refines known (switchTo s p b.current) b := by
  constructor
  case initialized => exact hinit
  case idle => exact hidle
  case current => rfl
  case list => exact hlist.congr (fun _ => switchTo_fields.2.1) rfl rfl rfl
  case valid =>
    intro r hr
    rw [valid_congr switchTo_fields.2.2]
    exact hvalid r hr
  case state =>
    intro r hr
    -- the state of the new thread is written, and no other
    rw [switchTo_fields.1]
    by_cases hrc : r = b.current
    · rw [if_pos hrc, phase_running_iff.mpr (Or.inr hrc)]
      rfl
    · rw [if_neg hrc]
      exact hstate r hr hrc
  case current_known => exact hcurrent
  case ready_known => exact hready
  case blocked_known => exact hblocked

section Picked

variable {s₁ s₂ : SchedState} (hready : SchedModel.ready s = true)
  (hpick : mcsosSchedPickNext s = (t, s₁)) (hvalid : validThreadObject s₁ t = true)

include hready hpick hvalid

/-! The three ways `mcsos_sched_yield` goes on once it has picked a valid thread. -/

/-- The thread that is picked is the current one. -/
theorem yield_stay (hsame : t = s.sched.current) :
    mcsosSchedYield s = (.ok (), s₁.setState s.sched.current .running) := by
  rw [mcsosSchedYield, hready, hpick, if_neg (by decide)]
  simp only [hvalid]
  rw [if_neg (by decide), if_pos hsame]

/-- The current thread does not go back to the queue. -/
theorem yield_leave (hother : t ≠ s.sched.current)
    (hout : ¬ ((s₁.threads s.sched.current).state = .running ∧ s.sched.current ≠ s₁.sched.idle)) :
    mcsosSchedYield s = (.ok (), switchTo s₁ s.sched.current t) := by
  rw [mcsosSchedYield, hready, hpick, if_neg (by decide)]
  simp only [hvalid]
  rw [if_neg (by decide), if_neg hother, if_neg hout]

/-- The current thread goes back to the queue. -/
theorem yield_requeue (hother : t ≠ s.sched.current)
    (hin : (s₁.threads s.sched.current).state = .running ∧ s.sched.current ≠ s₁.sched.idle)
    (henq : mcsosSchedEnqueue (s₁.setState s.sched.current .ready) s.sched.current =
      (.ok (), s₂)) :
    mcsosSchedYield s = (.ok (), switchTo s₂ s.sched.current t) := by
  rw [mcsosSchedYield, hready, hpick, if_neg (by decide)]
  simp only [hvalid]
  rw [if_neg (by decide), if_neg hother, if_pos hin, henq]

end Picked

/-- What picking from a run queue leaves: the head is gone from the list. -/
theorem pick_refines (hlist : ReadyList s a.ready) (hinit : s.sched.initialized = true)
    (hidle : s.sched.idle = a.idle) (hvalid : ∀ r ∈ a.idle :: known, validThreadObject s r = true) :
    ∃ s₁, mcsosSchedPickNext s = (successor a, s₁) ∧ ReadyList s₁ a.ready.tail ∧ Kept s s₁ ∧
      s₁.sched.initialized = true ∧ s₁.sched.idle = a.idle ∧
      ∀ r ∈ a.idle :: known, validThreadObject s₁ r = true := by
  obtain ⟨s₁, hpick, hlist₁, hkept⟩ := pickNext_spec hlist hinit
  rw [hidle] at hpick
  refine ⟨s₁, hpick, hlist₁, hkept, hkept.initialized.trans hinit, hkept.idle.trans hidle, ?_⟩
  intro r hr
  rw [valid_congr (hkept.magic r)]
  exact hvalid r hr

/-- Whoever waits after a yield is known. -/
theorem yield_ready_known (h : Refines known s a) : ∀ r ∈ (yield a).ready, r ∈ known := by
  intro r hr
  rcases List.mem_append.mp hr with hr | hr
  · exact h.ready_known r (List.mem_of_mem_tail hr)
  · obtain ⟨rfl, hne⟩ := mem_requeued.mp hr
    exact (List.mem_cons.mp h.current_known).resolve_left hne

/-- The idle thread yields: it leaves, or goes on if nobody is ready. -/
theorem yield_refines_idle (h : Refines known s a) (hci : a.current = a.idle) :
    ∃ s', mcsosSchedYield s = (.ok (), s') ∧ Refines known s' (yield a) := by
  obtain ⟨s₁, hpick, hlist, hkept, hinit, hidle, hvalid⟩ :=
    pick_refines h.list h.initialized h.idle h.valid
  have hsucc := successor_known h
  have hphase : ∀ r, r ≠ successor a → phase (yield a) r = phase a r := by
    intro r hr
    rw [phase_yield, if_neg hr, if_neg (fun hc => hc.2 hci)]
  have hlist' : ReadyList s₁ (yield a).ready := by
    have hreq : requeued a = [] := if_pos hci
    show ReadyList s₁ (a.ready.tail ++ requeued a)
    rw [hreq, List.append_nil]
    exact hlist
  by_cases hsame : successor a = a.current
  · -- nothing is ready: the idle thread goes on, and only its state is written
    refine ⟨_, yield_stay h.ready hpick (hvalid _ hsucc) (hsame.trans h.current.symm), ?_⟩
    rw [h.current]
    constructor
    case initialized => exact hinit
    case idle => exact hidle
    case current => exact (hkept.current.trans h.current).trans hsame.symm
    case list => exact hlist'.congr (fun _ => setState_next) rfl rfl rfl
    case valid =>
      intro r hr
      rw [valid_congr setState_magic]
      exact hvalid r hr
    case state =>
      intro r hr
      rw [setState_state]
      by_cases hrc : r = a.current
      · have hrun : phase (yield a) r = .running :=
          phase_running_iff.mpr (Or.inr (hrc.trans hsame.symm))
        rw [if_pos hrc, hrun]
        rfl
      · rw [if_neg hrc, hkept.state, h.state r hr, hphase r (fun hc => hrc (hc.trans hsame))]
    case current_known => exact hsucc
    case ready_known => exact yield_ready_known h
    case blocked_known => exact h.blocked_known
  · have hother : successor a ≠ s.sched.current := by rw [h.current]; exact hsame
    -- the idle thread is not put in the ready list
    have hout : ¬ ((s₁.threads s.sched.current).state = .running ∧
        s.sched.current ≠ s₁.sched.idle) := by
      rintro ⟨-, hc⟩
      exact hc (by rw [h.current, hidle, hci])
    refine ⟨_, yield_leave h.ready hpick (hvalid _ hsucc) hother hout,
      switchTo_refines (b := yield a) hinit hidle hlist' hvalid ?_ hsucc (yield_ready_known h)
        h.blocked_known⟩
    intro r hr hrs
    rw [hkept.state, h.state r hr, hphase r hrs]

/-- Another thread yields: it goes to the end of the list. -/
theorem yield_refines_task (h : Refines known s a) (hci : a.current ≠ a.idle) :
    ∃ s', mcsosSchedYield s = (.ok (), s') ∧ Refines known s' (yield a) := by
  obtain ⟨s₁, hpick, hlist, hkept, hinit, hidle, hvalid⟩ :=
    pick_refines h.list h.initialized h.idle h.valid
  have hsucc := successor_known h
  have hother : successor a ≠ s.sched.current := by
    rw [h.current]
    exact successor_ne_current a hci
  have hin : (s₁.threads s.sched.current).state = .running ∧
      s.sched.current ≠ s₁.sched.idle := by
    rw [hkept.state, h.current, hidle]
    exact ⟨(h.state_iff h.current_known .running).mpr (phase_running_iff.mpr (Or.inr rfl)), hci⟩
  -- the outgoing thread is READY by then, so the enqueue inside the yield accepts it
  have henq : mcsosSchedEnqueue (s₁.setState s.sched.current .ready) s.sched.current =
      (.ok (), appendReady (s₁.setState s.sched.current .ready) s.sched.current) := by
    rw [mcsosSchedEnqueue]
    rw [setState_sched, hinit, valid_congr setState_magic, h.current, hvalid _ h.current_known,
      setState_state, if_pos rfl]
    rfl
  have hlist' : ReadyList (appendReady (s₁.setState a.current .ready) a.current)
      (yield a).ready := by
    have hreq : requeued a = [a.current] := if_neg hci
    show ReadyList _ (a.ready.tail ++ requeued a)
    rw [hreq]
    exact (hlist.congr (fun _ => setState_next) rfl rfl rfl).append (h.ne_zero h.current_known)
      (fun hc => a.current_ready (List.mem_of_mem_tail hc))
  refine ⟨_, yield_requeue h.ready hpick (hvalid _ hsucc) hother hin henq, ?_⟩
  rw [h.current]
  refine switchTo_refines (b := yield a) ?_ ?_ hlist' ?_ ?_ hsucc (yield_ready_known h)
    h.blocked_known
  · rw [appendReady_sched]
    exact hinit
  · rw [appendReady_sched]
    exact hidle
  · intro r hr
    rw [valid_congr (appendReady_magic.trans setState_magic)]
    exact hvalid r hr
  · intro r hr hrs
    have hrs' : r ≠ successor a := hrs
    rw [appendReady_state, phase_yield, if_neg hrs']
    by_cases hrc : r = a.current
    · rw [if_pos hrc, if_pos ⟨hrc, hci⟩]
      rfl
    · rw [if_neg hrc, if_neg (fun hc => hrc hc.1), setState_state, if_neg hrc, hkept.state]
      exact h.state r hr

/-- **YIELD** always succeeds, and is the yield of the run queue. -/
theorem yield_refines (h : Refines known s a) :
    ∃ s', mcsosSchedYield s = (.ok (), s') ∧ Refines known s' (yield a) := by
  by_cases hci : a.current = a.idle
  · exact yield_refines_idle h hci
  · exact yield_refines_task h hci

/-- **BLOCK** is refused to the idle thread, and is the block of the run queue otherwise. -/
theorem block_refines (h : Refines known s a) :
    (a.current = a.idle ∧ mcsosThreadBlockCurrent s = (.error .estate, s)) ∨
      ∃ (hci : a.current ≠ a.idle) (s' : SchedState),
        mcsosThreadBlockCurrent s = (.ok (), s') ∧ Refines known s' (block a hci) := by
  rw [mcsosThreadBlockCurrent, h.ready, if_neg (by decide), h.current, h.idle]
  by_cases hci : a.current = a.idle
  · exact Or.inl ⟨hci, if_pos hci⟩
  refine Or.inr ⟨hci, ?_⟩
  rw [if_neg hci]
  -- from here on the current thread is BLOCKED, and the yield does not queue it
  let r₀ := s.setState a.current .blocked
  have hvalid₀ : ∀ r ∈ a.idle :: known, validThreadObject r₀ r = true := by
    intro r hr
    rw [valid_congr setState_magic]
    exact h.valid r hr
  have hready₀ : SchedModel.ready r₀ = true := by
    show (s.sched.initialized && validThreadObject r₀ s.sched.current) = true
    rw [h.initialized, h.current, hvalid₀ _ h.current_known]
    rfl
  obtain ⟨s₁, hpick, hlist, hkept, hinit, hidle, hvalid⟩ :=
    pick_refines (s := r₀) (h.list.congr (fun _ => setState_next) rfl rfl rfl) h.initialized h.idle
      hvalid₀
  have hcur : r₀.sched.current = a.current := h.current
  have hother : successor a ≠ r₀.sched.current := by
    rw [hcur]
    exact successor_ne_current a hci
  have hout : ¬ ((s₁.threads r₀.sched.current).state = .running ∧
      r₀.sched.current ≠ s₁.sched.idle) := by
    rintro ⟨hc, -⟩
    rw [hkept.state, hcur, setState_state, if_pos rfl] at hc
    cases hc
  have hsucc := successor_known h
  refine ⟨_, yield_leave hready₀ hpick (hvalid _ hsucc) hother hout,
    switchTo_refines (b := block a hci) hinit hidle hlist hvalid ?_ hsucc
      (fun r hr => h.ready_known r (List.mem_of_mem_tail hr)) ?_⟩
  · intro r hr hrs
    have hrs' : r ≠ successor a := hrs
    rw [hkept.state, setState_state, phase_block, if_neg hrs']
    by_cases hrc : r = a.current
    · rw [if_pos hrc, if_pos hrc]
      rfl
    · rw [if_neg hrc, if_neg hrc]
      exact h.state r hr
  · intro r hr
    rcases List.mem_cons.mp hr with rfl | hr
    · exact (List.mem_cons.mp h.current_known).resolve_left hci
    · exact h.blocked_known r hr

/-! ## Ticking and waking -/

/-- A tick leaves the run queue alone. -/
theorem tick_refines (h : Refines known s a) : Refines known (mcsosSchedTick s).2 a := by
  -- ticks are counted in fields that the queue does not have
  rw [mcsosSchedTick, h.ready, if_neg (by decide)]
  constructor
  case initialized => exact h.initialized
  case idle => exact h.idle
  case current => exact h.current
  case list => exact h.list.congr (fun _ => addTick_fields.2.1) rfl rfl rfl
  case valid =>
    intro r hr
    rw [valid_congr addTick_fields.2.2]
    exact h.valid r hr
  case state =>
    intro r hr
    rw [addTick_fields.1]
    exact h.state r hr
  case current_known => exact h.current_known
  case ready_known => exact h.ready_known
  case blocked_known => exact h.blocked_known

/-- Waking a known thread that is blocked enqueues it; any other thread is refused. -/
theorem markReady_eq (h : Refines known s a) (hp : p ∈ a.idle :: known) :
    mcsosThreadMarkReady s p =
      if phase a p = .blocked then mcsosSchedEnqueue s p else (.error .estate, s) := by
  rw [mcsosThreadMarkReady]
  have hstate : (s.threads p).state = .blocked ↔ phase a p = .blocked := h.state_iff hp .blocked
  rw [h.valid p hp, if_neg (by decide)]
  by_cases hb : phase a p = .blocked
  · rw [if_pos hb, if_neg (not_not.mpr (hstate.mpr hb))]
  · rw [if_neg hb, if_pos (mt hstate.mp hb)]

/-! ## Validation -/

/-- The check accepts every such scheduler. -/
theorem validate_refines (h : Refines known s a) : mcsosSchedValidate s = some (.ok ()) := by
  refine h.list.validate h.ready (fun r hr => ?_)
  have hk : r ∈ a.idle :: known := List.mem_cons_of_mem _ (h.ready_known r hr)
  refine ⟨h.valid r hk, (h.state_iff hk .ready).mpr (phase_ready_iff.mpr hr), ?_⟩
  rw [h.current]
  rintro rfl
  exact a.current_ready hr

end SchedRefinement
