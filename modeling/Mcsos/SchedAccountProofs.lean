import Mathlib.Algebra.BigOperators.Group.Finset.Piecewise
import Mathlib.Data.BitVec
import Mcsos.KernelVfsProofs

/-! # The books of the scheduler

    The scheduler counts ticks and switches twice, for itself and on the threads.
    `Books` says that the two agree: every tick is on the thread it hit, every switch on
    the two threads it was between, and whether a thread's count of switches is
    odd tells whether it runs.

    A call of the scheduler does one of three things to the counters (`Counts`),
    whatever the ready list looks like; so the books stay in order even when a
    thread that is enqueued twice has spoilt the list. -/

namespace SchedAccount

open Word SchedModel SchedQueue SchedTag SyscallVfs KernelModel KernelVfs

variable {s s' : SchedState} {p q : U64}

/-! ## Calls -/

/-- The counters are left alone. -/
structure Quiet (s s' : SchedState) : Prop where
  current : s'.sched.current = s.sched.current
  ticks : s'.sched.ticks = s.sched.ticks
  switches : s'.sched.contextSwitches = s.sched.contextSwitches
  thread : ∀ q, (s'.threads q).ticks = (s.threads q).ticks ∧
    (s'.threads q).switches = (s.threads q).switches

theorem Quiet.refl (s : SchedState) : Quiet s s := ⟨rfl, rfl, rfl, fun _ => ⟨rfl, rfl⟩⟩

theorem Quiet.trans {s'' : SchedState} (h : Quiet s s') (h' : Quiet s' s'') : Quiet s s'' :=
  ⟨h'.current.trans h.current, h'.ticks.trans h.ticks, h'.switches.trans h.switches, fun q =>
    ⟨(h'.thread q).1.trans (h.thread q).1, (h'.thread q).2.trans (h.thread q).2⟩⟩

/-- One for `p`, nothing for the others. -/
def only (p q : U64) : U64 := if q = p then 1 else 0

/-- `next` has taken over from the current thread. -/
structure Switched (s s' : SchedState) (next : U64) : Prop where
  other : next ≠ s.sched.current
  valid : validThreadObject s next = true
  current : s'.sched.current = next
  ticks : s'.sched.ticks = s.sched.ticks
  switches : s'.sched.contextSwitches = s.sched.contextSwitches + 1
  thread : ∀ q, (s'.threads q).ticks = (s.threads q).ticks ∧
    (s'.threads q).switches = (s.threads q).switches + only s.sched.current q + only next q

/-- A tick has hit the current thread. -/
structure Ticked (s s' : SchedState) : Prop where
  current : s'.sched.current = s.sched.current
  ticks : s'.sched.ticks = s.sched.ticks + 1
  switches : s'.sched.contextSwitches = s.sched.contextSwitches
  thread : ∀ q, (s'.threads q).ticks = (s.threads q).ticks + only s.sched.current q ∧
    (s'.threads q).switches = (s.threads q).switches

/-- What a call can do to the counters. -/
inductive Counts (s s' : SchedState) : Prop where
  | quiet (h : Quiet s s')
  | switched {next : U64} (h : Switched s s' next)
  | ticked (h : Ticked s s')

/-- A write to a thread object that keeps its counters. -/
theorem setThread_quiet {t : Thread} (hticks : t.ticks = (s.threads p).ticks)
    (hswitches : t.switches = (s.threads p).switches) : Quiet s (s.setThread p t) := by
  refine ⟨rfl, rfl, rfl, fun q => ?_⟩
  rw [setThread_threads]
  by_cases hq : q = p
  · rw [if_pos hq, hq]
    exact ⟨hticks, hswitches⟩
  · rw [if_neg hq]
    exact ⟨rfl, rfl⟩

theorem setState_quiet (st : ThreadState) : Quiet s (s.setState p st) := setThread_quiet rfl rfl

theorem setNext_quiet (t : U64) : Quiet s (s.setNext p t) := setThread_quiet rfl rfl

/-- Queueing a thread counts nothing. -/
theorem appendReady_quiet : Quiet s (appendReady s p) := by
  have hfirst : Quiet s ((s.setState p .ready).setNext p 0) :=
    (setState_quiet .ready).trans (setNext_quiet 0)
  by_cases hz : s.sched.readyTail = 0
  · rw [appendReady_first hz]
    exact ⟨hfirst.current, hfirst.ticks, hfirst.switches, hfirst.thread⟩
  · rw [appendReady_behind hz]
    have hlink := hfirst.trans (setNext_quiet (p := s.sched.readyTail) p)
    exact ⟨hlink.current, hlink.ticks, hlink.switches, hlink.thread⟩

/-- `mcsos_sched_enqueue` counts nothing. -/
theorem enqueue_quiet (s : SchedState) (p : U64) : Quiet s (mcsosSchedEnqueue s p).2 := by
  rcases SchedEnqueue.enqueue_result s p with ⟨e, heq⟩ | ⟨heq, -, -⟩
  · rw [heq]
    exact .refl s
  · rw [heq]
    exact appendReady_quiet

/-- Taking a thread from the queue counts nothing. -/
theorem popReady_quiet (t : U64) : Quiet s (popReady s t) := by
  have hlink := setNext_quiet (s := s) (p := t) 0
  simp only [popReady]
  split <;> split <;> exact ⟨rfl, rfl, rfl, hlink.thread⟩

/-- Picking the next thread counts nothing. -/
theorem pickNext_quiet (s : SchedState) : Quiet s (mcsosSchedPickNext s).2 := by
  rw [mcsosSchedPickNext]
  split
  · exact .refl s
  split
  · exact .refl s
  · exact popReady_quiet _

/-- The switch is counted for one thread. -/
theorem addSwitch_counts : ((s.addSwitch p).threads q).ticks = (s.threads q).ticks ∧
    ((s.addSwitch p).threads q).switches = (s.threads q).switches + only p q := by
  rw [SchedState.addSwitch, setThread_threads, only]
  by_cases hq : q = p
  · rw [if_pos hq, if_pos hq, hq]
    exact ⟨rfl, rfl⟩
  · rw [if_neg hq, if_neg hq, add_zero]
    exact ⟨rfl, rfl⟩

/-- The end of a yield, on a state that has the counters of `s`. -/
theorem Quiet.switchTo (h : Quiet s s') {next : U64} (hother : next ≠ s.sched.current)
    (hvalid : validThreadObject s next = true) :
    Switched s (switchTo s' s.sched.current next) next := by
  refine ⟨hother, hvalid, rfl, h.ticks, congrArg (· + 1) h.switches, fun q => ?_⟩
  let r : SchedState :=
    { s'.setState next .running with sched := { s'.sched with current := next } }
  obtain ⟨hticks, hswitches⟩ := addSwitch_counts (s := r) (p := s.sched.current) (q := q)
  obtain ⟨hticks', hswitches'⟩ :=
    addSwitch_counts (s := r.addSwitch s.sched.current) (p := next) (q := q)
  obtain ⟨hr, hr'⟩ := (h.trans (setState_quiet (p := next) .running)).thread q
  refine ⟨(hticks'.trans hticks).trans hr, hswitches'.trans ?_⟩
  rw [hswitches]
  exact congrArg (· + only s.sched.current q + only next q) hr'

/-- A yield counts one switch, or nothing. -/
theorem yield_counts (h : SchedModel.ready s = true) : Counts s (mcsosSchedYield s).2 := by
  have hquiet := pickNext_quiet s
  have hgo := pickNext_goesOn h
  rw [mcsosSchedYield, h]
  cases hp : mcsosSchedPickNext s with
  | mk next s₁ =>
  rw [hp] at hquiet hgo
  rw [if_neg (by decide)]
  dsimp only
  cases hvalid : validThreadObject s₁ next with
  | false => exact .quiet hquiet
  | true =>
  by_cases hsame : next = s.sched.current
  · rw [if_neg (by decide), if_pos hsame]
    exact .quiet (hquiet.trans (setState_quiet _))
  -- the next thread is another one, and it is a thread object
  have hnext : validThreadObject s next = true := (hgo.valid next).symm.trans hvalid
  rw [if_neg (by decide), if_neg hsame]
  by_cases hrun : (s₁.threads s.sched.current).state = .running ∧ s.sched.current ≠ s₁.sched.idle
  · rw [if_pos hrun]
    have henq := enqueue_quiet (s₁.setState s.sched.current .ready) s.sched.current
    cases hq : mcsosSchedEnqueue (s₁.setState s.sched.current .ready) s.sched.current with
    | mk r s₂ =>
    rw [hq] at henq
    have hthere := (hquiet.trans (setState_quiet _)).trans henq
    cases r with
    | error e => exact .quiet hthere
    | ok u => exact .switched (hthere.switchTo hsame hnext)
  · rw [if_neg hrun]
    exact .switched (hquiet.switchTo hsame hnext)

/-- A call on a state that has the counters of `s`. -/
theorem Quiet.counts {s'' : SchedState} (h : Quiet s s')
    (hvalid : ∀ q, validThreadObject s' q = validThreadObject s q) (h' : Counts s' s'') :
    Counts s s'' := by
  cases h' with
  | quiet h' => exact .quiet (h.trans h')
  | switched h' =>
      refine .switched ⟨h.current ▸ h'.other, (hvalid _).symm.trans h'.valid, h'.current,
        h'.ticks.trans h.ticks, ?_, fun q => ?_⟩
      · rw [h'.switches, h.switches]
      · obtain ⟨hticks, hswitches⟩ := h'.thread q
        rw [hticks, hswitches, (h.thread q).1, (h.thread q).2, h.current]
        exact ⟨rfl, rfl⟩
  | ticked h' =>
      refine .ticked ⟨h'.current.trans h.current, ?_, h'.switches.trans h.switches, fun q => ?_⟩
      · rw [h'.ticks, h.ticks]
      · obtain ⟨hticks, hswitches⟩ := h'.thread q
        rw [hticks, hswitches, (h.thread q).1, (h.thread q).2, h.current]
        exact ⟨rfl, rfl⟩

/-- Blocking counts one switch, or nothing. -/
theorem block_counts (h : SchedModel.ready s = true) : Counts s (mcsosThreadBlockCurrent s).2 := by
  rw [mcsosThreadBlockCurrent, h, if_neg (by decide)]
  split
  · exact .quiet (.refl s)
  · have hset := setState_goesOn h s.sched.current .blocked
    exact (setState_quiet _).counts hset.valid (yield_counts hset.ready)

/-- Waking a thread counts nothing. -/
theorem markReady_quiet (s : SchedState) (p : U64) : Quiet s (mcsosThreadMarkReady s p).2 := by
  rw [mcsosThreadMarkReady]
  split
  · exact .refl s
  split
  · exact .refl s
  · exact enqueue_quiet s p

/-- A tick is counted for the current thread. -/
theorem tick_counts (h : SchedModel.ready s = true) : Counts s (mcsosSchedTick s).2 := by
  rw [mcsosSchedTick, h, if_neg (by decide)]
  refine .ticked ⟨rfl, rfl, rfl, fun q => ?_⟩
  dsimp only
  rw [SchedState.addTick, setThread_threads, only]
  dsimp only
  by_cases hq : q = s.sched.current
  · rw [if_pos hq, if_pos hq, hq]
    exact ⟨rfl, rfl⟩
  · rw [if_neg hq, if_neg hq, add_zero]
    exact ⟨rfl, rfl⟩

/-! ## The books -/

/-- The threads' counters add up to the scheduler's, and tell who runs; `boot` was
    running at the start. -/
structure Books (boot : U64) (T : Finset U64) (s : SchedState) : Prop where
  ready : SchedModel.ready s = true
  objects : ∀ p, p ∈ T ↔ validThreadObject s p = true
  booted : boot ∈ T
  ticks : ∑ p ∈ T, (s.threads p).ticks = s.sched.ticks
  switches : ∑ p ∈ T, (s.threads p).switches = 2 * s.sched.contextSwitches
  parity : ∀ p ∈ T, ((s.threads p).switches.toNat % 2 = 1 ↔ ¬ (p = s.sched.current ↔ p = boot))

variable {boot : U64} {T : Finset U64}

/-- One thread gets the one. -/
theorem sum_only (hp : p ∈ T) : ∑ q ∈ T, only p q = 1 := by
  unfold only
  rw [Finset.sum_ite_eq' T p, if_pos hp]

/-- The current thread is in the books. -/
theorem Books.current_mem (h : Books boot T s) : s.sched.current ∈ T :=
  (h.objects _).mpr (ready_iff.mp h.ready).2

/-- Counting one more changes the parity, also when the counter wraps. -/
theorem odd_add_one (v : U64) : (v + 1).toNat % 2 = 1 ↔ ¬ v.toNat % 2 = 1 := by
  rw [BitVec.toNat_add]
  show (v.toNat + 1) % 2 ^ 64 % 2 = 1 ↔ _
  omega

/-- **CALL**: a call of the scheduler keeps the books. -/
theorem Books.counts (h : Books boot T s) (hgo : GoesOn s s') (hc : Counts s s') :
    Books boot T s' := by
  have hobjects : ∀ p, p ∈ T ↔ validThreadObject s' p = true :=
    fun p => by rw [hgo.valid, h.objects]
  cases hc with
  | quiet hq =>
      refine ⟨hgo.ready, hobjects, h.booted, ?_, ?_, fun p hp => ?_⟩
      · rw [Finset.sum_congr rfl fun p _ => (hq.thread p).1, h.ticks, hq.ticks]
      · rw [Finset.sum_congr rfl fun p _ => (hq.thread p).2, h.switches, hq.switches]
      · rw [(hq.thread p).2, hq.current]
        exact h.parity p hp
  | ticked ht =>
      refine ⟨hgo.ready, hobjects, h.booted, ?_, ?_, fun p hp => ?_⟩
      · rw [Finset.sum_congr rfl fun p _ => (ht.thread p).1, Finset.sum_add_distrib, h.ticks,
          sum_only h.current_mem, ht.ticks]
      · rw [Finset.sum_congr rfl fun p _ => (ht.thread p).2, h.switches, ht.switches]
      · rw [(ht.thread p).2, ht.current]
        exact h.parity p hp
  | @switched next hs =>
      have hnext : next ∈ T := (h.objects next).mpr hs.valid
      refine ⟨hgo.ready, hobjects, h.booted, ?_, ?_, fun p hp => ?_⟩
      · rw [Finset.sum_congr rfl fun p _ => (hs.thread p).1, h.ticks, hs.ticks]
      · rw [Finset.sum_congr rfl fun p _ => (hs.thread p).2, Finset.sum_add_distrib,
          Finset.sum_add_distrib, h.switches, sum_only h.current_mem, sum_only hnext, hs.switches]
        bv_omega
      · have hold := h.parity p hp
        have hother := hs.other
        rw [(hs.thread p).2, hs.current, only, only]
        -- the count of the thread that leaves and that of the one that comes turn over
        by_cases hleaves : p = s.sched.current
        · have hstays : p ≠ next := fun heq => hother (heq.symm.trans hleaves)
          rw [if_pos hleaves, if_neg hstays, add_zero, odd_add_one, hold]
          tauto
        · by_cases hcomes : p = next
          · rw [if_neg hleaves, if_pos hcomes, add_zero, odd_add_one, hold]
            tauto
          · rw [if_neg hleaves, if_neg hcomes, add_zero, add_zero, hold]
            tauto

/-- A new thread starts its own counters. -/
theorem Books.prepare (h : Books boot T s) {trampoline entry base size : U64}
    (hok : mcsosThreadPrepare trampoline s p entry base size = (.ok (), s'))
    (hfresh : validThreadObject s p = false) : Books boot (insert p T) s' := by
  obtain ⟨hready, hnew, hold⟩ := prepare_goesOn h.ready hok
  obtain ⟨-, rfl⟩ := prepare_ok hok
  obtain ⟨hsched, -, -, hothers⟩ := prepared_threads (s := s) (p := p) trampoline base size
  have hticks : ((prepared trampoline s p base size).threads p).ticks = 0 :=
    congrArg Thread.ticks (if_pos rfl)
  have hswitches : ((prepared trampoline s p base size).threads p).switches = 0 :=
    congrArg Thread.switches (if_pos rfl)
  have hp : p ∉ T := by
    rw [h.objects, hfresh]
    exact Bool.false_ne_true
  -- a new object starts at zero and leaves the others' counters alone
  have hne {q : U64} (hq : q ∈ T) : q ≠ p := fun heq => hp (heq ▸ hq)
  refine ⟨hready, fun q => ?_, Finset.mem_insert_of_mem h.booted, ?_, ?_, fun q hq => ?_⟩
  · by_cases hq : q = p
    · rw [hq, hnew]
      exact ⟨fun _ => rfl, fun _ => Finset.mem_insert_self p T⟩
    · rw [Finset.mem_insert, hold q hq, ← h.objects]
      exact or_iff_right hq
  · rw [Finset.sum_insert hp, hticks, zero_add,
      Finset.sum_congr rfl fun q hq => congrArg Thread.ticks (hothers q (hne hq)), h.ticks, hsched]
  · rw [Finset.sum_insert hp, hswitches, zero_add,
      Finset.sum_congr rfl fun q hq => congrArg Thread.switches (hothers q (hne hq)), h.switches,
      hsched]
  · rw [hsched]
    rcases Finset.mem_insert.mp hq with rfl | hq
    · rw [hswitches]
      have hcurrent := (hne h.current_mem).symm
      have hboot := (hne h.booted).symm
      simp [hcurrent, hboot]
    · rw [hothers q (hne hq)]
      exact h.parity q hq

/-! ## Runs of the kernel -/

variable {k : Kernel}

/-- What a system call does to the scheduler is a yield, or nothing that is counted. -/
theorem worldStep_counts {w' : World} (h : SchedModel.ready k.world.threads = true)
    (hstep : WorldStep k.config k.world w') : Counts k.world.threads w'.threads := by
  cases hstep with
  | same => exact .quiet (.refl _)
  | ticks hget =>
      cases hget
      exact .quiet (.refl _)
  | serial => exact .quiet (.refl _)
  | yields hyield =>
      cases hyield
      exact yield_counts h
  | exits code hexit =>
      cases hexit
      exact .quiet (.refl _)

/-- A system call counts what its effect on the scheduler counts. -/
theorem syscall_counts (h : KernelInv k) (stack : Nat → U8) (f : SyscallEntryModel.SyscallFrame) :
    Counts k.world.threads (syscall stack f k).2.world.threads := by
  have hthreads : (syscall stack f k).2.world.threads
      = (SyscallEntryModel.dispatchFrame k.config stack f k.state).state.world.threads := rfl
  rw [hthreads]
  rcases dispatch_cases h.serves (v := view k) rfl (view_table h.current) stack f with
    ⟨op, -, hmakes⟩ | ⟨-, -, hworld⟩
  · rw [hmakes.world]
    exact .quiet (.refl _)
  · exact worldStep_counts h.ready hworld

/-- A thread is prepared on an object that is none yet. -/
def Fresh (k : Kernel) : KernelOp → Prop
  | .prepareThread _ p _ _ _ => validThreadObject k.world.threads p = false
  | _ => True

/-- At every step of the run. -/
def AllFresh : Kernel → List KernelOp → Prop
  | _, [] => True
  | k, op :: ops => Fresh k op ∧ AllFresh (kernelStep k op).2 ops

/-- **STEP**: a step of the kernel keeps the books, on one thread more if it has prepared one. -/
theorem kernelStep_books (h : KernelInv k) (hbooks : Books boot T k.world.threads)
    {op : KernelOp} (hfresh : Fresh k op) :
    ∃ T', Books boot T' (kernelStep k op).2.world.threads := by
  cases op with
  | call stack f =>
      exact ⟨T, hbooks.counts (syscall_view h stack f).1 (syscall_counts h stack f)⟩
  | compute mem => exact ⟨T, hbooks⟩
  | prepareThread trampoline p entry stackBase stackSize =>
      -- only preparing a thread adds to the books
      show ∃ T',
        Books boot T' (prepareThread trampoline p entry stackBase stackSize k).world.threads
      rw [prepareThread]
      cases hprep : mcsosThreadPrepare trampoline k.world.threads p entry stackBase stackSize with
      | mk r threads =>
      cases r with
      | error e =>
          rw [prepare_refused hprep]
          exact ⟨T, hbooks⟩
      | ok u => exact ⟨insert p T, hbooks.prepare hprep hfresh⟩
  | enqueue p =>
      exact ⟨T, hbooks.counts (enqueue_goesOn h.ready p) (.quiet (enqueue_quiet _ p))⟩
  | yield => exact ⟨T, hbooks.counts (yield_goesOn h.ready) (yield_counts h.ready)⟩
  | blockCurrent => exact ⟨T, hbooks.counts (block_goesOn h.ready) (block_counts h.ready)⟩
  | markReady p =>
      exact ⟨T, hbooks.counts (markReady_goesOn h.ready p) (.quiet (markReady_quiet _ p))⟩
  | tick => exact ⟨T, hbooks.counts (tick_goesOn h.ready) (tick_counts h.ready)⟩
  | setUserRegion region => exact ⟨T, hbooks⟩
  | seedFile path data len => exact ⟨T, hbooks⟩

/-- **RUN**: the books are kept over every run that prepares no thread object twice. -/
theorem exec_books (ops : List KernelOp) (h : KernelInv k) (hbooks : Books boot T k.world.threads)
    (hfresh : AllFresh k ops) :
    ∃ T', Books boot T' (Machine.exec kernelStep k ops).world.threads := by
  induction ops generalizing k T with
  | nil => exact ⟨T, hbooks⟩
  | cons op ops ih =>
      obtain ⟨T', hbooks'⟩ := kernelStep_books h hbooks hfresh.1
      exact ih (kernelStep_inv h op) hbooks' hfresh.2

/-- The books after the boot. -/
theorem kernelInit_books (hblank : Blank k) (hboot : boot ≠ 0) :
    Books boot {boot} (kernelInit boot k).world.threads := by
  have hthreads : (kernelInit boot k).world.threads
      = (mcsosSchedulerInit k.world.threads boot).2 := rfl
  have hready := (kernelInit_inv hblank hboot).ready
  rw [hthreads] at hready ⊢
  rw [mcsosSchedulerInit, if_neg hboot] at hready ⊢
  -- the boot thread is the only object, and every counter is zero
  refine ⟨hready, fun q => ?_, Finset.mem_singleton_self boot, ?_, ?_, fun q hq => ?_⟩
  · rw [Finset.mem_singleton, valid_iff]
    dsimp only
    rw [setThread_threads]
    by_cases hq : q = boot
    · rw [if_pos hq, hq]
      exact ⟨fun _ => ⟨hboot, rfl⟩, fun _ => rfl⟩
    · rw [if_neg hq]
      exact ⟨fun h => absurd h hq, fun h => absurd h.2 (hblank q)⟩
  · rw [Finset.sum_singleton]
    dsimp only
    rw [setThread_threads, if_pos rfl]
  · rw [Finset.sum_singleton]
    dsimp only
    rw [setThread_threads, if_pos rfl]
    rfl
  · rw [Finset.mem_singleton] at hq
    dsimp only
    rw [setThread_threads, if_pos hq]
    simp

/-- **THE COUNTERS AGREE**: on every run since boot in which no thread object is prepared
    a second time, the ticks of the threads add up to those of the scheduler and their
    switches to twice its own, every counter taken modulo 2 ^ 64.  A thread other than the one
    that booted runs if and only if its count of switches is odd, and that one if its
    count is even, also after a count has wrapped. -/
theorem counters_agree {k₀ : Kernel} (hblank : Blank k₀) {boot : U64} (hboot : boot ≠ 0)
    {ops : List KernelOp} (hfresh : AllFresh (kernelInit boot k₀) ops) :
    let s := (Machine.exec kernelStep (kernelInit boot k₀) ops).world.threads
    ∃ T : Finset U64, (∀ p, p ∈ T ↔ validThreadObject s p = true) ∧
      ∑ p ∈ T, (s.threads p).ticks = s.sched.ticks ∧
      ∑ p ∈ T, (s.threads p).switches = 2 * s.sched.contextSwitches ∧
      ∀ p ∈ T, ((s.threads p).switches.toNat % 2 = 1 ↔ ¬ (p = s.sched.current ↔ p = boot)) := by
  intro s
  obtain ⟨T, hbooks⟩ :=
    exec_books ops (kernelInit_inv hblank hboot) (kernelInit_books hblank hboot) hfresh
  exact ⟨T, hbooks.objects, hbooks.ticks, hbooks.switches, hbooks.parity⟩

/-- Thread 0x20 is enqueued twice, which spoils the ready list; a tick hits each thread. -/
def doubledRun : List KernelOp :=
  [.prepareThread 0x7000 0x20 0x8000 0x10000 8192, .enqueue 0x20, .enqueue 0x20, .tick, .yield,
    .tick, .yield]

/-- The counters add up although the ready list is spoilt. -/
theorem counters_agree_doubled :
    let s := (Machine.exec kernelStep (kernelInit 0x10 emptyKernel) doubledRun).world.threads
    s.sched.ticks = 2 ∧ s.sched.contextSwitches = 1 ∧
      ∃ T : Finset U64, (∀ p, p ∈ T ↔ validThreadObject s p = true) ∧
        ∑ p ∈ T, (s.threads p).ticks = s.sched.ticks ∧
        ∑ p ∈ T, (s.threads p).switches = 2 * s.sched.contextSwitches ∧
        ∀ p ∈ T, ((s.threads p).switches.toNat % 2 = 1 ↔ ¬ (p = s.sched.current ↔ p = 0x10)) :=
  ⟨by decide, by decide, counters_agree emptyKernel_blank (by decide)
    ⟨show validThreadObject _ 0x20 = false by decide, trivial, trivial, trivial, trivial, trivial,
      trivial, trivial⟩⟩

end SchedAccount
