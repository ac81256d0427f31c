import Mcsos.BootMemoryProofs
import Mcsos.KernelVfsProofs
import Mcsos.SchedTurnsProofs

/-! # Threads and files at boot

    The later parts of `kmain` run on the kernel of `KernelModel`: what they do are
    steps of it, so everything that is known of its runs holds from then on.  None of
    their checks fails, wherever the objects lie and whatever they held before. -/

namespace BootThreads

open Word ByteMemory LogModel BootModel BootMemory VfsModel SchedModel SchedQueue SchedRefinement
open RunQueue SyncModel SyscallModel SyscallEntryModel SyscallVfs KernelModel KernelVfs

variable {k : Kernel} {st : Statics} {stack : Nat → U8}

/-! ## Calls the kernel makes itself -/

/-- A call that answers changes memory and the current thread's table only. -/
theorem after_reply (k : Kernel) (m : Mem) (t : FdTable) (n : Int) :
    k.after (reply { k.state with mem := m, table := t } n)
      = { k with mem := m, tables := Function.update k.tables k.current t } := by
  show ({ k with
    mem := m
    tables := Function.update k.tables k.current t
    world := { k.world with line := k.world.line ++ [] } } : Kernel) = _
  rw [List.append_nil]

/-- A call that only answers changes nothing. -/
theorem after_same (k : Kernel) (n : Int) : k.after (reply k.state n) = k := by
  have h := after_reply k k.mem (k.tables k.current) n
  rw [Function.update_eq_self] at h
  exact h

/-- A call with a number of the table runs its handler. -/
theorem dispatch_eq {nr : U64} {n : Nat} {fn : SyscallFn World} (hnr : nr = BitVec.ofNat 64 n)
    (hn : n < 10) (hfn : (gTable k.config stack)[n]? = some fn) (a b c : U64) :
    dispatch stack nr a b c k
      = ((fn a b c 0 0 0 k.state).ret, k.after (fn a b c 0 0 0 k.state)) := by
  rw [dispatch, syscall, dispatchFrame_eq hnr hn hfn]

/-- **M10**: the two calls answer and leave the kernel as it is. -/
theorem syscallInit_ok (stack : Nat → U8) (hticks : k.world.gTicks.toNat < 2 ^ 63) (log : List U8) :
    ∃ log', runs (kernelM10SyscallInit stack k) log
      = (.ok { k with region := USER_REGION }, log') := by
  have hping : ∀ k : Kernel, dispatch stack MCSOS_SYS_PING 0 0 0 k = (0x2605020A, k) := by
    intro k
    rw [dispatch_eq (show MCSOS_SYS_PING = BitVec.ofNat 64 0 from rfl) (by decide) rfl]
    exact congrArg _ (after_same k _)
  have hget : ∀ k : Kernel,
      dispatch stack MCSOS_SYS_GET_TICKS 0 0 0 k = (k.world.gTicks.toInt, k) := by
    intro k
    rw [dispatch_eq (show MCSOS_SYS_GET_TICKS = BitVec.ofNat 64 1 from rfl) (by decide) rfl]
    exact congrArg _ (after_same k _)
  -- the trial takes a negative count for an error
  have hpos : ¬ k.world.gTicks.toInt < 0 := by
    rw [BitVec.toInt_eq_toNat_of_lt (by omega)]
    omega
  unfold kernelM10SyscallInit
  dsimp only
  rw [runs_say, hping]
  dsimp only
  rw [if_neg (not_not_intro rfl), runs_say, hget]
  dsimp only
  rw [if_neg hpos]
  exact ⟨_, rfl⟩

/-- **M12**: one acquisition and one release of the lock. -/
theorem selftest_ok (counter : U64) (log : List U8) :
    ∃ lockdep log', runs (m12SyncSelftest counter) log = (.ok (counter + 1, lockdep, 0), log') ∧
      lockdep.depth = 0 ∧ lockdep.violationCount = 0 :=
  ⟨_, _, rfl, rfl, rfl⟩

/-- **M11**: whatever the loader says is logged. -/
theorem loaderSmoke_ok (plan : ElfModel.Plan) (log : List U8) :
    ∃ log', runs (kernelM11LoaderSmoke plan) log = (.ok (), log') := by
  unfold kernelM11LoaderSmoke
  split
  · exact ⟨_, rfl⟩
  · exact ⟨_, rfl⟩

/-! ## M9: the threads -/

/-- What `mcsos_thread_prepare` asks of a thread object and its stack. -/
structure Preparable (p entry stackBase : U64) : Prop where
  thread : p ≠ 0
  entry : entry ≠ 0
  stack : stackBase ≠ 0
  fits : stackBase.toNat + 8192 < 2 ^ 64

/-- The demo stacks fit, so the demo threads can be prepared. -/
theorem prepare_demo {p entry stackBase : U64} (h : Preparable p entry stackBase) (tramp : U64)
    (s : SchedState) :
    mcsosThreadPrepare tramp s p entry stackBase DEMO_STACK_SIZE
      = (.ok (), prepared tramp s p stackBase DEMO_STACK_SIZE) := by
  have hfits := h.fits
  have hsum : (stackBase + DEMO_STACK_SIZE).toNat = stackBase.toNat + 8192 := by
    rw [DEMO_STACK_SIZE]
    bv_omega
  have hhigh : ¬ stackBase + DEMO_STACK_SIZE ≤ stackBase := by
    rw [BitVec.le_def]
    omega
  have htop : ¬ alignDown (stackBase + DEMO_STACK_SIZE) MCSOS_STACK_ALIGN ≤ stackBase + 128 := by
    have hmask := and_highMask_toNat (stackBase + DEMO_STACK_SIZE) (MCSOS_STACK_ALIGN - 1) 4
      (by decide)
    rw [hsum] at hmask
    rw [BitVec.le_def, alignDown, hmask]
    bv_omega
  exact prepare_fits (not_or.mpr ⟨h.thread, not_or.mpr ⟨h.entry, h.stack⟩⟩)
    ⟨by decide, hhigh, htop⟩

/-- The store to `context.rip` is all that is left of the trampoline. -/
theorem prepared_restart (tramp start : U64) (s : SchedState) (p base size : U64) :
    let t := (prepared tramp s p base size).threads p
    (prepared tramp s p base size).setThread p { t with context := { t.context with rip := start } }
      = prepared start s p base size := by
  intro t
  have ht : t = _ := if_pos rfl
  rw [ht, prepared, prepared, SchedState.setThread]
  refine congrArg (fun f => SchedState.mk _ f _) (funext fun q => ?_)
  by_cases hq : q = p
  · show (if q = p then _ else _) = if q = p then _ else _
    rw [if_pos hq, if_pos hq]
  · show (if q = p then _ else if q = p then _ else _) = if q = p then _ else _
    rw [if_neg hq, if_neg hq, if_neg hq]

/-- Preparing a thread in the kernel also clears its descriptors. -/
theorem prepareThread_ok {p entry stackBase : U64} (h : Preparable p entry stackBase) (tramp : U64)
    (k : Kernel) :
    prepareThread tramp p entry stackBase DEMO_STACK_SIZE k
      = (k.setThreads
          (prepared tramp k.world.threads p stackBase DEMO_STACK_SIZE)).clearTable p := by
  rw [prepareThread, prepare_demo h]

/-- The boot code's prepare, which overwrites `rip`, is a prepare with the other trampoline. -/
theorem prepareDemo_ok {p entry stackBase : U64} (h : Preparable p entry stackBase) (line : U32)
    (reason : String) (k : Kernel) (log : List U8) :
    runs (prepareDemo st p entry stackBase line reason k) log
      = (.ok (prepareThread st.threadStart p entry stackBase DEMO_STACK_SIZE k), log) := by
  rw [prepareDemo, prepare_demo h, prepareThread_ok h]
  dsimp only
  rw [prepared_restart]
  rfl

/-- The boot code's enqueue is the kernel's. -/
theorem enqueueDemo_ok {p : U64} {threads : SchedState}
    (h : mcsosSchedEnqueue k.world.threads p = (.ok (), threads)) (line : U32) (reason : String)
    (log : List U8) :
    runs (enqueueDemo p line reason k) log = (.ok (kernelStep k (.enqueue p)).2, log) := by
  rw [enqueueDemo, kernelStep, h]
  rfl

/-- The thread objects, their stacks and entry points. -/
structure Threads (st : Statics) : Prop where
  boot : st.bootThread ≠ 0
  a : Preparable st.threadA st.demoThreadA st.stackA
  b : Preparable st.threadB st.demoThreadB st.stackB
  boot_a : st.threadA ≠ st.bootThread
  boot_b : st.threadB ≠ st.bootThread
  a_b : st.threadB ≠ st.threadA

/-- One demo thread runs, the other waits, and the boot thread is idle. -/
structure Turn (st : Statics) (s : SchedState) (current waiting : U64) : Prop where
  queue : ∃ a, Refines [st.threadB, st.threadA] s a ∧ a.idle = st.bootThread ∧
    a.current = current ∧ a.ready = [waiting]

/-- The scheduler after the two demo threads are prepared. -/
def bothPrepared (st : Statics) (s : SchedState) : SchedState :=
  prepared st.threadStart (prepared st.threadStart s st.threadA st.stackA DEMO_STACK_SIZE)
    st.threadB st.stackB DEMO_STACK_SIZE

/-- The calls of `kernel_m9_scheduler_init` on the scheduler. -/
theorem threads_start (h : Threads st) (s : SchedState) :
    ∃ s₁ s₄ s₅ s₆, mcsosSchedulerInit s st.bootThread = (.ok (), s₁) ∧
      mcsosSchedEnqueue (bothPrepared st s₁) st.threadA = (.ok (), s₄) ∧
      mcsosSchedEnqueue s₄ st.threadB = (.ok (), s₅) ∧ mcsosSchedYield s₅ = (.ok (), s₆) ∧
      Turn st s₆ st.threadA st.threadB := by
  have hinit : mcsosSchedulerInit s st.bootThread = (.ok (), _) := if_neg h.boot
  have h₁ := init_refines hinit
  have h₂ := prepare_refines h₁ h.boot_a List.not_mem_nil (prepare_demo h.a st.threadStart _)
  have h₃ := prepare_refines h₂ h.boot_b (by simpa using h.a_b) (prepare_demo h.b st.threadStart _)
  have hready : phase (start st.bootThread) st.threadA ≠ .ready := by
    rw [Ne, phase_ready_iff]
    exact List.not_mem_nil
  have hidle : ∀ {q : Tasks U64} {p : U64}, q.idle = st.bootThread → q.current = st.bootThread →
      p ≠ st.bootThread → phase q p ≠ .running := by
    intro q p hi hc hp
    rw [Ne, phase_running_iff, hi, hc, or_self]
    exact hp
  rcases enqueue_cases h₃ (p := st.threadA) (by simp) hready with ⟨hrun, -⟩ | ⟨hrun, -, heq₄, h₄⟩
  · exact absurd hrun (hidle rfl rfl h.boot_a)
  have hready' : phase (join (start st.bootThread) st.threadA hrun hready) st.threadB ≠ .ready := by
    rw [Ne, phase_ready_iff]
    show st.threadB ∉ [] ++ [st.threadA]
    simpa using h.a_b
  rcases enqueue_cases h₄ (p := st.threadB) (by simp) hready' with
    ⟨hrun', -⟩ | ⟨hrun', -, heq₅, h₅⟩
  · exact absurd hrun' (hidle rfl rfl h.boot_b)
  obtain ⟨s₆, heq₆, h₆⟩ := yield_refines h₅
  refine ⟨_, _, _, s₆, hinit, heq₄, heq₅, heq₆, ⟨_, h₆, rfl, rfl, ?_⟩⟩
  -- the boot thread is idle and does not queue up
  have hreq : requeued (join (join (start st.bootThread) st.threadA hrun hready) st.threadB
      hrun' hready') = [] := if_pos rfl
  show [st.threadB] ++ requeued _ = [st.threadB]
  rw [hreq]
  rfl

/-- `kernel_m9_scheduler_init` as steps of the kernel. -/
def threadOps (st : Statics) : List KernelOp :=
  [.prepareThread st.threadStart st.threadA st.demoThreadA st.stackA DEMO_STACK_SIZE,
    .prepareThread st.threadStart st.threadB st.demoThreadB st.stackB DEMO_STACK_SIZE,
    .enqueue st.threadA, .enqueue st.threadB, .yield]

/-- The kernel after `mcsos_scheduler_init` on the boot thread. -/
def withScheduler (st : Statics) (k : Kernel) : Kernel :=
  (k.setThreads (mcsosSchedulerInit k.world.threads st.bootThread).2).clearTable st.bootThread

/-- **M9**: the scheduler comes up and hands over to thread A. -/
theorem schedulerInit_ok (h : Threads st) (k : Kernel) (log : List U8) :
    ∃ log', runs (kernelM9SchedulerInit st k) log
        = (.ok (Machine.exec kernelStep (withScheduler st k) (threadOps st)), log') ∧
      Turn st (Machine.exec kernelStep (withScheduler st k) (threadOps st)).world.threads
        st.threadA st.threadB := by
  obtain ⟨s₁, s₄, s₅, s₆, heq₁, heq₄, heq₅, heq₆, hturn⟩ := threads_start h k.world.threads
  have hk₁ : withScheduler st k = (k.setThreads s₁).clearTable st.bootThread := by
    rw [withScheduler, heq₁]
  have hthreads : (prepareThread st.threadStart st.threadB st.demoThreadB st.stackB DEMO_STACK_SIZE
      (prepareThread st.threadStart st.threadA st.demoThreadA st.stackA DEMO_STACK_SIZE
        (withScheduler st k))).world.threads
      = bothPrepared st s₁ := by
    rw [prepareThread_ok h.b, prepareThread_ok h.a, hk₁]
    rfl
  unfold kernelM9SchedulerInit
  rw [heq₁]
  dsimp only
  rw [← hk₁, runs_ok (prepareDemo_ok h.a _ _ _ _), runs_ok (prepareDemo_ok h.b _ _ _ _)]
  rw [← hthreads] at heq₄
  rw [runs_ok (enqueueDemo_ok heq₄ _ _ _)]
  -- from here on the two prepares are one kernel `k₃`
  generalize hk₃ : prepareThread st.threadStart st.threadB st.demoThreadB st.stackB DEMO_STACK_SIZE
    _ = k₃ at heq₄
  have hstep₄ : kernelStep k₃ (.enqueue st.threadA) = (none, k₃.setThreads s₄) := by
    rw [kernelStep, heq₄]
  have hstep₅ : kernelStep (k₃.setThreads s₄) (.enqueue st.threadB)
      = (none, k₃.setThreads s₅) := by
    show (none, (k₃.setThreads s₄).setThreads (mcsosSchedEnqueue s₄ st.threadB).2) = _
    rw [heq₅]
    rfl
  have hlast : Machine.exec kernelStep (withScheduler st k) (threadOps st) = k₃.setThreads s₆ := by
    have hyield : kernelStep (k₃.setThreads s₅) .yield = (none, k₃.setThreads s₆) := by
      show (none, (k₃.setThreads s₅).setThreads (mcsosSchedYield s₅).2) = _
      rw [heq₆]
      rfl
    rw [threadOps, Machine.exec_cons, Machine.exec_cons, kernelStep, kernelStep]
    dsimp only
    rw [hk₃, Machine.exec_cons, hstep₄, Machine.exec_cons, hstep₅, Machine.exec_cons, hyield,
      Machine.exec_nil]
  have henq : mcsosSchedEnqueue (k₃.setThreads s₄).world.threads st.threadB = (.ok (), s₅) := heq₅
  rw [hlast, hstep₄]
  dsimp only
  rw [runs_ok (enqueueDemo_ok henq _ _ _), hstep₅, runs_say]
  have hyielded : mcsosSchedYield (k₃.setThreads s₅).world.threads = (.ok (), s₆) := heq₆
  dsimp only
  rw [hyielded]
  exact ⟨_, rfl, hturn⟩

/-- The scheduler has its own objects; of the kernel's others, it is the descriptors of
    the new threads that are set up. -/
theorem threadOps_keeps (h : Threads st) (k : Kernel) :
    let k' := Machine.exec kernelStep (withScheduler st k) (threadOps st)
    k'.fs = k.fs ∧ k'.mem = k.mem ∧
      k'.tables st.threadA = mcsFdTableInit (k.tables st.threadA) := by
  rw [threadOps, Machine.exec_cons, Machine.exec_cons, kernelStep, kernelStep]
  dsimp only
  rw [prepareThread_ok h.b, prepareThread_ok h.a]
  refine ⟨rfl, rfl, ?_⟩
  show Function.update (Function.update (Function.update k.tables st.bootThread _) st.threadA _)
    st.threadB _ st.threadA = _
  rw [Function.update_of_ne h.a_b.symm, Function.update_self]
  exact congrArg mcsFdTableInit (Function.update_of_ne h.boot_a _ _)

/-! ## The loops of the threads -/

variable {s : SchedState} {p q : U64}

/-- The thread whose turn it is is current. -/
theorem Turn.current (h : Turn st s p q) : s.sched.current = p := by
  obtain ⟨a, href, -, hcurrent, -⟩ := h.queue
  rw [href.current, hcurrent]

/-- **STEP**: a yield changes places. -/
theorem Turn.yield (h : Turn st s p q) (hp : p ≠ st.bootThread) :
    Turn st (mcsosSchedYield s).2 q p := by
  obtain ⟨a, href, hidle, hcurrent, hready⟩ := h.queue
  obtain ⟨s', heq, href'⟩ := yield_refines href
  have hrotate := yield_rotate a (by rw [hcurrent, hidle]; exact hp) (by rw [hready]; simp)
  rw [hcurrent, hready] at hrotate
  obtain ⟨hnext, hwaiting⟩ := List.cons.inj hrotate
  rw [heq]
  exact ⟨_, href', hidle, hnext, hwaiting⟩

/-- The thread whose round it is. -/
def threadOf (st : Statics) (i : Nat) : U64 := if i % 2 = 0 then st.threadA else st.threadB

/-- What that thread logs. -/
def lineOf (i : Nat) : List U8 :=
  logWriteln (text (if i % 2 = 0 then "[M9] thread A tick" else "[M9] thread B tick"))

/-- The boot thread takes no turn. -/
theorem threadOf_ne_boot (h : Threads st) (i : Nat) : threadOf st i ≠ st.bootThread := by
  rw [threadOf]
  split
  · exact h.boot_a
  · exact h.boot_b

/-- One round is a line and a yield. -/
theorem demoRound_ok (h : Threads st) {i : Nat} (hcurrent : k.current = threadOf st i)
    (log : List U8) :
    runs (demoRound st k) log = (.ok (kernelStep k .yield).2, log ++ lineOf i) := by
  rw [demoRound, hcurrent, threadOf, lineOf]
  by_cases hi : i % 2 = 0
  · rw [if_pos hi, if_pos hi, if_pos rfl]
    rfl
  · rw [if_neg hi, if_neg hi, if_neg h.a_b, if_pos rfl]
    rfl

/-- **RUN**: the two threads take turns for ever. -/
theorem demoRounds_ok (h : Threads st) (n : Nat) :
    ∀ (i : Nat) (k : Kernel) (log : List U8),
      Turn st k.world.threads (threadOf st i) (threadOf st (i + 1)) →
      runs (demoRounds st n k) log
          = (.ok (Machine.exec kernelStep k (List.replicate n .yield)),
            log ++ (List.range n).flatMap fun j => lineOf (i + j)) ∧
        Turn st (Machine.exec kernelStep k (List.replicate n .yield)).world.threads
          (threadOf st (i + n)) (threadOf st (i + n + 1)) := by
  induction n with
  | zero =>
      intro i k log hturn
      refine ⟨?_, hturn⟩
      rw [List.range_zero, List.flatMap_nil, List.append_nil]
      rfl
  | succ n ih =>
      intro i k log hturn
      -- the yield has changed the places, so the rest starts with the other thread
      have hnext : Turn st (kernelStep k .yield).2.world.threads (threadOf st (i + 1))
          (threadOf st (i + 1 + 1)) := by
        have htwo : threadOf st (i + 1 + 1) = threadOf st i := by
          rw [threadOf, threadOf, Nat.add_assoc, Nat.add_mod_right]
        rw [htwo]
        exact hturn.yield (threadOf_ne_boot h i)
      obtain ⟨hruns, hlast⟩ := ih (i + 1) _ (log ++ lineOf i) hnext
      rw [List.replicate_succ, Machine.exec_cons]
      refine ⟨?_, ?_⟩
      · rw [demoRounds, runs_ok (demoRound_ok h hturn.current log), hruns, List.range_succ_eq_map,
          List.flatMap_cons, List.flatMap_map, List.append_assoc]
        simp only [Nat.add_zero, Nat.succ_eq_add_one, Nat.add_assoc, Nat.add_comm 1]
      · rw [show i + (n + 1) = i + 1 + n by omega]
        exact hlast

end BootThreads
