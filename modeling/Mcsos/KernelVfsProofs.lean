import Mcsos.KernelModel
import Mcsos.SchedTagProofs
import Mcsos.SyscallVfsProofs

/-! # Threads share the file system

    Whatever the threads of the kernel do, in whatever order they become current,
    the ramfs and their descriptor tables go through a run of the file system
    with one table for each thread (`view`).  A system call is a call of the
    file system on the table of its own thread, and the tables of the others
    stay as they are.

    An object that is no thread has no descriptors yet; `view` gives it a table
    without files, and preparing it changes nothing there. -/

namespace KernelVfs

open Word ByteMemory VfsModel VfsTree VfsInvariant SchedModel SchedQueue SchedTag SyscallModel
  SyscallEntryModel SyscallVfs KernelModel

/-! ## The file system of the threads -/

/-- A table without open files. -/
def noFiles : FdTable := ⟨fun _ => ⟨false, 0, 0, none, false⟩⟩

/-- The address of a thread is the number of its table. -/
def view (k : Kernel) : VfsState :=
  ⟨k.fs, fun i =>
    if i < 2 ^ 64 ∧ validThreadObject k.world.threads (BitVec.ofNat 64 i) = true then
      k.tables (BitVec.ofNat 64 i)
    else noFiles⟩

variable {k : Kernel} {p : U64}

/-- A thread's table is the one with its address as number. -/
theorem view_table (hp : validThreadObject k.world.threads p = true) :
    (view k).tables p.toNat = k.tables p := by
  have hback : BitVec.ofNat 64 p.toNat = p := (BitVec.ofNat_toNat 64 p).trans (BitVec.setWidth_eq p)
  show (if p.toNat < 2 ^ 64 ∧ _ then _ else _) = _
  rw [hback, if_pos ⟨p.isLt, hp⟩]

/-- The file system as `fs`, and the descriptors of a thread as `table`. -/
theorem view_update {k' : Kernel} (p : U64)
    (hp : validThreadObject k'.world.threads p = true)
    (hvalid : ∀ q, q ≠ p →
      validThreadObject k'.world.threads q = validThreadObject k.world.threads q)
    (htables : ∀ q, q ≠ p → k'.tables q = k.tables q) :
    view k' = ⟨k'.fs, Function.update (view k).tables p.toNat (k'.tables p)⟩ := by
  refine congrArg (VfsState.mk k'.fs) (funext fun i => ?_)
  by_cases hi : i = p.toNat
  · rw [hi, Function.update_self]
    exact view_table hp
  · rw [Function.update_of_ne hi]
    show (if i < 2 ^ 64 ∧ _ then _ else _) = if i < 2 ^ 64 ∧ _ then _ else _
    by_cases hlt : i < 2 ^ 64
    · have hne : BitVec.ofNat 64 i ≠ p := by
        intro h
        rw [← h, BitVec.toNat_ofNat, Nat.mod_eq_of_lt hlt] at hi
        exact hi rfl
      rw [hvalid _ hne, htables _ hne]
    · rw [if_neg fun h => hlt h.1, if_neg fun h => hlt h.1]

/-- The tables of the threads do not depend on who is current. -/
theorem view_congr {k' : Kernel} (hfs : k'.fs = k.fs) (htables : k'.tables = k.tables)
    (hvalid : ∀ q, validThreadObject k'.world.threads q = validThreadObject k.world.threads q) :
    view k' = view k := by
  rw [view, view, hfs, htables]
  refine congrArg (VfsState.mk k.fs) (funext fun i => ?_)
  rw [hvalid]

/-! ## One step -/

/-- What holds between any two steps. -/
structure KernelInv (k : Kernel) : Prop where
  ready : SchedModel.ready k.world.threads = true
  vfs : VfsInv (view k)

/-- A thread object is current. -/
theorem KernelInv.current (h : KernelInv k) :
    validThreadObject k.world.threads k.current = true :=
  (ready_iff.mp h.ready).2

/-- So the callbacks give a table and the ramfs. -/
theorem KernelInv.serves (h : KernelInv k) : Serves k.config k.state.world := by
  obtain ⟨hinit, hvalid⟩ := ready_iff.mp h.ready
  refine ⟨⟨kGetCurrentFdTable, rfl, ?_⟩, ⟨kGetRamfs, rfl, rfl⟩⟩
  show kGetCurrentFdTable k.world = _
  rw [kGetCurrentFdTable, hinit, decide_eq_true (valid_iff.mp hvalid).1]
  rfl

/-- The callbacks leave the thread objects as they are. -/
theorem worldStep_goesOn {w' : World} (h : SchedModel.ready k.world.threads = true)
    (hstep : WorldStep k.config k.world w') : GoesOn k.world.threads w'.threads := by
  cases hstep with
  | same => exact .refl h
  | ticks hget =>
      cases hget
      exact .refl h
  | serial => exact .refl h
  | yields hyield =>
      cases hyield
      exact yield_goesOn h
  | exits code hexit =>
      cases hexit
      exact .refl h

/-- A call of the file system that a step makes. -/
def vfsOp (k : Kernel) : KernelOp → Option VfsOp
  | .call _ f => vfsCall k.region k.mem k.current.toNat f
  | .seedFile path data len => some (.seedFile path data len)
  | _ => none

/-- The file system after a call, if there is one. -/
def vfsAfter (v : VfsState) : Option VfsOp → VfsState
  | some op => (vfsStep v op).2
  | none => v

/-- **SYSTEM CALL**: a call of the current thread is `vfsCall` on its own table. -/
theorem syscall_view (h : KernelInv k) (stack : Nat → U8) (f : SyscallFrame) :
    GoesOn k.world.threads (syscall stack f k).2.world.threads ∧
      view (syscall stack f k).2 = vfsAfter (view k) (vfsOp k (.call stack f)) := by
  have htable : (view k).tables k.current.toNat = k.state.table := view_table h.current
  have hothers : ∀ q, q ≠ k.current → (syscall stack f k).2.tables q = k.tables q :=
    fun q hq => Function.update_of_ne hq _ _
  have hown : (syscall stack f k).2.tables k.current
      = (dispatchFrame k.config stack f k.state).state.table := Function.update_self ..
  have hthreads : (syscall stack f k).2.world.threads
      = (dispatchFrame k.config stack f k.state).state.world.threads := rfl
  show _ ∧ _ = vfsAfter (view k) (vfsCall k.config.region k.state.mem k.current.toNat f)
  -- either the call comes to the file system, or it leaves descriptors and ramfs alone
  rcases dispatch_cases h.serves (v := view k) rfl htable stack f with
    ⟨op, hop, hmakes⟩ | ⟨hop, hleaves, hworld⟩
  · have hgo : GoesOn k.world.threads (syscall stack f k).2.world.threads := by
      rw [hthreads, hmakes.world]
      exact .refl h.ready
    refine ⟨hgo, ?_⟩
    rw [hop, vfsAfter, hmakes.state,
      view_update k.current ((hgo.valid _).trans h.current) (fun q _ => hgo.valid q) hothers, hown]
    rfl
  · have hgo : GoesOn k.world.threads (syscall stack f k).2.world.threads := by
      rw [hthreads]
      exact worldStep_goesOn h.ready hworld
    refine ⟨hgo, ?_⟩
    rw [hop, vfsAfter]
    refine view_congr hleaves.fs (funext fun q => ?_) hgo.valid
    by_cases hq : q = k.current
    · rw [hq, hown, hleaves.table]
      rfl
    · exact hothers q hq

/-- A prepared thread starts without files. -/
theorem prepareThread_view (h : KernelInv k) (trampoline p entry stackBase stackSize : U64) :
    KernelInv (prepareThread trampoline p entry stackBase stackSize k) := by
  rw [prepareThread]
  cases hprep : mcsosThreadPrepare trampoline k.world.threads p entry stackBase stackSize with
  | mk r threads =>
  cases r with
  | error e =>
      rw [prepare_refused hprep]
      exact h
  | ok u =>
      obtain ⟨hready, hnew, hold⟩ := prepare_goesOn h.ready hprep
      refine ⟨hready, ?_⟩
      -- only the table of the new thread changes, and it becomes empty
      have hview : view ((k.setThreads threads).clearTable p)
          = setTable (view k) p.toNat (((k.setThreads threads).clearTable p).tables p) :=
        view_update p hnew hold (fun q hq => Function.update_of_ne hq _ _)
      have hcleared : ((k.setThreads threads).clearTable p).tables p
          = mcsFdTableInit (k.tables p) := Function.update_self ..
      show VfsInv (view ((k.setThreads threads).clearTable p))
      rw [hview, hcleared]
      exact h.vfs.updateTable (mcsFdTableInit_ok _ _)

/-- Bookkeeping of the scheduler keeps the invariant. -/
theorem setThreads_inv (h : KernelInv k) {threads : SchedState}
    (hgo : GoesOn k.world.threads threads) : KernelInv (k.setThreads threads) := by
  refine ⟨hgo.ready, ?_⟩
  have hview : view (k.setThreads threads) = view k := view_congr rfl rfl hgo.valid
  rw [hview]
  exact h.vfs

/-- **STEP**: whatever happens in the kernel, a thread object stays current and the file system
    keeps its invariant, with the tables of all threads. -/
theorem kernelStep_inv (h : KernelInv k) (op : KernelOp) : KernelInv (kernelStep k op).2 := by
  cases op with
  | call stack f =>
      obtain ⟨hgo, hview⟩ := syscall_view h stack f
      refine ⟨hgo.ready, ?_⟩
      show VfsInv (view (syscall stack f k).2)
      rw [hview]
      cases vfsOp k (.call stack f) with
      | none => exact h.vfs
      | some op => exact vfsStep_inv h.vfs op
  | compute mem => exact ⟨h.ready, h.vfs⟩
  | prepareThread trampoline p entry stackBase stackSize => exact prepareThread_view h ..
  | enqueue p => exact setThreads_inv h (enqueue_goesOn h.ready p)
  | yield => exact setThreads_inv h (yield_goesOn h.ready)
  | blockCurrent => exact setThreads_inv h (block_goesOn h.ready)
  | markReady p => exact setThreads_inv h (markReady_goesOn h.ready p)
  | tick => exact setThreads_inv h (tick_goesOn h.ready)
  | setUserRegion region => exact ⟨h.ready, h.vfs⟩
  | seedFile path data len => exact ⟨h.ready, vfsStep_inv h.vfs (.seedFile path data len)⟩

/-! ## Runs -/

/-- No object carries the tag of a thread yet. -/
def Blank (k : Kernel) : Prop :=
  ∀ p, (k.world.threads.threads p).magic ≠ MCSOS_THREAD_MAGIC

/-- A table without files is in order. -/
theorem noFiles_ok (fs : Ramfs) : TableOk fs noFiles :=
  fun _ _ hused => absurd hused Bool.false_ne_true

/-- The boot thread is the one thread, and has no files. -/
theorem kernelInit_inv (hblank : Blank k) {boot : U64} (hboot : boot ≠ 0) :
    KernelInv (kernelInit boot k) := by
  have hthreads : (kernelInit boot k).world.threads
      = (mcsosSchedulerInit k.world.threads boot).2 := rfl
  -- the boot thread is the only thread object
  have hvalid : ∀ q, validThreadObject (kernelInit boot k).world.threads q = true → q = boot := by
    intro q hq
    by_contra hne
    rw [hthreads, mcsosSchedulerInit, if_neg hboot] at hq
    have hmagic := (valid_iff.mp hq).2
    dsimp only at hmagic
    rw [setThread_threads, if_neg hne] at hmagic
    exact hblank q hmagic
  refine ⟨?_, ⟨mcsRamfsInit_inv k.fs, fun i => ?_⟩⟩
  · rw [hthreads, mcsosSchedulerInit, if_neg hboot, ready_iff]
    refine ⟨rfl, valid_iff.mpr ⟨hboot, ?_⟩⟩
    dsimp only
    rw [setThread_threads, if_pos rfl]
  · show TableOk _ (if i < 2 ^ 64 ∧ _ then _ else _)
    split
    · rename_i h
      have htable : (kernelInit boot k).tables boot = mcsFdTableInit (k.tables boot) :=
        Function.update_self ..
      rw [hvalid _ h.2, htable]
      exact mcsFdTableInit_ok _ _
    · exact noFiles_ok _

/-- **RUN**: so it is after any run from `kernelInit`, whatever the objects held before. -/
theorem kernel_inv (hblank : Blank k) {boot : U64} (hboot : boot ≠ 0) (ops : List KernelOp) :
    KernelInv (Machine.exec kernelStep (kernelInit boot k) ops) :=
  Machine.exec_inv kernelStep (I := KernelInv) (fun _ op h => kernelStep_inv h op) ops _
    (kernelInit_inv hblank hboot)

/-- **THREADS SHARE THE FILE SYSTEM**: whatever has happened since boot, a thread object is
    current, and the ramfs with the descriptors of all threads satisfies the invariant of the
    file system.  A system call changes no descriptor of another thread; together they go
    through the call of the file system that its arguments ask for, on the table of the
    thread that is current.  The answer is that of the file system, but for a read that
    has found its bytes and then fails at the user's buffer. -/
theorem threads_share_vfs {k₀ : Kernel} (hblank : Blank k₀) {boot : U64} (hboot : boot ≠ 0)
    (ops : List KernelOp) :
    let k := Machine.exec kernelStep (kernelInit boot k₀) ops
    validThreadObject k.world.threads k.current = true ∧ VfsInv (view k) ∧
    ∀ stack f,
      (∀ p, p ≠ k.current → (syscall stack f k).2.tables p = k.tables p) ∧
      view (syscall stack f k).2
        = vfsAfter (view k) (vfsCall k.region k.mem k.current.toNat f) ∧
      ∀ op, vfsCall k.region k.mem k.current.toNat f = some op →
        (syscall stack f k).1 = vfsReturn (vfsStep (view k) op).1.1 ∨
        ∃ fd n len, ∃ e : SyscallErr, op = .vfsRead k.current.toNat fd true len ∧
          (vfsStep (view k) op).1.1 = .ok n ∧ (syscall stack f k).1 = e.code := by
  intro k
  have h : KernelInv k := kernel_inv hblank hboot ops
  refine ⟨h.current, h.vfs, fun stack f => ⟨fun p hp => Function.update_of_ne hp _ _,
    (syscall_view h stack f).2, fun op hop => ?_⟩⟩
  have htable : (view k).tables k.current.toNat = k.state.table := view_table h.current
  rcases dispatch_cases h.serves (v := view k) rfl htable stack f with
    ⟨op', hop', hmakes⟩ | ⟨hnone, -⟩
  · have hsame : op = op' := Option.some.inj (hop.symm.trans hop')
    rw [hsame]
    exact hmakes.ret
  · have hnone' : vfsCall k.region k.mem k.current.toNat f = none := hnone
    rw [hop] at hnone'
    cases hnone'

/-- A kernel before it boots: no object is a thread, and user memory holds the path `/a`
    at 0x400000. -/
def emptyKernel : Kernel where
  mem := fun a => if a = 0x400000 then slash else if a = 0x400001 then 0x61 else 0
  tables := fun _ => noFiles
  fs := garbage.fs
  region := ⟨0, 0⟩
  world := ⟨⟨⟨0, 0, 0, 0, 0, 0, 0, false⟩,
    fun _ => ⟨0, .new, zeroContext, 0, 0, 0⟩, fun _ => 0⟩, 0, []⟩

/-- The boot thread 0x10 creates a file, writes two bytes to it and yields to thread 0x20,
    which opens it too. -/
def twoThreadRun : List KernelOp :=
  [.prepareThread 0x7000 0x20 0x8000 0x10000 8192, .enqueue 0x20,
    .call (fun _ => 0) ⟨5, 0x400000, 2, 0x104, 0, 0, 0⟩,
    .call (fun _ => 0) ⟨7, 0, 0x400000, 2, 0, 0, 0⟩,
    .call (fun _ => 0) ⟨3, 0, 0, 0, 0, 0, 0⟩,
    .call (fun _ => 0) ⟨5, 0x400000, 2, 1, 0, 0, 0⟩]

/-- No object of the example carries the tag. -/
theorem emptyKernel_blank : Blank emptyKernel :=
  fun _ => show (0 : U64) ≠ MCSOS_THREAD_MAGIC by decide

/-- Thread 0x20 then reads the two bytes: no other thread's descriptors change, and the file
    system goes through a read on the table of 0x20, whose answer it gets. -/
theorem threads_share_vfs_two :
    let k := Machine.exec kernelStep (kernelInit 0x10 emptyKernel) twoThreadRun
    let r := syscall (fun _ => 0) ⟨6, 0, 0x400010, 2, 0, 0, 0⟩ k
    validThreadObject k.world.threads k.current = true ∧ k.current = 0x20 ∧ VfsInv (view k) ∧
    (∀ p, p ≠ 0x20 → r.2.tables p = k.tables p) ∧
    view r.2 = (vfsStep (view k) (.vfsRead 0x20 0 true 2)).2 ∧
    r.1 = vfsReturn (vfsStep (view k) (.vfsRead 0x20 0 true 2)).1.1 ∧ r.1 = 2 := by
  have hcurrent : (Machine.exec kernelStep (kernelInit 0x10 emptyKernel) twoThreadRun).current
      = 0x20 := by decide +kernel
  have hanswer : (syscall (fun _ => 0) ⟨6, 0, 0x400010, 2, 0, 0, 0⟩
      (Machine.exec kernelStep (kernelInit 0x10 emptyKernel) twoThreadRun)).1 = 2 := by
    decide +kernel
  obtain ⟨hvalid, hinv, hcalls⟩ := threads_share_vfs emptyKernel_blank
    (show (0x10 : U64) ≠ 0 by decide) twoThreadRun
  -- nothing else of the run is needed
  generalize Machine.exec kernelStep (kernelInit 0x10 emptyKernel) twoThreadRun = k at *
  have hcall : vfsCall k.region k.mem k.current.toNat ⟨6, 0, 0x400010, 2, 0, 0, 0⟩
      = some (.vfsRead 0x20 0 true 2) := by
    rw [hcurrent]
    rfl
  obtain ⟨hothers, hview, hret⟩ := hcalls (fun _ => 0) ⟨6, 0, 0x400010, 2, 0, 0, 0⟩
  rw [hcall] at hview
  refine ⟨hvalid, hcurrent, hinv, fun p hp => hothers p fun heq => hp (heq.trans hcurrent), hview,
    ?_, hanswer⟩
  rcases hret _ hcall with hsame | ⟨fd, n, len, e, -, -, hcode⟩
  · exact hsame
  · -- an error code is negative, and the answer is 2
    have hneg : e.code ≠ 2 := by cases e <;> decide
    exact absurd (hcode.symm.trans hanswer) hneg

end KernelVfs
