import Mcsos.SchedModel
import Mcsos.SyscallEntryModel
import Mcsos.LogModel

/-! # The running kernel, as `kernel/core/kmain.c` wires it

    The callbacks that `kernel_m10_syscall_init` installs tie the system calls to
    the scheduler: the descriptors a call works on are those of the thread that
    is current, and a yield makes another thread current.  All threads share
    the one ramfs.

    Nothing preempts a thread, since the handler of the timer only acknowledges
    it, so a system call is one step.  A yield is its bookkeeping: that the thread
    finds its own registers when it is current again is the matter of
    `ContextModel.processorStep`, which runs the same scheduler on the registers.

    The memory that the user region lies in is apart from the thread objects, the
    kernel's stacks and the ramfs, which the kernel keeps in its own image. -/

namespace KernelModel

open Word ByteMemory VfsModel SchedModel SyscallModel SyscallEntryModel LogModel

/-- What the callbacks work on: `g_sched` with the thread objects, `g_ticks`, and the
    characters handed to the serial port. -/
structure World where
  threads : SchedState
  gTicks : U64
  line : List U8

/-- `k_get_current_fd_table`: there is a table if a thread is current. -/
def kGetCurrentFdTable (w : World) : Bool × World :=
  (w.threads.sched.initialized && w.threads.sched.current ≠ 0, w)

/-- `k_get_ramfs`, which is never null. -/
def kGetRamfs (w : World) : Bool × World := (true, w)

/-- `k_write_serial`: all bytes are sent, and their number is the answer. -/
def kWriteSerial : WriteSerial World := fun _ len buf w => (len.toInt, buf, w)

/-- `k_get_ticks`. -/
def kGetTicks (w : World) : U64 × World := (w.gTicks, w)

/-- `k_yield_current`, which drops the scheduler's answer. -/
def kYieldCurrent (w : World) : World := { w with threads := (mcsosSchedYield w.threads).2 }

/-- The `hlt` ends with the next interrupt. -/
def kExitCurrent (_code : Int) (w : World) : World :=
  { w with line := w.line ++ logWriteln (text "[M10] exit_thread stub") }

/-- The table of callbacks that `kernel_m10_syscall_init` installs; none is missing. -/
def kernelOps : SyscallOps World where
  getTicks := some kGetTicks
  yieldCurrent := some kYieldCurrent
  exitCurrent := some kExitCurrent
  writeSerial := some kWriteSerial
  getCurrentFdTable := some kGetCurrentFdTable
  getRamfs := some kGetRamfs

/-- User memory, the `fd_table` of each thread object, the ramfs and `g_user_region`. -/
structure Kernel where
  mem : Mem
  tables : U64 → FdTable
  fs : Ramfs
  region : UserRegion
  world : World

/-- The thread that makes the system calls. -/
def Kernel.current (k : Kernel) : U64 := k.world.threads.sched.current

/-- The callbacks and the region that a system call is checked against. -/
def Kernel.config (k : Kernel) : SyscallConfig World :=
  ⟨mcsosSyscallInit (some kernelOps), k.region⟩

/-- What a call of the current thread works on. -/
def Kernel.state (k : Kernel) : SyscallState World :=
  ⟨k.mem, k.tables k.current, k.fs, k.world⟩

/-- The descriptors go back to the thread that has made the call, also when the call has
    made another one current. -/
def Kernel.after (k : Kernel) (r : SyscallResult World) : Kernel :=
  { k with
    mem := r.state.mem
    tables := Function.update k.tables k.current r.state.table
    fs := r.state.fs
    world := { r.state.world with line := r.state.world.line ++ r.serial } }

/-- A system call of the current thread. -/
def syscall (stack : Nat → U8) (f : SyscallFrame) (k : Kernel) : Int × Kernel :=
  let r := dispatchFrame k.config stack f k.state
  (r.ret, k.after r)

/-- Replace the scheduler's objects. -/
def Kernel.setThreads (k : Kernel) (threads : SchedState) : Kernel :=
  { k with world := { k.world with threads := threads } }

/-- `mcs_fd_table_init(&thread->fd_table)`. -/
def Kernel.clearTable (k : Kernel) (p : U64) : Kernel :=
  { k with tables := Function.update k.tables p (mcsFdTableInit (k.tables p)) }

/-- `mcsos_thread_prepare`, with the part for the descriptors. -/
def prepareThread (trampoline p entry stackBase stackSize : U64) (k : Kernel) : Kernel :=
  match mcsosThreadPrepare trampoline k.world.threads p entry stackBase stackSize with
  | (.ok (), threads) => (k.setThreads threads).clearTable p
  | (.error _, threads) => k.setThreads threads

/-- The user region of `kernel_m10_syscall_init`. -/
def USER_REGION : UserRegion := ⟨0x400000, 0x800000000000⟩

/-- `mcs_ramfs_init`, `kernel_m10_syscall_init` and `mcsos_scheduler_init`, whose thread
    `boot` is not null. -/
def kernelInit (boot : U64) (k : Kernel) : Kernel :=
  let k := { k with fs := mcsRamfsInit k.fs, region := USER_REGION }
  (k.setThreads (mcsosSchedulerInit k.world.threads boot).2).clearTable boot

/-- What can happen in the kernel. -/
inductive KernelOp where
  /-- the current thread makes a system call -/
  | call (stack : Nat → U8) (f : SyscallFrame)
  /-- the current thread works on user memory -/
  | compute (mem : Mem)
  | prepareThread (trampoline p entry stackBase stackSize : U64)
  | enqueue (p : U64)
  | yield
  | blockCurrent
  | markReady (p : U64)
  | tick
  | setUserRegion (region : UserRegion)
  | seedFile (path : Option Path) (data : Option (Nat → U8)) (len : U64)

/-- One step; a system call answers. -/
def kernelStep (k : Kernel) : KernelOp → Option Int × Kernel
  | .call stack f =>
      let r := syscall stack f k
      (some r.1, r.2)
  | .compute mem => (none, { k with mem := mem })
  | .prepareThread trampoline p entry stackBase stackSize =>
      (none, prepareThread trampoline p entry stackBase stackSize k)
  | .enqueue p => (none, k.setThreads (mcsosSchedEnqueue k.world.threads p).2)
  | .yield => (none, k.setThreads (mcsosSchedYield k.world.threads).2)
  | .blockCurrent => (none, k.setThreads (mcsosThreadBlockCurrent k.world.threads).2)
  | .markReady p => (none, k.setThreads (mcsosThreadMarkReady k.world.threads p).2)
  | .tick => (none, k.setThreads (mcsosSchedTick k.world.threads).2)
  | .setUserRegion region => (none, { k with region := region })
  | .seedFile path data len =>
      (none, { k with fs := (mcsRamfsSeedFile k.fs path data len).2 })

end KernelModel
