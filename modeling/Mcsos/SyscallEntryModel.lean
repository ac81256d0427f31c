import Mcsos.TrapModel
import Mcsos.SyscallModel

/-! # The frame of a system call

    `x86_64_syscall_int80_stub` stores number and arguments as a
    `mcsos_syscall_frame_t` on the stack and calls
    `mcsos_syscall_dispatch_frame`, the last function of
    `kernel/syscall/syscall.c`. -/

namespace SyscallEntryModel

open Word ByteMemory Stack VfsModel SyscallModel

/-- The number of `sys_ping`. -/
def MCSOS_SYS_PING : U64 := 0
/-- The number of `sys_get_ticks`. -/
def MCSOS_SYS_GET_TICKS : U64 := 1
/-- The number of `sys_open`. -/
def MCSOS_SYS_OPEN : U64 := 5

/-- `mcsos_syscall_frame_t`, without `ret`, which is only written. -/
structure SyscallFrame where
  nr : U64
  arg0 : U64
  arg1 : U64
  arg2 : U64
  arg3 : U64
  arg4 : U64
  arg5 : U64
deriving DecidableEq, Repr

/-- `*frame`, for a frame at `p`. -/
def syscallFrameAt (m : Mem) (p : U64) : SyscallFrame where
  nr := load64 m (p + words 0)
  arg0 := load64 m (p + words 1)
  arg1 := load64 m (p + words 2)
  arg2 := load64 m (p + words 3)
  arg3 := load64 m (p + words 4)
  arg4 := load64 m (p + words 5)
  arg5 := load64 m (p + words 6)

variable {W : Type}

/-- The call that a frame asks for. -/
def dispatchFrame (cfg : SyscallConfig W) (stack : Nat → U8) (f : SyscallFrame) :
    SyscallState W → SyscallResult W :=
  mcsosSyscallDispatch cfg stack f.nr f.arg0 f.arg1 f.arg2 f.arg3 f.arg4 f.arg5

/-- What is sent to the serial line, and the state with the answer in the frame. -/
def mcsosSyscallDispatchFrame (cfg : SyscallConfig W) (stack : Nat → U8) (frame : U64)
    (s : SyscallState W) : List U8 × SyscallState W :=
  if frame = 0 then ([], s)
  else
    let r := dispatchFrame cfg stack (syscallFrameAt s.mem frame) s
    (r.serial, { r.state with
      mem := store64 r.state.mem (frame + words 7) (BitVec.ofInt 64 r.ret) })

/-- What a system call works on beside memory, and what has gone to the serial line. -/
structure SyscallKernel (W : Type) where
  table : FdTable
  fs : Ramfs
  world : W
  serial : List U8

/-- What a system call works on, with the memory of the machine. -/
def SyscallKernel.state (k : SyscallKernel W) (mem : Mem) : SyscallState W :=
  ⟨mem, k.table, k.fs, k.world⟩

/-- The objects after a call. -/
def SyscallKernel.after (k : SyscallKernel W) (serial : List U8) (s : SyscallState W) :
    SyscallKernel W :=
  ⟨s.table, s.fs, s.world, k.serial ++ serial⟩

end SyscallEntryModel
