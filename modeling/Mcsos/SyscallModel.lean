import Mcsos.VfsModel
import Mcsos.ByteMemoryProofs

/-! # System calls, as `kernel/syscall/syscall.c` computes them

    Memory is byte memory; the descriptor table and the ramfs are objects of
    their own beside it, since both are stored outside the user region.  The
    callbacks touch no memory: they work on a world `W` of their own, and
    `write_serial` is handed the bytes of its buffer.  A null callback, and a
    null pointer that a callback returns, are `none` and `false`.

    The two local arrays `kpath` and `kbuf` start out with whatever the stack
    holds, so every handler also takes the contents of the stack. -/

namespace SyscallModel

open Word Loop ByteMemory VfsModel

/-- The number of `sys_read`. -/
def MCSOS_SYS_READ : U64 := 6
/-- The number of `sys_write`. -/
def MCSOS_SYS_WRITE : U64 := 7
/-- The number of `sys_lseek`. -/
def MCSOS_SYS_LSEEK : U64 := 8
/-- The number of `sys_close`. -/
def MCSOS_SYS_CLOSE : U64 := 9
/-- The length of the table of handlers. -/
def MCSOS_SYS_MAX : U64 := 10
/-- The length of the kernel's buffer for a path. -/
def SYS_MAX_PATH : Nat := 128

/-- The failures of `mcsos_syscall_status_t` that a call can answer. -/
inductive SyscallErr where
  | einval
  | enosys
  | efault
  | ebusy
deriving DecidableEq, Repr

/-- The number a caller sees for an error of its own arguments. -/
def SyscallErr.code : SyscallErr → Int
  | .einval => -22
  | .enosys => -38
  | .efault => -14
  | .ebusy => -16

/-- The values of `mcs_vfs_status_t`. -/
def vfsStatus : VfsErr → Int
  | .enoent => -2
  | .ebadf => -9
  | .eacces => -13
  | .enotdir => -20
  | .eisdir => -21
  | .einval => -22
  | .enfile => -23
  | .enospc => -28
  | .enametoolong => -36

/-- The `int` or `mcs_ssize_t` a call of the file system returns. -/
def vfsReturn : Except VfsErr Int → Int
  | .ok n => n
  | .error e => vfsStatus e

/-- `mcsos_user_region_t`. -/
structure UserRegion where
  base : U64
  limit : U64
deriving DecidableEq, Repr

/-- `write_serial(buf, len)`, given the bytes of its buffer: the result, and
    what goes out on the line. -/
abbrev WriteSerial (W : Type) := U64 → U64 → List U8 → W → Int × List U8 × W

/-- `mcsos_syscall_ops_t` as a caller of `mcsos_syscall_init` fills it in. -/
structure SyscallOps (W : Type) where
  getTicks : Option (W → U64 × W)
  yieldCurrent : Option (W → W)
  exitCurrent : Option (Int → W → W)
  writeSerial : Option (WriteSerial W)
  getCurrentFdTable : Option (W → Bool × W)
  getRamfs : Option (W → Bool × W)

/-- `g_ops` once initialised: `write_serial` is always there. -/
structure InstalledOps (W : Type) where
  getTicks : Option (W → U64 × W)
  yieldCurrent : Option (W → W)
  exitCurrent : Option (Int → W → W)
  writeSerial : WriteSerial W
  getCurrentFdTable : Option (W → Bool × W)
  getRamfs : Option (W → Bool × W)

/-- The callback that stands in for a missing one: it sends nothing and answers the length. -/
def defaultWriteSerial {W : Type} : WriteSerial W := fun _ len _ w => (len.toInt, [], w)

/-- `mcsos_syscall_init`: a missing `write_serial` is replaced, the other callbacks may be null. -/
def mcsosSyscallInit {W : Type} : Option (SyscallOps W) → InstalledOps W
  | none => ⟨none, none, none, defaultWriteSerial, none, none⟩
  | some ops =>
      { getTicks := ops.getTicks
        yieldCurrent := ops.yieldCurrent
        exitCurrent := ops.exitCurrent
        writeSerial := ops.writeSerial.getD defaultWriteSerial
        getCurrentFdTable := ops.getCurrentFdTable
        getRamfs := ops.getRamfs }

/-- `g_ops` and `g_user_region`. -/
structure SyscallConfig (W : Type) where
  ops : InstalledOps W
  region : UserRegion

/-- What a system call can change. -/
structure SyscallState (W : Type) where
  mem : Mem
  table : FdTable
  fs : Ramfs
  world : W

/-- What a system call leaves: its result, what it sent to the serial line, and
    the new state. -/
structure SyscallResult (W : Type) where
  ret : Int
  serial : List U8
  state : SyscallState W

/-- A handler: six arguments, the state, and what comes back. -/
abbrev SyscallFn (W : Type) :=
  U64 → U64 → U64 → U64 → U64 → U64 → SyscallState W → SyscallResult W

variable {W : Type}

/-- A call that only answers. -/
def reply (s : SyscallState W) (ret : Int) : SyscallResult W := ⟨ret, [], s⟩

/-- The conversion `(int)`. -/
def toInt32 (a : U64) : Int := (a.setWidth 32).toInt

/-! ## User memory -/

/-- `mcsos_user_check_range`: an empty range passes; any other must not wrap and must lie in the
    region. -/
def mcsosUserCheckRange (region : UserRegion) (addr len : U64) : Bool :=
  if len = 0 then true
  else if region.base = 0 ∨ region.limit ≤ region.base then false
  else if addr < region.base then false
  else if addr > region.limit then false
  else
    let last := addr + len - 1
    if last < addr then false
    else if last ≥ region.limit then false
    else true

/-- Byte `i` of the buffer at `ptr`. -/
def byteAt (mem : Mem) (ptr : U64) (i : Nat) : U8 := mem (ptr + BitVec.ofNat 64 i)

/-- `mcsos_copy_from_user` into a local array, which is never null. -/
def mcsosCopyFromUser (region : UserRegion) (mem : Mem) (dst : Nat → U8) (src len : U64) :
    Except SyscallErr (Nat → U8) :=
  if len = 0 then .ok dst
  else if src = 0 then .error .einval
  else if !mcsosUserCheckRange region src len then .error .efault
  else .ok (forN (fun i dst => Function.update dst i (byteAt mem src i)) len.toNat dst)

/-- `mcsos_copy_to_user` from a local array. -/
def mcsosCopyToUser (region : UserRegion) (mem : Mem) (dst : U64) (src : Nat → U8) (len : U64) :
    Except SyscallErr Mem :=
  if len = 0 then .ok mem
  else if dst = 0 then .error .einval
  else if !mcsosUserCheckRange region dst len then .error .efault
  else .ok (forN (fun i mem => Function.update mem (dst + BitVec.ofNat 64 i) (src i))
    len.toNat mem)

/-! ## The handlers -/

section Handlers

variable (cfg : SyscallConfig W) (stack : Nat → U8)

/-- `sys_ping`. -/
def sysPing : SyscallFn W := fun _ _ _ _ _ _ s => reply s 0x2605020a

/-- `sys_get_ticks`. -/
def sysGetTicks : SyscallFn W := fun _ _ _ _ _ _ s =>
  match cfg.ops.getTicks with
  | none => reply s SyscallErr.ebusy.code
  | some getTicks =>
      let r := getTicks s.world
      reply { s with world := r.2 } r.1.toInt

/-- `sys_write_serial`, which reads user memory in place. -/
def sysWriteSerial : SyscallFn W := fun ptr len _ _ _ _ s =>
  if ptr = 0 then reply s SyscallErr.einval.code
  else if len > 4096 then reply s SyscallErr.einval.code
  else if !mcsosUserCheckRange cfg.region ptr len then reply s SyscallErr.efault.code
  else
    let r := cfg.ops.writeSerial ptr len ((List.range len.toNat).map (byteAt s.mem ptr)) s.world
    ⟨r.1, r.2.1, { s with world := r.2.2 }⟩

/-- `sys_yield`. -/
def sysYield : SyscallFn W := fun _ _ _ _ _ _ s =>
  match cfg.ops.yieldCurrent with
  | none => reply s SyscallErr.ebusy.code
  | some yieldCurrent => reply { s with world := yieldCurrent s.world } 0

/-- `sys_exit_thread`. -/
def sysExitThread : SyscallFn W := fun code _ _ _ _ _ s =>
  match cfg.ops.exitCurrent with
  | none => reply s SyscallErr.ebusy.code
  | some exitCurrent => reply { s with world := exitCurrent (toInt32 code) s.world } 0

/-- `sys_open`: the path is copied to the kernel and ended with a zero. -/
def sysOpen : SyscallFn W := fun pathPtr pathLen flags _ _ _ s =>
  match cfg.ops.getCurrentFdTable, cfg.ops.getRamfs with
  | some getCurrentFdTable, some getRamfs =>
      if pathLen = 0 ∨ pathLen.toNat ≥ SYS_MAX_PATH then reply s SyscallErr.einval.code
      else
        match mcsosCopyFromUser cfg.region s.mem stack pathPtr pathLen with
        | .error rc => reply s rc.code
        | .ok kpath =>
            let kpath := Function.update kpath pathLen.toNat 0
            let table := getCurrentFdTable s.world
            let fs := getRamfs table.2
            let s := { s with world := fs.2 }
            if !table.1 || !fs.1 then reply s SyscallErr.ebusy.code
            else
              let r := mcsVfsOpen s.fs s.table (some ((List.range SYS_MAX_PATH).map kpath))
                (flags.setWidth 32)
              reply { s with fs := r.2.1, table := r.2.2 } (vfsReturn (r.1.map Int.ofNat))
  | _, _ => reply s SyscallErr.ebusy.code

/-- `sys_read`: the file is read first and the bytes copied out afterwards, so a bad buffer is found
    when the offset has moved. -/
def sysRead : SyscallFn W := fun fd bufPtr len _ _ _ s =>
  match cfg.ops.getCurrentFdTable with
  | none => reply s SyscallErr.ebusy.code
  | some getCurrentFdTable =>
      if len > 4096 then reply s SyscallErr.einval.code
      else
        let table := getCurrentFdTable s.world
        let s := { s with world := table.2 }
        if !table.1 then reply s SyscallErr.ebusy.code
        else
          let r := mcsVfsRead s.fs s.table (toInt32 fd) true len
          let s := { s with table := r.2.2 }
          let n := vfsReturn r.1
          if n < 0 then reply s n
          else
            let kbuf := fun i => r.2.1.getD i (stack i)
            match mcsosCopyToUser cfg.region s.mem bufPtr kbuf (BitVec.ofInt 64 n) with
            | .error rc => reply s rc.code
            | .ok mem => reply { s with mem := mem } n

/-- `sys_write`: the bytes are copied in before the file is looked at. -/
def sysWrite : SyscallFn W := fun fd bufPtr len _ _ _ s =>
  match cfg.ops.getCurrentFdTable with
  | none => reply s SyscallErr.ebusy.code
  | some getCurrentFdTable =>
      if len > 4096 then reply s SyscallErr.einval.code
      else
        match mcsosCopyFromUser cfg.region s.mem stack bufPtr len with
        | .error rc => reply s rc.code
        | .ok kbuf =>
            let table := getCurrentFdTable s.world
            let s := { s with world := table.2 }
            if !table.1 then reply s SyscallErr.ebusy.code
            else
              let r := mcsVfsWrite s.fs s.table (toInt32 fd) (some kbuf) len
              reply { s with fs := r.2.1, table := r.2.2 } (vfsReturn r.1)

/-- `sys_lseek`. -/
def sysLseek : SyscallFn W := fun fd offset whence _ _ _ s =>
  match cfg.ops.getCurrentFdTable with
  | none => reply s SyscallErr.ebusy.code
  | some getCurrentFdTable =>
      let table := getCurrentFdTable s.world
      let s := { s with world := table.2 }
      if !table.1 then reply s SyscallErr.ebusy.code
      else
        let r := mcsVfsLseek s.fs s.table (toInt32 fd) offset (toInt32 whence)
        reply { s with table := r.2 } (vfsReturn r.1)

/-- `sys_close`. -/
def sysClose : SyscallFn W := fun fd _ _ _ _ _ s =>
  match cfg.ops.getCurrentFdTable with
  | none => reply s SyscallErr.ebusy.code
  | some getCurrentFdTable =>
      let table := getCurrentFdTable s.world
      let s := { s with world := table.2 }
      if !table.1 then reply s SyscallErr.ebusy.code
      else
        let r := mcsVfsClose s.table (toInt32 fd)
        reply { s with table := r.2 } (vfsReturn (r.1.map (fun _ => 0)))

/-- `g_table`. -/
def gTable : List (SyscallFn W) :=
  [sysPing, sysGetTicks cfg, sysWriteSerial cfg, sysYield cfg, sysExitThread cfg,
    sysOpen cfg stack, sysRead cfg stack, sysWrite cfg stack, sysLseek cfg, sysClose cfg]

/-- `mcsos_syscall_dispatch`. -/
def mcsosSyscallDispatch (nr : U64) : SyscallFn W := fun arg0 arg1 arg2 arg3 arg4 arg5 s =>
  if nr ≥ MCSOS_SYS_MAX then reply s SyscallErr.enosys.code
  else
    match (gTable cfg stack)[nr.toNat]? with
    | none => reply s SyscallErr.enosys.code
    | some fn => fn arg0 arg1 arg2 arg3 arg4 arg5 s

end Handlers

end SyscallModel
