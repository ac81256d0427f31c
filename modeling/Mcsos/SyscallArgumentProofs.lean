import Mcsos.SyscallFailureProofs
import Mcsos.VfsSeekProofs

/-! # Registers that arrive at the file system

    A system call hands its 64-bit registers on as a `long` or cuts them to an
    `int`.  Two things follow.  An offset from user space meets the offset that
    earlier calls have left in the descriptor, and their sum can leave the range
    of `long`; over whole runs of system calls this happens upwards only, and
    only where the base is not 0.  And a descriptor argument counts by its low
    32 bits, so `2^32 + 3` is as good as 3. -/

namespace SyscallArgument

open Word ByteMemory VfsModel VfsTree VfsInvariant VfsSeek SyscallModel SyscallConfinement
open SyscallFailure

variable {W : Type} {cfg : SyscallConfig W} {s s' : SyscallState W}

/-! ## Runs of system calls -/

/-- A system call: the memory as the program has left it, what the kernel's stack
    happens to hold, and the registers. -/
structure Call where
  mem : Mem
  stack : Nat → U8
  nr : U64
  a0 : U64
  a1 : U64
  a2 : U64
  a3 : U64
  a4 : U64
  a5 : U64

/-- One system call, with the user's memory as it then is. -/
def callStep (cfg : SyscallConfig W) (s : SyscallState W) (c : Call) : Int × SyscallState W :=
  let r := mcsosSyscallDispatch cfg c.stack c.nr c.a0 c.a1 c.a2 c.a3 c.a4 c.a5
    { s with mem := c.mem }
  (r.ret, r.state)

/-- Only the file system and the table matter. -/
theorem reachable_congr (h : Reachable s) (hfs : s'.fs = s.fs) (htable : s'.table = s.table) :
    Reachable s' := by
  obtain ⟨garbage, ops, i, hfs', htable'⟩ := h
  exact ⟨garbage, ops, i, hfs.trans hfs', htable.trans htable'⟩

/-- A handler that makes one call of the file system on the current table. -/
theorem reachable_step (h : Reachable s) (op : Nat → VfsOp)
    (hstep : ∀ v i, v.fs = s.fs → v.tables i = s.table →
      s'.fs = (vfsStep v (op i)).2.fs ∧ s'.table = (vfsStep v (op i)).2.tables i) :
    Reachable s' := by
  obtain ⟨garbage, ops, i, hfs, htable⟩ := h
  refine ⟨garbage, ops ++ [op i], i, ?_⟩
  rw [Machine.exec_append]
  exact hstep _ i hfs.symm htable.symm

/-- A handler after which the file system is still in a state that calls of the file
    system lead to. -/
def Keeps (fn : SyscallFn W) : Prop :=
  ∀ a0 a1 a2 a3 a4 a5 s, Reachable s → Reachable (fn a0 a1 a2 a3 a4 a5 s).state

/-- `sys_open` makes one open, or none. -/
theorem keeps_open (cfg : SyscallConfig W) (stack : Nat → U8) : Keeps (sysOpen cfg stack) := by
  intro path len flags a3 a4 a5 s h
  rw [sysOpen]
  split
  · split
    · exact h
    split
    · exact h
    · simp only
      split
      · exact reachable_congr h rfl rfl
      · -- the path has been copied in, and the open is the file system's own
        rename_i kpath _ _
        refine reachable_step h (fun i => .vfsOpen i (some ((List.range SYS_MAX_PATH).map
          (Function.update kpath len.toNat 0))) (flags.setWidth 32)) ?_
        intro v i hfs htable
        simp only [vfsStep, setTable, Function.update_self, hfs, htable]
        exact ⟨rfl, rfl⟩
  · exact h

/-- `sys_read` makes one read, or none. -/
theorem keeps_read (cfg : SyscallConfig W) (stack : Nat → U8) : Keeps (sysRead cfg stack) := by
  intro fd buf len a3 a4 a5 s h
  -- a read that cannot be copied out has moved the offset all the same
  have hread : ∀ mem world, Reachable (W := W)
      ⟨mem, (mcsVfsRead s.fs s.table (toInt32 fd) true len).2.2, s.fs, world⟩ := by
    intro mem world
    refine reachable_step h (fun i => .vfsRead i (toInt32 fd) true len) ?_
    intro v i hfs htable
    exact ⟨hfs.symm, by simp only [vfsStep, setTable, Function.update_self, hfs, htable]⟩
  rw [sysRead]
  split
  · exact h
  split
  · exact h
  simp only
  split
  · exact reachable_congr h rfl rfl
  split
  · exact hread _ _
  split
  · exact hread _ _
  · exact hread _ _

/-- `sys_write` makes one write, or none. -/
theorem keeps_write (cfg : SyscallConfig W) (stack : Nat → U8) : Keeps (sysWrite cfg stack) := by
  intro fd buf len a3 a4 a5 s h
  rw [sysWrite]
  split
  · exact h
  split
  · exact h
  split
  · exact h
  rename_i kbuf _
  simp only
  split
  · exact reachable_congr h rfl rfl
  · refine reachable_step h (fun i => .vfsWrite i (toInt32 fd) (some kbuf) len) ?_
    intro v i hfs htable
    simp only [vfsStep, setTable, Function.update_self, hfs, htable]
    exact ⟨rfl, rfl⟩

/-- `sys_lseek` makes one seek, or none. -/
theorem keeps_lseek (cfg : SyscallConfig W) : Keeps (sysLseek cfg) := by
  intro fd offset whence a3 a4 a5 s h
  rw [sysLseek]
  split
  · exact h
  simp only
  split
  · exact reachable_congr h rfl rfl
  · refine reachable_step h (fun i => .vfsLseek i (toInt32 fd) offset (toInt32 whence)) ?_
    intro v i hfs htable
    exact ⟨hfs.symm, by simp only [reply, vfsStep, setTable, Function.update_self, hfs, htable]⟩

/-- `sys_close` makes one close, or none. -/
theorem keeps_close (cfg : SyscallConfig W) : Keeps (sysClose cfg) := by
  intro fd a1 a2 a3 a4 a5 s h
  rw [sysClose]
  split
  · exact h
  simp only
  split
  · exact reachable_congr h rfl rfl
  · refine reachable_step h (fun i => .vfsClose i (toInt32 fd)) ?_
    intro v i hfs htable
    exact ⟨hfs.symm, by simp only [reply, vfsStep, setTable, Function.update_self, hfs, htable]⟩

/-! The first five calls do not know the file system. -/

theorem keeps_ping : Keeps (W := W) sysPing := fun _ _ _ _ _ _ _ h => h

theorem keeps_getTicks (cfg : SyscallConfig W) : Keeps (sysGetTicks cfg) := by
  intro a0 a1 a2 a3 a4 a5 s h
  rw [sysGetTicks]
  split
  · exact h
  · exact reachable_congr h rfl rfl

theorem keeps_writeSerial (cfg : SyscallConfig W) : Keeps (sysWriteSerial cfg) := by
  intro a0 a1 a2 a3 a4 a5 s h
  rw [sysWriteSerial]
  split
  · exact h
  split
  · exact h
  split
  · exact h
  · exact reachable_congr h rfl rfl

theorem keeps_yield (cfg : SyscallConfig W) : Keeps (sysYield cfg) := by
  intro a0 a1 a2 a3 a4 a5 s h
  rw [sysYield]
  split
  · exact h
  · exact reachable_congr h rfl rfl

theorem keeps_exitThread (cfg : SyscallConfig W) : Keeps (sysExitThread cfg) := by
  intro a0 a1 a2 a3 a4 a5 s h
  rw [sysExitThread]
  split
  · exact h
  · exact reachable_congr h rfl rfl

/-- Every entry of the table makes one call of the file system, or none. -/
theorem keeps_table (cfg : SyscallConfig W) (stack : Nat → U8) :
    ∀ fn ∈ gTable cfg stack, Keeps fn := by
  intro fn hfn
  simp only [gTable, List.mem_cons, List.not_mem_nil, or_false] at hfn
  rcases hfn with rfl | rfl | rfl | rfl | rfl | rfl | rfl | rfl | rfl | rfl
  · exact keeps_ping
  · exact keeps_getTicks cfg
  · exact keeps_writeSerial cfg
  · exact keeps_yield cfg
  · exact keeps_exitThread cfg
  · exact keeps_open cfg stack
  · exact keeps_read cfg stack
  · exact keeps_write cfg stack
  · exact keeps_lseek cfg
  · exact keeps_close cfg

/-- The dispatcher makes one call of the file system or none, whatever the number is. -/
theorem keeps_dispatch (cfg : SyscallConfig W) (stack : Nat → U8) (nr : U64) :
    Keeps (mcsosSyscallDispatch cfg stack nr) := by
  intro a0 a1 a2 a3 a4 a5 s h
  rw [mcsosSyscallDispatch]
  split
  · exact h
  split
  · exact h
  · rename_i fn hfn
    exact keeps_table cfg stack fn (List.mem_of_getElem? hfn) a0 a1 a2 a3 a4 a5 s h

/-- **RUN**: system calls take the file system through its own reachable states. -/
theorem exec_reachable (cfg : SyscallConfig W) (h : Reachable s) (calls : List Call) :
    Reachable (Machine.exec (callStep cfg) s calls) :=
  Machine.exec_inv (callStep cfg) (I := Reachable)
    (fun _ c hs => keeps_dispatch cfg c.stack c.nr c.a0 c.a1 c.a2 c.a3 c.a4 c.a5 _
      (reachable_congr hs rfl rfl)) calls s h

/-! ## The sum of a seek -/

/-- The integer that `mcs_vfs_lseek` computes as `base + offset` for the system call,
    both read as `long`. -/
def SeekSum (cfg : SyscallConfig W) (s : SyscallState W) (fd offset whence : U64) (sum : Int) :
    Prop :=
  TablePresent cfg s ∧ ∃ d i base, SeeksFrom s.fs s.table (toInt32 fd) (toInt32 whence) d i base ∧
    sum = base.toInt + offset.toInt

/-- What the dispatcher answers is decided by that sum, as a `long`. -/
theorem dispatch_seekSum {fd offset whence : U64} {sum : Int}
    (h : SeekSum cfg s fd offset whence sum) (stack : Nat → U8) (a3 a4 a5 : U64) :
    (mcsosSyscallDispatch cfg stack MCSOS_SYS_LSEEK fd offset whence a3 a4 a5 s).ret
      = if (BitVec.ofInt 64 sum).toInt < 0 then vfsStatus .einval
        else toInt32 (BitVec.ofInt 64 sum) := by
  obtain ⟨⟨getCurrentFdTable, hget, hpresent⟩, d, i, base, hs, rfl⟩ := h
  show (sysLseek cfg fd offset whence a3 a4 a5 s).ret = _
  rw [sysLseek, hget]
  simp only [hpresent, Bool.not_true, Bool.false_eq_true, if_false, mcsVfsLseek_seeks hs,
    BitVec.ofInt_add, BitVec.ofInt_toInt]
  split
  · rfl
  · rfl

/-- A seek relative to the offset or to the end of the file, whose offset is larger than
    what `long` leaves above the base. -/
structure SumsTooFar (cfg : SyscallConfig W) (s : SyscallState W) (fd offset whence : U64)
    (d i : Nat) (base : U64) : Prop
    extends SeeksFrom s.fs s.table (toInt32 fd) (toInt32 whence) d i base where
  present : TablePresent cfg s
  relative : toInt32 whence = MCS_SEEK_CUR ∨ toInt32 whence = MCS_SEEK_END
  far : 2 ^ 63 - 1 - (base.toNat : Int) < offset.toInt

/-- A base other than 0 is relative. -/
theorem seekBase_relative {fs : Ramfs} {table : FdTable} {fd whence : Int} {d i : Nat}
    {base : U64} (h : SeeksFrom fs table fd whence d i base) (hbase : base ≠ 0) :
    whence = MCS_SEEK_CUR ∨ whence = MCS_SEEK_END := by
  have hstart := h.start
  rw [seekBase] at hstart
  split at hstart
  · exact absurd (Option.some.inj hstart).symm hbase
  split at hstart
  · rename_i hcur
    exact Or.inl hcur
  split at hstart
  · rename_i hend
    exact Or.inr hend
  · cases hstart

/-- A seek starts below `2^63`, since offsets and sizes are. -/
theorem base_short (h : Reachable s) {fd whence : Int} {d i : Nat} {base : U64}
    (hs : SeeksFrom s.fs s.table fd whence d i base) : base.toNat < 2 ^ 63 := by
  obtain ⟨garbage, ops, j, hfs, htable⟩ := h
  have hI := exec_inv garbage ops
  have hshort := exec_short garbage ops
  rw [hfs, htable] at hs
  exact seekBase_short (hI.tables j) hshort.sizes (hshort.offsets j) hs

/-- **SEEK OVERFLOW**: after any run of system calls, the sum that a seek computes is a
    `long`, except for a relative seek that goes past the largest one. -/
theorem seek_overflow_iff {calls : List Call} {s₀ : SyscallState W} (h₀ : Reachable s₀)
    (hs : Machine.exec (callStep cfg) s₀ calls = s) (fd offset whence : U64) :
    (∀ sum, SeekSum cfg s fd offset whence sum → -2 ^ 63 ≤ sum ∧ sum < 2 ^ 63) ↔
      ¬ ∃ d i base, SumsTooFar cfg s fd offset whence d i base := by
  have hreach := exec_reachable cfg h₀ calls
  rw [hs] at hreach
  -- one summand is a register's value and the other is below 2^63
  have hoff := BitVec.toInt_lt (x := offset)
  have hoff' := BitVec.le_toInt (x := offset)
  constructor
  · rintro hrange ⟨d, i, base, ht⟩
    have hbase := base_short hreach ht.toSeeksFrom
    have hint : base.toInt = base.toNat := BitVec.toInt_eq_toNat_of_lt (by omega)
    have hsum := (hrange _ ⟨ht.present, d, i, base, ht.toSeeksFrom, rfl⟩).2
    have hfar := ht.far
    rw [hint] at hsum
    omega
  · rintro hno sum ⟨hpresent, d, i, base, hseek, rfl⟩
    have hbase := base_short hreach hseek
    have hint : base.toInt = base.toNat := BitVec.toInt_eq_toNat_of_lt (by omega)
    rw [hint]
    constructor
    · omega
    · by_contra hfar
      refine hno ⟨d, i, base, hseek, hpresent, seekBase_relative hseek ?_, by omega⟩
      rintro rfl
      exact hfar (by simpa using hoff)

/-- Go to the last position that `long` holds. -/
def seekToEnd : Call := ⟨fun _ => 0, fun _ => 0, MCSOS_SYS_LSEEK, 0, 0x7fffffffffffffff, 0, 0, 0, 0⟩

/-- The descriptor is at the largest offset there is. -/
def farState : SyscallState Unit := Machine.exec (callStep smallConfig) (smallState 0) [seekToEnd]

/-- A relative seek starts there. -/
theorem farState_seeks :
    SeeksFrom farState.fs farState.table (toInt32 0) (toInt32 1) 0 1 0x7fffffffffffffff :=
  ⟨by decide +kernel, by decide +kernel, by decide +kernel, by decide +kernel⟩

theorem smallState_present (s : SyscallState Unit) : TablePresent smallConfig s :=
  ⟨_, rfl, rfl⟩

/-- A seek by 0 stays in range from there, and one by 1 does not. -/
theorem seek_overflow_iff_far :
    (∀ sum, SeekSum smallConfig farState 0 0 1 sum → -2 ^ 63 ≤ sum ∧ sum < 2 ^ 63) ∧
    ¬ ∀ sum, SeekSum smallConfig farState 0 1 1 sum → -2 ^ 63 ≤ sum ∧ sum < 2 ^ 63 := by
  have hreach : Reachable (smallState 0) := ⟨garbage, smallRun, 0, rfl, rfl⟩
  refine ⟨(seek_overflow_iff hreach rfl 0 0 1).mpr ?_,
    fun h => (seek_overflow_iff hreach rfl 0 1 1).mp h ?_⟩
  · rintro ⟨d, i, base, ht⟩
    obtain ⟨rfl, rfl, rfl⟩ := farState_seeks.unique ht.toSeeksFrom
    exact absurd ht.far (by decide)
  · exact ⟨0, 1, _, farState_seeks, smallState_present _, Or.inl (by decide), by decide⟩

/-- One further from the last position: the sum is `2^63`. -/
theorem seek_overflows : SeekSum smallConfig farState 0 1 1 (2 ^ 63) :=
  ⟨smallState_present _, 0, 1, _, farState_seeks, by decide⟩

/-! ## Descriptor arguments -/

/-- The number of an open descriptor. -/
def IsOpen (table : FdTable) (n : Nat) : Prop :=
  n < MCS_MAX_OPEN_FILES ∧ (table.files n).used = true

instance (table : FdTable) (n : Nat) : Decidable (IsOpen table n) :=
  inferInstanceAs (Decidable (_ ∧ _))

/-- What `mcs_fd_get` finds for a register is the descriptor its low half names. -/
theorem mcsFdGet_register (table : FdTable) (fd : U64) :
    mcsFdGet table (toInt32 fd)
      = if IsOpen table (fd.toNat % 2 ^ 32) then some (fd.toNat % 2 ^ 32) else none := by
  have hmax : MCS_MAX_OPEN_FILES = 16 := rfl
  rw [toInt32, cut_toInt, mcsFdGet]
  -- the register is cut to an int, and an int of 2^31 or more is negative
  generalize hn : fd.toNat % 2 ^ 32 = n
  have hint : (fd.toNat % 2 ^ 32 : Int) = n := by omega
  rw [hint]
  by_cases hopen : IsOpen table n
  · have hlow := hopen.1
    have hsign : n < 2 ^ 31 := by omega
    rw [if_pos hopen, if_pos hsign, Int.toNat_natCast, if_neg (by omega), hopen.2]
    rfl
  rw [if_neg hopen]
  by_cases hsign : n < 2 ^ 31
  · rw [if_pos hsign, Int.toNat_natCast]
    by_cases hlow : n < MCS_MAX_OPEN_FILES
    · have hused : (table.files n).used = false :=
        Bool.eq_false_iff.mpr (fun h => hopen ⟨hlow, h⟩)
      rw [if_neg (by omega), hused]
      rfl
    · rw [if_pos (by omega)]
  · rw [if_neg hsign, if_pos (by omega)]

/-- The four calls that take a descriptor. -/
def TakesFd (nr : U64) : Prop :=
  nr = MCSOS_SYS_READ ∨ nr = MCSOS_SYS_WRITE ∨ nr = MCSOS_SYS_LSEEK ∨ nr = MCSOS_SYS_CLOSE

/-- Every call with this descriptor fails without a trace. -/
def Refuses (cfg : SyscallConfig W) (s : SyscallState W) (fd : U64) : Prop :=
  ∀ stack nr a1 a2 a3 a4 a5, TakesFd nr →
    (mcsosSyscallDispatch cfg stack nr fd a1 a2 a3 a4 a5 s).ret < 0 ∧
    SameData s (mcsosSyscallDispatch cfg stack nr fd a1 a2 a3 a4 a5 s).state

/-- The call does not get to a descriptor. -/
def Misses (cfg : SyscallConfig W) (s : SyscallState W) (fd : U64) : Prop :=
  TablePresent cfg s → mcsFdGet s.table (toInt32 fd) = none

/-- Without an open descriptor a read fails and changes nothing. -/
theorem sysRead_misses {fd : U64} (h : Misses cfg s fd) (stack : Nat → U8)
    (buf len a3 a4 a5 : U64) :
    (sysRead cfg stack fd buf len a3 a4 a5 s).ret < 0 ∧
    SameData s (sysRead cfg stack fd buf len a3 a4 a5 s).state := by
  rw [sysRead]
  cases hget : cfg.ops.getCurrentFdTable with
  | none => exact ⟨syscallErr_neg .ebusy, rfl, rfl, rfl⟩
  | some getCurrentFdTable =>
      simp only
      split
      · exact ⟨syscallErr_neg .einval, rfl, rfl, rfl⟩
      cases hpresent : (getCurrentFdTable s.world).1 with
      | false => exact ⟨syscallErr_neg .ebusy, rfl, rfl, rfl⟩
      | true =>
          have hnone := h ⟨_, hget, hpresent⟩
          rcases readTransfer_refused s.fs s.table (toInt32 fd) true len with
            ⟨e, heq⟩ | ⟨-, d, i, ho⟩
          · simp only [mcsVfsRead, heq, vfsReturn, if_pos (vfsStatus_neg e)]
            exact ⟨vfsStatus_neg e, rfl, rfl, rfl⟩
          · rw [ho.slot] at hnone
            cases hnone

/-- Without an open descriptor a write fails and changes nothing. -/
theorem sysWrite_misses {fd : U64} (h : Misses cfg s fd) (stack : Nat → U8)
    (buf len a3 a4 a5 : U64) :
    (sysWrite cfg stack fd buf len a3 a4 a5 s).ret < 0 ∧
    SameData s (sysWrite cfg stack fd buf len a3 a4 a5 s).state := by
  rw [sysWrite]
  cases hget : cfg.ops.getCurrentFdTable with
  | none => exact ⟨syscallErr_neg .ebusy, rfl, rfl, rfl⟩
  | some getCurrentFdTable =>
      simp only
      split
      · exact ⟨syscallErr_neg .einval, rfl, rfl, rfl⟩
      split
      · rename_i rc _
        exact ⟨syscallErr_neg rc, rfl, rfl, rfl⟩
      -- the buffer was copied in first, which does not show
      rename_i kbuf _
      cases hpresent : (getCurrentFdTable s.world).1 with
      | false => exact ⟨syscallErr_neg .ebusy, rfl, rfl, rfl⟩
      | true =>
          have hnone := h ⟨_, hget, hpresent⟩
          rcases writeTransfer_refused s.fs s.table (toInt32 fd) (some kbuf).isSome len with
            ⟨e, heq⟩ | ⟨-, d, i, ho⟩
          · simp only [mcsVfsWrite, heq, vfsReturn]
            exact ⟨vfsStatus_neg e, rfl, rfl, rfl⟩
          · rw [ho.slot] at hnone
            cases hnone

/-- Without an open descriptor a seek fails and changes nothing. -/
theorem sysLseek_misses {fd : U64} (h : Misses cfg s fd) (offset whence a3 a4 a5 : U64) :
    (sysLseek cfg fd offset whence a3 a4 a5 s).ret < 0 ∧
    SameData s (sysLseek cfg fd offset whence a3 a4 a5 s).state := by
  rw [sysLseek]
  cases hget : cfg.ops.getCurrentFdTable with
  | none => exact ⟨syscallErr_neg .ebusy, rfl, rfl, rfl⟩
  | some getCurrentFdTable =>
      cases hpresent : (getCurrentFdTable s.world).1 with
      | false => simp [hpresent, reply, SameData, syscallErr_neg]
      | true =>
          simp only [hpresent, mcsVfsLseek, h ⟨_, hget, hpresent⟩, vfsReturn]
          exact ⟨vfsStatus_neg .ebadf, rfl, rfl, rfl⟩

/-- Without an open descriptor a close fails and changes nothing. -/
theorem sysClose_misses {fd : U64} (h : Misses cfg s fd) (a1 a2 a3 a4 a5 : U64) :
    (sysClose cfg fd a1 a2 a3 a4 a5 s).ret < 0 ∧
    SameData s (sysClose cfg fd a1 a2 a3 a4 a5 s).state := by
  rw [sysClose]
  cases hget : cfg.ops.getCurrentFdTable with
  | none => exact ⟨syscallErr_neg .ebusy, rfl, rfl, rfl⟩
  | some getCurrentFdTable =>
      cases hpresent : (getCurrentFdTable s.world).1 with
      | false => simp [hpresent, reply, SameData, syscallErr_neg]
      | true =>
          simp only [hpresent, mcsVfsClose, h ⟨_, hget, hpresent⟩, vfsReturn]
          exact ⟨vfsStatus_neg .ebadf, rfl, rfl, rfl⟩

/-- A close that gets to a descriptor succeeds. -/
theorem sysClose_hits {fd : U64} {d : Nat} (hpresent : TablePresent cfg s)
    (hget : mcsFdGet s.table (toInt32 fd) = some d) (a1 a2 a3 a4 a5 : U64) :
    (sysClose cfg fd a1 a2 a3 a4 a5 s).ret = 0 := by
  obtain ⟨getCurrentFdTable, hops, htable⟩ := hpresent
  rw [sysClose, hops]
  simp only [htable, Bool.not_true, Bool.false_eq_true, if_false, mcsVfsClose, hget]
  rfl

/-- **DESCRIPTOR WIDTH**: whatever the table, a call with a number that is not open fails
    without a trace, unless a table is there and the low half of the number is open. -/
theorem descriptor_width_iff (cfg : SyscallConfig W) (s : SyscallState W) (fd : U64) :
    (¬ IsOpen s.table fd.toNat → Refuses cfg s fd) ↔
      ¬ (TablePresent cfg s ∧ ¬ IsOpen s.table fd.toNat ∧
        IsOpen s.table (fd.toNat % 2 ^ 32)) := by
  constructor
  · rintro hrefuses ⟨hpresent, hclosed, hlow⟩
    have hclose : (sysClose cfg fd 0 0 0 0 0 s).ret < 0 :=
      (hrefuses hclosed (fun _ => 0) MCSOS_SYS_CLOSE 0 0 0 0 0
        (Or.inr (Or.inr (Or.inr rfl)))).1
    rw [sysClose_hits hpresent ((mcsFdGet_register s.table fd).trans (if_pos hlow))] at hclose
    exact absurd hclose (by decide)
  · intro hno hclosed stack nr a1 a2 a3 a4 a5 hnr
    -- what is not open in the low 32 bits is not found
    have hmiss : Misses cfg s fd := by
      intro hpresent
      rw [mcsFdGet_register, if_neg (fun hlow => hno ⟨hpresent, hclosed, hlow⟩)]
    rcases hnr with rfl | rfl | rfl | rfl
    · exact sysRead_misses hmiss stack a1 a2 a3 a4 a5
    · exact sysWrite_misses hmiss stack a1 a2 a3 a4 a5
    · exact sysLseek_misses hmiss a1 a2 a3 a4 a5
    · exact sysClose_misses hmiss a1 a2 a3 a4 a5

/-- With one descriptor open, number 0, a read of `2^32` delivers its four bytes and a
    close of `2^32` closes it. -/
theorem descriptor_number_cut :
    ¬ IsOpen (smallState 0).table 0x100000000 ∧
    (mcsosSyscallDispatch smallConfig (fun _ => 0) MCSOS_SYS_READ 0x100000000 0x1000 16 0 0 0
      (smallState 0)).ret = 4 ∧
    (mcsosSyscallDispatch smallConfig (fun _ => 0) MCSOS_SYS_CLOSE 0x100000000 0 0 0 0 0
      (smallState 0)).ret = 0 ∧
    ((smallState 0).table.files 0).used = true ∧
    ((mcsosSyscallDispatch smallConfig (fun _ => 0) MCSOS_SYS_CLOSE 0x100000000 0 0 0 0 0
      (smallState 0)).state.table.files 0).used = false := by
  decide +kernel

end SyscallArgument
