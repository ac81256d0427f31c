import Mcsos.SyscallEntryModel
import Mcsos.SyscallFailureProofs
import Mcsos.VfsContentsProofs

/-! # What a system call asks of the file system

    A system call on files checks its arguments, copies between user memory and
    a buffer of the kernel, and makes one call of the file system.  `vfsCall` is
    that call, as a function of the registers and of user memory: the path and
    the bytes that it is handed are those at the user's addresses, and neither
    what the stack held in the kernel's buffers nor what lies behind the end of
    the user's comes into it.

    `dispatch_cases` says all that a system call can do; what is proved about
    runs of the file system carries over from there. -/

namespace SyscallVfs

open Word Loop ByteMemory VfsModel VfsInvariant VfsString SyscallModel SyscallConfinement
  SyscallEntryModel SyscallFailure

/-! ## Buffers -/

/-- A buffer that `mcsos_copy_from_user` reads and `mcsos_copy_to_user` writes. -/
def UserBuffer (region : UserRegion) (ptr len : U64) : Prop :=
  len = 0 ∨ ptr ≠ 0 ∧ mcsosUserCheckRange region ptr len = true

instance (region : UserRegion) (ptr len : U64) : Decidable (UserBuffer region ptr len) :=
  inferInstanceAs (Decidable (_ ∨ _))

/-- Bytes that are no buffer are refused by one of the two checks. -/
theorem not_userBuffer {region : UserRegion} {ptr len : U64} (h : ¬ UserBuffer region ptr len) :
    len ≠ 0 ∧ (ptr ≠ 0 → mcsosUserCheckRange region ptr len = false) := by
  rw [UserBuffer, not_or, not_and, Bool.not_eq_true] at h
  exact h

/-- A copy in fills the array with the bytes of the buffer. -/
theorem copyFromUser_ok {region : UserRegion} {src len : U64} (h : UserBuffer region src len)
    (mem : Mem) (dst : Nat → U8) :
    ∃ kbuf, mcsosCopyFromUser region mem dst src len = .ok kbuf ∧
      ∀ i, i < len.toNat → kbuf i = byteAt mem src i := by
  rw [mcsosCopyFromUser]
  by_cases hlen : len = 0
  · refine ⟨dst, if_pos hlen, fun i hi => ?_⟩
    rw [hlen] at hi
    exact absurd hi (Nat.not_lt_zero i)
  obtain ⟨hnull, hcheck⟩ := h.resolve_left hlen
  rw [if_neg hlen, if_neg hnull, hcheck]
  refine ⟨_, if_neg (by decide), fun i hi => ?_⟩
  have hfill := forN_update 0 (fun i _ => byteAt mem src i) len.toNat dst i
  simp only [Nat.zero_add, Nat.zero_le, true_and, Nat.sub_zero, if_pos hi] at hfill
  exact hfill

/-- Bytes that are no buffer are not copied. -/
theorem copyFromUser_refused {region : UserRegion} {src len : U64}
    (h : ¬ UserBuffer region src len) (mem : Mem) (dst : Nat → U8) :
    ∃ e, mcsosCopyFromUser region mem dst src len = .error e := by
  obtain ⟨hlen, hcheck⟩ := not_userBuffer h
  rw [mcsosCopyFromUser, if_neg hlen]
  by_cases hnull : src = 0
  · exact ⟨_, if_pos hnull⟩
  · rw [if_neg hnull, hcheck hnull]
    exact ⟨_, if_pos rfl⟩

/-- What a copy to the user leaves in memory. -/
structure CopiedOut (mem mem' : Mem) (dst : U64) (src : Nat → U8) (n : Nat) : Prop where
  bytes : ∀ i, i < n → byteAt mem' dst i = src i
  others : ∀ a, (∀ i, i < n → a ≠ dst + BitVec.ofNat 64 i) → mem' a = mem a

/-- A copy writes its bytes and no others. -/
theorem copyToUser_copied {region : UserRegion} {mem mem' : Mem} {dst n : U64} {src : Nat → U8}
    (h : mcsosCopyToUser region mem dst src n = .ok mem') :
    CopiedOut mem mem' dst src n.toNat := by
  rw [mcsosCopyToUser] at h
  by_cases hn : n = 0
  · rw [if_pos hn] at h
    cases h
    refine ⟨fun i hi => ?_, fun _ _ => rfl⟩
    rw [hn] at hi
    exact absurd hi (Nat.not_lt_zero i)
  rw [if_neg hn] at h
  split at h
  · cases h
  split at h
  · cases h
  · cases h
    -- no two bytes of a buffer share an address
    have hinj : ∀ i j, i < n.toNat → j < n.toNat →
        dst + BitVec.ofNat 64 i = dst + BitVec.ofNat 64 j → i = j := by
      intro i j hi hj h
      have hn := n.isLt
      bv_omega
    obtain ⟨hin, hout⟩ := forN_store hinj src mem
    exact ⟨hin, hout⟩

/-! ## The handlers -/

variable {W : Type} {cfg : SyscallConfig W} {s : SyscallState W}

/-- The callbacks hand out the descriptor table and the ramfs. -/
structure Serves (cfg : SyscallConfig W) (w : W) : Prop where
  table : ∃ get, cfg.ops.getCurrentFdTable = some get ∧ get w = (true, w)
  ramfs : ∃ get, cfg.ops.getRamfs = some get ∧ get w = (true, w)

/-- The path at `ptr`. -/
def userPath (mem : Mem) (ptr len : U64) : Path := (List.range len.toNat).map (byteAt mem ptr)

/-- A path that `sys_open` copies in. -/
def PathBuffer (region : UserRegion) (ptr len : U64) : Prop :=
  (len ≠ 0 ∧ len.toNat < SYS_MAX_PATH) ∧ UserBuffer region ptr len

instance (region : UserRegion) (ptr len : U64) : Decidable (PathBuffer region ptr len) :=
  inferInstanceAs (Decidable (_ ∧ _))

/-- A terminator ends the string, as the end of the path does. -/
theorem cstr_terminated (s t : Path) : cstr (s ++ 0 :: t) = cstr s := by
  induction s with
  | nil => rfl
  | cons c s ih =>
      by_cases hc : c = 0
      · rw [hc]
        rfl
      · rw [List.cons_append, cstr_cons hc, cstr_cons hc, ih]

/-- `kpath` holds the path of the user. -/
theorem cstr_kpath {mem : Mem} {ptr len : U64} {kbuf : Nat → U8} (hlen : len.toNat < SYS_MAX_PATH)
    (h : ∀ i, i < len.toNat → kbuf i = byteAt mem ptr i) :
    cstr ((List.range SYS_MAX_PATH).map (Function.update kbuf len.toNat 0))
      = cstr (userPath mem ptr len) := by
  obtain ⟨m, hm⟩ := Nat.exists_eq_add_of_le hlen
  have hpath : (List.range len.toNat).map (Function.update kbuf len.toNat 0)
      = userPath mem ptr len := by
    refine List.map_congr_left (fun i hi => ?_)
    have hi := List.mem_range.mp hi
    rw [Function.update_of_ne (Nat.ne_of_lt hi), h i hi]
  rw [hm, List.range_add, List.range_succ, List.map_append, List.map_append, List.append_assoc,
    hpath, List.map_singleton, Function.update_self]
  exact cstr_terminated _ _

/-- `sys_open` with such a path is the file system's open. -/
theorem sysOpen_eq (h : Serves cfg s.world) (stack : Nat → U8) {ptr len : U64}
    (hpath : PathBuffer cfg.region ptr len) (flags a3 a4 a5 : U64) :
    sysOpen cfg stack ptr len flags a3 a4 a5 s =
      let r := mcsVfsOpen s.fs s.table (some (userPath s.mem ptr len)) (flags.setWidth 32)
      reply { s with fs := r.2.1, table := r.2.2 } (vfsReturn (r.1.map Int.ofNat)) := by
  obtain ⟨getTable, htable, hgot⟩ := h.table
  obtain ⟨getFs, hramfs, hgot'⟩ := h.ramfs
  obtain ⟨⟨hpos, hlen⟩, hbuf⟩ := hpath
  obtain ⟨kbuf, hcopy, hbytes⟩ := copyFromUser_ok hbuf s.mem stack
  have hshort : ¬ (len = 0 ∨ len.toNat ≥ SYS_MAX_PATH) :=
    not_or.mpr ⟨hpos, Nat.not_le.mpr hlen⟩
  rw [sysOpen, htable, hramfs]
  dsimp only
  rw [if_neg hshort, hcopy]
  dsimp only
  rw [hgot, hgot', ← mcsVfsOpen_cstr, cstr_kpath hlen hbytes, mcsVfsOpen_cstr]
  rfl

/-- Without one it fails. -/
theorem sysOpen_refused (h : Serves cfg s.world) (stack : Nat → U8) {ptr len : U64}
    (hpath : ¬ PathBuffer cfg.region ptr len) (flags a3 a4 a5 : U64) :
    ∃ e : SyscallErr, sysOpen cfg stack ptr len flags a3 a4 a5 s = reply s e.code := by
  obtain ⟨getTable, htable, -⟩ := h.table
  obtain ⟨getFs, hramfs, -⟩ := h.ramfs
  rw [sysOpen, htable, hramfs]
  dsimp only
  by_cases hshort : len = 0 ∨ len.toNat ≥ SYS_MAX_PATH
  · exact ⟨.einval, if_pos hshort⟩
  · rw [if_neg hshort]
    have hbuf : ¬ UserBuffer cfg.region ptr len := fun hbuf =>
      hpath ⟨⟨fun h0 => hshort (Or.inl h0), Nat.lt_of_not_le fun hl => hshort (Or.inr hl)⟩, hbuf⟩
    obtain ⟨e, hcopy⟩ := copyFromUser_refused hbuf s.mem stack
    rw [hcopy]
    exact ⟨e, rfl⟩

/-- The bytes of a buffer past its length do not reach the file system. -/
theorem mcsVfsWrite_congr {fs : Ramfs} {table : FdTable} {fd : Int} {buf buf' : Nat → U8}
    {len : U64} (h : ∀ i, i < len.toNat → buf' i = buf i) :
    mcsVfsWrite fs table fd (some buf') len = mcsVfsWrite fs table fd (some buf) len := by
  rw [mcsVfsWrite, mcsVfsWrite]
  rcases writeTransfer_cases fs table fd true len with
    ⟨e, heq⟩ | ⟨d, i, -, -, e, heq⟩ | ⟨d, t, hw, heq⟩
  · rw [Option.isSome_some, Option.isSome_some, heq]
  · rw [Option.isSome_some, Option.isSome_some, heq]
  · have hput : putBytes fs t buf' = putBytes fs t buf := by
      rw [putBytes, putBytes, mcsCopyBytes, mcsCopyBytes, hw.count]
      refine congrArg (fun data => { fs with data := data }) (forN_congr (fun i hi => ?_) _)
      rw [h i hi]
    rw [Option.isSome_some, Option.isSome_some, heq]
    dsimp only
    rw [Option.getD_some, Option.getD_some, hput]

/-- `sys_write` with a buffer is the file system's write. -/
theorem sysWrite_eq (h : Serves cfg s.world) (stack : Nat → U8) {ptr len : U64}
    (hlen : len ≤ 4096) (hbuf : UserBuffer cfg.region ptr len) (fd a3 a4 a5 : U64) :
    sysWrite cfg stack fd ptr len a3 a4 a5 s =
      let r := mcsVfsWrite s.fs s.table (toInt32 fd) (some (byteAt s.mem ptr)) len
      reply { s with fs := r.2.1, table := r.2.2 } (vfsReturn r.1) := by
  obtain ⟨getTable, htable, hgot⟩ := h.table
  obtain ⟨kbuf, hcopy, hbytes⟩ := copyFromUser_ok hbuf s.mem stack
  rw [sysWrite, htable]
  dsimp only
  rw [if_neg (BitVec.not_lt.mpr hlen), hcopy]
  dsimp only
  rw [hgot, mcsVfsWrite_congr hbytes]
  rfl

/-- Without one it fails. -/
theorem sysWrite_refused (h : Serves cfg s.world) (stack : Nat → U8) {ptr len : U64}
    (hbad : ¬ (len ≤ 4096 ∧ UserBuffer cfg.region ptr len)) (fd a3 a4 a5 : U64) :
    ∃ e : SyscallErr, sysWrite cfg stack fd ptr len a3 a4 a5 s = reply s e.code := by
  obtain ⟨getTable, htable, -⟩ := h.table
  rw [sysWrite, htable]
  dsimp only
  by_cases hlong : len > 4096
  · exact ⟨.einval, if_pos hlong⟩
  · have hbuf : ¬ UserBuffer cfg.region ptr len :=
      fun hbuf => hbad ⟨BitVec.not_lt.mp hlong, hbuf⟩
    obtain ⟨e, hcopy⟩ := copyFromUser_refused hbuf s.mem stack
    rw [if_neg hlong, hcopy]
    exact ⟨e, rfl⟩

/-- `sys_lseek` is the file system's seek. -/
theorem sysLseek_eq (h : Serves cfg s.world) (fd offset whence a3 a4 a5 : U64) :
    sysLseek cfg fd offset whence a3 a4 a5 s =
      let r := mcsVfsLseek s.fs s.table (toInt32 fd) offset (toInt32 whence)
      reply { s with table := r.2 } (vfsReturn r.1) := by
  obtain ⟨getTable, htable, hgot⟩ := h.table
  rw [sysLseek, htable]
  dsimp only
  rw [hgot]
  rfl

/-- `sys_close` is the file system's close. -/
theorem sysClose_eq (h : Serves cfg s.world) (fd a1 a2 a3 a4 a5 : U64) :
    sysClose cfg fd a1 a2 a3 a4 a5 s =
      let r := mcsVfsClose s.table (toInt32 fd)
      reply { s with table := r.2 } (vfsReturn (r.1.map fun _ => 0)) := by
  obtain ⟨getTable, htable, hgot⟩ := h.table
  rw [sysClose, htable]
  dsimp only
  rw [hgot]
  rfl

/-- A read that succeeds answers how many bytes it has delivered. -/
theorem mcsVfsRead_count {fs : Ramfs} {table : FdTable} {fd : Int} {len : U64} {n : Int}
    (hlen : len ≤ 4096) (h : (mcsVfsRead fs table fd true len).1 = .ok n) :
    n = (mcsVfsRead fs table fd true len).2.1.length ∧
      (mcsVfsRead fs table fd true len).2.1.length ≤ 4096 := by
  rcases mcsVfsRead_cases fs table fd true len with ⟨e, heq⟩ | ⟨d, t, hr, heq⟩
  · rw [heq] at h
    cases h
  · rw [heq] at h ⊢
    have hcount := hr.count_toNat
    have hint : t.len.toInt = t.len.toNat := BitVec.toInt_eq_toNat_of_lt (by bv_omega)
    cases h
    rw [List.length_map, List.length_range, hint]
    exact ⟨rfl, by bv_omega⟩

/-- The ways of a read: refused by the file system, refused at the user's buffer when the
    descriptor has moved already, or done. -/
theorem sysRead_cases (h : Serves cfg s.world) (stack : Nat → U8) {len : U64} (hlen : len ≤ 4096)
    (fd ptr a3 a4 a5 : U64) :
    let r := mcsVfsRead s.fs s.table (toInt32 fd) true len
    let moved := { s with table := r.2.2 }
    (∃ e, r.1 = .error e ∧ sysRead cfg stack fd ptr len a3 a4 a5 s = reply moved (vfsStatus e)) ∨
    (∃ n, ∃ e : SyscallErr, r.1 = .ok n ∧ BadTarget cfg.region ptr (BitVec.ofInt 64 n) ∧
      sysRead cfg stack fd ptr len a3 a4 a5 s = reply moved e.code) ∨
    ∃ n mem, r.1 = .ok n ∧
      sysRead cfg stack fd ptr len a3 a4 a5 s = reply { moved with mem := mem } n ∧
      CopiedOut s.mem mem ptr (fun i => r.2.1.getD i 0) r.2.1.length := by
  intro r moved
  obtain ⟨getTable, htable, hgot⟩ := h.table
  cases hres : r.1 with
  | error e =>
      refine Or.inl ⟨e, rfl, ?_⟩
      have hneg : vfsReturn r.1 < 0 := by
        rw [hres]
        exact vfsStatus_neg e
      rw [sysRead, htable]
      dsimp only
      rw [if_neg (BitVec.not_lt.mpr hlen), hgot]
      refine (if_pos hneg).trans ?_
      rw [hres]
      rfl
  | ok n =>
      obtain ⟨hn, hmax⟩ := mcsVfsRead_count hlen hres
      have hpos : ¬ vfsReturn r.1 < 0 := by
        rw [hres]
        show ¬ n < 0
        omega
      rw [sysRead, htable]
      dsimp only
      rw [if_neg (BitVec.not_lt.mpr hlen), hgot]
      refine Or.inr ?_
      cases hcopy : mcsosCopyToUser cfg.region s.mem ptr (fun i => r.2.1.getD i (stack i))
          (BitVec.ofInt 64 n) with
      | error rc =>
          refine Or.inl ⟨n, rc, rfl, copyToUser_error hcopy, (if_neg hpos).trans ?_⟩
          rw [hres]
          dsimp only [vfsReturn]
          rw [hcopy]
      | ok mem =>
          -- as many bytes as were read are copied to the user
          have hout := copyToUser_copied hcopy
          have hcount : (BitVec.ofInt 64 n).toNat = r.2.1.length := by
            rw [hn, BitVec.ofInt_natCast, BitVec.toNat_ofNat]
            exact Nat.mod_eq_of_lt (by omega)
          rw [hcount] at hout
          refine Or.inr ⟨n, mem, rfl, (if_neg hpos).trans ?_, ⟨fun i hi => ?_, hout.others⟩⟩
          · rw [hres]
            dsimp only [vfsReturn]
            rw [hcopy]
          · rw [hout.bytes i hi, List.getD_eq_getElem _ _ hi, List.getD_eq_getElem _ _ hi]

/-- A read of more than a page is refused. -/
theorem sysRead_long (h : Serves cfg s.world) (stack : Nat → U8) {len : U64}
    (hlen : ¬ len ≤ 4096) (fd ptr a3 a4 a5 : U64) :
    sysRead cfg stack fd ptr len a3 a4 a5 s = reply s SyscallErr.einval.code := by
  obtain ⟨getTable, htable, -⟩ := h.table
  rw [sysRead, htable]
  exact if_pos (BitVec.not_le.mp hlen)

/-! ## The dispatcher -/

/-- The call of the file system that a system call makes on table `t`, if the system
    call passes its own checks. -/
def vfsCall (region : UserRegion) (mem : Mem) (t : Nat) (f : SyscallFrame) : Option VfsOp :=
  if f.nr = MCSOS_SYS_OPEN then
    if PathBuffer region f.arg0 f.arg1 then
      some (.vfsOpen t (some (userPath mem f.arg0 f.arg1)) (f.arg2.setWidth 32))
    else none
  else if f.nr = MCSOS_SYS_READ then
    if f.arg2 ≤ 4096 then some (.vfsRead t (toInt32 f.arg0) true f.arg2) else none
  else if f.nr = MCSOS_SYS_WRITE then
    if f.arg2 ≤ 4096 ∧ UserBuffer region f.arg1 f.arg2 then
      some (.vfsWrite t (toInt32 f.arg0) (some (byteAt mem f.arg1)) f.arg2)
    else none
  else if f.nr = MCSOS_SYS_LSEEK then
    some (.vfsLseek t (toInt32 f.arg0) f.arg1 (toInt32 f.arg2))
  else if f.nr = MCSOS_SYS_CLOSE then some (.vfsClose t (toInt32 f.arg0))
  else none

/-- A system call whose effect on descriptors and ramfs is the call `op` of the file system
    `v`, which has the descriptors as table `t`. -/
structure Makes (v : VfsState) (t : Nat) (s : SyscallState W) (op : VfsOp)
    (r : SyscallResult W) : Prop where
  state : (vfsStep v op).2 = ⟨r.state.fs, Function.update v.tables t r.state.table⟩
  world : r.state.world = s.world
  serial : r.serial = []
  ret : r.ret = vfsReturn (vfsStep v op).1.1 ∨
    ∃ fd n len, ∃ e : SyscallErr, op = .vfsRead t fd true len ∧ (vfsStep v op).1.1 = .ok n ∧
      r.ret = e.code

/-- Nothing happens to them. -/
structure Leaves (s : SyscallState W) (r : SyscallResult W) : Prop where
  mem : r.state.mem = s.mem
  table : r.state.table = s.table
  fs : r.state.fs = s.fs

/-- What the other callbacks can do to the world. -/
inductive WorldStep (cfg : SyscallConfig W) (w : W) : W → Prop where
  | same : WorldStep cfg w w
  | ticks {get : W → U64 × W} (h : cfg.ops.getTicks = some get) : WorldStep cfg w (get w).2
  | serial (ptr len : U64) (bytes : List U8) :
      WorldStep cfg w (cfg.ops.writeSerial ptr len bytes w).2.2
  | yields {yield : W → W} (h : cfg.ops.yieldCurrent = some yield) : WorldStep cfg w (yield w)
  | exits {exit : Int → W → W} (code : Int) (h : cfg.ops.exitCurrent = some exit) :
      WorldStep cfg w (exit code w)

/-- The first five system calls. -/
theorem dispatch_simple {stack : Nat → U8} {f : SyscallFrame} (hnr : f.nr < MCSOS_SYS_OPEN) :
    Leaves s (dispatchFrame cfg stack f s) ∧
      WorldStep cfg s.world (dispatchFrame cfg stack f s).state.world := by
  have hmax : ¬ f.nr ≥ MCSOS_SYS_MAX := by
    rw [MCSOS_SYS_OPEN] at hnr
    rw [MCSOS_SYS_MAX]
    bv_omega
  rw [dispatchFrame, mcsosSyscallDispatch, if_neg hmax]
  have hlt : f.nr.toNat < 5 := hnr
  generalize f.nr.toNat = n at hlt
  -- the five calls below the file system's
  have hcases : n = 0 ∨ n = 1 ∨ n = 2 ∨ n = 3 ∨ n = 4 := by omega
  obtain rfl | rfl | rfl | rfl | rfl := hcases
  · exact ⟨⟨rfl, rfl, rfl⟩, .same⟩
  · show Leaves s (sysGetTicks cfg _ _ _ _ _ _ s) ∧ WorldStep cfg s.world
      (sysGetTicks cfg _ _ _ _ _ _ s).state.world
    rw [sysGetTicks]
    cases hget : cfg.ops.getTicks with
    | none => exact ⟨⟨rfl, rfl, rfl⟩, .same⟩
    | some get => exact ⟨⟨rfl, rfl, rfl⟩, .ticks hget⟩
  · show Leaves s (sysWriteSerial cfg _ _ _ _ _ _ s) ∧ WorldStep cfg s.world
      (sysWriteSerial cfg _ _ _ _ _ _ s).state.world
    rw [sysWriteSerial]
    split
    · exact ⟨⟨rfl, rfl, rfl⟩, .same⟩
    split
    · exact ⟨⟨rfl, rfl, rfl⟩, .same⟩
    split
    · exact ⟨⟨rfl, rfl, rfl⟩, .same⟩
    · exact ⟨⟨rfl, rfl, rfl⟩, .serial _ _ _⟩
  · show Leaves s (sysYield cfg _ _ _ _ _ _ s) ∧ WorldStep cfg s.world
      (sysYield cfg _ _ _ _ _ _ s).state.world
    rw [sysYield]
    cases hyield : cfg.ops.yieldCurrent with
    | none => exact ⟨⟨rfl, rfl, rfl⟩, .same⟩
    | some yield => exact ⟨⟨rfl, rfl, rfl⟩, .yields hyield⟩
  · show Leaves s (sysExitThread cfg _ _ _ _ _ _ s) ∧ WorldStep cfg s.world
      (sysExitThread cfg _ _ _ _ _ _ s).state.world
    rw [sysExitThread]
    cases hexit : cfg.ops.exitCurrent with
    | none => exact ⟨⟨rfl, rfl, rfl⟩, .same⟩
    | some exit => exact ⟨⟨rfl, rfl, rfl⟩, .exits _ hexit⟩

section Dispatch

variable {v : VfsState} {t : Nat}

/-- A call that answers what the file system answers. -/
theorem makes_reply {op : VfsOp} {n : Int} {fs : Ramfs} {table : FdTable} {mem : Mem}
    (hstate : (vfsStep v op).2 = ⟨fs, Function.update v.tables t table⟩)
    (hret : n = vfsReturn (vfsStep v op).1.1) :
    Makes v t s op (reply { s with mem := mem, table := table, fs := fs } n) :=
  ⟨hstate, rfl, rfl, Or.inl hret⟩

/-- `sys_open` makes the file system's open. -/
theorem sysOpen_makes (h : Serves cfg s.world) (hfs : v.fs = s.fs) (ht : v.tables t = s.table)
    (stack : Nat → U8) {ptr len : U64} (hpath : PathBuffer cfg.region ptr len)
    (flags a3 a4 a5 : U64) :
    Makes v t s (.vfsOpen t (some (userPath s.mem ptr len)) (flags.setWidth 32))
      (sysOpen cfg stack ptr len flags a3 a4 a5 s) := by
  rw [sysOpen_eq h stack hpath]
  refine makes_reply ?_ ?_
  · rw [vfsStep, hfs, ht]
    rfl
  · rw [vfsStep, hfs, ht]

/-- `sys_write` makes the file system's write. -/
theorem sysWrite_makes (h : Serves cfg s.world) (hfs : v.fs = s.fs) (ht : v.tables t = s.table)
    (stack : Nat → U8) {ptr len : U64}
    (hbuf : len ≤ 4096 ∧ UserBuffer cfg.region ptr len) (fd a3 a4 a5 : U64) :
    Makes v t s (.vfsWrite t (toInt32 fd) (some (byteAt s.mem ptr)) len)
      (sysWrite cfg stack fd ptr len a3 a4 a5 s) := by
  rw [sysWrite_eq h stack hbuf.1 hbuf.2]
  refine makes_reply ?_ ?_
  · rw [vfsStep, hfs, ht]
    rfl
  · rw [vfsStep, hfs, ht]

/-- `sys_lseek` makes the file system's seek. -/
theorem sysLseek_makes (h : Serves cfg s.world) (hfs : v.fs = s.fs) (ht : v.tables t = s.table)
    (fd offset whence a3 a4 a5 : U64) :
    Makes v t s (.vfsLseek t (toInt32 fd) offset (toInt32 whence))
      (sysLseek cfg fd offset whence a3 a4 a5 s) := by
  rw [sysLseek_eq h]
  refine makes_reply ?_ ?_
  · rw [vfsStep, hfs, ht, setTable, hfs]
  · rw [vfsStep, hfs, ht]

/-- `sys_close` makes the file system's close. -/
theorem sysClose_makes (h : Serves cfg s.world) (hfs : v.fs = s.fs) (ht : v.tables t = s.table)
    (fd a1 a2 a3 a4 a5 : U64) :
    Makes v t s (.vfsClose t (toInt32 fd)) (sysClose cfg fd a1 a2 a3 a4 a5 s) := by
  rw [sysClose_eq h]
  refine makes_reply ?_ ?_
  · rw [vfsStep, ht, setTable, hfs]
  · rw [vfsStep, ht]

theorem vfsStep_read (hfs : v.fs = s.fs) (ht : v.tables t = s.table) (fd : Int) (len : U64) :
    vfsStep v (.vfsRead t fd true len)
      = (((mcsVfsRead s.fs s.table fd true len).1, (mcsVfsRead s.fs s.table fd true len).2.1),
        ⟨s.fs, Function.update v.tables t (mcsVfsRead s.fs s.table fd true len).2.2⟩) := by
  rw [vfsStep, hfs, ht, setTable, hfs]

/-- `sys_read` makes the file system's read. -/
theorem sysRead_makes (h : Serves cfg s.world) (hfs : v.fs = s.fs) (ht : v.tables t = s.table)
    (stack : Nat → U8) {len : U64} (hlen : len ≤ 4096) (fd ptr a3 a4 a5 : U64) :
    Makes v t s (.vfsRead t (toInt32 fd) true len)
      (sysRead cfg stack fd ptr len a3 a4 a5 s) := by
  have hstep := vfsStep_read hfs ht (toInt32 fd) len
  have hstate := congrArg Prod.snd hstep
  rcases sysRead_cases h stack hlen fd ptr a3 a4 a5 with
    ⟨e, hres, hr⟩ | ⟨n, e, hres, -, hr⟩ | ⟨n, mem, hres, hr, -⟩
  · rw [hr]
    exact makes_reply hstate (by rw [hstep, hres, vfsReturn])
  · rw [hr]
    exact ⟨hstate, rfl, rfl, Or.inr ⟨_, n, _, e, rfl, by rw [hstep, hres], rfl⟩⟩
  · rw [hr]
    exact makes_reply hstate (by rw [hstep, hres, vfsReturn])

/-- A call that is refused before it gets to the file system. -/
theorem refused_leaves {r : SyscallResult W} (h : ∃ e : SyscallErr, r = reply s e.code) :
    Leaves s r ∧ WorldStep cfg s.world r.state.world := by
  obtain ⟨e, rfl⟩ := h
  exact ⟨⟨rfl, rfl, rfl⟩, .same⟩

/-- The handler of a number of the table. -/
theorem dispatchFrame_eq {stack : Nat → U8} {f : SyscallFrame} {n : Nat} {fn : SyscallFn W}
    (hnr : f.nr = BitVec.ofNat 64 n) (hn : n < 10) (hfn : (gTable cfg stack)[n]? = some fn) :
    dispatchFrame cfg stack f s = fn f.arg0 f.arg1 f.arg2 f.arg3 f.arg4 f.arg5 s := by
  have hmax : ¬ f.nr ≥ MCSOS_SYS_MAX := by
    rw [hnr, MCSOS_SYS_MAX]
    bv_omega
  have htoNat : f.nr.toNat = n := by
    rw [hnr, BitVec.toNat_ofNat, Nat.mod_eq_of_lt (by omega)]
  rw [dispatchFrame, mcsosSyscallDispatch, if_neg hmax, htoNat, hfn]

/-- **ONE CALL**: a system call makes one call of the file system, or does nothing to
    descriptors, ramfs and memory. -/
theorem dispatch_cases (h : Serves cfg s.world) (hfs : v.fs = s.fs) (ht : v.tables t = s.table)
    (stack : Nat → U8) (f : SyscallFrame) :
    (∃ op, vfsCall cfg.region s.mem t f = some op ∧
      Makes v t s op (dispatchFrame cfg stack f s)) ∨
    vfsCall cfg.region s.mem t f = none ∧ Leaves s (dispatchFrame cfg stack f s) ∧
      WorldStep cfg s.world (dispatchFrame cfg stack f s).state.world := by
  rw [vfsCall]
  by_cases hopen : f.nr = MCSOS_SYS_OPEN
  · rw [if_pos hopen, dispatchFrame_eq hopen (by decide) rfl]
    by_cases hpath : PathBuffer cfg.region f.arg0 f.arg1
    · rw [if_pos hpath]
      exact Or.inl ⟨_, rfl, sysOpen_makes h hfs ht stack hpath ..⟩
    · rw [if_neg hpath]
      exact Or.inr ⟨rfl, refused_leaves (sysOpen_refused h stack hpath ..)⟩
  rw [if_neg hopen]
  by_cases hread : f.nr = MCSOS_SYS_READ
  · rw [if_pos hread, dispatchFrame_eq hread (by decide) rfl]
    by_cases hlen : f.arg2 ≤ 4096
    · rw [if_pos hlen]
      exact Or.inl ⟨_, rfl, sysRead_makes h hfs ht stack hlen ..⟩
    · rw [if_neg hlen]
      exact Or.inr ⟨rfl, refused_leaves ⟨.einval, sysRead_long h stack hlen ..⟩⟩
  rw [if_neg hread]
  by_cases hwrite : f.nr = MCSOS_SYS_WRITE
  · rw [if_pos hwrite, dispatchFrame_eq hwrite (by decide) rfl]
    by_cases hbuf : f.arg2 ≤ 4096 ∧ UserBuffer cfg.region f.arg1 f.arg2
    · rw [if_pos hbuf]
      exact Or.inl ⟨_, rfl, sysWrite_makes h hfs ht stack hbuf ..⟩
    · rw [if_neg hbuf]
      exact Or.inr ⟨rfl, refused_leaves (sysWrite_refused h stack hbuf ..)⟩
  rw [if_neg hwrite]
  by_cases hseek : f.nr = MCSOS_SYS_LSEEK
  · rw [if_pos hseek, dispatchFrame_eq hseek (by decide) rfl]
    exact Or.inl ⟨_, rfl, sysLseek_makes h hfs ht ..⟩
  rw [if_neg hseek]
  by_cases hclose : f.nr = MCSOS_SYS_CLOSE
  · rw [if_pos hclose, dispatchFrame_eq hclose (by decide) rfl]
    exact Or.inl ⟨_, rfl, sysClose_makes h hfs ht ..⟩
  rw [if_neg hclose]
  -- none of the five numbers: a call below them, or no call at all
  refine Or.inr ⟨rfl, ?_⟩
  by_cases hsmall : f.nr < MCSOS_SYS_OPEN
  · exact dispatch_simple hsmall
  · have hmax : f.nr ≥ MCSOS_SYS_MAX := by
      simp only [MCSOS_SYS_OPEN, MCSOS_SYS_READ, MCSOS_SYS_WRITE, MCSOS_SYS_LSEEK,
        MCSOS_SYS_CLOSE, MCSOS_SYS_MAX] at *
      bv_omega
    rw [dispatchFrame, mcsosSyscallDispatch, if_pos hmax]
    exact refused_leaves ⟨.enosys, rfl⟩

end Dispatch

end SyscallVfs
