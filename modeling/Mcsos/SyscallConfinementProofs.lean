import Mcsos.SyscallModel
import Mcsos.VfsStringProofs
import Mcsos.VfsBoundsProofs

/-! # System calls stay in the user region

    Every way of a handler to user memory goes through
    `mcsos_user_check_range`, so all it can reach is a set `P` of addresses that
    covers the ranges the check accepts (`Covers`).  Each handler takes a state
    with other memory outside `P`, other bytes behind the ends of the kernel's
    arrays and another stack to the same answer, and leaves all of that as it
    was (`dispatch_over`).

    With the user region for `P` this is confinement, in both directions; if
    the region is unset, the check accepts no byte and `P` can be empty. -/

namespace SyscallConfinement

open Word Loop Splice ByteMemory VfsModel VfsTree VfsInvariant VfsString VfsBounds SyscallModel

/-! ## The range check -/

/-- The addresses of the user's region. -/
def InRegion (region : UserRegion) (a : U64) : Prop := region.base ≤ a ∧ a < region.limit

instance (region : UserRegion) : DecidablePred (InRegion region) :=
  fun _ => inferInstanceAs (Decidable (_ ∧ _))

/-- No user region: base 0, or a limit that is not above the base. -/
def Unset (region : UserRegion) : Prop := region.base = 0 ∨ region.limit ≤ region.base

/-- `P` has every byte of every range that the check accepts. -/
def Covers (region : UserRegion) (P : U64 → Prop) : Prop :=
  ∀ a len i, mcsosUserCheckRange region a len = true → i < len.toNat →
    P (a + BitVec.ofNat 64 i)

/-- What the check establishes when it accepts a non-empty range. -/
theorem userCheckRange_iff {region : UserRegion} {a len : U64} (hlen : len ≠ 0) :
    mcsosUserCheckRange region a len = true ↔
      ¬ Unset region ∧ region.base ≤ a ∧ a ≤ a + len - 1 ∧ a + len - 1 < region.limit := by
  rw [mcsosUserCheckRange, if_neg hlen]
  by_cases hunset : region.base = 0 ∨ region.limit ≤ region.base
  · rw [if_pos hunset]
    exact iff_of_false Bool.false_ne_true (fun h => h.1 hunset)
  rw [if_neg hunset]
  by_cases hbase : a < region.base
  · rw [if_pos hbase]
    exact iff_of_false Bool.false_ne_true (fun h => by bv_omega)
  rw [if_neg hbase]
  by_cases hlimit : a > region.limit
  · rw [if_pos hlimit]
    exact iff_of_false Bool.false_ne_true (fun h => by bv_omega)
  rw [if_neg hlimit]
  dsimp only
  -- the checks in the order of the source, the last byte wrapping before its limit
  by_cases hwrap : a + len - 1 < a
  · rw [if_pos hwrap]
    exact iff_of_false Bool.false_ne_true (fun h => by bv_omega)
  rw [if_neg hwrap]
  by_cases hlast : a + len - 1 ≥ region.limit
  · rw [if_pos hlast]
    exact iff_of_false Bool.false_ne_true (fun h => by bv_omega)
  rw [if_neg hlast]
  exact iff_of_true rfl
    ⟨hunset, BitVec.not_lt.mp hbase, BitVec.not_lt.mp hwrap, BitVec.not_le.mp hlast⟩

/-- The region contains every range that is accepted. -/
theorem covers_inRegion (region : UserRegion) : Covers region (InRegion region) := by
  intro a len i h hi
  have hlen : len ≠ 0 := by
    rintro rfl
    exact absurd hi (Nat.not_lt_zero i)
  obtain ⟨-, hbase, hwrap, hlast⟩ := (userCheckRange_iff hlen).mp h
  have hlt := len.isLt
  exact ⟨by bv_omega, by bv_omega⟩

/-- Without a region nothing is accepted. -/
theorem covers_unset {region : UserRegion} (hunset : Unset region) :
    Covers region (fun _ => False) := by
  intro a len i h hi
  have hlen : len ≠ 0 := by
    rintro rfl
    exact absurd hi (Nat.not_lt_zero i)
  exact ((userCheckRange_iff hlen).mp h).1 hunset

/-! ## The copies -/

variable {W : Type}

section Over

variable {region : UserRegion} {P : U64 → Prop} [DecidablePred P]

/-- Memory outside does not show in an accepted range. -/
theorem byteAt_over (hP : Covers region P) {a len : U64}
    (h : mcsosUserCheckRange region a len = true) (mem outside : Mem) {i : Nat}
    (hi : i < len.toNat) : byteAt (splice P mem outside) a i = byteAt mem a i :=
  splice_of (hP a len i h hi) mem outside

/-- Both copies in fail alike, or both fill their arrays with the same bytes. -/
theorem copyFromUser_over (hP : Covers region P) (mem outside : Mem) (dst dst' : Nat → U8)
    (src len : U64) :
    (∃ e, mcsosCopyFromUser region mem dst src len = .error e ∧
      mcsosCopyFromUser region (splice P mem outside) dst' src len = .error e) ∨
    ∃ k k', mcsosCopyFromUser region mem dst src len = .ok k ∧
      mcsosCopyFromUser region (splice P mem outside) dst' src len = .ok k' ∧
      ∀ i, i < len.toNat → k' i = k i := by
  rw [mcsosCopyFromUser, mcsosCopyFromUser]
  by_cases hlen : len = 0
  · rw [if_pos hlen, if_pos hlen]
    refine Or.inr ⟨dst, dst', rfl, rfl, fun i hi => ?_⟩
    rw [hlen] at hi
    exact absurd hi (Nat.not_lt_zero i)
  rw [if_neg hlen, if_neg hlen]
  by_cases hnull : src = 0
  · rw [if_pos hnull, if_pos hnull]
    exact Or.inl ⟨_, rfl, rfl⟩
  rw [if_neg hnull, if_neg hnull]
  cases hcheck : mcsosUserCheckRange region src len with
  | false => exact Or.inl ⟨_, rfl, rfl⟩
  | true =>
      refine Or.inr ⟨_, _, rfl, rfl, fun i hi => ?_⟩
      -- both copies read addresses of the region only
      have hfill := fun (m : Mem) (d : Nat → U8) =>
        forN_update 0 (fun i _ => byteAt m src i) len.toNat d i
      simp only [Nat.zero_add, Nat.zero_le, true_and, Nat.sub_zero, if_pos hi] at hfill
      rw [hfill, hfill, byteAt_over hP hcheck mem outside hi]

/-- A copy out writes within `P` and needs its source up to its length. -/
theorem copyToUser_over (hP : Covers region P) (mem outside : Mem) (dst : U64)
    {src src' : Nat → U8} {len : U64} (hsrc : ∀ i, i < len.toNat → src' i = src i) :
    mcsosCopyToUser region (splice P mem outside) dst src' len
      = (mcsosCopyToUser region mem dst src len).map (splice P · outside) := by
  rw [mcsosCopyToUser, mcsosCopyToUser]
  by_cases hlen : len = 0
  · rw [if_pos hlen, if_pos hlen]
    rfl
  rw [if_neg hlen, if_neg hlen]
  by_cases hnull : dst = 0
  · rw [if_pos hnull, if_pos hnull]
    rfl
  rw [if_neg hnull, if_neg hnull]
  cases hcheck : mcsosUserCheckRange region dst len with
  | false => rfl
  | true =>
      have hloop := forN_splice (p := P) (fun i hi => hP dst len i hcheck hi) src mem outside
      -- the same bytes are stored, at addresses of the region only
      have hsame := forN_congr (n := len.toNat)
        (f := fun i (m : Mem) => Function.update m (dst + BitVec.ofNat 64 i) (src' i))
        (g := fun i m => Function.update m (dst + BitVec.ofNat 64 i) (src i))
        (fun i hi => by rw [hsrc i hi]) (splice P mem outside)
      show Except.ok (forN _ len.toNat _) = Except.ok (splice P _ outside)
      rw [hsame, hloop]

/-! ## The handlers -/

/-- `s` with the surroundings of `o`: its memory outside `P`, and its bytes
    behind the ends of the kernel's arrays. -/
def overState (P : U64 → Prop) [DecidablePred P] (s o : SyscallState W) : SyscallState W :=
  { mem := splice P s.mem o.mem
    table := overTable s.table o.table
    fs := overFs s.fs o.fs
    world := s.world }

/-- The same result, in a state with another outside. -/
def overResult (P : U64 → Prop) [DecidablePred P] (x : SyscallResult W) (o : SyscallState W) :
    SyscallResult W :=
  { x with state := overState P x.state o }

/-- Descriptors and ramfs as the calls of the file system leave them. -/
structure VfsOk (s : SyscallState W) : Prop where
  fs : FsInv s.fs
  table : TableOk s.fs s.table

/-- A handler that neither its stack nor its surroundings reach. -/
def Local (P : U64 → Prop) [DecidablePred P] (fn fn' : SyscallFn W) : Prop :=
  ∀ a0 a1 a2 a3 a4 a5 s o, VfsOk s →
    fn' a0 a1 a2 a3 a4 a5 (overState P s o) = overResult P (fn a0 a1 a2 a3 a4 a5 s) o

theorem ite_over {c : Prop} [Decidable c] {x x' y y' : SyscallResult W} {o : SyscallState W}
    (hx : x' = overResult P x o) (hy : ¬ c → y' = overResult P y o) :
    (if c then x' else y') = overResult P (if c then x else y) o :=
  ite_image (overResult P · o) hx hy

variable {cfg : SyscallConfig W} {stack stack' : Nat → U8}

theorem sysPing_over : Local P (sysPing (W := W)) sysPing :=
  fun _ _ _ _ _ _ _ _ _ => rfl

theorem sysGetTicks_over : Local P (sysGetTicks cfg) (sysGetTicks cfg) := by
  intro _ _ _ _ _ _ s o _
  rw [sysGetTicks, sysGetTicks]
  cases cfg.ops.getTicks with
  | none => rfl
  | some getTicks => rfl

theorem sysYield_over : Local P (sysYield cfg) (sysYield cfg) := by
  intro _ _ _ _ _ _ s o _
  rw [sysYield, sysYield]
  cases cfg.ops.yieldCurrent with
  | none => rfl
  | some yieldCurrent => rfl

theorem sysExitThread_over : Local P (sysExitThread cfg) (sysExitThread cfg) := by
  intro _ _ _ _ _ _ s o _
  rw [sysExitThread, sysExitThread]
  cases cfg.ops.exitCurrent with
  | none => rfl
  | some exitCurrent => rfl

/-- The serial port is given bytes of the region only. -/
theorem sysWriteSerial_over (hP : Covers cfg.region P) :
    Local P (sysWriteSerial cfg) (sysWriteSerial cfg) := by
  intro ptr len _ _ _ _ s o _
  rw [overState, sysWriteSerial, sysWriteSerial]
  refine ite_over rfl (fun _ => ?_)
  refine ite_over rfl (fun _ => ?_)
  cases hcheck : mcsosUserCheckRange cfg.region ptr len with
  | false => rfl
  | true =>
      have hbytes : (List.range len.toNat).map (byteAt (splice P s.mem o.mem) ptr)
          = (List.range len.toNat).map (byteAt s.mem ptr) :=
        List.map_congr_left
          (fun i hi => byteAt_over hP hcheck s.mem o.mem (List.mem_range.mp hi))
      simp only [hbytes]
      rfl

/-- The path buffers of two runs hold the same string. -/
theorem kpath_cstr {k k' : Nat → U8} {n : Nat} (hn : n < SYS_MAX_PATH)
    (h : ∀ i, i < n → k' i = k i) :
    cstr ((List.range SYS_MAX_PATH).map (Function.update k' n 0))
      = cstr ((List.range SYS_MAX_PATH).map (Function.update k n 0)) := by
  refine cstr_buffer hn (Function.update_self ..) (fun i hi => ?_)
  by_cases hin : i = n
  · rw [hin, Function.update_self, Function.update_self]
  · rw [Function.update_of_ne hin, Function.update_of_ne hin, h i (by omega)]

/-- The path is read from the region only. -/
theorem sysOpen_over (hP : Covers cfg.region P) :
    Local P (sysOpen cfg stack) (sysOpen cfg stack') := by
  intro pathPtr pathLen flags _ _ _ s o hs
  rw [overState, sysOpen, sysOpen]
  cases cfg.ops.getCurrentFdTable with
  | none => rfl
  | some getCurrentFdTable =>
  cases cfg.ops.getRamfs with
  | none => rfl
  | some getRamfs =>
      dsimp only
      refine ite_over rfl (fun hlen => ?_)
      rcases copyFromUser_over hP s.mem o.mem stack stack' pathPtr pathLen with
        ⟨e, h, h'⟩ | ⟨k, k', h, h', hsame⟩
      · simp only [h, h']
        rfl
      · simp only [h, h']
        refine ite_over rfl (fun _ => ?_)
        -- behind the terminator the buffers differ; the string is all that open sees
        rw [← mcsVfsOpen_cstr, kpath_cstr (by omega) hsame, mcsVfsOpen_cstr,
          mcsVfsOpen_over hs.fs]
        rfl

/-- An error is a negative answer. -/
theorem vfsStatus_neg (e : VfsErr) : vfsStatus e < 0 := by
  cases e <;> decide

/-- A read that succeeds has filled as much of the buffer as it reports. -/
theorem read_length {fs : Ramfs} {table : FdTable} {fd : Int} {len : U64}
    (h : ¬ vfsReturn (mcsVfsRead fs table fd true len).1 < 0) :
    (mcsVfsRead fs table fd true len).2.1.length
      = (BitVec.ofInt 64 (vfsReturn (mcsVfsRead fs table fd true len).1)).toNat := by
  rcases mcsVfsRead_cases fs table fd true len with ⟨e, heq⟩ | ⟨d, t, -, heq⟩
  · rw [heq] at h
    exact absurd (vfsStatus_neg e) h
  · rw [heq]
    show ((List.range t.len.toNat).map _).length = (BitVec.ofInt 64 t.len.toInt).toNat
    rw [List.length_map, List.length_range, BitVec.ofInt_toInt]

/-- A read stores to the region only. -/
theorem sysRead_over (hP : Covers cfg.region P) :
    Local P (sysRead cfg stack) (sysRead cfg stack') := by
  intro fd bufPtr len _ _ _ s o hs
  rw [overState, sysRead, sysRead]
  cases cfg.ops.getCurrentFdTable with
  | none => rfl
  | some getCurrentFdTable =>
      dsimp only
      refine ite_over rfl (fun _ => ?_)
      simp only [mcsVfsRead_over hs.fs hs.table]
      refine ite_over rfl (fun _ => ?_)
      refine ite_over rfl (fun hneg => ?_)
      -- what the read left of `kbuf` as the stack had it is not copied out
      have hbytes : ∀ i, i < (BitVec.ofInt 64
            (vfsReturn (mcsVfsRead s.fs s.table (toInt32 fd) true len).1)).toNat →
          (mcsVfsRead s.fs s.table (toInt32 fd) true len).2.1.getD i (stack' i)
            = (mcsVfsRead s.fs s.table (toInt32 fd) true len).2.1.getD i (stack i) := by
        intro i hi
        rw [← read_length hneg] at hi
        rw [List.getD_eq_getElem _ _ hi, List.getD_eq_getElem _ _ hi]
      rw [copyToUser_over hP s.mem o.mem bufPtr hbytes]
      cases mcsosCopyToUser cfg.region s.mem bufPtr
          (fun i => (mcsVfsRead s.fs s.table (toInt32 fd) true len).2.1.getD i (stack i))
          (BitVec.ofInt 64 (vfsReturn (mcsVfsRead s.fs s.table (toInt32 fd) true len).1)) with
      | error rc => rfl
      | ok mem => rfl

/-- A write takes its bytes from the region only. -/
theorem sysWrite_over (hP : Covers cfg.region P) :
    Local P (sysWrite cfg stack) (sysWrite cfg stack') := by
  intro fd bufPtr len _ _ _ s o hs
  rw [overState, sysWrite, sysWrite]
  cases cfg.ops.getCurrentFdTable with
  | none => rfl
  | some getCurrentFdTable =>
      dsimp only
      refine ite_over rfl (fun _ => ?_)
      rcases copyFromUser_over hP s.mem o.mem stack stack' bufPtr len with
        ⟨e, h, h'⟩ | ⟨k, k', h, h', hsame⟩
      · simp only [h, h']
        rfl
      · simp only [h, h', mcsVfsWrite_over hs.fs hs.table _ hsame]
        exact ite_over rfl (fun _ => rfl)

theorem sysLseek_over : Local P (sysLseek cfg) (sysLseek cfg) := by
  intro fd offset whence _ _ _ s o hs
  rw [overState, sysLseek, sysLseek]
  cases cfg.ops.getCurrentFdTable with
  | none => rfl
  | some getCurrentFdTable =>
      simp only [mcsVfsLseek_over hs.fs hs.table]
      exact ite_over rfl (fun _ => rfl)

theorem sysClose_over : Local P (sysClose cfg) (sysClose cfg) := by
  intro fd _ _ _ _ _ s o hs
  rw [overState, sysClose, sysClose]
  cases cfg.ops.getCurrentFdTable with
  | none => rfl
  | some getCurrentFdTable =>
      simp only [mcsVfsClose_over]
      exact ite_over rfl (fun _ => rfl)

/-- **LOCALITY**: what a call does depends neither on the stack nor on the
    surroundings of its state, and leaves the surroundings alone. -/
theorem dispatch_over (hP : Covers cfg.region P) (nr : U64) :
    Local P (mcsosSyscallDispatch cfg stack nr) (mcsosSyscallDispatch cfg stack' nr) := by
  intro a0 a1 a2 a3 a4 a5 s o hs
  rw [mcsosSyscallDispatch, mcsosSyscallDispatch]
  refine ite_over rfl (fun hnr => ?_)
  have hlt : nr.toNat < 10 := by
    have hmax : MCSOS_SYS_MAX = 10 := rfl
    bv_omega
  -- one handler per number
  generalize nr.toNat = n at hlt
  match n, hlt with
  | 0, _ => exact sysPing_over a0 a1 a2 a3 a4 a5 s o hs
  | 1, _ => exact sysGetTicks_over a0 a1 a2 a3 a4 a5 s o hs
  | 2, _ => exact sysWriteSerial_over hP a0 a1 a2 a3 a4 a5 s o hs
  | 3, _ => exact sysYield_over a0 a1 a2 a3 a4 a5 s o hs
  | 4, _ => exact sysExitThread_over a0 a1 a2 a3 a4 a5 s o hs
  | 5, _ => exact sysOpen_over hP a0 a1 a2 a3 a4 a5 s o hs
  | 6, _ => exact sysRead_over hP a0 a1 a2 a3 a4 a5 s o hs
  | 7, _ => exact sysWrite_over hP a0 a1 a2 a3 a4 a5 s o hs
  | 8, _ => exact sysLseek_over a0 a1 a2 a3 a4 a5 s o hs
  | 9, _ => exact sysClose_over a0 a1 a2 a3 a4 a5 s o hs

end Over

/-! ## Confinement -/

/-- Two nodes that hold the same, up to the end of the name array. -/
def SameNode (n n' : Vnode) : Prop :=
  n' = { n with name := n'.name } ∧ ∀ k, k < MCS_MAX_NAME → n'.name k = n.name k

/-- Two states that agree on the user region, on the descriptor table and on the
    ramfs. -/
structure SameInside (region : UserRegion) (s s' : SyscallState W) : Prop where
  mem : ∀ a, InRegion region a → s'.mem a = s.mem a
  files : ∀ d, d < MCS_MAX_OPEN_FILES → s'.table.files d = s.table.files d
  nodes : ∀ i, i < MCS_MAX_NODES → SameNode (s.fs.nodes i) (s'.fs.nodes i)
  nodeCount : s'.fs.nodeCount = s.fs.nodeCount
  data : ∀ i, i < MCS_RAMFS_DATA_BYTES → s'.fs.data i = s.fs.data i
  dataUsed : s'.fs.dataUsed = s.fs.dataUsed
  world : s'.world = s.world

/-- Two states that agree on every byte outside the user region, and on every
    byte behind the ends of the arrays of the descriptor table and the ramfs. -/
structure SameOutside (region : UserRegion) (s s' : SyscallState W) : Prop where
  mem : ∀ a, ¬ InRegion region a → s'.mem a = s.mem a
  files : ∀ d, ¬ d < MCS_MAX_OPEN_FILES → s'.table.files d = s.table.files d
  nodes : ∀ i, ¬ i < MCS_MAX_NODES → s'.fs.nodes i = s.fs.nodes i
  names : ∀ i k, ¬ k < MCS_MAX_NAME → (s'.fs.nodes i).name k = (s.fs.nodes i).name k
  data : ∀ i, ¬ i < MCS_RAMFS_DATA_BYTES → s'.fs.data i = s.fs.data i

/-- The descriptor table and the ramfs are those after some calls of the file
    system, from their initial states. -/
def Reachable (s : SyscallState W) : Prop :=
  ∃ garbage ops i, s.fs = (Machine.exec vfsStep (vfsInit garbage) ops).fs ∧
    s.table = (Machine.exec vfsStep (vfsInit garbage) ops).tables i

/-- Reachable file systems are in order. -/
theorem Reachable.vfsOk {s : SyscallState W} (h : Reachable s) : VfsOk s := by
  obtain ⟨garbage, ops, i, hfs, htable⟩ := h
  have hinv := VfsInvariant.exec_inv garbage ops
  refine ⟨?_, ?_⟩
  · rw [hfs]
    exact hinv.fs
  · rw [hfs, htable]
    exact hinv.tables i

theorem overState_self (P : U64 → Prop) [DecidablePred P] (s : SyscallState W) :
    overState P s s = s := by
  simp only [overState, overTable, overFs, overNode, splice_self]

theorem overState_mem (P : U64 → Prop) [DecidablePred P] (s o : SyscallState W) (mem : Mem) :
    overState P s { o with mem := mem } = { overState P s o with mem := splice P s.mem mem } :=
  rfl

/-- A local handler leaves the surroundings of its state alone. -/
theorem Local.state {P : U64 → Prop} [DecidablePred P] {fn : SyscallFn W} (h : Local P fn fn)
    (a0 a1 a2 a3 a4 a5 : U64) {s : SyscallState W} (hs : VfsOk s) :
    overState P (fn a0 a1 a2 a3 a4 a5 s).state s = (fn a0 a1 a2 a3 a4 a5 s).state := by
  have hself := h a0 a1 a2 a3 a4 a5 s s hs
  rw [overState_self] at hself
  exact (congrArg SyscallResult.state hself).symm

/-- Only the surroundings of a state that agrees with `s` inside are its own. -/
theorem SameInside.eq_over {region : UserRegion} {s s' : SyscallState W}
    (h : SameInside region s s') : overState (InRegion region) s s' = s' := by
  have hmem : splice (InRegion region) s.mem s'.mem = s'.mem :=
    splice_eq_right (fun a ha => (h.mem a ha).symm)
  have hfiles : splice (· < MCS_MAX_OPEN_FILES) s.table.files s'.table.files = s'.table.files :=
    splice_eq_right (fun d hd => (h.files d hd).symm)
  have hdata : splice (· < MCS_RAMFS_DATA_BYTES) s.fs.data s'.fs.data = s'.fs.data :=
    splice_eq_right (fun i hi => (h.data i hi).symm)
  have hnodes : splice (· < MCS_MAX_NODES)
      (fun i => overNode (s.fs.nodes i) (s'.fs.nodes i)) s'.fs.nodes = s'.fs.nodes := by
    refine splice_eq_right (fun i hi => ?_)
    obtain ⟨hnode, hname⟩ := h.nodes i hi
    rw [overNode, splice_eq_right (p := (· < MCS_MAX_NAME)) (fun k hk => (hname k hk).symm)]
    exact hnode.symm
  rw [overState, overTable, overFs, hmem, hfiles, hnodes, hdata, ← h.nodeCount, ← h.dataUsed,
    ← h.world]

/-- A spliced state is the first one inside the region. -/
theorem sameInside_over (region : UserRegion) (s o : SyscallState W) :
    SameInside region s (overState (InRegion region) s o) where
  mem _ ha := splice_of ha s.mem o.mem
  files _ hd := overTable_file hd
  nodes i hi := by
    show SameNode _ ((overFs s.fs o.fs).nodes i)
    rw [overFs_node hi]
    exact ⟨rfl, fun k hk => splice_of (p := (· < MCS_MAX_NAME)) hk _ _⟩
  nodeCount := rfl
  data _ hi := overFs_data hi
  dataUsed := rfl
  world := rfl

/-- A spliced state is the second one outside the region. -/
theorem sameOutside_over (region : UserRegion) (s o : SyscallState W) :
    SameOutside region o (overState (InRegion region) s o) where
  mem _ ha := splice_of_not ha s.mem o.mem
  files _ hd := splice_of_not (p := (· < MCS_MAX_OPEN_FILES)) hd _ _
  nodes _ hi := overFs_node_not hi
  names i k hk := by
    show ((overFs s.fs o.fs).nodes i).name k = _
    by_cases hi : i < MCS_MAX_NODES
    · rw [overFs_node hi]
      exact splice_of_not (p := (· < MCS_MAX_NAME)) hk _ _
    · rw [overFs_node_not hi]
  data _ hi := splice_of_not (p := (· < MCS_RAMFS_DATA_BYTES)) hi _ _

/-- **CONFINEMENT**: a system call changes no byte outside the user region, the
    descriptor table and the ramfs.  Two calls on states that agree there answer
    the same, send the same to the serial line and leave states that agree
    there, whatever else memory and the stack hold.  Without a user region no
    byte of memory is written, and none has any effect. -/
theorem syscall_confinement (cfg : SyscallConfig W) (nr a0 a1 a2 a3 a4 a5 : U64)
    (stack : Nat → U8) {s : SyscallState W} (hs : Reachable s) :
    SameOutside cfg.region s (mcsosSyscallDispatch cfg stack nr a0 a1 a2 a3 a4 a5 s).state ∧
    (∀ stack' s', SameInside cfg.region s s' →
      (mcsosSyscallDispatch cfg stack' nr a0 a1 a2 a3 a4 a5 s').ret
        = (mcsosSyscallDispatch cfg stack nr a0 a1 a2 a3 a4 a5 s).ret ∧
      (mcsosSyscallDispatch cfg stack' nr a0 a1 a2 a3 a4 a5 s').serial
        = (mcsosSyscallDispatch cfg stack nr a0 a1 a2 a3 a4 a5 s).serial ∧
      SameInside cfg.region (mcsosSyscallDispatch cfg stack nr a0 a1 a2 a3 a4 a5 s).state
        (mcsosSyscallDispatch cfg stack' nr a0 a1 a2 a3 a4 a5 s').state) ∧
    (Unset cfg.region →
      (mcsosSyscallDispatch cfg stack nr a0 a1 a2 a3 a4 a5 s).state.mem = s.mem ∧
      ∀ stack' mem',
        mcsosSyscallDispatch cfg stack' nr a0 a1 a2 a3 a4 a5 { s with mem := mem' }
          = { mcsosSyscallDispatch cfg stack nr a0 a1 a2 a3 a4 a5 s with
              state := { (mcsosSyscallDispatch cfg stack nr a0 a1 a2 a3 a4 a5 s).state with
                mem := mem' } }) := by
  have hregion : ∀ stack', Local (InRegion cfg.region) (mcsosSyscallDispatch cfg stack nr)
      (mcsosSyscallDispatch cfg stack' nr) :=
    fun _ => dispatch_over (covers_inRegion cfg.region) nr
  refine ⟨?_, ?_, ?_⟩
  · rw [← (hregion stack).state a0 a1 a2 a3 a4 a5 hs.vfsOk]
    exact sameOutside_over cfg.region _ s
  · intro stack' s' hsame
    have hother := hregion stack' a0 a1 a2 a3 a4 a5 s s' hs.vfsOk
    rw [hsame.eq_over] at hother
    rw [hother]
    exact ⟨rfl, rfl, sameInside_over cfg.region _ s'⟩
  · intro hunset
    -- the check accepts no byte, so all of memory is surroundings
    have hnone : ∀ stack', Local (fun _ => False) (mcsosSyscallDispatch cfg stack nr)
        (mcsosSyscallDispatch cfg stack' nr) :=
      fun _ => dispatch_over (covers_unset hunset) nr
    have hempty : ∀ m m' : Mem, splice (fun _ => False) m m' = m' :=
      fun _ _ => splice_eq_right (fun _ h => h.elim)
    have hstate := (hnone stack).state a0 a1 a2 a3 a4 a5 hs.vfsOk
    refine ⟨?_, fun stack' mem' => ?_⟩
    · rw [← hstate]
      exact hempty (mcsosSyscallDispatch cfg stack nr a0 a1 a2 a3 a4 a5 s).state.mem s.mem
    · have hother := hnone stack' a0 a1 a2 a3 a4 a5 s { s with mem := mem' } hs.vfsOk
      rw [overState_mem, overState_self, hempty] at hother
      rw [hother, overResult, overState_mem, hstate, hempty]

/-- One page of user memory, and a file system to call. -/
def smallConfig : SyscallConfig Unit :=
  { ops := mcsosSyscallInit (some ⟨none, none, none, none, some (true, ·), some (true, ·)⟩)
    region := ⟨0x1000, 0x2000⟩ }

/-- `/a` is open as descriptor 0, and the kernel's memory holds `secret`. -/
def smallState (secret : U8) : SyscallState Unit :=
  { mem := splice (InRegion smallConfig.region) (fun _ => 0) (fun _ => secret)
    table := (Machine.exec vfsStep (vfsInit garbage) smallRun).tables 0
    fs := (Machine.exec vfsStep (vfsInit garbage) smallRun).fs
    world := () }

/-- A read of four bytes, in two states that differ outside only. -/
theorem syscall_confinement_read :
    (mcsosSyscallDispatch smallConfig (fun _ => 0) 6 0 0x1000 16 0 0 0 (smallState 0)).ret = 4 ∧
    SameOutside smallConfig.region (smallState 0)
      (mcsosSyscallDispatch smallConfig (fun _ => 0) 6 0 0x1000 16 0 0 0 (smallState 0)).state ∧
    (mcsosSyscallDispatch smallConfig (fun _ => 7) 6 0 0x1000 16 0 0 0 (smallState 7)).ret = 4 := by
  have hret : (mcsosSyscallDispatch smallConfig (fun _ => 0) 6 0 0x1000 16 0 0 0
      (smallState 0)).ret = 4 := by decide +kernel
  have hmem : ∀ secret a, InRegion smallConfig.region a → (smallState secret).mem a = 0 :=
    fun secret a ha => splice_of ha (fun _ => 0) (fun _ => secret)
  have hsame : SameInside smallConfig.region (smallState 0) (smallState 7) :=
    ⟨fun a ha => (hmem 7 a ha).trans (hmem 0 a ha).symm, fun _ _ => rfl,
      fun _ _ => ⟨rfl, fun _ _ => rfl⟩, rfl, fun _ _ => rfl, rfl, rfl⟩
  obtain ⟨houtside, htwo, -⟩ := syscall_confinement smallConfig 6 0 0x1000 16 0 0 0
    (fun _ => 0) (s := smallState 0) ⟨garbage, smallRun, 0, rfl, rfl⟩
  exact ⟨hret, houtside, (htwo (fun _ => 7) (smallState 7) hsame).1.trans hret⟩

end SyscallConfinement
