import Mcsos.SyscallConfinementProofs
import Mcsos.VfsFailureProofs

/-! # What a failing read leaves behind

    `sys_read` lets the file system fill a buffer of its own, which moves the
    descriptor, and only then looks at the user's buffer.  A read that is
    refused there has consumed its bytes: the caller does not get them, and the
    next read starts behind them.  Every other failure comes before the
    descriptor is moved. -/

namespace SyscallFailure

open Word ByteMemory VfsModel VfsInvariant VfsFailure SyscallModel SyscallConfinement

variable {W : Type} {cfg : SyscallConfig W} {stack : Nat → U8} {s : SyscallState W}
  {fd buf len : U64}

/-- An error is a negative answer. -/
theorem syscallErr_neg (e : SyscallErr) : e.code < 0 := by
  cases e <;> decide

/-- A target that a copy of `n` bytes to the user is refused at. -/
def BadTarget (region : UserRegion) (dst n : U64) : Prop :=
  n ≠ 0 ∧ (dst = 0 ∨ mcsosUserCheckRange region dst n = false)

/-- A copy that fails had a bad target. -/
theorem copyToUser_error {region : UserRegion} {mem : Mem} {dst n : U64} {src : Nat → U8}
    {rc : SyscallErr} (h : mcsosCopyToUser region mem dst src n = .error rc) :
    BadTarget region dst n := by
  rw [mcsosCopyToUser] at h
  by_cases hn : n = 0
  · rw [if_pos hn] at h
    cases h
  refine ⟨hn, ?_⟩
  rw [if_neg hn] at h
  by_cases hnull : dst = 0
  · exact Or.inl hnull
  rw [if_neg hnull] at h
  cases hcheck : mcsosUserCheckRange region dst n with
  | false => exact Or.inr rfl
  | true =>
      rw [hcheck] at h
      cases h

/-- A copy that succeeds had a good one. -/
theorem copyToUser_ok {region : UserRegion} {mem mem' : Mem} {dst n : U64} {src : Nat → U8}
    (h : mcsosCopyToUser region mem dst src n = .ok mem') : ¬ BadTarget region dst n := by
  rintro ⟨hn, hbad⟩
  rw [mcsosCopyToUser, if_neg hn] at h
  rcases hbad with hnull | hcheck
  · rw [if_pos hnull] at h
    cases h
  · rw [hcheck] at h
    split at h
    · cases h
    · cases h

/-! ## The read -/

/-- A call finds a descriptor table. -/
def TablePresent (cfg : SyscallConfig W) (s : SyscallState W) : Prop :=
  ∃ getCurrentFdTable, cfg.ops.getCurrentFdTable = some getCurrentFdTable ∧
    (getCurrentFdTable s.world).1 = true

/-- A read that gets to its file: slot `d`, open on the file `i`. -/
structure ReadsFile (cfg : SyscallConfig W) (s : SyscallState W) (fd len : U64) (d i : Nat) :
    Prop where
  present : TablePresent cfg s
  short : len ≤ 4096
  opened : OpenFor mcsCanRead s.fs s.table (toInt32 fd) d i

/-- A read of at most a page returns no more than that. -/
theorem readCount_le {fs : Ramfs} {i : Nat} {offset : U64} (hlen : len ≤ 4096) :
    readCount fs i offset len ≤ 4096 := by
  rw [readCount]
  split
  · bv_omega
  · rw [mcsMinSize]
    split
    · exact hlen
    · bv_omega

/-- What the caller can see of a state. -/
def SameData (s s' : SyscallState W) : Prop :=
  s'.table = s.table ∧ s'.fs = s.fs ∧ s'.mem = s.mem

/-- A call that reads no file changes nothing. -/
theorem sysRead_refused (stack : Nat → U8) (buf a3 a4 a5 : U64)
    (h : ¬ ∃ d i, ReadsFile cfg s fd len d i) :
    SameData s (sysRead cfg stack fd buf len a3 a4 a5 s).state := by
  rw [sysRead]
  cases hget : cfg.ops.getCurrentFdTable with
  | none => exact ⟨rfl, rfl, rfl⟩
  | some getCurrentFdTable =>
      simp only
      by_cases hlen : len > 4096
      · rw [if_pos hlen]
        exact ⟨rfl, rfl, rfl⟩
      rw [if_neg hlen]
      cases hpresent : (getCurrentFdTable s.world).1 with
      | false => exact ⟨rfl, rfl, rfl⟩
      | true =>
          rcases readTransfer_refused s.fs s.table (toInt32 fd) true len with
            ⟨e, heq⟩ | ⟨-, d, i, ho⟩
          · simp only [mcsVfsRead, heq, vfsReturn, if_pos (vfsStatus_neg e)]
            exact ⟨rfl, rfl, rfl⟩
          · exact absurd ⟨d, i, ⟨_, hget, hpresent⟩, BitVec.not_lt.mp hlen, ho⟩ h

/-- What is left of a read that gets to its file is the copy to the user: with the
    descriptor moved, the call fails if that copy does. -/
theorem sysRead_file {d i : Nat} (stack : Nat → U8) (buf a3 a4 a5 : U64)
    (h : ReadsFile cfg s fd len d i) :
    (sysRead cfg stack fd buf len a3 a4 a5 s).state.table
      = setFile s.table d { s.table.files d with
          offset := (s.table.files d).offset + readCount s.fs i (s.table.files d).offset len } ∧
    ((sysRead cfg stack fd buf len a3 a4 a5 s).ret < 0 ↔
      BadTarget cfg.region buf (readCount s.fs i (s.table.files d).offset len)) := by
  obtain ⟨getCurrentFdTable, hget, hpresent⟩ := h.present
  have hle : readCount s.fs i (s.table.files d).offset len ≤ 4096 := readCount_le h.short
  have hint : (readCount s.fs i (s.table.files d).offset len).toInt
      = (readCount s.fs i (s.table.files d).offset len).toNat :=
    BitVec.toInt_eq_toNat_of_lt (by bv_omega)
  have hpos : ¬ (readCount s.fs i (s.table.files d).offset len).toInt < 0 := by omega
  have hopen : readTransfer s.fs s.table (toInt32 fd) true len
      = .ok (d, ⟨i, (s.table.files d).offset, readCount s.fs i (s.table.files d).offset len⟩) :=
    readTransfer_open (Or.inl rfl) h.opened
  -- the answer of the file system is not negative, so the copy decides
  rw [sysRead, hget]
  simp only [if_neg (BitVec.not_lt.mpr h.short), hpresent, Bool.not_true, Bool.false_eq_true,
    if_false, mcsVfsRead, hopen, vfsReturn, if_neg hpos, BitVec.ofInt_toInt]
  split
  · rename_i rc hcopy
    exact ⟨rfl, iff_of_true (syscallErr_neg rc) (copyToUser_error hcopy)⟩
  · rename_i mem hcopy
    exact ⟨rfl, iff_of_false hpos (copyToUser_ok hcopy)⟩

/-- A read that has bytes to deliver and a buffer that is refused. -/
structure LosesBytes (cfg : SyscallConfig W) (s : SyscallState W) (fd buf len : U64) (d i : Nat) :
    Prop extends ReadsFile cfg s fd len d i where
  asked : len ≠ 0
  more : (s.table.files d).offset < (s.fs.nodes i).size
  refused : buf = 0 ∨ mcsosUserCheckRange cfg.region buf
    (mcsMinSize len ((s.fs.nodes i).size - (s.table.files d).offset)) = false

/-- Bytes are lost exactly if there are some and the target is bad. -/
theorem losesBytes_iff {d i : Nat} (h : ReadsFile cfg s fd len d i) :
    LosesBytes cfg s fd buf len d i ↔
      BadTarget cfg.region buf (readCount s.fs i (s.table.files d).offset len) := by
  rw [readCount]
  by_cases hend : (s.table.files d).offset ≥ (s.fs.nodes i).size
  · rw [if_pos hend]
    exact iff_of_false (fun hl => BitVec.not_lt.mpr hend hl.more) (fun hbad => hbad.1 rfl)
  rw [if_neg hend]
  have hmore := BitVec.not_le.mp hend
  -- before the end of the file only a request for nothing gives nothing
  have hzero : mcsMinSize len ((s.fs.nodes i).size - (s.table.files d).offset) ≠ 0 ↔ len ≠ 0 := by
    rw [mcsMinSize]
    split
    · rfl
    · constructor
      · intro _
        bv_omega
      · intro _
        bv_omega
  constructor
  · intro hl
    exact ⟨hzero.mpr hl.asked, hl.refused⟩
  · rintro ⟨hn, hbad⟩
    exact ⟨h, hzero.mp hn, hmore, hbad⟩

/-- A failing read leaves no trace. -/
def ReadFailsClean (cfg : SyscallConfig W) (stack : Nat → U8) (s : SyscallState W)
    (fd buf len a3 a4 a5 : U64) : Prop :=
  (mcsosSyscallDispatch cfg stack MCSOS_SYS_READ fd buf len a3 a4 a5 s).ret < 0 →
    SameData s (mcsosSyscallDispatch cfg stack MCSOS_SYS_READ fd buf len a3 a4 a5 s).state

/-- **FAILED READS**: whatever the descriptor table, the ramfs, the user region and the
    arguments, a failing read leaves the descriptors, the ramfs and memory as they were
    exactly if it does not lose bytes. -/
theorem read_failure_iff (cfg : SyscallConfig W) (stack : Nat → U8) (s : SyscallState W)
    (fd buf len a3 a4 a5 : U64) :
    ReadFailsClean cfg stack s fd buf len a3 a4 a5 ↔
      ¬ ∃ d i, LosesBytes cfg s fd buf len d i := by
  have hdispatch : mcsosSyscallDispatch cfg stack MCSOS_SYS_READ = sysRead cfg stack := rfl
  rw [ReadFailsClean, hdispatch]
  by_cases hfile : ∃ d i, ReadsFile cfg s fd len d i
  · obtain ⟨d, i, hf⟩ := hfile
    obtain ⟨htable, hret⟩ := sysRead_file stack buf a3 a4 a5 hf
    rw [hret, ← losesBytes_iff hf]
    constructor
    · rintro hclean ⟨d', i', hl⟩
      obtain ⟨rfl, rfl⟩ := hf.opened.unique hl.opened
      -- the descriptor has moved by at least one byte
      have hmoved := htable.symm.trans (hclean hl).1
      have hn := ((losesBytes_iff hf).mp hl).1
      have hsame := setOffset_eq.mp hmoved
      exact hn (by bv_omega)
    · intro hno hl
      exact absurd ⟨d, i, hl⟩ hno
  · refine iff_of_true (fun _ => sysRead_refused stack buf a3 a4 a5 hfile) ?_
    rintro ⟨d, i, hl⟩
    exact hfile ⟨d, i, hl.toReadsFile⟩

/-- Four bytes of `/a` are asked for at an address outside the user region: the call
    fails, and the next read is at the end of the file. -/
theorem read_failure_loses :
    ((smallState 0).table.files 0).offset = 0 ∧
    (mcsosSyscallDispatch smallConfig (fun _ => 0) MCSOS_SYS_READ 0 0x10 4 0 0 0
      (smallState 0)).ret = SyscallErr.efault.code ∧
    ((mcsosSyscallDispatch smallConfig (fun _ => 0) MCSOS_SYS_READ 0 0x10 4 0 0 0
      (smallState 0)).state.table.files 0).offset = 4 ∧
    (mcsosSyscallDispatch smallConfig (fun _ => 0) MCSOS_SYS_READ 0 0x1000 4 0 0 0
      (mcsosSyscallDispatch smallConfig (fun _ => 0) MCSOS_SYS_READ 0 0x10 4 0 0 0
        (smallState 0)).state).ret = 0 := by
  decide +kernel

end SyscallFailure
