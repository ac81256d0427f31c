import Mcsos.VfsAccessProofs

/-! # What a failing call leaves behind

    Most errors of the file system are found before anything is changed, but
    three come late.  `mcs_vfs_open` and `mcs_ramfs_seed_file` create their
    file first: a full descriptor table, a refused `MCS_O_TRUNC` and contents
    that do not fit leave the new file behind, and nodes are never deleted.
    `mcs_vfs_write` moves an append descriptor to the end of its file before it
    asks whether the bytes fit.  Each result says that these are the only
    traces. -/

namespace VfsFailure

open Word VfsModel VfsTree VfsInvariant VfsStale VfsAccess

variable {fs : Ramfs} {table : FdTable} {path : Option Path} {flags : U32}

/-! ## Open -/

/-- The descriptors in use are the same ones, unchanged. -/
def SameOpen (table table' : FdTable) : Prop :=
  ∀ i, i < MCS_MAX_OPEN_FILES → (table'.files i).used = (table.files i).used ∧
    ((table.files i).used = true → table'.files i = table.files i)

theorem SameOpen.refl (table : FdTable) : SameOpen table table :=
  fun _ _ => ⟨rfl, fun _ => rfl⟩

/-- Whatever is left in a slot that is not in use does not count. -/
theorem SameOpen.setUnused {d : Nat} {file : File} (hfree : (table.files d).used = false)
    (hfile : file.used = false) : SameOpen table (setFile table d file) := by
  intro i _
  rw [setFile_file]
  by_cases hi : i = d
  · rw [if_pos hi, hi]
    refine ⟨hfile.trans hfree.symm, fun hused => ?_⟩
    rw [hfree] at hused
    cases hused
  · rw [if_neg hi]
    exact ⟨rfl, fun _ => rfl⟩

/-- A failing open of a node that is there leaves no trace. -/
theorem opensNode_failed {node : Nat} {r : Except VfsErr Nat × Ramfs × FdTable} {e : VfsErr}
    (h : OpensNode fs table node flags r) (he : r.1 = .error e) :
    r.2.1 = fs ∧ SameOpen table r.2.2 := by
  cases h with
  | directory => exact ⟨rfl, .refl table⟩
  | full => exact ⟨rfl, .refl table⟩
  | denied hd => exact ⟨rfl, .setUnused hd.free rfl⟩
  | truncates => cases he
  | opens => cases he

/-- What an open can still trip over once it has its file. -/
def LateRefusal (table : FdTable) (flags : U32) : Prop :=
  AllUsed table ∨ (flags &&& MCS_O_TRUNC ≠ 0 ∧ mcsCanWrite flags = false)

theorem lateRefusal_openFlags : LateRefusal table (openFlags flags) ↔ LateRefusal table flags := by
  rw [LateRefusal, openFlags_trunc, mcsCanWrite_openFlags, LateRefusal]

/-- On a file an open fails only for a full table, or for truncation without the right to write. -/
theorem opensNode_fails_iff {node : Nat} {r : Except VfsErr Nat × Ramfs × FdTable}
    (hfile : (fs.nodes node).type = .file) (h : OpensNode fs table node flags r) :
    (∃ e, r.1 = .error e) ↔ LateRefusal table flags := by
  cases h with
  | directory hdir =>
      have htype := hdir.1
      rw [hfile] at htype
      cases htype
  | full _ hfull => exact iff_of_true ⟨_, rfl⟩ (Or.inl hfull)
  | denied _ htrunc hwrite => exact iff_of_true ⟨_, rfl⟩ (Or.inr ⟨htrunc, hwrite⟩)
  | truncates hd _ hwrite =>
      refine iff_of_false (fun ⟨_, he⟩ => by cases he) ?_
      rintro (hfull | ⟨-, hno⟩)
      · exact hd.not_allUsed hfull
      · rw [hwrite] at hno
        cases hno
  | opens hd htrunc =>
      refine iff_of_false (fun ⟨_, he⟩ => by cases he) ?_
      rintro (hfull | ⟨hno, -⟩)
      · exact hd.not_allUsed hfull
      · exact hno htrunc

theorem addFile_ne {p : Nat} {leaf : Path} (h : CanAdd fs p leaf) : addFile fs p leaf ≠ fs := by
  intro heq
  have hcount := h.count
  rw [heq] at hcount
  omega

/-- An open that creates its file and is refused after that. -/
def StrandsFile (fs : Ramfs) (table : FdTable) (path : Option Path) (flags : U32) : Prop :=
  flags &&& MCS_O_CREAT ≠ 0 ∧ (∃ p leaf, Creates fs path p leaf) ∧ LateRefusal table flags

theorem openFlags_creat (flags : U32) :
    openFlags flags &&& MCS_O_CREAT = flags &&& MCS_O_CREAT :=
  openFlags_and flags (by decide)

/-- A failing open leaves no trace. -/
def OpenFailsClean (fs : Ramfs) (table : FdTable) (path : Option Path) (flags : U32) : Prop :=
  ∀ e, (mcsVfsOpen fs table path flags).1 = .error e →
    (mcsVfsOpen fs table path flags).2.1 = fs ∧
      SameOpen table (mcsVfsOpen fs table path flags).2.2

/-- An open that fails leaves something exactly if it strands a file. -/
theorem openFailsClean_iff (hT : FsTree fs) :
    OpenFailsClean fs table path flags ↔ ¬ StrandsFile fs table path flags := by
  constructor
  · rintro hclean ⟨hcreat, ⟨p, leaf, hnew⟩, hlate⟩
    rw [← openFlags_creat] at hcreat
    rw [← lateRefusal_openFlags] at hlate
    have ho := openNode_opens (addFile fs p leaf) table fs.nodeCount.toNat (openFlags flags)
    rw [OpenFailsClean, mcsVfsOpen_creates hT table hcreat hnew] at hclean
    -- the open fails and leaves the ramfs it has found, which has one node more
    obtain ⟨e, he⟩ := (opensNode_fails_iff (by rw [addFile_new]) ho).mpr hlate
    exact addFile_ne (hnew.canAdd hT) ((opensNode_failed ho he).1.symm.trans (hclean e he).1)
  · intro hno e
    have ho := mcsVfsOpen_opens hT table path flags
    generalize mcsVfsOpen fs table path flags = r at ho ⊢
    intro he
    cases ho with
    | refused => exact ⟨rfl, .refl table⟩
    | found _ h => exact opensNode_failed h he
    | created hcreat hnew h =>
        rw [openFlags_creat] at hcreat
        have hlate := (opensNode_fails_iff (by rw [addFile_new]) h).mp ⟨e, he⟩
        exact absurd ⟨hcreat, ⟨_, _, hnew⟩, lateRefusal_openFlags.mp hlate⟩ hno

/-! ## Seed -/

/-- Contents that do not fit in a new file. -/
def StrandsSeed (fs : Ramfs) (path : Option Path) (data : Option (Nat → U8)) (len : U64) : Prop :=
  data.isSome = true ∧ 256 < len ∧ ∃ p leaf, Creates fs path p leaf

/-- A failing seed leaves no trace. -/
def SeedFailsClean (fs : Ramfs) (path : Option Path) (data : Option (Nat → U8)) (len : U64) :
    Prop :=
  ∀ e, (mcsRamfsSeedFile fs path data len).1 = .error e →
    (mcsRamfsSeedFile fs path data len).2 = fs

/-- Once its file is there, a seed fails exactly if the contents do not fit, and
    then stores nothing. -/
theorem seed_node {fs' : Ramfs} {data : Option (Nat → U8)} {len : U64} {node : Nat}
    (hvalid : ¬ (path.isNone = true ∨ (data.isNone = true ∧ len ≠ 0)))
    (hcreate : mcsRamfsCreateFile fs path = (.ok node, fs')) :
    ((fs'.nodes node).dataCapacity < len ∧
      mcsRamfsSeedFile fs path data len = (.error .enospc, fs')) ∨
    (len ≤ (fs'.nodes node).dataCapacity ∧
      ∃ t, (mcsRamfsSeedFile fs path data len).1 = .ok t) := by
  rw [mcsRamfsSeedFile, if_neg hvalid, hcreate]
  by_cases hlong : len > (fs'.nodes node).dataCapacity
  · exact Or.inl ⟨hlong, if_pos hlong⟩
  · simp only [if_neg hlong]
    exact Or.inr ⟨BitVec.not_lt.mp hlong, _, rfl⟩

/-- A seed that fails leaves something exactly if it strands a file. -/
theorem seedFailsClean_iff (hT : FsTree fs) (data : Option (Nat → U8)) (len : U64) :
    SeedFailsClean fs path data len ↔ ¬ StrandsSeed fs path data len := by
  by_cases hvalid : path.isNone = true ∨ (data.isNone = true ∧ len ≠ 0)
  · rw [SeedFailsClean, mcsRamfsSeedFile, if_pos hvalid]
    refine iff_of_true (fun _ _ => rfl) ?_
    rintro ⟨hdata, -, p, leaf, hnew⟩
    rcases hvalid with hnone | ⟨hnone, -⟩
    · exact hnew.path_some hnone
    · obtain rfl := Option.isNone_iff_eq_none.mp hnone
      cases hdata
  rcases mcsRamfsCreateFile_cases hT path with
    ⟨rc, hcreate⟩ | ⟨i, hlook, -, hcreate⟩ | ⟨p, leaf, hnew, hcreate⟩
  · rw [SeedFailsClean, mcsRamfsSeedFile, if_neg hvalid, hcreate]
    refine iff_of_true (fun _ _ => rfl) ?_
    rintro ⟨-, -, p, leaf, hnew⟩
    rw [hnew.createFile hT] at hcreate
    cases hcreate
  · -- the file was there before
    refine iff_of_true (fun e he => ?_) ?_
    · rcases seed_node hvalid hcreate with ⟨-, heq⟩ | ⟨-, t, hok⟩
      · rw [heq]
      · rw [hok] at he
        cases he
    · rintro ⟨-, -, p, leaf, ⟨e, hmissing⟩, -⟩
      rw [hlook] at hmissing
      cases hmissing
  · -- a new file, with the capacity of every file
    have hnode := seed_node hvalid hcreate
    rw [addFile_new] at hnode
    rcases hnode with ⟨hlong, heq⟩ | ⟨hfits, t, hok⟩
    · have hdata : data.isSome = true := by
        cases data with
        | some bytes => rfl
        | none => exact absurd (Or.inr ⟨rfl, fun h0 => by bv_omega⟩) hvalid
      refine iff_of_false (fun hclean => ?_) (fun hno => hno ⟨hdata, hlong, p, leaf, hnew⟩)
      rw [SeedFailsClean, heq] at hclean
      exact addFile_ne (hnew.canAdd hT) (hclean .enospc rfl)
    · refine iff_of_true (fun e he => ?_) (fun h => BitVec.not_lt.mpr hfits h.2.1)
      rw [hok] at he
      cases he

/-- **FAILED OPENS AND SEEDS**: whatever the descriptor table, a failing open leaves the
    ramfs and the descriptors in use as they were, and a failing seed leaves the ramfs
    as it was, except when the file was created on the way. -/
theorem open_seed_failure_iff (hT : FsTree fs) :
    (∀ table path flags,
      OpenFailsClean fs table path flags ↔ ¬ StrandsFile fs table path flags) ∧
    ∀ path data len, SeedFailsClean fs path data len ↔ ¬ StrandsSeed fs path data len :=
  ⟨fun _ _ _ => openFailsClean_iff hT, fun _ => seedFailsClean_iff hT⟩

/-- The ramfs after `mcs_ramfs_init`. -/
def emptyFs : Ramfs := mcsRamfsInit garbage.fs

/-- `/a`. -/
def pathA : Option Path := some [slash, 0x61]

/-- All descriptors open. -/
def fullTable : FdTable := ⟨fun _ => ⟨true, MCS_O_RDONLY, 0, some 0, true⟩⟩

/-- The path can be created in the empty file system. -/
theorem creates_pathA : Creates emptyFs pathA 0 [0x61] :=
  ⟨⟨.enoent, by decide +kernel⟩, by decide +kernel, by decide +kernel, by decide +kernel⟩

/-- With no descriptor left, an open of `/a` that may not create it fails and leaves no
    trace, one that may strands it; a seed of 256 bytes fits, one of 257 strands its file. -/
theorem open_seed_failure_iff_empty :
    (mcsVfsOpen emptyFs fullTable pathA MCS_O_RDONLY).1 = .error .enoent ∧
    OpenFailsClean emptyFs fullTable pathA MCS_O_RDONLY ∧
    (mcsVfsOpen emptyFs fullTable pathA MCS_O_CREAT).1 = .error .enfile ∧
    ¬ OpenFailsClean emptyFs fullTable pathA MCS_O_CREAT ∧
    SeedFailsClean emptyFs pathA (some (fun _ => 7)) 256 ∧
    ¬ SeedFailsClean emptyFs pathA (some (fun _ => 7)) 257 := by
  have hT : FsTree emptyFs := (mcsRamfsInit_inv garbage.fs).tree
  obtain ⟨hopen, hseed⟩ := open_seed_failure_iff hT
  refine ⟨by decide +kernel, (hopen ..).mpr (fun h => h.1 (by decide)), by decide +kernel,
    fun h => (hopen ..).mp h ⟨by decide, ⟨_, _, creates_pathA⟩, Or.inl fun _ _ => rfl⟩,
    (hseed ..).mpr (fun h => absurd h.2.1 (by decide)),
    fun h => (hseed ..).mp h ⟨rfl, by decide, _, _, creates_pathA⟩⟩

/-- Three calls that fail and leave `/a` behind: a truncating open without write access,
    an open with no descriptor left, and a seed of more than a file holds. -/
theorem open_seed_failure_traces :
    (mcsVfsOpen emptyFs (mcsFdTableInit fullTable) pathA (MCS_O_CREAT ||| MCS_O_TRUNC)).1
      = .error .eacces ∧
    (mcsVfsOpen emptyFs (mcsFdTableInit fullTable) pathA
      (MCS_O_CREAT ||| MCS_O_TRUNC)).2.1.nodeCount = 2 ∧
    (mcsVfsOpen emptyFs fullTable pathA (MCS_O_CREAT ||| MCS_O_RDWR)).1 = .error .enfile ∧
    (mcsVfsOpen emptyFs fullTable pathA (MCS_O_CREAT ||| MCS_O_RDWR)).2.1.nodeCount = 2 ∧
    (mcsRamfsSeedFile emptyFs pathA (some (fun _ => 7)) 257).1 = .error .enospc ∧
    (mcsRamfsSeedFile emptyFs pathA (some (fun _ => 7)) 257).2.nodeCount = 2 ∧
    emptyFs.nodeCount = 1 := by
  decide +kernel

/-! ## Write -/

/-- A write that does not fit, through an append descriptor that is not at the end of
    its file. -/
structure MovesToEnd (fs : Ramfs) (table : FdTable) (fd : Int) (buf : Option (Nat → U8))
    (len : U64) (d i : Nat) : Prop where
  opened : OpenFor mcsCanWrite fs table fd d i
  buffer : buf.isSome = true
  append : (table.files d).flags &&& MCS_O_APPEND ≠ 0
  elsewhere : (table.files d).offset ≠ (fs.nodes i).size
  full : (fs.nodes i).dataCapacity.toNat < (fs.nodes i).size.toNat + len.toNat

/-- A failing write leaves no trace. -/
def WriteFailsClean (fs : Ramfs) (table : FdTable) (fd : Int) (buf : Option (Nat → U8))
    (len : U64) : Prop :=
  ∀ e, (mcsVfsWrite fs table fd buf len).1 = .error e →
    (mcsVfsWrite fs table fd buf len).2.1 = fs ∧ (mcsVfsWrite fs table fd buf len).2.2 = table

theorem setFile_self (table : FdTable) (d : Nat) : setFile table d (table.files d) = table := by
  rw [setFile, Function.update_eq_self]

/-- An offset that is written back changes nothing. -/
theorem setOffset_eq {d : Nat} {offset : U64} :
    setFile table d { table.files d with offset := offset } = table ↔
      offset = (table.files d).offset := by
  constructor
  · intro h
    have hfile := congrArg (fun t : FdTable => (t.files d).offset) h
    rwa [setFile_file, if_pos rfl] at hfile
  · rintro rfl
    exact setFile_self table d

/-- The append that does not fit leaves its offset at the end. -/
theorem MovesToEnd.moves {fd : Int} {buf : Option (Nat → U8)} {len : U64} {d i : Nat}
    (h : MovesToEnd fs table fd buf len d i)
    (hsize : (fs.nodes i).size ≤ (fs.nodes i).dataCapacity) :
    mcsVfsWrite fs table fd buf len = (.error .enospc, fs,
      setFile table d { table.files d with offset := (fs.nodes i).size }) := by
  have hend : writePos fs (table.files d) i = (fs.nodes i).size := if_pos h.append
  have hfull := h.full
  rw [mcsVfsWrite, writeTransfer_open (Or.inl h.buffer) h.opened, hend,
    if_neg (BitVec.not_lt.mpr hsize), if_pos (by bv_omega)]

/-- A write fails in its checks, and has done nothing but them. -/
theorem failed_write_checks {fd : Int} {buf : Option (Nat → U8)} {len : U64} {e : VfsErr}
    (he : (mcsVfsWrite fs table fd buf len).1 = .error e) :
    (writeTransfer fs table fd buf.isSome len).1 = .error e ∧
    (mcsVfsWrite fs table fd buf len).2
      = (fs, (writeTransfer fs table fd buf.isSome len).2) := by
  rw [mcsVfsWrite] at he ⊢
  cases hcheck : writeTransfer fs table fd buf.isSome len with
  | mk r table' =>
      rw [hcheck] at he
      cases r with
      | error rc =>
          obtain rfl : rc = e := Except.error.inj he
          exact ⟨rfl, rfl⟩
      | ok t => cases he

/-- A failing write has left its descriptor where it was or moved it to the end. -/
theorem failed_write_cases {fd : Int} {buf : Option (Nat → U8)} {len : U64} {e : VfsErr}
    (hF : FsInv fs) (hT : TableOk fs table)
    (he : (mcsVfsWrite fs table fd buf len).1 = .error e) :
    (mcsVfsWrite fs table fd buf len).2 = (fs, table) ∨
    ∃ d i, MovesToEnd fs table fd buf len d i := by
  obtain ⟨hcheck, hwrite⟩ := failed_write_checks he
  rw [hwrite]
  rcases writeTransfer_refused fs table fd buf.isSome len with ⟨rc, heq⟩ | ⟨hbuf, d, i, ho⟩
  · rw [heq]
    exact Or.inl rfl
  rw [writeTransfer_open hbuf ho] at hcheck ⊢
  -- the offset is stored before the last two checks, for an append descriptor only
  by_cases happend : (table.files d).flags &&& MCS_O_APPEND = 0
  · have hstay : writePos fs (table.files d) i = (table.files d).offset :=
      if_neg (not_not.mpr happend)
    rw [setOffset_eq.mpr hstay]
    exact Or.inl rfl
  have hend : writePos fs (table.files d) i = (fs.nodes i).size := if_pos happend
  by_cases hsame : (table.files d).offset = (fs.nodes i).size
  · rw [setOffset_eq.mpr (hend.trans hsame.symm)]
    exact Or.inl rfl
  · have hsize := hF.data.size i (hT.isFile ho.slot ho.node ho.file)
    rw [hend, if_neg (BitVec.not_lt.mpr hsize)] at hcheck
    by_cases hshort : (fs.nodes i).dataCapacity - (fs.nodes i).size < len
    · refine Or.inr ⟨d, i, ho, hbuf.resolve_right (fun h0 => ?_), happend, hsame, by bv_omega⟩
      rw [h0] at hshort
      exact BitVec.not_lt_zero hshort
    · rw [if_neg hshort] at hcheck
      cases hcheck

/-- A write that fails leaves something exactly in that case. -/
theorem writeFailsClean_iff {fd : Int} (hF : FsInv fs) (hT : TableOk fs table)
    (buf : Option (Nat → U8)) (len : U64) :
    WriteFailsClean fs table fd buf len ↔ ¬ ∃ d i, MovesToEnd fs table fd buf len d i := by
  constructor
  · rintro hclean ⟨d, i, hm⟩
    have ho := hm.opened
    have heq := hm.moves (hF.data.size i (hT.isFile ho.slot ho.node ho.file))
    rw [WriteFailsClean, heq] at hclean
    exact hm.elsewhere (setOffset_eq.mp (hclean .enospc rfl).2).symm
  · intro hno e he
    rw [(failed_write_cases hF hT he).resolve_right hno]
    exact ⟨rfl, rfl⟩

/-- **FAILED WRITES**: in every state of every run a failing write leaves the ramfs and
    its descriptor table as they were, except that one which does not fit moves an
    append descriptor to the end of its file. -/
theorem write_failure_iff {garbage s : VfsState} {ops : List VfsOp}
    (hs : Machine.exec vfsStep (vfsInit garbage) ops = s) (i : Nat) (fd : Int)
    (buf : Option (Nat → U8)) (len : U64) :
    WriteFailsClean s.fs (s.tables i) fd buf len ↔
      ¬ ∃ d f, MovesToEnd s.fs (s.tables i) fd buf len d f := by
  have hI := exec_inv garbage ops
  rw [hs] at hI
  exact writeFailsClean_iff hI.fs (hI.tables i) buf len

/-- Seed `/a`, open it for appending, and go back to its start. -/
def rewindRun : List VfsOp :=
  [.seedFile pathA (some (fun i => BitVec.ofNat 8 i)) 4,
    .vfsOpen 0 pathA (MCS_O_RDWR ||| MCS_O_APPEND), .vfsLseek 0 0 0 MCS_SEEK_SET]

/-- The state after that run. -/
def rewound : VfsState := Machine.exec vfsStep (vfsInit garbage) rewindRun

/-- 252 bytes still fit behind the end, and 253 do not. -/
theorem write_failure_iff_rewound :
    WriteFailsClean rewound.fs (rewound.tables 0) 0 (some (fun _ => 7)) 252 ∧
    ¬ WriteFailsClean rewound.fs (rewound.tables 0) 0 (some (fun _ => 7)) 253 := by
  have hslot : mcsFdGet (rewound.tables 0) 0 = some 0 := by decide +kernel
  have hnode : ((rewound.tables 0).files 0).node = some 1 := by decide +kernel
  refine ⟨(write_failure_iff rfl 0 0 _ 252).mpr ?_,
    fun h => (write_failure_iff rfl 0 0 _ 253).mp h ?_⟩
  · rintro ⟨d, f, hm⟩
    obtain rfl : 0 = d := Option.some.inj (hslot.symm.trans hm.opened.slot)
    obtain rfl : 1 = f := Option.some.inj (hnode.symm.trans hm.opened.node)
    exact absurd hm.full (by decide +kernel)
  · exact ⟨0, 1, ⟨hslot, by decide +kernel, hnode, by decide +kernel, by decide +kernel⟩, rfl,
      by decide +kernel, by decide +kernel, by decide +kernel⟩

/-- The descriptor is at the start; the write does not fit, and the next read finds
    the end of the file. -/
theorem write_failure_moves :
    ((rewound.tables 0).files 0).offset = 0 ∧
    (mcsVfsWrite rewound.fs (rewound.tables 0) 0 (some (fun _ => 7)) 253).1 = .error .enospc ∧
    ((mcsVfsWrite rewound.fs (rewound.tables 0) 0 (some (fun _ => 7)) 253).2.2.files 0).offset
      = 4 ∧
    (mcsVfsRead rewound.fs (rewound.tables 0) 0 true 4).1 = .ok 4 ∧
    (mcsVfsRead rewound.fs
      (mcsVfsWrite rewound.fs (rewound.tables 0) 0 (some (fun _ => 7)) 253).2.2 0 true 4).1
      = .ok 0 := by
  decide +kernel

end VfsFailure
