import Mcsos.VfsTreeProofs

/-! # Descriptors, and the invariant of every run

    A used descriptor refers to a node of the table.  Together with the
    extents this bounds every index into the data array: a read stops at the
    size of its file, a write at the capacity, whatever offset a seek has left
    in the descriptor.

    Each call keeps the joint invariant `VfsInv`; the run rule does the rest. -/

namespace VfsInvariant

open Word Loop VfsModel VfsTree

/-! ## Descriptors -/

/-- A slot that is unused, or refers to a node of the ramfs. -/
def FileOk (fs : Ramfs) (file : File) : Prop :=
  file.used = true → file.fs = true ∧ ∃ i, file.node = some i ∧ i < fs.nodeCount.toNat

/-- Every used slot of a table has a node. -/
def TableOk (fs : Ramfs) (table : FdTable) : Prop :=
  ∀ fd, fd < MCS_MAX_OPEN_FILES → FileOk fs (table.files fd)

/-- **STATE INVARIANT** of the ramfs and every table on it. -/
structure VfsInv (s : VfsState) : Prop where
  fs : FsInv s.fs
  tables : ∀ i, TableOk s.fs (s.tables i)

theorem FileOk.mono {fs fs' : Ramfs} {file : File} (h : FileOk fs file)
    (hle : fs.nodeCount.toNat ≤ fs'.nodeCount.toNat) : FileOk fs' file := by
  intro hu
  obtain ⟨hfs, i, hi, hlt⟩ := h hu
  exact ⟨hfs, i, hi, Nat.lt_of_lt_of_le hlt hle⟩

theorem TableOk.mono {fs fs' : Ramfs} {table : FdTable} (h : TableOk fs table)
    (hle : fs.nodeCount.toNat ≤ fs'.nodeCount.toNat) : TableOk fs' table :=
  fun fd hfd => (h fd hfd).mono hle

theorem setFile_file (table : FdTable) (fd i : Nat) (file : File) :
    (setFile table fd file).files i = if i = fd then file else table.files i := by
  by_cases hi : i = fd
  · subst hi
    rw [if_pos rfl]
    exact Function.update_self ..
  · rw [if_neg hi]
    exact Function.update_of_ne hi _ _

theorem setFile_setFile (table : FdTable) (fd : Nat) (file file' : File) :
    setFile (setFile table fd file) fd file' = setFile table fd file' := by
  rw [setFile, setFile, setFile, Function.update_idem]

theorem TableOk.setFile {fs : Ramfs} {table : FdTable} (h : TableOk fs table) {fd : Nat}
    {file : File} (hfile : FileOk fs file) : TableOk fs (setFile table fd file) := by
  intro i hi
  rw [setFile_file]
  by_cases hif : i = fd
  · rw [if_pos hif]
    exact hfile
  · rw [if_neg hif]
    exact h i hi

/-- A descriptor that is found is a used slot. -/
theorem mcsFdGet_some {table : FdTable} {fd : Int} {d : Nat} (h : mcsFdGet table fd = some d) :
    d < MCS_MAX_OPEN_FILES ∧ fd = d ∧ (table.files d).used = true := by
  rw [mcsFdGet] at h
  split at h
  · exact nomatch h
  · rename_i hrange
    split at h
    · exact nomatch h
    · rename_i hused
      have hd : fd.toNat = d := Option.some.inj h
      subst hd
      refine ⟨by omega, by omega, ?_⟩
      simpa using hused

/-- Every slot is in use. -/
def AllUsed (table : FdTable) : Prop :=
  ∀ i, i < MCS_MAX_OPEN_FILES → (table.files i).used = true

/-- The lowest slot that is not in use. -/
structure FirstFree (table : FdTable) (d : Nat) : Prop where
  lt : d < MCS_MAX_OPEN_FILES
  free : (table.files d).used = false
  below : ∀ i, i < d → (table.files i).used = true

/-- A table with a free slot is not full. -/
theorem FirstFree.not_allUsed {table : FdTable} {d : Nat} (h : FirstFree table d) :
    ¬ AllUsed table := by
  intro hall
  have hused := hall d h.lt
  rw [h.free] at hused
  cases hused

/-- A slot is allocated at the first free one, or not at all. -/
theorem mcsFdAlloc_cases (table : FdTable) :
    (AllUsed table ∧ mcsFdAlloc table = (.error .enfile, table)) ∨
    ∃ d, FirstFree table d ∧
      mcsFdAlloc table = (.ok d, setFile table d { table.files d with used := true }) := by
  rw [mcsFdAlloc]
  cases hfind : (List.range MCS_MAX_OPEN_FILES).find? (fun i => !(table.files i).used) with
  | none =>
      refine Or.inl ⟨fun i hi => ?_, rfl⟩
      simpa using List.find?_range_eq_none.mp hfind i hi
  | some d =>
      obtain ⟨hfree, hlt, hbelow⟩ := List.find?_range_eq_some.mp hfind
      refine Or.inr ⟨d, ⟨List.mem_range.mp hlt, by simpa using hfree, fun i hi => ?_⟩, rfl⟩
      simpa using hbelow i hi

/-! ## What an open does -/

/-- A node that may not be opened with these flags. -/
def DirForWriting (fs : Ramfs) (node : Nat) (flags : U32) : Prop :=
  (fs.nodes node).type = .dir ∧ mcsCanWrite flags = true

instance (fs : Ramfs) (node : Nat) (flags : U32) : Decidable (DirForWriting fs node flags) :=
  inferInstanceAs (Decidable (_ ∧ _))

/-- Where an open starts. -/
def openOffset (fs : Ramfs) (node : Nat) (flags : U32) : U64 :=
  if flags &&& MCS_O_APPEND ≠ 0 then (fs.nodes node).size else 0

/-- The outcomes of `mcs_vfs_open` once the node is found. -/
inductive OpensNode (fs : Ramfs) (table : FdTable) (node : Nat) (flags : U32) :
    Except VfsErr Nat × Ramfs × FdTable → Prop where
  | directory (h : DirForWriting fs node flags) :
      OpensNode fs table node flags (.error .eisdir, fs, table)
  | full (h : ¬ DirForWriting fs node flags) (hfull : AllUsed table) :
      OpensNode fs table node flags (.error .enfile, fs, table)
  | denied {d : Nat} (hd : FirstFree table d) (htrunc : flags &&& MCS_O_TRUNC ≠ 0)
      (hwrite : mcsCanWrite flags = false) :
      OpensNode fs table node flags (.error .eacces, fs,
        setFile table d ⟨false, flags, openOffset fs node flags, none, false⟩)
  | truncates {d : Nat} (hd : FirstFree table d) (htrunc : flags &&& MCS_O_TRUNC ≠ 0)
      (hwrite : mcsCanWrite flags = true) (hfile : (fs.nodes node).type = .file) :
      OpensNode fs table node flags (.ok d, setSize fs node 0,
        setFile table d ⟨true, flags, 0, some node, true⟩)
  | opens {d : Nat} (hd : FirstFree table d) (htrunc : flags &&& MCS_O_TRUNC = 0)
      (h : ¬ DirForWriting fs node flags) :
      OpensNode fs table node flags (.ok d, fs,
        setFile table d ⟨true, flags, openOffset fs node flags, some node, true⟩)

/-- What opening a node can do. -/
theorem openNode_opens (fs : Ramfs) (table : FdTable) (node : Nat) (flags : U32) :
    OpensNode fs table node flags (openNode fs table node flags) := by
  rw [openNode]
  by_cases hdir : (fs.nodes node).type = .dir ∧ mcsCanWrite flags = true
  · rw [if_pos hdir]
    exact .directory hdir
  rw [if_neg hdir]
  rcases mcsFdAlloc_cases table with ⟨hfull, heq⟩ | ⟨d, hd, heq⟩
  · rw [heq]
    exact .full hdir hfull
  · rw [heq]
    simp only [setFile_setFile, setFile_file, if_pos]
    -- the slot is taken before the right to truncate is checked
    by_cases htrunc : flags &&& MCS_O_TRUNC = 0
    · rw [if_neg (not_not.mpr htrunc)]
      exact .opens hd htrunc hdir
    · rw [if_pos htrunc]
      cases hwrite : mcsCanWrite flags with
      | false => exact .denied hd htrunc hwrite
      | true =>
          refine .truncates hd htrunc hwrite ?_
          cases htype : (fs.nodes node).type with
          | file => rfl
          | dir => exact absurd ⟨htype, hwrite⟩ hdir

/-- The outcomes of `mcs_vfs_open`. -/
inductive Opens (fs : Ramfs) (table : FdTable) (path : Option Path) (flags : U32) :
    Except VfsErr Nat × Ramfs × FdTable → Prop where
  | refused (e : VfsErr) : Opens fs table path flags (.error e, fs, table)
  | found {node : Nat} {r : Except VfsErr Nat × Ramfs × FdTable}
      (hlook : mcsRamfsLookup fs path = .ok node)
      (h : OpensNode fs table node (openFlags flags) r) : Opens fs table path flags r
  | created {p : Nat} {leaf : Path} {r : Except VfsErr Nat × Ramfs × FdTable}
      (hcreat : openFlags flags &&& MCS_O_CREAT ≠ 0) (hnew : Creates fs path p leaf)
      (h : OpensNode (addFile fs p leaf) table fs.nodeCount.toNat (openFlags flags) r) :
      Opens fs table path flags r

/-- What opening a path can do. -/
theorem mcsVfsOpen_opens {fs : Ramfs} (h : FsTree fs) (table : FdTable) (path : Option Path)
    (flags : U32) : Opens fs table path flags (mcsVfsOpen fs table path flags) := by
  rw [mcsVfsOpen]
  split
  · exact .refused _
  cases hlook : mcsRamfsLookup fs path with
  | ok node => exact .found hlook (openNode_opens ..)
  | error e =>
      simp only
      split
      · exact .refused _
      rename_i hcreat
      rcases mcsRamfsCreateFile_cases h path with
        ⟨e', heq⟩ | ⟨i, hlook', -, -⟩ | ⟨p, leaf, hnew, heq⟩
      · rw [heq]
        exact .refused _
      · rw [hlook] at hlook'
        cases hlook'
      · rw [heq]
        exact .created hcreat hnew (openNode_opens ..)

/-- An open that creates its file goes on with the new node. -/
theorem mcsVfsOpen_creates {fs : Ramfs} (h : FsTree fs) (table : FdTable) {path : Option Path}
    {flags : U32} {p : Nat} {leaf : Path} (hcreat : openFlags flags &&& MCS_O_CREAT ≠ 0)
    (hnew : Creates fs path p leaf) :
    mcsVfsOpen fs table path flags
      = openNode (addFile fs p leaf) table fs.nodeCount.toNat (openFlags flags) := by
  obtain ⟨e, hlook⟩ := hnew.missing
  rw [mcsVfsOpen, if_neg hnew.path_some]
  simp only [hlook, if_neg hcreat, hnew.createFile h]

/-! ## What a transfer touches -/

/-- Descriptor `fd` is slot `d`, opened on the file `i` with an access that
    `can` accepts. -/
structure OpenFor (can : U32 → Bool) (fs : Ramfs) (table : FdTable) (fd : Int) (d i : Nat) :
    Prop where
  slot : mcsFdGet table fd = some d
  access : can (table.files d).flags = true
  node : (table.files d).node = some i
  mounted : (table.files d).fs = true
  file : (fs.nodes i).type = .file

/-- A descriptor is one slot and one node. -/
theorem OpenFor.unique {can : U32 → Bool} {fs : Ramfs} {table : FdTable} {fd : Int}
    {d d' i i' : Nat} (h : OpenFor can fs table fd d i) (h' : OpenFor can fs table fd d' i') :
    d = d' ∧ i = i' := by
  have hd : d = d' := Option.some.inj (h.slot.symm.trans h'.slot)
  subst hd
  exact ⟨rfl, Option.some.inj (h.node.symm.trans h'.node)⟩

theorem OpenFor.not_dir {can : U32 → Bool} {fs : Ramfs} {table : FdTable} {fd : Int}
    {d i : Nat} (h : OpenFor can fs table fd d i) : (fs.nodes i).type ≠ .dir := by
  rw [h.file]
  intro hc
  cases hc

theorem file_of_not_dir {t : VnodeType} (h : ¬ t = .dir) : t = .file := by
  cases t with
  | dir => exact absurd rfl h
  | file => rfl

private theorem valid_buffer {buf : Bool} {len : U64} (h : buf = true ∨ len = 0) :
    ¬ ((!buf) = true ∧ len ≠ 0) := by
  rintro ⟨hnull, hlen⟩
  rcases h with rfl | rfl
  · cases hnull
  · exact hlen rfl

theorem buffer_valid {buf : Bool} {len : U64} (h : ¬ ((!buf) = true ∧ len ≠ 0)) :
    buf = true ∨ len = 0 := by
  cases buf with
  | true => exact Or.inl rfl
  | false => exact Or.inr (not_not.mp (fun hlen => h ⟨rfl, hlen⟩))

/-- The checks that a read and a write share, in their order: they `fail`, or go
    on with a slot and a file. -/
def checkOpen {β : Type} (can : U32 → Bool) (fs : Ramfs) (table : FdTable) (fd : Int)
    (buf : Bool) (len : U64) (fail : VfsErr → β) (go : Nat → Nat → β) : β :=
  if !buf ∧ len ≠ 0 then fail .einval
  else
    match mcsFdGet table fd with
    | none => fail .ebadf
    | some d =>
        if !can (table.files d).flags then fail .eacces
        else
          match (table.files d).node with
          | none => fail .einval
          | some i =>
              if !(table.files d).fs then fail .einval
              else if (fs.nodes i).type = .dir then fail .eisdir
              else go d i

section CheckOpen

variable {β : Type} {can : U32 → Bool} {fs : Ramfs} {table : FdTable} {fd : Int} {buf : Bool}
variable {len : U64} {fail : VfsErr → β} {go : Nat → Nat → β}

/-- An open descriptor with the right and a file behind it passes. -/
theorem checkOpen_open {d i : Nat} (hbuf : buf = true ∨ len = 0)
    (h : OpenFor can fs table fd d i) :
    checkOpen can fs table fd buf len fail go = go d i := by
  rw [checkOpen, if_neg (valid_buffer hbuf), h.slot]
  simp only [h.access, h.node, h.mounted, h.not_dir, Bool.not_true, Bool.false_eq_true, if_false]

/-- Everything else is refused. -/
theorem checkOpen_refused (can : U32 → Bool) (fs : Ramfs) (table : FdTable) (fd : Int)
    (buf : Bool) (len : U64) (fail : VfsErr → β) (go : Nat → Nat → β) :
    (∃ e, checkOpen can fs table fd buf len fail go = fail e) ∨
    ((buf = true ∨ len = 0) ∧ ∃ d i, OpenFor can fs table fd d i) := by
  rw [checkOpen]
  by_cases hbuf : (!buf) = true ∧ len ≠ 0
  · exact Or.inl ⟨_, if_pos hbuf⟩
  rw [if_neg hbuf]
  cases hget : mcsFdGet table fd with
  | none => exact Or.inl ⟨_, rfl⟩
  | some d =>
      simp only
      split
      · exact Or.inl ⟨_, rfl⟩
      rename_i haccess
      cases hnode : (table.files d).node with
      | none => exact Or.inl ⟨_, rfl⟩
      | some i =>
          simp only
          split
          · exact Or.inl ⟨_, rfl⟩
          rename_i hmounted
          split
          · exact Or.inl ⟨_, rfl⟩
          rename_i hdir
          exact Or.inr ⟨buffer_valid hbuf, d, i, hget, by simpa using haccess, hnode,
            by simpa using hmounted, file_of_not_dir hdir⟩

end CheckOpen

/-- How much a read of `len` bytes moves, from `offset` on in the file `i`. -/
def readCount (fs : Ramfs) (i : Nat) (offset len : U64) : U64 :=
  if offset ≥ (fs.nodes i).size then 0 else mcsMinSize len ((fs.nodes i).size - offset)

theorem readTransfer_eq (fs : Ramfs) (table : FdTable) (fd : Int) (buf : Bool) (len : U64) :
    readTransfer fs table fd buf len = checkOpen mcsCanRead fs table fd buf len .error
      (fun d i =>
        if (table.files d).offset ≥ (fs.nodes i).size then .ok (d, ⟨i, (table.files d).offset, 0⟩)
        else .ok (d, ⟨i, (table.files d).offset,
          mcsMinSize len ((fs.nodes i).size - (table.files d).offset)⟩)) := rfl

/-- The descriptor of a successful check, and what it asks to be moved. -/
structure ReadsFrom (fs : Ramfs) (table : FdTable) (fd : Int) (len : U64) (d : Nat)
    (t : Transfer) : Prop where
  slot : mcsFdGet table fd = some d
  node : (table.files d).node = some t.node
  file : (fs.nodes t.node).type = .file
  pos : t.pos = (table.files d).offset
  count : t.len = readCount fs t.node (table.files d).offset len

/-- What the checks of a read settle for a file that is open for reading. -/
theorem readTransfer_open {fs : Ramfs} {table : FdTable} {fd : Int} {buf : Bool} {len : U64}
    {d i : Nat} (hbuf : buf = true ∨ len = 0) (h : OpenFor mcsCanRead fs table fd d i) :
    readTransfer fs table fd buf len
      = .ok (d, ⟨i, (table.files d).offset, readCount fs i (table.files d).offset len⟩) := by
  rw [readTransfer_eq, checkOpen_open hbuf h, readCount]
  by_cases hend : (table.files d).offset ≥ (fs.nodes i).size
  · simp only [if_pos hend]
  · simp only [if_neg hend]

/-- Otherwise they fail. -/
theorem readTransfer_refused (fs : Ramfs) (table : FdTable) (fd : Int) (buf : Bool) (len : U64) :
    (∃ e, readTransfer fs table fd buf len = .error e) ∨
    ((buf = true ∨ len = 0) ∧ ∃ d i, OpenFor mcsCanRead fs table fd d i) := by
  rw [readTransfer_eq]
  exact checkOpen_refused ..

/-- What a read is about. -/
theorem readTransfer_ok {fs : Ramfs} {table : FdTable} {fd : Int} {buf : Bool} {len : U64}
    {d : Nat} {t : Transfer} (h : readTransfer fs table fd buf len = .ok (d, t)) :
    ReadsFrom fs table fd len d t := by
  rcases readTransfer_refused fs table fd buf len with ⟨e, heq⟩ | ⟨hbuf, d', i, ho⟩
  · rw [heq] at h
    exact nomatch h
  · rw [readTransfer_open hbuf ho] at h
    cases h
    exact ⟨ho.slot, ho.node, ho.file, rfl, rfl⟩

/-- How much a read delivers: what is left of the file, at most what was asked
    for, and nothing past the end. -/
theorem ReadsFrom.count_toNat {fs : Ramfs} {table : FdTable} {fd : Int} {len : U64} {d : Nat}
    {t : Transfer} (h : ReadsFrom fs table fd len d t) :
    t.len.toNat = min len.toNat
      ((fs.nodes t.node).size.toNat - (table.files d).offset.toNat) := by
  rw [h.count, readCount]
  split
  · rename_i hend
    show 0 = _
    bv_omega
  · rw [mcsMinSize]
    split
    · bv_omega
    · bv_omega

/-- The ramfs that a write of `bytes` leaves: they are copied, and the size follows the
    place where they end. -/
def writtenFs (fs : Ramfs) (t : Transfer) (bytes : Nat → U8) : Ramfs :=
  if t.pos + t.len > (fs.nodes t.node).size then
    setSize (putBytes fs t bytes) t.node (t.pos + t.len)
  else putBytes fs t bytes

/-- The place a seek starts from, for a descriptor at `offset` of the file `i`. -/
def seekBase (fs : Ramfs) (i : Nat) (offset : U64) (whence : Int) : Option U64 :=
  if whence = MCS_SEEK_SET then some 0
  else if whence = MCS_SEEK_CUR then some offset
  else if whence = MCS_SEEK_END then some (fs.nodes i).size
  else none

/-- What an accepted write is about: its slot, its file and a place that fits. -/
structure WritesTo (fs : Ramfs) (table : FdTable) (fd : Int) (len : U64) (d : Nat)
    (t : Transfer) : Prop where
  slot : mcsFdGet table fd = some d
  node : (table.files d).node = some t.node
  file : (fs.nodes t.node).type = .file
  pos : t.pos = writePos fs (table.files d) t.node
  count : t.len = len
  pos_le : t.pos ≤ (fs.nodes t.node).dataCapacity
  fits : len ≤ (fs.nodes t.node).dataCapacity - t.pos

private theorem mcsMinSize_not_lt {a b : U64} (h : ¬ mcsMinSize a b < a) :
    mcsMinSize a b = a ∧ a ≤ b := by
  rw [mcsMinSize] at h ⊢
  by_cases hab : a < b
  · rw [if_pos hab]
    exact ⟨rfl, by bv_omega⟩
  · rw [if_neg hab] at h ⊢
    exact ⟨by bv_omega, by bv_omega⟩

theorem mcsMinSize_lt {a b : U64} : mcsMinSize a b < a ↔ b < a := by
  rw [mcsMinSize]
  split
  · bv_omega
  · rfl

theorem writeTransfer_eq (fs : Ramfs) (table : FdTable) (fd : Int) (buf : Bool) (len : U64) :
    writeTransfer fs table fd buf len =
      checkOpen mcsCanWrite fs table fd buf len (fun e => (.error e, table)) (fun d i =>
        let offset := writePos fs (table.files d) i
        let table := setFile table d { table.files d with offset }
        if offset > (fs.nodes i).dataCapacity then (.error .einval, table)
        else
          let n := mcsMinSize len ((fs.nodes i).dataCapacity - offset)
          if n < len then (.error .enospc, table) else (.ok (d, ⟨i, offset, n⟩), table)) := rfl

/-- What the checks of a write settle for a file that is open for writing.  By
    then `MCS_O_APPEND` has already moved the offset. -/
theorem writeTransfer_open {fs : Ramfs} {table : FdTable} {fd : Int} {buf : Bool} {len : U64}
    {d i : Nat} (hbuf : buf = true ∨ len = 0) (h : OpenFor mcsCanWrite fs table fd d i) :
    writeTransfer fs table fd buf len =
      (if writePos fs (table.files d) i > (fs.nodes i).dataCapacity then .error .einval
        else if (fs.nodes i).dataCapacity - writePos fs (table.files d) i < len then
          .error .enospc
        else .ok (d, ⟨i, writePos fs (table.files d) i, len⟩),
      setFile table d { table.files d with offset := writePos fs (table.files d) i }) := by
  rw [writeTransfer_eq, checkOpen_open hbuf h]
  dsimp only
  by_cases hpos : writePos fs (table.files d) i > (fs.nodes i).dataCapacity
  · simp only [if_pos hpos]
  · simp only [if_neg hpos]
    by_cases hshort : (fs.nodes i).dataCapacity - writePos fs (table.files d) i < len
    · simp only [if_pos hshort, if_pos (mcsMinSize_lt.mpr hshort)]
    · have hn := fun h => hshort (mcsMinSize_lt.mp h)
      simp only [if_neg hshort, (mcsMinSize_not_lt hn).1, BitVec.lt_irrefl, if_false]

/-- Otherwise they fail, and nothing has moved. -/
theorem writeTransfer_refused (fs : Ramfs) (table : FdTable) (fd : Int) (buf : Bool) (len : U64) :
    (∃ e, writeTransfer fs table fd buf len = (.error e, table)) ∨
    ((buf = true ∨ len = 0) ∧ ∃ d i, OpenFor mcsCanWrite fs table fd d i) := by
  rw [writeTransfer_eq]
  exact checkOpen_refused mcsCanWrite fs table fd buf len (fun e => (Except.error e, table)) _

/-- The checks of a write either fail, and at most move an append descriptor to
    the end of its file, or settle a transfer that fits. -/
theorem writeTransfer_cases (fs : Ramfs) (table : FdTable) (fd : Int) (buf : Bool) (len : U64) :
    (∃ e, writeTransfer fs table fd buf len = (.error e, table)) ∨
    (∃ d i, mcsFdGet table fd = some d ∧ (table.files d).node = some i ∧
      ∃ e, writeTransfer fs table fd buf len
        = (.error e, setFile table d
            { table.files d with offset := writePos fs (table.files d) i })) ∨
    (∃ d t, WritesTo fs table fd len d t ∧
      writeTransfer fs table fd buf len
        = (.ok (d, t), setFile table d { table.files d with offset := t.pos })) := by
  rcases writeTransfer_refused fs table fd buf len with hrefused | ⟨hbuf, d, i, ho⟩
  · exact Or.inl hrefused
  rw [writeTransfer_open hbuf ho]
  by_cases hpos : writePos fs (table.files d) i > (fs.nodes i).dataCapacity
  · rw [if_pos hpos]
    exact Or.inr (Or.inl ⟨d, i, ho.slot, ho.node, _, rfl⟩)
  rw [if_neg hpos]
  by_cases hshort : (fs.nodes i).dataCapacity - writePos fs (table.files d) i < len
  · rw [if_pos hshort]
    exact Or.inr (Or.inl ⟨d, i, ho.slot, ho.node, _, rfl⟩)
  · rw [if_neg hshort]
    exact Or.inr (Or.inr ⟨d, ⟨i, writePos fs (table.files d) i, len⟩,
      ⟨ho.slot, ho.node, ho.file, rfl, rfl, BitVec.not_lt.mp hpos, BitVec.not_lt.mp hshort⟩,
      rfl⟩)

/-- What a write is about. -/
theorem writeTransfer_ok {fs : Ramfs} {table : FdTable} {fd : Int} {buf : Bool} {len : U64}
    {d : Nat} {t : Transfer} (h : (writeTransfer fs table fd buf len).1 = .ok (d, t)) :
    WritesTo fs table fd len d t := by
  rcases writeTransfer_cases fs table fd buf len with
    ⟨e, heq⟩ | ⟨_, _, _, _, e, heq⟩ | ⟨d', t', hw, heq⟩
  · rw [heq] at h
    exact nomatch h
  · rw [heq] at h
    exact nomatch h
  · rw [heq] at h
    have h' := Except.ok.inj h
    simp only [Prod.mk.injEq] at h'
    obtain ⟨rfl, rfl⟩ := h'
    exact hw

/-- Every index of the data array that the transfer touches lies in the extent
    of its file. -/
def InExtent (fs : Ramfs) (t : Transfer) : Prop :=
  IsFile fs t.node ∧ ∀ k, t.start fs ≤ k → k < t.start fs + t.len.toNat →
    (fs.nodes t.node).dataOffset.toNat ≤ k ∧ k < extentEnd fs t.node

/-- Where a transfer within the capacity starts, without wrap-around. -/
theorem start_toNat {fs : Ramfs} (h : FsInv fs) {t : Transfer} (hfile : IsFile fs t.node)
    (hfits : t.pos.toNat + t.len.toNat ≤ (fs.nodes t.node).dataCapacity.toNat) :
    t.start fs = (fs.nodes t.node).dataOffset.toNat + t.pos.toNat := by
  have hext := h.data.extent t.node hfile
  have hbound : fs.dataUsed.toNat ≤ 8192 := h.data.bound
  rw [extentEnd] at hext
  rw [Transfer.start]
  bv_omega

/-- A transfer within the capacity stays in the extent. -/
theorem inExtent_of_le {fs : Ramfs} (h : FsInv fs) {t : Transfer} (hfile : IsFile fs t.node)
    (hfits : t.len = 0 ∨ t.pos.toNat + t.len.toNat ≤ (fs.nodes t.node).dataCapacity.toNat) :
    InExtent fs t := by
  refine ⟨hfile, ?_⟩
  intro k hk1 hk2
  rcases hfits with h0 | hfits
  · rw [h0] at hk2
    exact absurd hk2 (Nat.not_lt.mpr hk1)
  · rw [start_toNat h hfile hfits] at hk1 hk2
    rw [extentEnd]
    omega

/-- An open descriptor that refers to a file refers to a file of the table. -/
theorem TableOk.isFile {fs : Ramfs} {table : FdTable} (h : TableOk fs table) {fd : Int}
    {d i : Nat} (hget : mcsFdGet table fd = some d) (hnode : (table.files d).node = some i)
    (hfile : (fs.nodes i).type = .file) : IsFile fs i := by
  obtain ⟨hd, -, hused⟩ := mcsFdGet_some hget
  obtain ⟨-, j, hj, hlt⟩ := h d hd hused
  rw [hnode] at hj
  rw [Option.some.inj hj]
  exact ⟨hlt, Option.some.inj hj ▸ hfile⟩

/-- **READ STAYS IN ITS FILE**: the bytes that a read copies lie in its file's part of the
    shared array. -/
theorem ReadsFrom.inExtent {fs : Ramfs} {table : FdTable} (hF : FsInv fs) (hT : TableOk fs table)
    {fd : Int} {len : U64} {d : Nat} {t : Transfer} (h : ReadsFrom fs table fd len d t) :
    InExtent fs t := by
  have hfile := hT.isFile h.slot h.node h.file
  have hsize := hF.data.size t.node hfile
  refine inExtent_of_le hF hfile ?_
  have hcount := h.count
  rw [h.pos]
  rw [readCount] at hcount
  split at hcount
  · exact Or.inl hcount
  · refine Or.inr ?_
    rw [hcount, mcsMinSize]
    split
    · bv_omega
    · bv_omega

/-- A write stays in its file's capacity. -/
theorem WritesTo.fits_toNat {fs : Ramfs} {table : FdTable} {fd : Int} {len : U64} {d : Nat}
    {t : Transfer} (h : WritesTo fs table fd len d t) :
    t.pos.toNat + t.len.toNat ≤ (fs.nodes t.node).dataCapacity.toNat := by
  have hpos := h.pos_le
  have hfits := h.fits
  rw [h.count]
  bv_omega

/-- **WRITE STAYS IN ITS FILE**: the bytes that a write stores lie in its file's part of the
    shared array. -/
theorem WritesTo.inExtent {fs : Ramfs} {table : FdTable} (hF : FsInv fs) (hT : TableOk fs table)
    {fd : Int} {len : U64} {d : Nat} {t : Transfer} (h : WritesTo fs table fd len d t) :
    InExtent fs t :=
  inExtent_of_le hF (hT.isFile h.slot h.node h.file) (Or.inr h.fits_toNat)

/-! ## The calls keep the invariant -/

/-- A call may change the table it works on and the ramfs, which keeps its
    nodes. -/
theorem VfsInv.update {s : VfsState} (h : VfsInv s) {fs : Ramfs} {i : Nat} {table : FdTable}
    (hfs : FsInv fs) (hle : s.fs.nodeCount.toNat ≤ fs.nodeCount.toNat)
    (htable : TableOk fs table) : VfsInv (setTable { s with fs := fs } i table) := by
  refine ⟨hfs, ?_⟩
  intro j
  show TableOk fs (Function.update s.tables i table j)
  by_cases hj : j = i
  · subst hj
    rw [Function.update_self]
    exact htable
  · rw [Function.update_of_ne hj]
    exact (h.tables j).mono hle

theorem VfsInv.updateTable {s : VfsState} (h : VfsInv s) {i : Nat} {table : FdTable}
    (htable : TableOk s.fs table) : VfsInv (setTable s i table) :=
  h.update h.fs (Nat.le_refl _) htable

/-- Moving an open descriptor keeps its table. -/
theorem TableOk.setOffset {fs : Ramfs} {table : FdTable} (h : TableOk fs table) {fd : Int}
    {d : Nat} (hget : mcsFdGet table fd = some d) (offset : U64) :
    TableOk fs (VfsModel.setFile table d { table.files d with offset := offset }) := by
  obtain ⟨hd, -, -⟩ := mcsFdGet_some hget
  exact h.setFile (fun hu => h d hd hu)

/-- At most the offset of the open descriptor `fd` has changed. -/
inductive MovesOffset (table : FdTable) (fd : Int) : FdTable → Prop where
  | stays : MovesOffset table fd table
  | moves {d : Nat} (hget : mcsFdGet table fd = some d) (offset : U64) :
      MovesOffset table fd (setFile table d { table.files d with offset := offset })

theorem TableOk.movesOffset {fs : Ramfs} {table table' : FdTable} {fd : Int}
    (h : TableOk fs table) (hm : MovesOffset table fd table') : TableOk fs table' := by
  cases hm with
  | stays => exact h
  | moves hget offset => exact h.setOffset hget offset

/-- Opening a node keeps the invariant. -/
theorem OpensNode.inv {fs : Ramfs} {table : FdTable} (hF : FsInv fs) (hT : TableOk fs table)
    {node : Nat} (hnode : node < fs.nodeCount.toNat) {flags : U32}
    {r : Except VfsErr Nat × Ramfs × FdTable} (h : OpensNode fs table node flags r) :
    FsInv r.2.1 ∧ r.2.1.nodeCount = fs.nodeCount ∧ TableOk r.2.1 r.2.2 := by
  cases h with
  | directory => exact ⟨hF, rfl, hT⟩
  | full => exact ⟨hF, rfl, hT⟩
  | denied => exact ⟨hF, rfl, hT.setFile (fun hu => absurd hu Bool.false_ne_true)⟩
  | truncates =>
      refine ⟨hF.setSize (fun _ => by bv_omega), rfl, ?_⟩
      exact (hT.setFile (fun _ => ⟨rfl, node, rfl, hnode⟩)).mono (Nat.le_refl _)
  | opens => exact ⟨hF, rfl, hT.setFile (fun _ => ⟨rfl, node, rfl, hnode⟩)⟩

/-- Opening a path keeps the invariant. -/
theorem mcsVfsOpen_inv {fs : Ramfs} {table : FdTable} (hF : FsInv fs) (hT : TableOk fs table)
    (path : Option Path) (flags : U32) :
    FsInv (mcsVfsOpen fs table path flags).2.1 ∧
    fs.nodeCount.toNat ≤ (mcsVfsOpen fs table path flags).2.1.nodeCount.toNat ∧
    TableOk (mcsVfsOpen fs table path flags).2.1 (mcsVfsOpen fs table path flags).2.2 := by
  have h := mcsVfsOpen_opens hF.tree table path flags
  generalize mcsVfsOpen fs table path flags = r at h ⊢
  cases h with
  | refused => exact ⟨hF, Nat.le_refl _, hT⟩
  | found hlook h =>
      obtain ⟨h1, h2, h3⟩ := h.inv hF hT (mcsRamfsLookup_lt hF.tree hlook)
      exact ⟨h1, Nat.le_of_eq (by rw [h2]), h3⟩
  | created _ hnew h =>
      obtain ⟨hF', hle, hfile⟩ := hF.createFile path
      rw [hnew.createFile hF.tree] at hF' hle hfile
      obtain ⟨h1, h2, h3⟩ := h.inv hF' (hT.mono hle) (hfile _ rfl).1
      exact ⟨h1, Nat.le_trans hle (Nat.le_of_eq (by rw [h2])), h3⟩

/-- **SEED**: fails with at most a new empty file, or replaces the contents of
    a file whose capacity suffices. -/
theorem mcsRamfsSeedFile_cases (fs : Ramfs) (path : Option Path) (data : Option (Nat → U8))
    (len : U64) :
    (∃ e, mcsRamfsSeedFile fs path data len = (.error e, fs)) ∨
    (∃ e, mcsRamfsSeedFile fs path data len = (.error e, (mcsRamfsCreateFile fs path).2)) ∨
    (∃ node, (mcsRamfsCreateFile fs path).1 = .ok node ∧
      len ≤ ((mcsRamfsCreateFile fs path).2.nodes node).dataCapacity ∧
      mcsRamfsSeedFile fs path data len = (.ok ⟨node, 0, len⟩,
        setSize (putBytes (mcsRamfsCreateFile fs path).2 ⟨node, 0, len⟩
          (data.getD (fun _ => 0))) node len)) := by
  rw [mcsRamfsSeedFile]
  split
  · exact Or.inl ⟨_, rfl⟩
  cases mcsRamfsCreateFile fs path with
  | mk r fs' =>
      cases r with
      | error rc => exact Or.inr (Or.inl ⟨rc, rfl⟩)
      | ok node =>
          simp only
          split
          · exact Or.inr (Or.inl ⟨_, rfl⟩)
          · rename_i hfits
            exact Or.inr (Or.inr ⟨node, rfl, BitVec.not_lt.mp hfits, rfl⟩)

/-- Seeding a file keeps the invariant, and stores inside the file's extent. -/
theorem mcsRamfsSeedFile_inv {fs : Ramfs} (hF : FsInv fs) (path : Option Path)
    (data : Option (Nat → U8)) (len : U64) :
    FsInv (mcsRamfsSeedFile fs path data len).2 ∧
    fs.nodeCount.toNat ≤ (mcsRamfsSeedFile fs path data len).2.nodeCount.toNat ∧
    ∀ t, (mcsRamfsSeedFile fs path data len).1 = .ok t →
      InExtent (mcsRamfsSeedFile fs path data len).2 t := by
  obtain ⟨hF', hle, hfile⟩ := hF.createFile path
  rcases mcsRamfsSeedFile_cases fs path data len with
    ⟨e, heq⟩ | ⟨e, heq⟩ | ⟨node, hnode, hfits, heq⟩
  · rw [heq]
    exact ⟨hF, Nat.le_refl _, fun _ h => nomatch h⟩
  · rw [heq]
    exact ⟨hF', hle, fun _ h => nomatch h⟩
  · have hinv : FsInv (setSize (putBytes (mcsRamfsCreateFile fs path).2 ⟨node, 0, len⟩
        (data.getD (fun _ => 0))) node len) := (hF'.setData _).setSize (fun _ => hfits)
    rw [heq]
    refine ⟨hinv, hle, ?_⟩
    intro t ht
    rw [← Except.ok.inj ht]
    refine inExtent_of_le hinv ⟨(hfile node hnode).1, ?_⟩ (Or.inr ?_)
    · rw [setSize_node]
      exact (hfile node hnode).2
    · rw [setSize_node]
      show 0 + len.toNat ≤ ((mcsRamfsCreateFile fs path).2.nodes node).dataCapacity.toNat
      bv_omega

/-- **WRITE**: fails with at most an append descriptor moved, or puts the buffer
    where its checks have settled. -/
theorem mcsVfsWrite_cases (fs : Ramfs) (table : FdTable) (fd : Int) (buf : Option (Nat → U8))
    (len : U64) :
    (∃ e, (writeTransfer fs table fd buf.isSome len).1 = .error e ∧
      mcsVfsWrite fs table fd buf len = (.error e, fs, table)) ∨
    (∃ d i e, (writeTransfer fs table fd buf.isSome len).1 = .error e ∧
      mcsFdGet table fd = some d ∧ (table.files d).node = some i ∧
      mcsVfsWrite fs table fd buf len = (.error e, fs, setFile table d
        { table.files d with offset := writePos fs (table.files d) i })) ∨
    (∃ d t, (writeTransfer fs table fd buf.isSome len).1 = .ok (d, t) ∧
      WritesTo fs table fd len d t ∧
      mcsVfsWrite fs table fd buf len = (.ok t.len.toInt,
        (if t.pos + t.len > (fs.nodes t.node).size then
          setSize (putBytes fs t (buf.getD (fun _ => 0))) t.node (t.pos + t.len)
        else putBytes fs t (buf.getD (fun _ => 0))),
        setFile table d { table.files d with offset := t.pos + t.len })) := by
  rw [mcsVfsWrite]
  rcases writeTransfer_cases fs table fd buf.isSome len with
    ⟨e, heq⟩ | ⟨d, i, hget, hnode, e, heq⟩ | ⟨d, t, hw, heq⟩
  · rw [heq]
    exact Or.inl ⟨e, rfl, rfl⟩
  · rw [heq]
    exact Or.inr (Or.inl ⟨d, i, e, rfl, hget, hnode, rfl⟩)
  · rw [heq]
    refine Or.inr (Or.inr ⟨d, t, rfl, hw, ?_⟩)
    simp only [setFile_setFile, setFile_file]
    rfl

/-- A write keeps the invariant. -/
theorem mcsVfsWrite_inv {fs : Ramfs} {table : FdTable} (hF : FsInv fs) (hT : TableOk fs table)
    (fd : Int) (buf : Option (Nat → U8)) (len : U64) :
    FsInv (mcsVfsWrite fs table fd buf len).2.1 ∧
    (mcsVfsWrite fs table fd buf len).2.1.nodeCount = fs.nodeCount ∧
    TableOk (mcsVfsWrite fs table fd buf len).2.1 (mcsVfsWrite fs table fd buf len).2.2 := by
  rcases mcsVfsWrite_cases fs table fd buf len with
    ⟨e, -, heq⟩ | ⟨d, i, e, -, hget, hnode, heq⟩ | ⟨d, t, -, hw, heq⟩
  · rw [heq]
    exact ⟨hF, rfl, hT⟩
  · rw [heq]
    exact ⟨hF, rfl, hT.setOffset hget _⟩
  · rw [heq]
    have hput : FsInv (putBytes fs t (buf.getD (fun _ => 0))) := hF.setData _
    have hsize : t.pos + t.len ≤ (fs.nodes t.node).dataCapacity := by
      have hfits := hw.fits_toNat
      bv_omega
    simp only
    split
    · exact ⟨hput.setSize (fun _ => hsize), rfl, hT.setOffset hw.slot _⟩
    · exact ⟨hput, rfl, hT.setOffset hw.slot _⟩

/-- What a read can do. -/
theorem mcsVfsRead_cases (fs : Ramfs) (table : FdTable) (fd : Int) (buf : Bool) (len : U64) :
    (∃ e, mcsVfsRead fs table fd buf len = (.error e, [], table)) ∨
    (∃ d t, ReadsFrom fs table fd len d t ∧
      mcsVfsRead fs table fd buf len = (.ok t.len.toInt,
        (List.range t.len.toNat).map (fun i => fs.data (t.start fs + i)),
        setFile table d { table.files d with offset := (table.files d).offset + t.len })) := by
  rw [mcsVfsRead]
  cases h : readTransfer fs table fd buf len with
  | error e => exact Or.inl ⟨e, rfl⟩
  | ok r =>
      obtain ⟨d, t⟩ := r
      exact Or.inr ⟨d, t, readTransfer_ok h, rfl⟩

/-- A read moves an offset, and nothing else. -/
theorem mcsVfsRead_moves (fs : Ramfs) (table : FdTable) (fd : Int) (buf : Bool) (len : U64) :
    MovesOffset table fd (mcsVfsRead fs table fd buf len).2.2 := by
  rcases mcsVfsRead_cases fs table fd buf len with ⟨e, heq⟩ | ⟨d, t, hr, heq⟩
  · rw [heq]
    exact .stays
  · rw [heq]
    exact .moves hr.slot _

/-- Of the table a write changes an offset, and nothing else. -/
theorem mcsVfsWrite_moves (fs : Ramfs) (table : FdTable) (fd : Int) (buf : Option (Nat → U8))
    (len : U64) : MovesOffset table fd (mcsVfsWrite fs table fd buf len).2.2 := by
  rcases mcsVfsWrite_cases fs table fd buf len with
    ⟨e, -, heq⟩ | ⟨d, i, e, -, hget, -, heq⟩ | ⟨d, t, -, hw, heq⟩
  · rw [heq]
    exact .stays
  · rw [heq]
    exact .moves hget _
  · rw [heq]
    exact .moves hw.slot _

/-- A seek moves an offset, and nothing else. -/
theorem mcsVfsLseek_moves (fs : Ramfs) (table : FdTable) (fd : Int) (offset : U64)
    (whence : Int) : MovesOffset table fd (mcsVfsLseek fs table fd offset whence).2 := by
  rw [mcsVfsLseek]
  cases hget : mcsFdGet table fd with
  | none => exact .stays
  | some d =>
      -- the three ways to seek differ in the base only
      have hseek : ∀ next : U64, MovesOffset table fd
          (if next.toInt < 0 then ((.error .einval, table) : Except VfsErr Int × FdTable)
            else (.ok (next.setWidth 32).toInt,
              setFile table d { table.files d with offset := next })).2 := by
        intro next
        split
        · exact .stays
        · exact .moves hget next
      simp only
      split
      · exact .stays
      split
      · exact .stays
      split
      · exact hseek _
      split
      · exact hseek _
      split
      · exact hseek _
      · exact .stays

/-- A close keeps the invariant. -/
theorem mcsVfsClose_inv {fs : Ramfs} {table : FdTable} (hT : TableOk fs table) (fd : Int) :
    TableOk fs (mcsVfsClose table fd).2 := by
  rw [mcsVfsClose]
  split
  · exact hT
  · exact hT.setFile (fun hu => absurd hu Bool.false_ne_true)

/-- **DUP**: fails, or copies the descriptor to the lowest unused slot. -/
theorem mcsVfsDup_cases (table : FdTable) (fd : Int) :
    (mcsFdGet table fd = none ∧ mcsVfsDup table fd = (.error .ebadf, table)) ∨
    (∃ d, mcsFdGet table fd = some d ∧ AllUsed table ∧
      mcsVfsDup table fd = (.error .enfile, table)) ∨
    (∃ d d', mcsFdGet table fd = some d ∧ FirstFree table d' ∧
      mcsVfsDup table fd = (.ok d', setFile table d' { table.files d with used := true })) := by
  rw [mcsVfsDup]
  cases hget : mcsFdGet table fd with
  | none => exact Or.inl ⟨rfl, rfl⟩
  | some d =>
      simp only
      rcases mcsFdAlloc_cases table with ⟨hfull, heq⟩ | ⟨d', hd', heq⟩
      · rw [heq]
        exact Or.inr (Or.inl ⟨d, rfl, hfull, rfl⟩)
      · rw [heq]
        refine Or.inr (Or.inr ⟨d, d', rfl, hd', ?_⟩)
        simp only [setFile_setFile, setFile_file]
        rfl

/-- **STEP**: every call keeps the invariant. -/
theorem vfsStep_inv {s : VfsState} (h : VfsInv s) (op : VfsOp) : VfsInv (vfsStep s op).2 := by
  cases op with
  | createFile path =>
      obtain ⟨hF, hle, -⟩ := h.fs.createFile path
      exact ⟨hF, fun i => (h.tables i).mono hle⟩
  | seedFile path data len =>
      obtain ⟨hF, hle, -⟩ := mcsRamfsSeedFile_inv h.fs path data len
      exact ⟨hF, fun i => (h.tables i).mono hle⟩
  | vfsOpen table path flags =>
      obtain ⟨hF, hle, hT⟩ := mcsVfsOpen_inv h.fs (h.tables table) path flags
      exact h.update hF hle hT
  | vfsRead table fd buf len =>
      exact h.updateTable ((h.tables table).movesOffset (mcsVfsRead_moves ..))
  | vfsWrite table fd buf len =>
      obtain ⟨hF, heq, hT⟩ := mcsVfsWrite_inv h.fs (h.tables table) fd buf len
      exact h.update hF (Nat.le_of_eq (by rw [heq])) hT
  | vfsLseek table fd offset whence =>
      exact h.updateTable ((h.tables table).movesOffset (mcsVfsLseek_moves ..))
  | vfsClose table fd => exact h.updateTable (mcsVfsClose_inv (h.tables table) fd)
  | vfsDup table fd =>
      refine h.updateTable ?_
      rcases mcsVfsDup_cases (s.tables table) fd with
        ⟨-, heq⟩ | ⟨d, -, -, heq⟩ | ⟨d, d', hget, -, heq⟩
      · rw [heq]
        exact h.tables table
      · rw [heq]
        exact h.tables table
      · rw [heq]
        obtain ⟨hd, -, hused⟩ := mcsFdGet_some hget
        -- the copy has the node of its original
        exact (h.tables table).setFile (fun _ => h.tables table d hd hused)

/-! ## The initial state -/

/-- The file system with its root alone. -/
theorem mcsRamfsInit_inv (fs : Ramfs) : FsInv (mcsRamfsInit fs) := by
  have hcount : (mcsRamfsInit fs).nodeCount.toNat = 1 := rfl
  have hroot : ∀ i, i < (mcsRamfsInit fs).nodeCount.toNat → i = 0 := by
    intro i hi
    omega
  have hdir : ((mcsRamfsInit fs).nodes 0).type = .dir := rfl
  -- there is one node, and it is a directory
  have hno : ∀ i, ¬ IsFile (mcsRamfsInit fs) i := by
    rintro i ⟨hi, hfile⟩
    rw [hroot i hi, hdir] at hfile
    exact nomatch hfile
  refine ⟨⟨Nat.one_pos, Nat.le_of_ble_eq_true rfl, hdir, ?_, ?_, ?_, ?_, ?_⟩,
    ⟨?_, ?_, ?_, Nat.zero_le _⟩⟩
  · intro i hi
    rw [hroot i hi]
    rfl
  · intro i hi
    rw [hroot i hi]
    rfl
  · intro i hi
    rw [hroot i hi]
    exact ⟨Nat.one_pos, rfl⟩
  · intro i h0 hi
    exact absurd (hroot i hi) (Nat.ne_of_gt h0)
  · intro i j h0 hi
    exact absurd (hroot i hi) (Nat.ne_of_gt h0)
  · intro i hi
    exact absurd hi (hno i)
  · intro i hi
    exact absurd hi (hno i)
  · intro i j hi
    exact absurd hi (hno i)

theorem mcsFdTableInit_file (table : FdTable) {fd : Nat} (hfd : fd < MCS_MAX_OPEN_FILES) :
    (mcsFdTableInit table).files fd = ⟨false, 0, 0, none, false⟩ := by
  have hinit := forN_update 0 (fun _ _ => (⟨false, 0, 0, none, false⟩ : File)) MCS_MAX_OPEN_FILES
    table.files fd
  simp only [Nat.zero_add, Nat.zero_le, true_and, if_pos hfd] at hinit
  exact hinit

theorem mcsFdTableInit_ok (fs : Ramfs) (table : FdTable) : TableOk fs (mcsFdTableInit table) := by
  intro fd hfd hused
  rw [mcsFdTableInit_file table hfd] at hused
  exact absurd hused Bool.false_ne_true

/-- The invariant holds at the start. -/
theorem vfsInit_inv (s : VfsState) : VfsInv (vfsInit s) :=
  ⟨mcsRamfsInit_inv s.fs, fun i => mcsFdTableInit_ok _ (s.tables i)⟩

/-- Every run keeps the invariant. -/
theorem exec_inv (s : VfsState) (ops : List VfsOp) :
    VfsInv (Machine.exec vfsStep (vfsInit s) ops) :=
  Machine.exec_inv vfsStep (I := VfsInv) (fun _ op h => vfsStep_inv h op) ops _ (vfsInit_inv s)

/-- **RAMFS INVARIANT**: after any calls from the initial state, the node table
    is a tree, the extents lie side by side, every used descriptor refers to a
    node, and whatever a read, a write or a seed then touches lies in the extent
    of its own file. -/
theorem vfs_reachable_invariant {garbage s : VfsState} {ops : List VfsOp}
    (hs : Machine.exec vfsStep (vfsInit garbage) ops = s) :
    FsTree s.fs ∧ FsData s.fs ∧ (∀ i, TableOk s.fs (s.tables i)) ∧
    (∀ i fd buf len d t, readTransfer s.fs (s.tables i) fd buf len = .ok (d, t) →
      ((s.tables i).files d).node = some t.node ∧ InExtent s.fs t) ∧
    (∀ i fd buf len d t, (writeTransfer s.fs (s.tables i) fd buf len).1 = .ok (d, t) →
      ((s.tables i).files d).node = some t.node ∧ InExtent s.fs t) ∧
    (∀ path data len t, (mcsRamfsSeedFile s.fs path data len).1 = .ok t →
      InExtent (mcsRamfsSeedFile s.fs path data len).2 t) := by
  have h := exec_inv garbage ops
  rw [hs] at h
  refine ⟨h.fs.tree, h.fs.data, h.tables, ?_, ?_, ?_⟩
  · intro i fd buf len d t ht
    have hr := readTransfer_ok ht
    exact ⟨hr.node, hr.inExtent h.fs (h.tables i)⟩
  · intro i fd buf len d t ht
    have hw := writeTransfer_ok ht
    exact ⟨hw.node, hw.inExtent h.fs (h.tables i)⟩
  · intro path data len t ht
    exact (mcsRamfsSeedFile_inv h.fs path data len).2.2 t ht

/-- Uninitialised memory, for the runs below. -/
def garbage : VfsState :=
  ⟨⟨fun _ => ⟨true, 7, 7, .dir, fun _ => 0x61, 9, 9, 9⟩, 7, fun _ => 9, 9⟩,
    fun _ => ⟨fun _ => ⟨true, 7, 7, none, true⟩⟩⟩

/-- Seed `/a` with four bytes and open it. -/
def smallRun : List VfsOp :=
  [.seedFile (some [slash, 0x61]) (some (fun i => BitVec.ofNat 8 i)) 4,
    .vfsOpen 0 (some [slash, 0x61]) MCS_O_RDONLY]

/-- A read of a seeded file stays in its extent. -/
theorem vfs_reachable_invariant_small :
    readTransfer (Machine.exec vfsStep (vfsInit garbage) smallRun).fs
      ((Machine.exec vfsStep (vfsInit garbage) smallRun).tables 0) 0 true 16
      = .ok (0, ⟨1, 0, 4⟩) ∧
    InExtent (Machine.exec vfsStep (vfsInit garbage) smallRun).fs ⟨1, 0, 4⟩ := by
  have hread : readTransfer (Machine.exec vfsStep (vfsInit garbage) smallRun).fs
      ((Machine.exec vfsStep (vfsInit garbage) smallRun).tables 0) 0 true 16
      = .ok (0, ⟨1, 0, 4⟩) := by decide +kernel
  obtain ⟨-, -, -, htouch, -⟩ := vfs_reachable_invariant
    (s := Machine.exec vfsStep (vfsInit garbage) smallRun) rfl
  exact ⟨hread, (htouch 0 0 true 16 0 _ hread).2⟩

end VfsInvariant
