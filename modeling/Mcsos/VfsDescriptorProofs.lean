import Mathlib.Data.Fin.Basic
import Mcsos.VfsAccessProofs

/-! # The descriptor table is a finite map

    What a descriptor table is for: a map from the numbers below 16 to open
    files, each with its flags, its node and an offset of its own.  The calls are
    stated once more on such maps (`mapStep`); a number that is not open has
    nothing there, and a new descriptor gets the smallest such number.

    The table of `fd.c` is an array of slots that are taken before they are
    filled and given up in more than one way.  What a slot holds while it is not
    in use (a refused truncation leaves its flags and offset behind) is not part
    of the map, so that every call does with the table what it does with the map
    (`vfsStep_refines`) shows that none of it is ever seen again. -/

namespace VfsDescriptor

open Word Loop VfsModel VfsTree VfsInvariant VfsAccess

/-! ## The map -/

/-- An open file. -/
structure Desc where
  flags : U32
  node : Nat
  offset : U64
deriving DecidableEq, Repr

/-- The descriptors of a table: an open file behind each, or none. -/
abbrev FdMap := Fin MCS_MAX_OPEN_FILES → Option Desc

/-- The smallest number that is not open. -/
def FdMap.free (m : FdMap) : Option (Fin MCS_MAX_OPEN_FILES) := Fin.find? (fun d => (m d).isNone)

/-- The open file behind a number that a caller gives. -/
def FdMap.find (m : FdMap) (fd : Int) : Option (Fin MCS_MAX_OPEN_FILES × Desc) :=
  if h : 0 ≤ fd ∧ fd.toNat < MCS_MAX_OPEN_FILES then
    (m ⟨fd.toNat, h.2⟩).map (fun e => (⟨fd.toNat, h.2⟩, e))
  else none

/-- A descriptor is opened, or its file is changed. -/
def FdMap.put (m : FdMap) (d : Fin MCS_MAX_OPEN_FILES) (e : Desc) : FdMap :=
  Function.update m d (some e)

/-- A descriptor is closed. -/
def FdMap.drop (m : FdMap) (d : Fin MCS_MAX_OPEN_FILES) : FdMap := Function.update m d none

/-! ## The calls on the map -/

/-- Open a node at the first free descriptor. -/
def mapOpenNode (fs : Ramfs) (m : FdMap) (node : Nat) (flags : U32) :
    Except VfsErr Nat × Ramfs × FdMap :=
  if DirForWriting fs node flags then (.error .eisdir, fs, m)
  else
    match m.free with
    | none => (.error .enfile, fs, m)
    | some d =>
        if flags &&& MCS_O_TRUNC = 0 then
          (.ok d, fs, m.put d ⟨flags, node, openOffset fs node flags⟩)
        else if mcsCanWrite flags then (.ok d, setSize fs node 0, m.put d ⟨flags, node, 0⟩)
        else (.error .eacces, fs, m)

/-- Open a path. -/
def mapOpen (fs : Ramfs) (m : FdMap) (path : Option Path) (flags : U32) :
    Except VfsErr Nat × Ramfs × FdMap :=
  if path.isNone then (.error .einval, fs, m)
  else
    let flags := openFlags flags
    match mcsRamfsLookup fs path with
    | .ok node => mapOpenNode fs m node flags
    | .error rc =>
        if flags &&& MCS_O_CREAT = 0 then (.error rc, fs, m)
        else
          match mcsRamfsCreateFile fs path with
          | (.error rc, fs) => (.error rc, fs, m)
          | (.ok node, fs) => mapOpenNode fs m node flags

/-- Read at the descriptor's offset, and move it on. -/
def mapRead (fs : Ramfs) (m : FdMap) (fd : Int) (buf : Bool) (len : U64) :
    Except VfsErr Int × List U8 × FdMap :=
  if !buf ∧ len ≠ 0 then (.error .einval, [], m)
  else
    match m.find fd with
    | none => (.error .ebadf, [], m)
    | some (d, e) =>
        if !mcsCanRead e.flags then (.error .eacces, [], m)
        else if (fs.nodes e.node).type = .dir then (.error .eisdir, [], m)
        else
          let t : Transfer := ⟨e.node, e.offset, readCount fs e.node e.offset len⟩
          (.ok t.len.toInt, (List.range t.len.toNat).map (fun i => fs.data (t.start fs + i)),
            m.put d { e with offset := e.offset + t.len })

/-- Write at the descriptor's offset or at the end, and move it on. -/
def mapWrite (fs : Ramfs) (m : FdMap) (fd : Int) (buf : Option (Nat → U8)) (len : U64) :
    Except VfsErr Int × Ramfs × FdMap :=
  if !buf.isSome ∧ len ≠ 0 then (.error .einval, fs, m)
  else
    match m.find fd with
    | none => (.error .ebadf, fs, m)
    | some (d, e) =>
        if !mcsCanWrite e.flags then (.error .eacces, fs, m)
        else if (fs.nodes e.node).type = .dir then (.error .eisdir, fs, m)
        else
          let pos := if e.flags &&& MCS_O_APPEND ≠ 0 then (fs.nodes e.node).size else e.offset
          if pos > (fs.nodes e.node).dataCapacity then
            (.error .einval, fs, m.put d { e with offset := pos })
          else if (fs.nodes e.node).dataCapacity - pos < len then
            (.error .enospc, fs, m.put d { e with offset := pos })
          else
            (.ok len.toInt, writtenFs fs ⟨e.node, pos, len⟩ (buf.getD (fun _ => 0)),
              m.put d { e with offset := pos + len })

/-- Move the offset. -/
def mapLseek (fs : Ramfs) (m : FdMap) (fd : Int) (offset : U64) (whence : Int) :
    Except VfsErr Int × FdMap :=
  match m.find fd with
  | none => (.error .ebadf, m)
  | some (d, e) =>
      if (fs.nodes e.node).type = .dir then (.error .eisdir, m)
      else
        match seekBase fs e.node e.offset whence with
        | none => (.error .einval, m)
        | some base =>
            if (base + offset).toInt < 0 then (.error .einval, m)
            else
              (.ok ((base + offset).setWidth 32).toInt, m.put d { e with offset := base + offset })

/-- Close a descriptor. -/
def mapClose (m : FdMap) (fd : Int) : Except VfsErr Unit × FdMap :=
  match m.find fd with
  | none => (.error .ebadf, m)
  | some (d, _) => (.ok (), m.drop d)

/-- Copy a descriptor to the first free one. -/
def mapDup (m : FdMap) (fd : Int) : Except VfsErr Nat × FdMap :=
  match m.find fd with
  | none => (.error .ebadf, m)
  | some (_, e) =>
      match m.free with
      | none => (.error .enfile, m)
      | some d => (.ok d, m.put d e)

/-- One ramfs, and the descriptor maps that share it. -/
structure MapState where
  fs : Ramfs
  maps : Nat → FdMap

/-- Another map for one table. -/
def setMap (s : MapState) (i : Nat) (m : FdMap) : MapState :=
  { s with maps := Function.update s.maps i m }

/-- The file system as a machine on descriptor maps. -/
def mapStep (s : MapState) : VfsOp → VfsOut × MapState
  | .createFile path =>
      let r := mcsRamfsCreateFile s.fs path
      ((r.1.map (fun _ => 0), []), { s with fs := r.2 })
  | .seedFile path data len =>
      let r := mcsRamfsSeedFile s.fs path data len
      ((r.1.map (fun _ => 0), []), { s with fs := r.2 })
  | .vfsOpen i path flags =>
      let r := mapOpen s.fs (s.maps i) path flags
      ((r.1.map Int.ofNat, []), setMap { s with fs := r.2.1 } i r.2.2)
  | .vfsRead i fd buf len =>
      let r := mapRead s.fs (s.maps i) fd buf len
      ((r.1, r.2.1), setMap s i r.2.2)
  | .vfsWrite i fd buf len =>
      let r := mapWrite s.fs (s.maps i) fd buf len
      ((r.1, []), setMap { s with fs := r.2.1 } i r.2.2)
  | .vfsLseek i fd offset whence =>
      let r := mapLseek s.fs (s.maps i) fd offset whence
      ((r.1, []), setMap s i r.2)
  | .vfsClose i fd =>
      let r := mapClose (s.maps i) fd
      ((r.1.map (fun _ => 0), []), setMap s i r.2)
  | .vfsDup i fd =>
      let r := mapDup (s.maps i) fd
      ((r.1.map Int.ofNat, []), setMap s i r.2)

/-! ## The table as a map -/

/-- The map of the slots in use. -/
def toMap (table : FdTable) : FdMap := fun d =>
  if (table.files d).used then
    (table.files d).node.map (fun i => ⟨(table.files d).flags, i, (table.files d).offset⟩)
  else none

/-- The tables as maps. -/
def toMapState (s : VfsState) : MapState := ⟨s.fs, fun i => toMap (s.tables i)⟩

/-- The slot of an open file. -/
def Desc.toFile (e : Desc) : File := ⟨true, e.flags, e.offset, some e.node, true⟩

variable {fs : Ramfs} {table : FdTable} {s : VfsState}

theorem toMap_setFile (table : FdTable) (d : Fin MCS_MAX_OPEN_FILES) (file : File) :
    toMap (setFile table d file) = Function.update (toMap table) d
      (if file.used then file.node.map (fun i => ⟨file.flags, i, file.offset⟩) else none) := by
  funext j
  rw [toMap, setFile_file, Function.update_apply]
  by_cases hj : j = d
  · rw [if_pos (congrArg Fin.val hj), if_pos hj]
  · rw [if_neg (fun h => hj (Fin.ext h)), if_neg hj]
    rfl

theorem toMap_put (table : FdTable) (d : Fin MCS_MAX_OPEN_FILES) (e : Desc) :
    toMap (setFile table d e.toFile) = (toMap table).put d e :=
  toMap_setFile table d e.toFile

theorem toMap_drop (table : FdTable) (d : Fin MCS_MAX_OPEN_FILES) {file : File}
    (h : file.used = false) : toMap (setFile table d file) = (toMap table).drop d := by
  rw [toMap_setFile, h]
  rfl

/-- A slot in use is the slot of an open file. -/
theorem used_slot (hT : TableOk fs table) {d : Nat} (hd : d < MCS_MAX_OPEN_FILES)
    (hused : (table.files d).used = true) :
    ∃ e : Desc, table.files d = e.toFile ∧ toMap table ⟨d, hd⟩ = some e := by
  obtain ⟨hfs, i, hi, -⟩ := hT d hd hused
  refine ⟨⟨(table.files d).flags, i, (table.files d).offset⟩, ?_, ?_⟩
  · -- an open slot has a node and a file system, so nothing of it is lost in the map
    cases hfile : table.files d with
    | mk used flags offset node inFs =>
        rw [hfile] at hused hfs hi
        obtain rfl : used = true := hused
        obtain rfl : inFs = true := hfs
        obtain rfl : node = some i := hi
        rfl
  · show (if (table.files d).used then _ else none) = _
    rw [if_pos hused, hi]
    rfl

/-- A descriptor is closed exactly if its slot is unused. -/
theorem toMap_none_iff (hT : TableOk fs table) (d : Fin MCS_MAX_OPEN_FILES) :
    toMap table d = none ↔ (table.files d).used = false := by
  cases hused : (table.files d).used with
  | false =>
      refine iff_of_true ?_ rfl
      rw [toMap, hused]
      rfl
  | true =>
      obtain ⟨e, -, hmap⟩ := used_slot hT d.2 hused
      exact iff_of_false (by rw [hmap]; exact Option.some_ne_none e) Bool.noConfusion

/-- What a caller's number stands for, in the table and in the map. -/
theorem find_cases (hT : TableOk fs table) (fd : Int) :
    (mcsFdGet table fd = none ∧ (toMap table).find fd = none) ∨
    ∃ (d : Fin MCS_MAX_OPEN_FILES) (e : Desc), mcsFdGet table fd = some d.val ∧
      (toMap table).find fd = some (d, e) ∧ table.files d = e.toFile := by
  rw [mcsFdGet, FdMap.find]
  by_cases hrange : 0 ≤ fd ∧ fd.toNat < MCS_MAX_OPEN_FILES
  · rw [if_neg (by omega), dif_pos hrange]
    cases hused : (table.files fd.toNat).used with
    | false =>
        refine Or.inl ⟨rfl, ?_⟩
        rw [(toMap_none_iff hT ⟨fd.toNat, hrange.2⟩).mpr hused]
        rfl
    | true =>
        obtain ⟨e, hfile, hmap⟩ := used_slot hT hrange.2 hused
        refine Or.inr ⟨⟨fd.toNat, hrange.2⟩, e, rfl, ?_, hfile⟩
        rw [hmap]
        rfl
  · rw [if_pos (by omega), dif_neg hrange]
    exact Or.inl ⟨rfl, rfl⟩

/-- The first free slot is the first free descriptor. -/
theorem free_of_firstFree (hT : TableOk fs table) {d : Nat} (h : FirstFree table d) :
    (toMap table).free = some ⟨d, h.lt⟩ := by
  refine Fin.find?_eq_some_iff.mpr ⟨?_, ?_⟩
  · rw [(toMap_none_iff hT ⟨d, h.lt⟩).mpr h.free]
    rfl
  · intro j hj
    obtain ⟨e, -, hmap⟩ := used_slot hT j.2 (h.below j hj)
    rw [hmap]
    rfl

/-- A full table has none. -/
theorem free_of_allUsed (hT : TableOk fs table) (h : AllUsed table) :
    (toMap table).free = none := by
  refine Fin.find?_eq_none_iff.mpr (fun j => ?_)
  obtain ⟨e, -, hmap⟩ := used_slot hT j.2 (h j j.2)
  rw [hmap]
  rfl

/-- A slot that was not in use and still is not. -/
theorem toMap_unused (hT : TableOk fs table) {d₀ : Nat} {file : File} (hfree : FirstFree table d₀)
    (hfile : file.used = false) : toMap (setFile table d₀ file) = toMap table := by
  have hnone := (toMap_none_iff hT ⟨d₀, hfree.lt⟩).mpr hfree.free
  rw [toMap_drop table ⟨d₀, hfree.lt⟩ hfile, FdMap.drop, ← hnone, Function.update_eq_self]

/-! ## The calls refine the calls on the map -/

/-- Opening a node in the table is opening it in the map. -/
theorem openNode_refines (hT : TableOk fs table) (node : Nat) (flags : U32) :
    mapOpenNode fs (toMap table) node flags =
      ((openNode fs table node flags).1, (openNode fs table node flags).2.1,
        toMap (openNode fs table node flags).2.2) := by
  -- each outcome of the open is one branch of the map's
  have h := openNode_opens fs table node flags
  generalize openNode fs table node flags = r at h ⊢
  rw [mapOpenNode]
  cases h with
  | directory h => rw [if_pos h]
  | full h hfull =>
      rw [if_neg h, free_of_allUsed hT hfull]
  | denied hd htrunc hwrite =>
      have hdir : ¬ DirForWriting fs node flags := by
        rintro ⟨-, hcan⟩
        rw [hwrite] at hcan
        cases hcan
      rw [if_neg hdir, free_of_firstFree hT hd]
      simp only [if_neg htrunc, hwrite, Bool.false_eq_true, if_false]
      rw [toMap_unused hT hd rfl]
  | truncates hd htrunc hwrite hfile =>
      have hdir : ¬ DirForWriting fs node flags := by
        rintro ⟨hdir, -⟩
        rw [hfile] at hdir
        cases hdir
      rw [if_neg hdir, free_of_firstFree hT hd]
      simp only [if_neg htrunc, hwrite, if_true]
      rw [← toMap_put]
      rfl
  | opens hd htrunc h =>
      rw [if_neg h, free_of_firstFree hT hd]
      simp only [if_pos htrunc]
      rw [← toMap_put]
      rfl

/-- Opening a path in the table is opening it in the map. -/
theorem open_refines (hF : FsInv fs) (hT : TableOk fs table) (path : Option Path) (flags : U32) :
    mapOpen fs (toMap table) path flags =
      ((mcsVfsOpen fs table path flags).1, (mcsVfsOpen fs table path flags).2.1,
        toMap (mcsVfsOpen fs table path flags).2.2) := by
  rw [mapOpen, mcsVfsOpen]
  by_cases hpath : path.isNone = true
  · rw [if_pos hpath, if_pos hpath]
  rw [if_neg hpath, if_neg hpath]
  cases hlook : mcsRamfsLookup fs path with
  | ok node => exact openNode_refines hT node _
  | error e =>
      simp only
      by_cases hcreat : openFlags flags &&& MCS_O_CREAT = 0
      · rw [if_pos hcreat, if_pos hcreat]
      rw [if_neg hcreat, if_neg hcreat]
      obtain ⟨-, hle, -⟩ := hF.createFile path
      cases hnew : mcsRamfsCreateFile fs path with
      | mk r fs' =>
          rw [hnew] at hle
          cases r with
          | error rc => rfl
          | ok node => exact openNode_refines (hT.mono hle) node _

/-- The checks in front of a transfer, behind an open file. -/
theorem checkOpen_desc {β : Type} {can : U32 → Bool} {fd : Int} {buf : Bool} {len : U64}
    {fail : VfsErr → β} {go : Nat → Nat → β} {d : Nat} {e : Desc}
    (hbuf : ¬ ((!buf) = true ∧ len ≠ 0)) (hget : mcsFdGet table fd = some d)
    (hfile : table.files d = e.toFile) :
    checkOpen can fs table fd buf len fail go =
      if !can e.flags then fail .eacces
      else if (fs.nodes e.node).type = .dir then fail .eisdir
      else go d e.node := by
  rw [checkOpen, if_neg hbuf, hget]
  simp only [hfile, Desc.toFile, Bool.not_true, Bool.false_eq_true, if_false]

/-- The checks of a read behind an open file. -/
theorem readTransfer_desc {fd : Int} {buf : Bool} {len : U64} {d : Nat} {e : Desc}
    (hbuf : ¬ ((!buf) = true ∧ len ≠ 0)) (hget : mcsFdGet table fd = some d)
    (hfile : table.files d = e.toFile) :
    readTransfer fs table fd buf len =
      if !mcsCanRead e.flags then .error .eacces
      else if (fs.nodes e.node).type = .dir then .error .eisdir
      else .ok (d, ⟨e.node, e.offset, readCount fs e.node e.offset len⟩) := by
  rw [readTransfer_eq, checkOpen_desc hbuf hget hfile]
  simp only [hfile, Desc.toFile, readCount]
  by_cases hend : e.offset ≥ (fs.nodes e.node).size
  · simp only [if_pos hend]
  · simp only [if_neg hend]

/-- A read of the table is a read of the map. -/
theorem read_refines (hT : TableOk fs table) (fd : Int) (buf : Bool) (len : U64) :
    mapRead fs (toMap table) fd buf len =
      ((mcsVfsRead fs table fd buf len).1, (mcsVfsRead fs table fd buf len).2.1,
        toMap (mcsVfsRead fs table fd buf len).2.2) := by
  rw [mapRead, mcsVfsRead]
  by_cases hbuf : (!buf) = true ∧ len ≠ 0
  · rw [if_pos hbuf, readTransfer, if_pos hbuf]
  rw [if_neg hbuf]
  rcases find_cases hT fd with ⟨hget, hfind⟩ | ⟨d, e, hget, hfind, hfile⟩
  · rw [readTransfer, if_neg hbuf, hget, hfind]
  · rw [readTransfer_desc hbuf hget hfile, hfind]
    cases hread : mcsCanRead e.flags with
    | false => simp only [hread, Bool.not_false, if_true]
    | true =>
        by_cases hdir : (fs.nodes e.node).type = .dir
        · simp only [hread, hdir, Bool.not_true, Bool.false_eq_true, if_false, if_true]
        · simp only [hread, if_neg hdir, hfile, Bool.not_true, Bool.false_eq_true, if_false]
          rw [← toMap_put]
          rfl

/-- The checks of a write behind an open file. -/
theorem writeTransfer_desc {fd : Int} {buf : Bool} {len : U64} {d : Nat} {e : Desc}
    (hbuf : ¬ ((!buf) = true ∧ len ≠ 0)) (hget : mcsFdGet table fd = some d)
    (hfile : table.files d = e.toFile) :
    writeTransfer fs table fd buf len =
      if !mcsCanWrite e.flags then (.error .eacces, table)
      else if (fs.nodes e.node).type = .dir then (.error .eisdir, table)
      else
        (if writePos fs e.toFile e.node > (fs.nodes e.node).dataCapacity then .error .einval
          else if (fs.nodes e.node).dataCapacity - writePos fs e.toFile e.node < len then
            .error .enospc
          else .ok (d, ⟨e.node, writePos fs e.toFile e.node, len⟩),
        setFile table d { e.toFile with offset := writePos fs e.toFile e.node }) := by
  cases hwrite : mcsCanWrite e.flags with
  | false =>
      rw [writeTransfer_eq, checkOpen_desc hbuf hget hfile]
      simp only [hwrite, Bool.not_false, if_true]
  | true =>
      by_cases hdir : (fs.nodes e.node).type = .dir
      · rw [writeTransfer_eq, checkOpen_desc hbuf hget hfile]
        simp only [hwrite, hdir, Bool.not_true, Bool.false_eq_true, if_false, if_true]
      · have ho : OpenFor mcsCanWrite fs table fd d e.node :=
          ⟨hget, by rw [hfile]; exact hwrite, by rw [hfile]; rfl, by rw [hfile]; rfl,
            file_of_not_dir hdir⟩
        rw [writeTransfer_open (buffer_valid hbuf) ho, hfile]
        simp only [Bool.not_true, Bool.false_eq_true, if_false, if_neg hdir]

/-- A write through the table is a write through the map. -/
theorem write_refines (hT : TableOk fs table) (fd : Int) (buf : Option (Nat → U8)) (len : U64) :
    mapWrite fs (toMap table) fd buf len =
      ((mcsVfsWrite fs table fd buf len).1, (mcsVfsWrite fs table fd buf len).2.1,
        toMap (mcsVfsWrite fs table fd buf len).2.2) := by
  rw [mapWrite, mcsVfsWrite]
  by_cases hbuf : (!buf.isSome) = true ∧ len ≠ 0
  · rw [if_pos hbuf, writeTransfer, if_pos hbuf]
  rw [if_neg hbuf]
  rcases find_cases hT fd with ⟨hget, hfind⟩ | ⟨d, e, hget, hfind, hfile⟩
  · rw [writeTransfer, if_neg hbuf, hget, hfind]
  · rw [writeTransfer_desc hbuf hget hfile, hfind]
    cases hwrite : mcsCanWrite e.flags with
    | false => simp only [hwrite, Bool.not_false, if_true]
    | true =>
        by_cases hdir : (fs.nodes e.node).type = .dir
        · simp only [hwrite, hdir, Bool.not_true, Bool.false_eq_true, if_false, if_true]
        · -- also a refused write may leave its position in the offset
          have hmove : ∀ offset : U64, toMap (setFile table d { e.toFile with offset := offset })
              = (toMap table).put d { e with offset := offset } :=
            fun offset => toMap_put table d { e with offset := offset }
          have hpos : (if e.flags &&& MCS_O_APPEND ≠ 0 then (fs.nodes e.node).size else e.offset)
              = writePos fs e.toFile e.node := rfl
          simp only [hwrite, if_neg hdir, Bool.not_true, Bool.false_eq_true, if_false, hpos]
          by_cases hlarge : writePos fs e.toFile e.node > (fs.nodes e.node).dataCapacity
          · simp only [if_pos hlarge, hmove]
          · simp only [if_neg hlarge]
            by_cases hshort : (fs.nodes e.node).dataCapacity - writePos fs e.toFile e.node < len
            · simp only [if_pos hshort, hmove]
            · simp only [if_neg hshort, setFile_setFile, setFile_file, if_pos, hmove]
              rfl

/-- Moving an open file, in the table and in the map. -/
theorem seek_refines (d : Fin MCS_MAX_OPEN_FILES) (e : Desc) (next : U64) :
    (if next.toInt < 0 then (.error .einval, toMap table)
      else (.ok (next.setWidth 32).toInt, (toMap table).put d { e with offset := next }))
    = Prod.map id toMap
      (if next.toInt < 0 then ((.error .einval, table) : Except VfsErr Int × FdTable)
      else (.ok (next.setWidth 32).toInt,
        setFile table d { e.toFile with offset := next })) := by
  split
  · rfl
  · rw [← toMap_put]
    rfl

/-- A seek in the table is a seek in the map. -/
theorem lseek_refines (hT : TableOk fs table) (fd : Int) (offset : U64) (whence : Int) :
    mapLseek fs (toMap table) fd offset whence =
      ((mcsVfsLseek fs table fd offset whence).1,
        toMap (mcsVfsLseek fs table fd offset whence).2) := by
  rw [mapLseek, mcsVfsLseek]
  rcases find_cases hT fd with ⟨hget, hfind⟩ | ⟨d, e, hget, hfind, hfile⟩
  · rw [hget, hfind]
  · have hseek := fun base => @seek_refines table d e (base + offset)
    rw [hget, hfind]
    simp only [hfile, Desc.toFile, seekBase]
    by_cases hdir : (fs.nodes e.node).type = .dir
    · rw [if_pos hdir, if_pos hdir]
    rw [if_neg hdir, if_neg hdir]
    by_cases hset : whence = MCS_SEEK_SET
    · simp only [if_pos hset]
      exact hseek 0
    simp only [if_neg hset]
    by_cases hcur : whence = MCS_SEEK_CUR
    · simp only [if_pos hcur]
      exact hseek e.offset
    simp only [if_neg hcur]
    by_cases hend : whence = MCS_SEEK_END
    · simp only [if_pos hend]
      exact hseek (fs.nodes e.node).size
    · simp only [if_neg hend]

/-- A close in the table is a close in the map. -/
theorem close_refines (hT : TableOk fs table) (fd : Int) :
    mapClose (toMap table) fd =
      ((mcsVfsClose table fd).1, toMap (mcsVfsClose table fd).2) := by
  rw [mapClose, mcsVfsClose]
  rcases find_cases hT fd with ⟨hget, hfind⟩ | ⟨d, e, hget, hfind, -⟩
  · rw [hget, hfind]
  · rw [hget, hfind]
    simp only [toMap_drop]

/-- A duplicate in the table is one in the map. -/
theorem dup_refines (hT : TableOk fs table) (fd : Int) :
    mapDup (toMap table) fd = ((mcsVfsDup table fd).1, toMap (mcsVfsDup table fd).2) := by
  rw [mapDup]
  rcases find_cases hT fd with ⟨hget, hfind⟩ | ⟨d, e, hget, hfind, hfile⟩
  · rw [hfind, mcsVfsDup, hget]
  · rw [hfind]
    rcases mcsVfsDup_cases table fd with
      ⟨hnone, -⟩ | ⟨d', -, hfull, heq⟩ | ⟨d', d'', hd', hfree, heq⟩
    · rw [hget] at hnone
      cases hnone
    · rw [heq]
      simp only [free_of_allUsed hT hfull]
    · rw [heq]
      obtain rfl : d.val = d' := Option.some.inj (hget.symm.trans hd')
      simp only [free_of_firstFree hT hfree, hfile]
      rw [← toMap_put]
      rfl

theorem toMapState_setTable (s : VfsState) (i : Nat) (table : FdTable) :
    toMapState (setTable s i table) = setMap (toMapState s) i (toMap table) := by
  rw [toMapState, setMap]
  congr 1
  funext j
  exact Function.apply_update (fun _ => toMap) s.tables i table j

/-- **STEP**: a call answers and does with the tables what it does with the maps. -/
theorem vfsStep_refines (hI : VfsInv s) (op : VfsOp) :
    mapStep (toMapState s) op = ((vfsStep s op).1, toMapState (vfsStep s op).2) := by
  cases op with
  | createFile path => rfl
  | seedFile path data len => rfl
  | vfsOpen i path flags =>
      simp only [mapStep, vfsStep, toMapState_setTable]
      simp only [toMapState, open_refines hI.fs (hI.tables i)]
  | vfsRead i fd buf len =>
      simp only [mapStep, vfsStep, toMapState_setTable]
      simp only [toMapState, read_refines (hI.tables i)]
  | vfsWrite i fd buf len =>
      simp only [mapStep, vfsStep, toMapState_setTable]
      simp only [toMapState, write_refines (hI.tables i)]
  | vfsLseek i fd offset whence =>
      simp only [mapStep, vfsStep, toMapState_setTable]
      simp only [toMapState, lseek_refines (hI.tables i)]
  | vfsClose i fd =>
      simp only [mapStep, vfsStep, toMapState_setTable]
      simp only [toMapState, close_refines (hI.tables i)]
  | vfsDup i fd =>
      simp only [mapStep, vfsStep, toMapState_setTable]
      simp only [toMapState, dup_refines (hI.tables i)]

/-- All numbers are free. -/
def emptyMaps (fs : Ramfs) : MapState := ⟨fs, fun _ _ => none⟩

/-- Every table is empty at the start. -/
theorem toMapState_init (garbage : VfsState) :
    toMapState (vfsInit garbage) = emptyMaps (mcsRamfsInit garbage.fs) := by
  rw [toMapState, emptyMaps]
  congr 1
  funext i d
  exact (toMap_none_iff (mcsFdTableInit_ok (vfsInit garbage).fs (garbage.tables i)) d).mpr
    (congrArg File.used (mcsFdTableInit_file (garbage.tables i) d.2))

/-- **RUN**: the tables and the maps answer alike and stay alike. -/
theorem run_refines (garbage : VfsState) (ops : List VfsOp) :
    Machine.outputs vfsStep (vfsInit garbage) ops
        = Machine.outputs mapStep (emptyMaps (mcsRamfsInit garbage.fs)) ops ∧
      toMapState (Machine.exec vfsStep (vfsInit garbage) ops)
        = Machine.exec mapStep (emptyMaps (mcsRamfsInit garbage.fs)) ops := by
  have hinit : VfsInv (vfsInit garbage) ∧
      toMapState (vfsInit garbage) = emptyMaps (mcsRamfsInit garbage.fs) :=
    ⟨vfsInit_inv garbage, toMapState_init garbage⟩
  have hstep : ∀ s t op, VfsInv s ∧ toMapState s = t →
      (vfsStep s op).1 = (mapStep t op).1 ∧
        VfsInv (vfsStep s op).2 ∧ toMapState (vfsStep s op).2 = (mapStep t op).2 := by
    rintro s t op ⟨hI, rfl⟩
    rw [vfsStep_refines hI op]
    exact ⟨rfl, vfsStep_inv hI op, rfl⟩
  exact ⟨Machine.outputs_bisim vfsStep mapStep hstep ops _ _ hinit,
    (Machine.exec_bisim vfsStep mapStep (fun s t op h => (hstep s t op h).2) ops _ _ hinit).2⟩

/-! ## The rules of descriptors -/

/-- The smallest number that is not open. -/
def Smallest (m : FdMap) (d : Fin MCS_MAX_OPEN_FILES) : Prop := m d = none ∧ ∀ j < d, m j ≠ none

/-- Every number is open. -/
def Full (m : FdMap) : Prop := ∀ d, m d ≠ none

/-- The first free descriptor is the smallest. -/
theorem free_smallest {m : FdMap} {d : Fin MCS_MAX_OPEN_FILES} (h : m.free = some d) :
    Smallest m d := by
  obtain ⟨hnone, hbelow⟩ := Fin.find?_eq_some_iff.mp h
  refine ⟨Option.isNone_iff_eq_none.mp hnone, fun j hj hc => ?_⟩
  have hused := hbelow j hj
  rw [hc] at hused
  cases hused

theorem firstFree_smallest (hT : TableOk fs table) {d : Nat} (h : FirstFree table d) :
    Smallest (toMap table) ⟨d, h.lt⟩ :=
  free_smallest (free_of_firstFree hT h)

/-- The map is full exactly if the table is. -/
theorem full_iff (hT : TableOk fs table) : Full (toMap table) ↔ AllUsed table := by
  constructor
  · intro h i hi
    by_contra hused
    exact h ⟨i, hi⟩ ((toMap_none_iff hT ⟨i, hi⟩).mpr (Bool.eq_false_iff.mpr hused))
  · intro h d hnone
    have hused := (toMap_none_iff hT d).mp hnone
    rw [h d d.2] at hused
    cases hused

/-- The calls on a descriptor, with its number and a buffer that is there. -/
def onDescriptor : VfsOp → Option (Nat × Int)
  | .vfsRead i fd true _ => some (i, fd)
  | .vfsWrite i fd (some _) _ => some (i, fd)
  | .vfsLseek i fd _ _ => some (i, fd)
  | .vfsClose i fd => some (i, fd)
  | .vfsDup i fd => some (i, fd)
  | _ => none

/-- The descriptor a call works on: the one it is given, or the new one it returns. -/
def worksOn (op : VfsOp) (out : VfsOut) : Option (Nat × Int) :=
  match op with
  | .vfsRead i fd _ _ | .vfsWrite i fd _ _ | .vfsLseek i fd _ _ | .vfsClose i fd => some (i, fd)
  | .vfsOpen i _ _ | .vfsDup i _ => out.1.toOption.map (fun n => (i, n))
  | .createFile _ | .seedFile _ _ _ => none

/-- An open that gets as far as allocating a descriptor. -/
inductive Allocates (fs : Ramfs) (path : Option Path) (flags : U32) : Prop where
  | found {node : Nat} (hlook : mcsRamfsLookup fs path = .ok node)
      (hdir : ¬ DirForWriting fs node (openFlags flags))
  | created {p : Nat} {leaf : Path} (hcreat : openFlags flags &&& MCS_O_CREAT ≠ 0)
      (hnew : Creates fs path p leaf)

/-- **DESCRIPTOR RULES**: what holds of every call made in state `s`. -/
structure DescriptorRules (s : VfsState) : Prop where
  /-- A new descriptor gets the smallest number that is not open. -/
  smallest : ∀ op i n, (vfsStep s op).1.1 = .ok n →
    ((∃ path flags, op = .vfsOpen i path flags) ∨ ∃ fd, op = .vfsDup i fd) →
    ∃ d : Fin MCS_MAX_OPEN_FILES, n = d.val ∧ Smallest (toMap (s.tables i)) d
  /-- Allocation fails exactly when all numbers are open. -/
  open_full : ∀ i path flags, Allocates s.fs path flags →
    ((vfsStep s (.vfsOpen i path flags)).1.1 = .error .enfile ↔ Full (toMap (s.tables i)))
  dup_full : ∀ i fd, (toMap (s.tables i)).find fd ≠ none →
    ((vfsStep s (.vfsDup i fd)).1.1 = .error .enfile ↔ Full (toMap (s.tables i)))
  /-- A number that is not open is refused, and nothing changes. -/
  closed : ∀ op i fd, onDescriptor op = some (i, fd) → (toMap (s.tables i)).find fd = none →
    vfsStep s op = ((.error .ebadf, []), s)
  /-- All descriptors but the one a call works on stay as they are. -/
  others : ∀ op i (d : Fin MCS_MAX_OPEN_FILES),
    worksOn op (vfsStep s op).1 ≠ some (i, (d.val : Int)) →
    toMap ((vfsStep s op).2.tables i) d = toMap (s.tables i) d

/-- An open returns the first free slot. -/
theorem firstFree_of_opens {path : Option Path} {flags : U32}
    {r : Except VfsErr Nat × Ramfs × FdTable} (h : Opens fs table path flags r) {d : Nat}
    (hd : r.1 = .ok d) : FirstFree table d := by
  have hnode : ∀ {fs : Ramfs} {node : Nat} {flags : U32}, OpensNode fs table node flags r →
      FirstFree table d := by
    intro fs node flags h
    cases h with
    | directory => cases hd
    | full => cases hd
    | denied => cases hd
    | truncates hfree => cases hd; exact hfree
    | opens hfree => cases hd; exact hfree
  cases h with
  | refused => cases hd
  | found _ h => exact hnode h
  | created _ _ h => exact hnode h

/-- Opens and duplicates return the smallest free descriptor. -/
theorem rules_smallest (hI : VfsInv s) {op : VfsOp} {i : Nat} {n : Int}
    (hn : (vfsStep s op).1.1 = .ok n)
    (hop : (∃ path flags, op = .vfsOpen i path flags) ∨ ∃ fd, op = .vfsDup i fd) :
    ∃ d : Fin MCS_MAX_OPEN_FILES, n = d.val ∧ Smallest (toMap (s.tables i)) d := by
  rcases hop with ⟨path, flags, rfl⟩ | ⟨fd, rfl⟩
  · have hopens := mcsVfsOpen_opens hI.fs.tree (s.tables i) path flags
    simp only [vfsStep] at hn
    cases hr : (mcsVfsOpen s.fs (s.tables i) path flags).1 with
    | error e =>
        rw [hr] at hn
        cases hn
    | ok d =>
        rw [hr] at hn
        have hfree := firstFree_of_opens hopens hr
        exact ⟨⟨d, hfree.lt⟩, (Except.ok.inj hn).symm, firstFree_smallest (hI.tables i) hfree⟩
  · simp only [vfsStep] at hn
    rcases mcsVfsDup_cases (s.tables i) fd with
      ⟨-, heq⟩ | ⟨d, -, -, heq⟩ | ⟨d, d', -, hfree, heq⟩
    · rw [heq] at hn
      cases hn
    · rw [heq] at hn
      cases hn
    · rw [heq] at hn
      exact ⟨⟨d', hfree.lt⟩, (Except.ok.inj hn).symm, firstFree_smallest (hI.tables i) hfree⟩

theorem openNode_full {node : Nat} {flags : U32} (hdir : ¬ DirForWriting fs node flags) :
    (openNode fs table node flags).1 = .error .enfile ↔ AllUsed table := by
  have h := openNode_opens fs table node flags
  generalize openNode fs table node flags = r at h ⊢
  cases h with
  | directory h => exact absurd h hdir
  | full _ hfull => exact iff_of_true rfl hfull
  | denied hd => exact iff_of_false (fun h => by cases h) hd.not_allUsed
  | truncates hd => exact iff_of_false (fun h => by cases h) hd.not_allUsed
  | opens hd => exact iff_of_false (fun h => by cases h) hd.not_allUsed

/-- An open that needs a descriptor fails exactly if there is none. -/
theorem rules_open_full (hI : VfsInv s) (i : Nat) {path : Option Path} {flags : U32}
    (h : Allocates s.fs path flags) :
    (vfsStep s (.vfsOpen i path flags)).1.1 = .error .enfile ↔ Full (toMap (s.tables i)) := by
  -- the answer's type does not change which error it is
  have hout : ∀ r : Except VfsErr Nat,
      r.map Int.ofNat = .error .enfile ↔ r = .error .enfile := by
    intro r
    cases r with
    | error e => simp [Except.map]
    | ok n => simp [Except.map]
  simp only [vfsStep]
  rw [hout, full_iff (hI.tables i)]
  cases h with
  | found hlook hdir =>
      have hpath : ¬ path.isNone = true := by
        intro hnone
        obtain rfl := Option.isNone_iff_eq_none.mp hnone
        cases hlook
      rw [mcsVfsOpen, if_neg hpath]
      simp only [hlook]
      exact openNode_full hdir
  | created hcreat hnew =>
      rw [mcsVfsOpen_creates hI.fs.tree _ hcreat hnew]
      refine openNode_full (fun hdir => ?_)
      have htype := hdir.1
      rw [addFile_new] at htype
      cases htype

/-- A duplicate of an open descriptor fails exactly if there is no free one. -/
theorem rules_dup_full (hI : VfsInv s) (i : Nat) {fd : Int}
    (h : (toMap (s.tables i)).find fd ≠ none) :
    (vfsStep s (.vfsDup i fd)).1.1 = .error .enfile ↔ Full (toMap (s.tables i)) := by
  simp only [vfsStep]
  rw [full_iff (hI.tables i)]
  rcases mcsVfsDup_cases (s.tables i) fd with
    ⟨hnone, -⟩ | ⟨d, -, hfull, heq⟩ | ⟨d, d', -, hfree, heq⟩
  · rcases find_cases (hI.tables i) fd with ⟨-, hfind⟩ | ⟨d, e, hget, -, -⟩
    · exact absurd hfind h
    · rw [hget] at hnone
      cases hnone
  · rw [heq]
    exact iff_of_true rfl hfull
  · rw [heq]
    exact iff_of_false (fun h => by cases h) hfree.not_allUsed

theorem setTable_self (s : VfsState) (i : Nat) : setTable s i (s.tables i) = s := by
  rw [setTable, Function.update_eq_self]

/-- A call on a closed descriptor fails and changes nothing. -/
theorem rules_closed (hI : VfsInv s) {op : VfsOp} {i : Nat} {fd : Int}
    (hop : onDescriptor op = some (i, fd)) (h : (toMap (s.tables i)).find fd = none) :
    vfsStep s op = ((.error .ebadf, []), s) := by
  have hget : mcsFdGet (s.tables i) fd = none := by
    rcases find_cases (hI.tables i) fd with ⟨hget, -⟩ | ⟨d, e, -, hfind, -⟩
    · exact hget
    · rw [hfind] at h
      cases h
  unfold onDescriptor at hop
  split at hop
  · cases hop
    simp [vfsStep, mcsVfsRead, readTransfer, hget, setTable_self]
  · cases hop
    simp [vfsStep, mcsVfsWrite, writeTransfer, hget, setTable_self]
  · cases hop
    simp [vfsStep, mcsVfsLseek, hget, setTable_self]
  · cases hop
    simp [vfsStep, mcsVfsClose, hget, setTable_self, Except.map]
  · cases hop
    simp [vfsStep, mcsVfsDup, hget, setTable_self, Except.map]
  · cases hop

/-! ### The other descriptors -/

theorem toMap_setFile_other {d : Nat} {file : File} {j : Fin MCS_MAX_OPEN_FILES} (hne : j.val ≠ d) :
    toMap (setFile table d file) j = toMap table j := by
  simp only [toMap, setFile_file, if_neg hne]

/-- A call through a descriptor changes that slot at most. -/
theorem toMap_slot_other {fd : Int} {d₀ : Nat} {file : File} {d : Fin MCS_MAX_OPEN_FILES}
    (hget : mcsFdGet table fd = some d₀) (hne : fd ≠ (d.val : Int)) :
    toMap (setFile table d₀ file) d = toMap table d := by
  refine toMap_setFile_other (fun h => hne ?_)
  rw [h]
  exact (mcsFdGet_some hget).2.1

theorem opensNode_others (hT : TableOk fs table) {fs' : Ramfs} {node : Nat} {flags : U32}
    {r : Except VfsErr Nat × Ramfs × FdTable} {d : Fin MCS_MAX_OPEN_FILES}
    (h : OpensNode fs' table node flags r) (hne : r.1 ≠ .ok d.val) :
    toMap r.2.2 d = toMap table d := by
  cases h with
  | directory => rfl
  | full => rfl
  | denied hfree => rw [toMap_unused hT hfree rfl]
  | truncates => exact toMap_setFile_other (fun h => hne (congrArg Except.ok h.symm))
  | opens => exact toMap_setFile_other (fun h => hne (congrArg Except.ok h.symm))

theorem opens_others (hT : TableOk fs table) {path : Option Path} {flags : U32}
    {r : Except VfsErr Nat × Ramfs × FdTable} {d : Fin MCS_MAX_OPEN_FILES}
    (h : Opens fs table path flags r) (hne : r.1 ≠ .ok d.val) : toMap r.2.2 d = toMap table d := by
  cases h with
  | refused => rfl
  | found _ h => exact opensNode_others hT h hne
  | created _ _ h => exact opensNode_others hT h hne

theorem toMap_moves_other {table' : FdTable} {fd : Int} {d : Fin MCS_MAX_OPEN_FILES}
    (hm : MovesOffset table fd table') (hne : fd ≠ (d.val : Int)) :
    toMap table' d = toMap table d := by
  cases hm with
  | stays => rfl
  | moves hget => exact toMap_slot_other hget hne

/-- A call changes one table at most. -/
theorem tables_others {fs : Ramfs} {i j : Nat} {d : Fin MCS_MAX_OPEN_FILES}
    (h : i = j → toMap table d = toMap (s.tables j) d) :
    toMap ((setTable { s with fs := fs } j table).tables i) d = toMap (s.tables i) d := by
  show toMap (Function.update s.tables j table i) d = _
  by_cases hij : i = j
  · rw [hij, Function.update_self]
    exact h hij
  · rw [Function.update_of_ne hij]

/-- A call changes no descriptor but the one it works on. -/
theorem rules_others (hI : VfsInv s) (op : VfsOp) (i : Nat) (d : Fin MCS_MAX_OPEN_FILES)
    (hne : worksOn op (vfsStep s op).1 ≠ some (i, (d.val : Int))) :
    toMap ((vfsStep s op).2.tables i) d = toMap (s.tables i) d := by
  cases op with
  | createFile => rfl
  | seedFile => rfl
  | vfsOpen j path flags =>
      refine tables_others (fun hij => ?_)
      -- a failed open leaves its slot unused
      refine opens_others (hI.tables j) (mcsVfsOpen_opens hI.fs.tree (s.tables j) path flags)
        (fun hok => hne ?_)
      simp only [worksOn, vfsStep, hok, hij]
      rfl
  | vfsRead j fd buf len =>
      refine tables_others (fun hij => ?_)
      have hfd : fd ≠ (d.val : Int) := fun h => hne (by rw [worksOn, h, hij])
      exact toMap_moves_other (mcsVfsRead_moves ..) hfd
  | vfsWrite j fd buf len =>
      refine tables_others (fun hij => ?_)
      have hfd : fd ≠ (d.val : Int) := fun h => hne (by rw [worksOn, h, hij])
      exact toMap_moves_other (mcsVfsWrite_moves ..) hfd
  | vfsLseek j fd offset whence =>
      refine tables_others (fun hij => ?_)
      have hfd : fd ≠ (d.val : Int) := fun h => hne (by rw [worksOn, h, hij])
      exact toMap_moves_other (mcsVfsLseek_moves ..) hfd
  | vfsClose j fd =>
      refine tables_others (fun hij => ?_)
      have hfd : fd ≠ (d.val : Int) := fun h => hne (by rw [worksOn, h, hij])
      rw [mcsVfsClose]
      cases hget : mcsFdGet (s.tables j) fd with
      | none => rfl
      | some d₀ => exact toMap_slot_other hget hfd
  | vfsDup j fd =>
      refine tables_others (fun hij => ?_)
      rcases mcsVfsDup_cases (s.tables j) fd with
        ⟨-, heq⟩ | ⟨d₀, -, -, heq⟩ | ⟨d₀, d', -, -, heq⟩
      · rw [heq]
      · rw [heq]
      · rw [heq]
        refine toMap_setFile_other (fun h => hne ?_)
        simp only [worksOn, vfsStep, heq, hij, h]
        rfl

/-- **THE DESCRIPTOR TABLE IS A FINITE MAP**: over every run from `mcs_fd_table_init` on,
    all answers are those of the calls on maps of open files, starting from empty maps,
    the slots in use are the map so reached, and the descriptor rules hold of every call. -/
theorem fd_table_refines_map {garbage s : VfsState} {ops : List VfsOp}
    (hs : Machine.exec vfsStep (vfsInit garbage) ops = s) :
    Machine.outputs vfsStep (vfsInit garbage) ops
      = Machine.outputs mapStep (emptyMaps (mcsRamfsInit garbage.fs)) ops ∧
    toMapState s = Machine.exec mapStep (emptyMaps (mcsRamfsInit garbage.fs)) ops ∧
    DescriptorRules s := by
  have hI := exec_inv garbage ops
  obtain ⟨hout, hmap⟩ := run_refines garbage ops
  rw [hs] at hI hmap
  exact ⟨hout, hmap, fun _ _ _ => rules_smallest hI, fun i _ _ => rules_open_full hI i,
    fun i _ => rules_dup_full hI i, fun _ _ _ => rules_closed hI, rules_others hI⟩

/-- Open a file twice, duplicate, close the first, fail to truncate, and open again. -/
def reuseRun : List VfsOp :=
  [.seedFile (some [slash, 0x61]) (some (fun i => BitVec.ofNat 8 i)) 4,
    .vfsOpen 0 (some [slash, 0x61]) MCS_O_RDWR, .vfsLseek 0 0 3 MCS_SEEK_SET, .vfsDup 0 0,
    .vfsClose 0 0, .vfsOpen 0 (some [slash, 0x61]) (MCS_O_TRUNC ||| MCS_O_APPEND)]

/-- The descriptor that was closed is the next to be opened. -/
theorem fd_table_refines_map_reuse :
    ∃ d : Fin MCS_MAX_OPEN_FILES, (0 : Int) = d.val ∧
      Smallest (toMap ((Machine.exec vfsStep (vfsInit garbage) reuseRun).tables 0)) d :=
  (fd_table_refines_map rfl).2.2.smallest (.vfsOpen 0 (some [slash, 0x61]) MCS_O_RDONLY) 0 0
    (by decide +kernel) (Or.inl ⟨_, _, rfl⟩)

end VfsDescriptor
