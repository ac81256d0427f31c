import Mcsos.LoopProofs
import Mcsos.MachineProofs

/-! # The file system, as `kernel/vfs/ramfs.c` and `kernel/vfs/fd.c` compute it

    One ramfs and any number of descriptor tables.  A `mcs_vnode_t *` is the
    index of its node; a pointer into a path is the rest of the path, which
    reads as NUL past its end.  A null path or buffer is `none`; the table and
    file system pointers are always there, so the guards against their being
    null have no counterpart, and with a single ramfs a descriptor's `fs` only
    records that it is not null.

    A function that may fail returns its status as an error.  `mcs_vfs_read`
    and `mcs_vfs_write` are cut in two: the checks, which settle what part of
    which file is moved (`Transfer`), and the copy. -/

namespace VfsModel

open Word Loop

/-- The length of a name's array, with its zero. -/
def MCS_MAX_NAME : Nat := 32
/-- A path is shorter than this. -/
def MCS_MAX_PATH : Nat := 128
/-- The length of `nodes`. -/
def MCS_MAX_NODES : Nat := 64
/-- The length of a descriptor table. -/
def MCS_MAX_OPEN_FILES : Nat := 16
/-- The length of the array that all files share. -/
def MCS_RAMFS_DATA_BYTES : Nat := 8192

/-- The file is open for reading. -/
def MCS_O_RDONLY : U32 := 0x0001
/-- The file is open for writing. -/
def MCS_O_WRONLY : U32 := 0x0002
/-- The file is open for both. -/
def MCS_O_RDWR : U32 := 0x0004
/-- A missing file is created. -/
def MCS_O_CREAT : U32 := 0x0100
/-- The file is emptied when it is opened. -/
def MCS_O_TRUNC : U32 := 0x0200
/-- Every write goes to the end of the file. -/
def MCS_O_APPEND : U32 := 0x0400

/-- Seek from the start. -/
def MCS_SEEK_SET : Int := 0
/-- Seek from the current offset. -/
def MCS_SEEK_CUR : Int := 1
/-- Seek from the end. -/
def MCS_SEEK_END : Int := 2

/-- `mcs_vnode_type_t`. -/
inductive VnodeType where
  | dir
  | file
deriving DecidableEq, Repr

/-- The failures of `mcs_vfs_status_t`; `MCS_OK` is `Except.ok`. -/
inductive VfsErr where
  | enoent
  | ebadf
  | eacces
  | enotdir
  | eisdir
  | einval
  | enfile
  | enospc
  | enametoolong
deriving DecidableEq, Repr

/-- A C string, up to where its terminator is. -/
abbrev Path := List U8

/-- The character a pointer points to. -/
def deref (s : Path) : U8 := s.headD 0

/-- `'/'`. -/
def slash : U8 := 0x2f

/-- `mcs_vnode_t`. -/
structure Vnode where
  used : Bool
  id : U32
  parent : U32
  type : VnodeType
  name : Nat → U8
  size : U64
  dataOffset : U64
  dataCapacity : U64

/-- `mcs_ramfs_t`. -/
structure Ramfs where
  nodes : Nat → Vnode
  nodeCount : U64
  data : Nat → U8
  dataUsed : U64

/-- `mcs_file_t`. -/
structure File where
  used : Bool
  flags : U32
  offset : U64
  node : Option Nat
  fs : Bool

/-- `mcs_fd_table_t`. -/
structure FdTable where
  files : Nat → File

/-! ## `ramfs.c` -/

/-- `mcs_strlen`; a string ends at its first zero. -/
def mcsStrlen : Path → Nat
  | [] => 0
  | c :: s => if c = 0 then 0 else mcsStrlen s + 1

/-- `mcs_streq_n`: the first `n` characters agree, and the second string ends there. -/
def mcsStreqN (a : Path) (b : Nat → U8) (n : Nat) : Bool :=
  (List.range n).all (fun i => a.getD i 0 = b i) && b n = 0

/-- `mcs_copy_bytes`, and `mcs_copy_from_user`: `n` bytes of `src` to `dst + off`. -/
def mcsCopyBytes (dst : Nat → U8) (off : Nat) (src : Nat → U8) (n : Nat) : Nat → U8 :=
  forN (fun i dst => Function.update dst (off + i) (src i)) n dst

/-- `mcs_copy_name`: the array is cleared, then the name is copied as far as it fits. -/
def mcsCopyName (dst : Nat → U8) (src : Path) (n : Nat) : Nat → U8 :=
  let dst := forN (fun i dst => Function.update dst i 0) MCS_MAX_NAME dst
  forN (fun i dst => Function.update dst i (src.getD i 0)) (min n (MCS_MAX_NAME - 1)) dst

/-- `mcs_find_child`, the first node with that parent and name. -/
def mcsFindChild (fs : Ramfs) (parent : U32) (name : Path) (nameLen : Nat) :
    Except VfsErr Nat :=
  if nameLen = 0 ∨ nameLen ≥ MCS_MAX_NAME then .error .einval
  else
    match (List.range fs.nodeCount.toNat).find? (fun i =>
        (fs.nodes i).used && (fs.nodes i).parent = parent &&
          mcsStreqN name (fs.nodes i).name nameLen) with
    | some i => .ok i
    | none => .error .enoent

/-- How far `next` runs past `seg`: up to a slash or the terminator. -/
def segLen : Path → Nat
  | [] => 0
  | c :: s => if c = slash ∨ c = 0 then 0 else segLen s + 1

/-- The loop of `mcs_split_parent_leaf`; every round uses up part of the path,
    so more rounds than characters are never made. -/
def splitLoop (fs : Ramfs) : Nat → Nat → Path → Except VfsErr (Nat × Path × Nat)
  | 0, _, _ => .error .einval
  | rounds + 1, cur, seg =>
      let next := seg.drop (segLen seg)
      if segLen seg = 0 ∨ segLen seg ≥ MCS_MAX_NAME then .error .einval
      else if deref next = 0 then .ok (cur, seg, segLen seg)
      else
        match mcsFindChild fs (fs.nodes cur).id seg (segLen seg) with
        | .error rc => .error rc
        | .ok cur =>
            if (fs.nodes cur).type ≠ .dir then .error .enotdir
            else splitLoop fs rounds cur (next.drop 1)

/-- `mcs_split_parent_leaf`: the directory of a path, and the last name with its length. -/
def mcsSplitParentLeaf (fs : Ramfs) : Option Path → Except VfsErr (Nat × Path × Nat)
  | none => .error .einval
  | some path =>
      if deref path ≠ slash then .error .einval
      else if deref (path.drop 1) = 0 then .error .einval
      else if mcsStrlen path ≥ MCS_MAX_PATH then .error .enametoolong
      else splitLoop fs (path.length + 1) 0 (path.drop 1)

/-- `mcs_alloc_node`: the index of the new node, and the new file system. -/
def mcsAllocNode (fs : Ramfs) (parent : U32) (type : VnodeType) (name : Path) (nameLen : Nat)
    (capacity : U64) : Except VfsErr Nat × Ramfs :=
  if nameLen = 0 ∨ nameLen ≥ MCS_MAX_NAME then (.error .einval, fs)
  else if fs.nodeCount.toNat ≥ MCS_MAX_NODES then (.error .enospc, fs)
  else if type = .file ∧ (fs.dataUsed + capacity).toNat > MCS_RAMFS_DATA_BYTES then
    (.error .enospc, fs)
  else
    let i := fs.nodeCount.toNat
    let isFile := type = .file
    let node : Vnode :=
      { used := true
        id := fs.nodeCount.setWidth 32
        parent := parent
        type := type
        name := mcsCopyName (fs.nodes i).name name nameLen
        size := 0
        dataOffset := if isFile then fs.dataUsed else 0
        dataCapacity := if isFile then capacity else 0 }
    (.ok i,
      { fs with
        nodes := Function.update fs.nodes i node
        nodeCount := fs.nodeCount + 1
        dataUsed := if isFile then fs.dataUsed + capacity else fs.dataUsed })

/-- `mcs_ramfs_init` over whatever the memory of `fs` held before. -/
def mcsRamfsInit (fs : Ramfs) : Ramfs :=
  let nodes := forN (fun i nodes => Function.update nodes i
    { used := false
      id := 0
      parent := 0
      type := .file
      name := Function.update (nodes i).name 0 0
      size := 0
      dataOffset := 0
      dataCapacity := 0 }) MCS_MAX_NODES fs.nodes
  let data := forN (fun i data => Function.update data i 0) MCS_RAMFS_DATA_BYTES fs.data
  let root : Vnode :=
    { nodes 0 with
      used := true
      id := 0
      parent := 0
      type := .dir
      name := Function.update (Function.update (nodes 0).name 0 slash) 1 0 }
  { nodes := Function.update nodes 0 root, nodeCount := 1, data := data, dataUsed := 0 }

/-- The loop of `mcs_ramfs_lookup`. -/
def lookupLoop (fs : Ramfs) : Nat → Nat → Path → Except VfsErr Nat
  | 0, _, _ => .error .einval
  | rounds + 1, cur, seg =>
      if deref seg = 0 then .error .einval
      else
        let next := seg.drop (segLen seg)
        if segLen seg = 0 ∨ segLen seg ≥ MCS_MAX_NAME then .error .einval
        else
          match mcsFindChild fs (fs.nodes cur).id seg (segLen seg) with
          | .error rc => .error rc
          | .ok cur =>
              if deref next = 0 then .ok cur
              else if (fs.nodes cur).type ≠ .dir then .error .enotdir
              else lookupLoop fs rounds cur (next.drop 1)

/-- `mcs_ramfs_lookup`; the path `/` is the root. -/
def mcsRamfsLookup (fs : Ramfs) : Option Path → Except VfsErr Nat
  | none => .error .einval
  | some path =>
      if deref path ≠ slash then .error .einval
      else if mcsStrlen path ≥ MCS_MAX_PATH then .error .enametoolong
      else if deref (path.drop 1) = 0 then .ok 0
      else lookupLoop fs (path.length + 1) 0 (path.drop 1)

/-- `mcs_ramfs_create_file`; a file that is there already is the answer. -/
def mcsRamfsCreateFile (fs : Ramfs) (path : Option Path) : Except VfsErr Nat × Ramfs :=
  if path.isNone then (.error .einval, fs)
  else
    match mcsRamfsLookup fs path with
    | .ok existing =>
        if (fs.nodes existing).type ≠ .file then (.error .eisdir, fs) else (.ok existing, fs)
    | .error _ =>
        match mcsSplitParentLeaf fs path with
        | .error rc => (.error rc, fs)
        | .ok (parent, leaf, leafLen) =>
            if (fs.nodes parent).type ≠ .dir then (.error .enotdir, fs)
            else mcsAllocNode fs (fs.nodes parent).id .file leaf leafLen 256

/-- Replace the size of a node. -/
def setSize (fs : Ramfs) (node : Nat) (size : U64) : Ramfs :=
  { fs with nodes := Function.update fs.nodes node { fs.nodes node with size := size } }

/-- `len` bytes at position `pos` of a file. -/
structure Transfer where
  node : Nat
  pos : U64
  len : U64
deriving DecidableEq, Repr

/-- The index of `fs->data` where a transfer starts. -/
def Transfer.start (fs : Ramfs) (t : Transfer) : Nat :=
  ((fs.nodes t.node).dataOffset + t.pos).toNat

/-- Copy a buffer to where a transfer starts. -/
def putBytes (fs : Ramfs) (t : Transfer) (bytes : Nat → U8) : Ramfs :=
  { fs with data := mcsCopyBytes fs.data (t.start fs) bytes t.len.toNat }

/-- `mcs_ramfs_seed_file`; success tells what was copied. -/
def mcsRamfsSeedFile (fs : Ramfs) (path : Option Path) (data : Option (Nat → U8)) (len : U64) :
    Except VfsErr Transfer × Ramfs :=
  if path.isNone ∨ (data.isNone ∧ len ≠ 0) then (.error .einval, fs)
  else
    match mcsRamfsCreateFile fs path with
    | (.error rc, fs) => (.error rc, fs)
    | (.ok node, fs) =>
        if len > (fs.nodes node).dataCapacity then (.error .enospc, fs)
        else
          let t : Transfer := ⟨node, 0, len⟩
          (.ok t, setSize (putBytes fs t (data.getD (fun _ => 0))) node len)

/-! ## `fd.c` -/

/-- `mcs_min_size`. -/
def mcsMinSize (a b : U64) : U64 := if a < b then a else b

/-- `mcs_can_read`. -/
def mcsCanRead (flags : U32) : Bool := flags &&& MCS_O_RDONLY ≠ 0 || flags &&& MCS_O_RDWR ≠ 0
/-- `mcs_can_write`. -/
def mcsCanWrite (flags : U32) : Bool := flags &&& MCS_O_WRONLY ≠ 0 || flags &&& MCS_O_RDWR ≠ 0

/-- `mcs_fd_table_init`: all descriptors are closed. -/
def mcsFdTableInit (table : FdTable) : FdTable :=
  ⟨forN (fun i files => Function.update files i ⟨false, 0, 0, none, false⟩)
    MCS_MAX_OPEN_FILES table.files⟩

/-- `mcs_fd_get`: the slot of an open descriptor. -/
def mcsFdGet (table : FdTable) (fd : Int) : Option Nat :=
  if fd < 0 ∨ fd.toNat ≥ MCS_MAX_OPEN_FILES then none
  else if !(table.files fd.toNat).used then none
  else some fd.toNat

/-- Assign `table->files[fd]`. -/
def setFile (table : FdTable) (fd : Nat) (file : File) : FdTable :=
  ⟨Function.update table.files fd file⟩

/-- `mcs_fd_alloc`: the first slot that is not used. -/
def mcsFdAlloc (table : FdTable) : Except VfsErr Nat × FdTable :=
  match (List.range MCS_MAX_OPEN_FILES).find? (fun i => !(table.files i).used) with
  | some i => (.ok i, setFile table i { table.files i with used := true })
  | none => (.error .enfile, table)

/-- `mcs_vfs_open` once the node is found: take a slot and set it up. -/
def openNode (fs : Ramfs) (table : FdTable) (node : Nat) (flags : U32) :
    Except VfsErr Nat × Ramfs × FdTable :=
  if (fs.nodes node).type = .dir ∧ mcsCanWrite flags then (.error .eisdir, fs, table)
  else
    match mcsFdAlloc table with
    | (.error rc, table) => (.error rc, fs, table)
    | (.ok fd, table) =>
        let offset := if flags &&& MCS_O_APPEND ≠ 0 then (fs.nodes node).size else 0
        let file : File := { table.files fd with flags, node := some node, fs := true, offset }
        if flags &&& MCS_O_TRUNC ≠ 0 then
          if !mcsCanWrite flags then
            (.error .eacces, fs,
              setFile table fd { file with used := false, node := none, fs := false })
          else (.ok fd, setSize fs node 0, setFile table fd { file with offset := 0 })
        else (.ok fd, fs, setFile table fd file)

/-- Without an access mode, read only. -/
def openFlags (flags : U32) : U32 :=
  if flags &&& (MCS_O_RDONLY ||| MCS_O_WRONLY ||| MCS_O_RDWR) = 0 then flags ||| MCS_O_RDONLY
  else flags

/-- `mcs_vfs_open`: look the path up, or create it if the flags say so. -/
def mcsVfsOpen (fs : Ramfs) (table : FdTable) (path : Option Path) (flags : U32) :
    Except VfsErr Nat × Ramfs × FdTable :=
  if path.isNone then (.error .einval, fs, table)
  else
    let flags := openFlags flags
    match mcsRamfsLookup fs path with
    | .ok node => openNode fs table node flags
    | .error rc =>
        if flags &&& MCS_O_CREAT = 0 then (.error rc, fs, table)
        else
          match mcsRamfsCreateFile fs path with
          | (.error rc, fs) => (.error rc, fs, table)
          | (.ok node, fs) => openNode fs table node flags

/-- The checks of `mcs_vfs_read`: the descriptor, and what is copied out. -/
def readTransfer (fs : Ramfs) (table : FdTable) (fd : Int) (buf : Bool) (len : U64) :
    Except VfsErr (Nat × Transfer) :=
  if !buf ∧ len ≠ 0 then .error .einval
  else
    match mcsFdGet table fd with
    | none => .error .ebadf
    | some fd =>
        let file := table.files fd
        if !mcsCanRead file.flags then .error .eacces
        else
          match file.node with
          | none => .error .einval
          | some i =>
              let node := fs.nodes i
              if !file.fs then .error .einval
              else if node.type = .dir then .error .eisdir
              else if file.offset ≥ node.size then .ok (fd, ⟨i, file.offset, 0⟩)
              else .ok (fd, ⟨i, file.offset, mcsMinSize len (node.size - file.offset)⟩)

/-- `mcs_vfs_read` into a buffer that is null if `buf` is false: the result, the
    bytes delivered, and the new table. -/
def mcsVfsRead (fs : Ramfs) (table : FdTable) (fd : Int) (buf : Bool) (len : U64) :
    Except VfsErr Int × List U8 × FdTable :=
  match readTransfer fs table fd buf len with
  | .error rc => (.error rc, [], table)
  | .ok (fd, t) =>
      let file := table.files fd
      (.ok t.len.toInt, (List.range t.len.toNat).map (fun i => fs.data (t.start fs + i)),
        setFile table fd { file with offset := file.offset + t.len })

/-- Where a write goes: to the end of the file for an append descriptor. -/
def writePos (fs : Ramfs) (file : File) (node : Nat) : U64 :=
  if file.flags &&& MCS_O_APPEND ≠ 0 then (fs.nodes node).size else file.offset

/-- The checks of `mcs_vfs_write`.  An append descriptor is moved to the end of
    its file first, also when the write is then refused. -/
def writeTransfer (fs : Ramfs) (table : FdTable) (fd : Int) (buf : Bool) (len : U64) :
    Except VfsErr (Nat × Transfer) × FdTable :=
  if !buf ∧ len ≠ 0 then (.error .einval, table)
  else
    match mcsFdGet table fd with
    | none => (.error .ebadf, table)
    | some fd =>
        let file := table.files fd
        if !mcsCanWrite file.flags then (.error .eacces, table)
        else
          match file.node with
          | none => (.error .einval, table)
          | some i =>
              let node := fs.nodes i
              if !file.fs then (.error .einval, table)
              else if node.type = .dir then (.error .eisdir, table)
              else
                let offset := writePos fs file i
                let table := setFile table fd { file with offset }
                if offset > node.dataCapacity then (.error .einval, table)
                else
                  let n := mcsMinSize len (node.dataCapacity - offset)
                  if n < len then (.error .enospc, table) else (.ok (fd, ⟨i, offset, n⟩), table)

/-- `mcs_vfs_write`: the bytes, then the size, then the offset. -/
def mcsVfsWrite (fs : Ramfs) (table : FdTable) (fd : Int) (buf : Option (Nat → U8))
    (len : U64) : Except VfsErr Int × Ramfs × FdTable :=
  match writeTransfer fs table fd buf.isSome len with
  | (.error rc, table) => (.error rc, fs, table)
  | (.ok (fd, t), table) =>
      let offset := t.pos + t.len
      let fs := putBytes fs t (buf.getD (fun _ => 0))
      let fs := if offset > (fs.nodes t.node).size then setSize fs t.node offset else fs
      (.ok t.len.toInt, fs, setFile table fd { table.files fd with offset })

/-- `mcs_vfs_lseek`; `long` is two's complement and the result is cut to `int`. -/
def mcsVfsLseek (fs : Ramfs) (table : FdTable) (fd : Int) (offset : U64) (whence : Int) :
    Except VfsErr Int × FdTable :=
  match mcsFdGet table fd with
  | none => (.error .ebadf, table)
  | some fd =>
      let file := table.files fd
      match file.node with
      | none => (.error .eisdir, table)
      | some i =>
          let node := fs.nodes i
          if node.type = .dir then (.error .eisdir, table)
          else
            let seek (base : U64) : Except VfsErr Int × FdTable :=
              let next := base + offset
              if next.toInt < 0 then (.error .einval, table)
              else
                (.ok (next.setWidth 32).toInt, setFile table fd { file with offset := next })
            if whence = MCS_SEEK_SET then seek 0
            else if whence = MCS_SEEK_CUR then seek file.offset
            else if whence = MCS_SEEK_END then seek node.size
            else (.error .einval, table)

/-- `mcs_vfs_close`. -/
def mcsVfsClose (table : FdTable) (fd : Int) : Except VfsErr Unit × FdTable :=
  match mcsFdGet table fd with
  | none => (.error .ebadf, table)
  | some fd => (.ok (), setFile table fd ⟨false, 0, 0, none, false⟩)

/-- `mcs_vfs_dup`: the new descriptor starts with a copy of the offset. -/
def mcsVfsDup (table : FdTable) (fd : Int) : Except VfsErr Nat × FdTable :=
  match mcsFdGet table fd with
  | none => (.error .ebadf, table)
  | some fd =>
      let file := table.files fd
      match mcsFdAlloc table with
      | (.error rc, table) => (.error rc, table)
      | (.ok newfd, table) =>
          (.ok newfd, setFile table newfd
            { file with used := (table.files newfd).used })

/-! ## The file system as a machine -/

/-- One ramfs, and the descriptor tables that share it. -/
structure VfsState where
  fs : Ramfs
  tables : Nat → FdTable

/-- A call on the file system, with the table it works on. -/
inductive VfsOp where
  | createFile (path : Option Path)
  | seedFile (path : Option Path) (data : Option (Nat → U8)) (len : U64)
  | vfsOpen (table : Nat) (path : Option Path) (flags : U32)
  | vfsRead (table : Nat) (fd : Int) (buf : Bool) (len : U64)
  | vfsWrite (table : Nat) (fd : Int) (buf : Option (Nat → U8)) (len : U64)
  | vfsLseek (table : Nat) (fd : Int) (offset : U64) (whence : Int)
  | vfsClose (table : Nat) (fd : Int)
  | vfsDup (table : Nat) (fd : Int)

/-- What a call answers: its result, and for a read the bytes it delivered. -/
abbrev VfsOut := Except VfsErr Int × List U8

/-- Replace one of the tables. -/
def setTable (s : VfsState) (i : Nat) (table : FdTable) : VfsState :=
  { s with tables := Function.update s.tables i table }

/-- One call, with its answer and the bytes it has read. -/
def vfsStep (s : VfsState) : VfsOp → VfsOut × VfsState
  | .createFile path =>
      let r := mcsRamfsCreateFile s.fs path
      ((r.1.map (fun _ => 0), []), { s with fs := r.2 })
  | .seedFile path data len =>
      let r := mcsRamfsSeedFile s.fs path data len
      ((r.1.map (fun _ => 0), []), { s with fs := r.2 })
  | .vfsOpen table path flags =>
      let r := mcsVfsOpen s.fs (s.tables table) path flags
      ((r.1.map Int.ofNat, []), setTable { s with fs := r.2.1 } table r.2.2)
  | .vfsRead table fd buf len =>
      let r := mcsVfsRead s.fs (s.tables table) fd buf len
      ((r.1, r.2.1), setTable s table r.2.2)
  | .vfsWrite table fd buf len =>
      let r := mcsVfsWrite s.fs (s.tables table) fd buf len
      ((r.1, []), setTable { s with fs := r.2.1 } table r.2.2)
  | .vfsLseek table fd offset whence =>
      let r := mcsVfsLseek s.fs (s.tables table) fd offset whence
      ((r.1, []), setTable s table r.2)
  | .vfsClose table fd =>
      let r := mcsVfsClose (s.tables table) fd
      ((r.1.map (fun _ => 0), []), setTable s table r.2)
  | .vfsDup table fd =>
      let r := mcsVfsDup (s.tables table) fd
      ((r.1.map Int.ofNat, []), setTable s table r.2)

/-- `mcs_ramfs_init`, and `mcs_fd_table_init` of every table. -/
def vfsInit (s : VfsState) : VfsState :=
  ⟨mcsRamfsInit s.fs, fun i => mcsFdTableInit (s.tables i)⟩

end VfsModel
