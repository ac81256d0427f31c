import Mcsos.VfsContentsProofs
import Mcsos.SpliceProofs

/-! # The arrays of the file system have ends

    The model's arrays are functions on all indices; the kernel's have 64 nodes
    with names of 32 bytes, 8192 bytes of data and 16 descriptors, and other
    memory behind them.  `overFs fs r` is `fs` with the memory of `r` behind the
    ends of its arrays, and `overTable` the same of a descriptor table.

    Each call does the same whatever lies behind the ends, and leaves it there
    (`mcsVfsOpen_over` to `mcsVfsClose_over`).  One equation per function says
    both: nothing out of bounds is read, since the answer does not depend on
    `r`, and nothing out of bounds is written, since `r` comes back. -/

namespace VfsBounds

open Word Loop Splice VfsModel VfsTree VfsInvariant VfsContents

/-- `n` with the bytes of `r` behind the end of its name. -/
def overNode (n r : Vnode) : Vnode :=
  { n with name := splice (· < MCS_MAX_NAME) n.name r.name }

/-- `fs` with the memory of `r` behind the ends of its arrays. -/
def overFs (fs r : Ramfs) : Ramfs :=
  { fs with
    nodes := splice (· < MCS_MAX_NODES) (fun i => overNode (fs.nodes i) (r.nodes i)) r.nodes
    data := splice (· < MCS_RAMFS_DATA_BYTES) fs.data r.data }

/-- The table `table` within its bounds, and `r` beyond. -/
def overTable (table r : FdTable) : FdTable :=
  ⟨splice (· < MCS_MAX_OPEN_FILES) table.files r.files⟩

variable {fs r : Ramfs} {table rt : FdTable}

theorem overFs_node {i : Nat} (hi : i < MCS_MAX_NODES) :
    (overFs fs r).nodes i = overNode (fs.nodes i) (r.nodes i) :=
  splice_of (p := (· < MCS_MAX_NODES)) hi (fun i => overNode (fs.nodes i) (r.nodes i)) r.nodes

theorem overFs_node_not {i : Nat} (hi : ¬ i < MCS_MAX_NODES) :
    (overFs fs r).nodes i = r.nodes i :=
  splice_of_not (p := (· < MCS_MAX_NODES)) hi (fun i => overNode (fs.nodes i) (r.nodes i)) r.nodes

/-- Within the bounds the data are the first one's. -/
theorem overFs_data {i : Nat} (hi : i < MCS_RAMFS_DATA_BYTES) :
    (overFs fs r).data i = fs.data i :=
  splice_of (p := (· < MCS_RAMFS_DATA_BYTES)) hi _ _

theorem overTable_file {d : Nat} (hd : d < MCS_MAX_OPEN_FILES) :
    (overTable table rt).files d = table.files d :=
  splice_of (p := (· < MCS_MAX_OPEN_FILES)) hd _ _

@[simp] theorem overNode_id (n rn : Vnode) : (overNode n rn).id = n.id := rfl

@[simp] theorem overNode_type (n rn : Vnode) : (overNode n rn).type = n.type := rfl

@[simp] theorem overNode_size (n rn : Vnode) : (overNode n rn).size = n.size := rfl

@[simp] theorem overNode_dataCapacity (n rn : Vnode) :
    (overNode n rn).dataCapacity = n.dataCapacity := rfl

theorem overNode_name {n rn : Vnode} {k : Nat} (hk : k < MCS_MAX_NAME) :
    (overNode n rn).name k = n.name k :=
  splice_of (p := (· < MCS_MAX_NAME)) hk _ _

/-! ## Stores -/

/-- A descriptor is written within the bounds. -/
theorem setFile_over {d : Nat} (hd : d < MCS_MAX_OPEN_FILES) (file : File) :
    setFile (overTable table rt) d file = overTable (setFile table d file) rt :=
  congrArg FdTable.mk (update_splice (p := (· < MCS_MAX_OPEN_FILES)) hd _ _ file)

/-- A store to a node, with its name cut to the same ends. -/
theorem updateNode_over {i : Nat} (hi : i < MCS_MAX_NODES) (n : Vnode) :
    Function.update (overFs fs r).nodes i (overNode n (r.nodes i))
      = splice (· < MCS_MAX_NODES)
          (fun j => overNode (Function.update fs.nodes i n j) (r.nodes j)) r.nodes := by
  rw [overFs, update_splice (p := (· < MCS_MAX_NODES)) hi]
  congr 1
  funext j
  by_cases hj : j = i
  · subst hj
    rw [Function.update_self, Function.update_self]
  · rw [Function.update_of_ne hj, Function.update_of_ne hj]

/-- A size is written within the bounds. -/
theorem setSize_over {i : Nat} (hi : i < MCS_MAX_NODES) (size : U64) :
    setSize (overFs fs r) i size = overFs (setSize fs i size) r := by
  rw [setSize, overFs_node hi]
  exact congrArg (fun nodes => ({ overFs fs r with nodes := nodes } : Ramfs))
    (updateNode_over hi { fs.nodes i with size := size })

theorem start_over {t : Transfer} (ht : t.node < MCS_MAX_NODES) :
    t.start (overFs fs r) = t.start fs := by
  rw [Transfer.start, overFs_node ht]
  rfl

/-- A copy into the data array that ends before the array does. -/
theorem putBytes_over {t : Transfer} (ht : t.node < MCS_MAX_NODES)
    (hend : ∀ i, i < t.len.toNat → t.start fs + i < MCS_RAMFS_DATA_BYTES) (bytes : Nat → U8) :
    putBytes (overFs fs r) t bytes = overFs (putBytes fs t bytes) r := by
  have hcopy := forN_splice (p := (· < MCS_RAMFS_DATA_BYTES)) hend bytes fs.data r.data
  rw [putBytes, start_over ht, mcsCopyBytes, overFs, hcopy]
  rfl

/-! ## Lookups -/

private theorem find?_congr {p q : Nat → Bool} {l : List Nat} (h : ∀ i ∈ l, p i = q i) :
    l.find? p = l.find? q := by
  induction l with
  | nil => rfl
  | cons a l ih =>
      rw [List.find?_cons, List.find?_cons, h a List.mem_cons_self,
          ih (fun i hi => h i (List.mem_cons_of_mem a hi))]

/-- Names are compared within the bounds. -/
theorem mcsStreqN_over (name : Path) (n rn : Vnode) {k : Nat} (hk : k < MCS_MAX_NAME) :
    mcsStreqN name (overNode n rn).name k = mcsStreqN name n.name k := by
  rw [Bool.eq_iff_iff, mcsStreqN_iff, mcsStreqN_iff, overNode_name hk]
  refine and_congr_left (fun _ => forall₂_congr (fun i hi => ?_))
  rw [overNode_name (Nat.lt_trans hi hk)]

/-- Children are searched within the bounds. -/
theorem mcsFindChild_over (hcount : fs.nodeCount.toNat ≤ MCS_MAX_NODES) (parent : U32)
    (name : Path) (n : Nat) :
    mcsFindChild (overFs fs r) parent name n = mcsFindChild fs parent name n := by
  rw [mcsFindChild, mcsFindChild]
  by_cases hlen : n = 0 ∨ n ≥ MCS_MAX_NAME
  · rw [if_pos hlen, if_pos hlen]
  rw [if_neg hlen, if_neg hlen]
  have hfind : (List.range (overFs fs r).nodeCount.toNat).find? (fun i =>
        ((overFs fs r).nodes i).used && ((overFs fs r).nodes i).parent = parent &&
          mcsStreqN name ((overFs fs r).nodes i).name n)
      = (List.range fs.nodeCount.toNat).find? (fun i =>
        (fs.nodes i).used && (fs.nodes i).parent = parent &&
          mcsStreqN name (fs.nodes i).name n) := by
    refine find?_congr (fun i hi => ?_)
    have hi' : i < MCS_MAX_NODES := Nat.lt_of_lt_of_le (List.mem_range.mp hi) hcount
    rw [overFs_node hi', mcsStreqN_over _ _ _ (by omega)]
    rfl
  rw [hfind]

/-- A path is walked within the bounds. -/
theorem lookupLoop_over (hcount : fs.nodeCount.toNat ≤ MCS_MAX_NODES) :
    ∀ (rounds cur : Nat) (seg : Path), cur < MCS_MAX_NODES →
      lookupLoop (overFs fs r) rounds cur seg = lookupLoop fs rounds cur seg := by
  intro rounds
  induction rounds with
  | zero => intro cur seg _; rfl
  | succ rounds ih =>
      intro cur seg hcur
      simp only [lookupLoop, overFs_node hcur, overNode_id, mcsFindChild_over hcount]
      cases hfind : mcsFindChild fs (fs.nodes cur).id seg (segLen seg) with
      | error rc => rfl
      | ok i =>
          have hi : i < MCS_MAX_NODES :=
            Nat.lt_of_lt_of_le (mcsFindChild_ok hfind).1 hcount
          simp only [overFs_node hi, overNode_type, ih i _ hi]

/-- The parent of a path is searched within the bounds. -/
theorem splitLoop_over (hcount : fs.nodeCount.toNat ≤ MCS_MAX_NODES) :
    ∀ (rounds cur : Nat) (seg : Path), cur < MCS_MAX_NODES →
      splitLoop (overFs fs r) rounds cur seg = splitLoop fs rounds cur seg := by
  intro rounds
  induction rounds with
  | zero => intro cur seg _; rfl
  | succ rounds ih =>
      intro cur seg hcur
      simp only [splitLoop, overFs_node hcur, overNode_id, mcsFindChild_over hcount]
      cases hfind : mcsFindChild fs (fs.nodes cur).id seg (segLen seg) with
      | error rc => rfl
      | ok i =>
          have hi : i < MCS_MAX_NODES :=
            Nat.lt_of_lt_of_le (mcsFindChild_ok hfind).1 hcount
          simp only [overFs_node hi, overNode_type, ih i _ hi]

theorem mcsRamfsLookup_over (hT : FsTree fs) (path : Option Path) :
    mcsRamfsLookup (overFs fs r) path = mcsRamfsLookup fs path := by
  cases path with
  | none => rfl
  | some path => simp only [mcsRamfsLookup, lookupLoop_over hT.bound _ 0 _ (by decide)]

theorem mcsSplitParentLeaf_over (hT : FsTree fs) (path : Option Path) :
    mcsSplitParentLeaf (overFs fs r) path = mcsSplitParentLeaf fs path := by
  cases path with
  | none => rfl
  | some path => simp only [mcsSplitParentLeaf, splitLoop_over hT.bound _ 0 _ (by decide)]

/-! ## Creating and opening -/

/-- A name is copied to the name's own bytes. -/
theorem mcsCopyName_over (d rd : Nat → U8) (src : Path) (n : Nat) :
    mcsCopyName (splice (· < MCS_MAX_NAME) d rd) src n
      = splice (· < MCS_MAX_NAME) (mcsCopyName d src n) rd := by
  have hfill := forN_splice (p := (· < MCS_MAX_NAME)) (n := MCS_MAX_NAME) (a := id)
    (fun _ hi => hi) (fun _ => (0 : U8)) d rd
  have hcopy := forN_splice (p := (· < MCS_MAX_NAME)) (n := min n (MCS_MAX_NAME - 1)) (a := id)
    (fun i hi => by
      have h32 : MCS_MAX_NAME = 32 := rfl
      show i < MCS_MAX_NAME
      omega)
    (fun i => src.getD i 0) (forN (fun i dst => Function.update dst i 0) MCS_MAX_NAME d) rd
  simp only [id_eq] at hfill hcopy
  rw [mcsCopyName, hfill, hcopy]
  rfl

/-- A node is allocated within the bounds. -/
theorem mcsAllocNode_over (parent : U32) (type : VnodeType) (name : Path) (n : Nat)
    (capacity : U64) :
    mcsAllocNode (overFs fs r) parent type name n capacity
      = ((mcsAllocNode fs parent type name n capacity).1,
          overFs (mcsAllocNode fs parent type name n capacity).2 r) := by
  have hcount : (overFs fs r).nodeCount = fs.nodeCount := rfl
  have hdata : (overFs fs r).dataUsed = fs.dataUsed := rfl
  rw [mcsAllocNode, mcsAllocNode, hcount, hdata]
  let f := fun x : Except VfsErr Nat × Ramfs => (x.1, overFs x.2 r)
  -- the name's length, the node table, the data array
  refine ite_image f rfl (fun _ => ?_)
  refine ite_image f rfl (fun hfull => ?_)
  refine ite_image f rfl (fun _ => ?_)
  have hi : fs.nodeCount.toNat < MCS_MAX_NODES := Nat.lt_of_not_le hfull
  have hname : mcsCopyName ((overFs fs r).nodes fs.nodeCount.toNat).name name n
      = splice (· < MCS_MAX_NAME) (mcsCopyName (fs.nodes fs.nodeCount.toNat).name name n)
          (r.nodes fs.nodeCount.toNat).name := by
    rw [overFs_node hi]
    exact mcsCopyName_over ..
  simp only [hname]
  exact congrArg (fun nodes => (Except.ok fs.nodeCount.toNat,
      ({ overFs fs r with
        nodes := nodes
        nodeCount := fs.nodeCount + 1
        dataUsed := if type = .file then fs.dataUsed + capacity else fs.dataUsed } : Ramfs)))
    (updateNode_over hi
      { used := true
        id := fs.nodeCount.setWidth 32
        parent := parent
        type := type
        name := mcsCopyName (fs.nodes fs.nodeCount.toNat).name name n
        size := 0
        dataOffset := if type = .file then fs.dataUsed else 0
        dataCapacity := if type = .file then capacity else 0 })

/-- A file is created within the bounds. -/
theorem mcsRamfsCreateFile_over (hT : FsTree fs) (path : Option Path) :
    mcsRamfsCreateFile (overFs fs r) path
      = ((mcsRamfsCreateFile fs path).1, overFs (mcsRamfsCreateFile fs path).2 r) := by
  rw [mcsRamfsCreateFile, mcsRamfsCreateFile]
  -- the results are related by what lies beyond the bounds
  let f := fun x : Except VfsErr Nat × Ramfs => (x.1, overFs x.2 r)
  refine ite_image f rfl (fun _ => ?_)
  rw [mcsRamfsLookup_over hT, mcsSplitParentLeaf_over hT]
  cases hlook : mcsRamfsLookup fs path with
  | ok i =>
      have hi := Nat.lt_of_lt_of_le (mcsRamfsLookup_lt hT hlook) hT.bound
      simp only [overFs_node hi, overNode_type]
      exact ite_image f rfl (fun _ => rfl)
  | error e =>
      simp only
      cases hsplit : mcsSplitParentLeaf fs path with
      | error rc => rfl
      | ok x =>
          obtain ⟨p, leaf, n⟩ := x
          have hp := Nat.lt_of_lt_of_le (mcsSplitParentLeaf_ok hT hsplit).1 hT.bound
          simp only [overFs_node hp, overNode_type, mcsAllocNode_over]
          exact ite_image f rfl (fun _ => rfl)

theorem mcsFdGet_over (fd : Int) : mcsFdGet (overTable table rt) fd = mcsFdGet table fd := by
  rw [mcsFdGet, mcsFdGet]
  by_cases hrange : fd < 0 ∨ fd.toNat ≥ MCS_MAX_OPEN_FILES
  · rw [if_pos hrange, if_pos hrange]
  · rw [if_neg hrange, if_neg hrange, overTable_file (by omega)]

/-- A descriptor is allocated within the bounds. -/
theorem mcsFdAlloc_over :
    mcsFdAlloc (overTable table rt)
      = ((mcsFdAlloc table).1, overTable (mcsFdAlloc table).2 rt) := by
  have hfind : (List.range MCS_MAX_OPEN_FILES).find? (fun i => !((overTable table rt).files i).used)
      = (List.range MCS_MAX_OPEN_FILES).find? (fun i => !(table.files i).used) := by
    refine find?_congr (fun i hi => ?_)
    rw [overTable_file (List.mem_range.mp hi)]
  rw [mcsFdAlloc, mcsFdAlloc, hfind]
  cases hd : (List.range MCS_MAX_OPEN_FILES).find? (fun i => !(table.files i).used) with
  | none => rfl
  | some d =>
      have hd' : d < MCS_MAX_OPEN_FILES := List.mem_range.mp (List.mem_of_find?_eq_some hd)
      simp only [overTable_file hd', setFile_over hd']

/-- A node is opened within the bounds. -/
theorem openNode_over {node : Nat} (hnode : node < MCS_MAX_NODES) (flags : U32) :
    openNode (overFs fs r) (overTable table rt) node flags
      = ((openNode fs table node flags).1, overFs (openNode fs table node flags).2.1 r,
          overTable (openNode fs table node flags).2.2 rt) := by
  rw [openNode, openNode, overFs_node hnode]
  by_cases hdir : (fs.nodes node).type = .dir ∧ mcsCanWrite flags
  · rw [if_pos hdir]
    exact if_pos hdir
  rw [if_neg hdir, mcsFdAlloc_over]
  refine (if_neg hdir).trans ?_
  rcases mcsFdAlloc_cases table with ⟨-, heq⟩ | ⟨d, hd, heq⟩
  · rw [heq]
  · rw [heq]
    -- the new descriptor is one of the sixteen
    simp only [overTable_file hd.lt, setFile_over hd.lt]
    by_cases htrunc : flags &&& MCS_O_TRUNC ≠ 0
    · simp only [if_pos htrunc]
      by_cases hwrite : (!mcsCanWrite flags) = true
      · simp only [if_pos hwrite]
        rfl
      · simp only [if_neg hwrite, setSize_over hnode]
    · simp only [if_neg htrunc]
      rfl

/-- **OPEN** stays within the arrays. -/
theorem mcsVfsOpen_over (hF : FsInv fs) (path : Option Path) (flags : U32) :
    mcsVfsOpen (overFs fs r) (overTable table rt) path flags
      = ((mcsVfsOpen fs table path flags).1, overFs (mcsVfsOpen fs table path flags).2.1 r,
          overTable (mcsVfsOpen fs table path flags).2.2 rt) := by
  rw [mcsVfsOpen, mcsVfsOpen, mcsRamfsLookup_over hF.tree, mcsRamfsCreateFile_over hF.tree]
  by_cases hnone : path.isNone
  · rw [if_pos hnone, if_pos hnone]
  rw [if_neg hnone, if_neg hnone]
  -- the flags take no part in where things lie
  generalize openFlags flags = flags
  cases hlook : mcsRamfsLookup fs path with
  | ok node =>
      exact openNode_over (Nat.lt_of_lt_of_le (mcsRamfsLookup_lt hF.tree hlook) hF.tree.bound) flags
  | error e =>
      simp only
      by_cases hcreat : flags &&& MCS_O_CREAT = 0
      · rw [if_pos hcreat, if_pos hcreat]
      rw [if_neg hcreat, if_neg hcreat]
      obtain ⟨hF', -, hfile⟩ := hF.createFile path
      cases hcreate : mcsRamfsCreateFile fs path with
      | mk x fs' =>
          rw [hcreate] at hF' hfile
          cases x with
          | error rc => rfl
          | ok node =>
              exact openNode_over (Nat.lt_of_lt_of_le (hfile node rfl).1 hF'.tree.bound) flags

/-! ## Moving data -/

/-- What an open descriptor refers to lies within the node table. -/
theorem node_lt (hF : FsInv fs) (hT : TableOk fs table) {fd : Int} {d i : Nat}
    (hget : mcsFdGet table fd = some d) (hnode : (table.files d).node = some i) :
    d < MCS_MAX_OPEN_FILES ∧ i < MCS_MAX_NODES := by
  obtain ⟨hd, -, hused⟩ := mcsFdGet_some hget
  obtain ⟨-, j, hj, hlt⟩ := hT d hd hused
  rw [hnode] at hj
  rw [Option.some.inj hj]
  exact ⟨hd, Nat.lt_of_lt_of_le hlt hF.tree.bound⟩

/-- The checks in front of a transfer look at the descriptor and its node only. -/
theorem checkOpen_over (hF : FsInv fs) (hT : TableOk fs table) {can : U32 → Bool} {fd : Int}
    {buf : Bool} {len : U64} {β : Type} {fail fail' : VfsErr → β} {go go' : Nat → Nat → β}
    (f : β → β) (hfail : ∀ e, fail' e = f (fail e))
    (hgo : ∀ d i, d < MCS_MAX_OPEN_FILES → i < MCS_MAX_NODES → go' d i = f (go d i)) :
    checkOpen can (overFs fs r) (overTable table rt) fd buf len fail' go'
      = f (checkOpen can fs table fd buf len fail go) := by
  rw [checkOpen, checkOpen, mcsFdGet_over]
  refine ite_image f (hfail _) (fun _ => ?_)
  cases hget : mcsFdGet table fd with
  | none => exact hfail _
  | some d =>
      have hd := (mcsFdGet_some hget).1
      simp only [overTable_file hd]
      refine ite_image f (hfail _) (fun _ => ?_)
      cases hnode : (table.files d).node with
      | none => exact hfail _
      | some i =>
          obtain ⟨-, hi⟩ := node_lt hF hT hget hnode
          simp only [overFs_node hi, overNode_type]
          refine ite_image f (hfail _) (fun _ => ?_)
          exact ite_image f (hfail _) (fun _ => hgo d i hd hi)

/-- What a read is about lies within the bounds. -/
theorem readTransfer_over (hF : FsInv fs) (hT : TableOk fs table) (fd : Int) (buf : Bool)
    (len : U64) :
    readTransfer (overFs fs r) (overTable table rt) fd buf len
      = readTransfer fs table fd buf len := by
  rw [readTransfer_eq, readTransfer_eq]
  refine checkOpen_over hF hT id (fun _ => rfl) (fun d i hd hi => ?_)
  simp only [overTable_file hd, overFs_node hi]
  rfl

/-- The bytes a transfer touches are bytes of the data array. -/
theorem inExtent_bound (hF : FsInv fs) {t : Transfer} (h : InExtent fs t) :
    t.node < MCS_MAX_NODES ∧
    ∀ i, i < t.len.toNat → t.start fs + i < MCS_RAMFS_DATA_BYTES := by
  obtain ⟨hfile, hin⟩ := h
  refine ⟨Nat.lt_of_lt_of_le hfile.1 hF.tree.bound, fun i hi => ?_⟩
  obtain ⟨-, hend⟩ := hin (t.start fs + i) (by omega) (by omega)
  have hext := hF.data.extent t.node hfile
  have hbound := hF.data.bound
  omega

/-- **READ** stays within the arrays. -/
theorem mcsVfsRead_over (hF : FsInv fs) (hT : TableOk fs table) (fd : Int) (buf : Bool)
    (len : U64) :
    mcsVfsRead (overFs fs r) (overTable table rt) fd buf len
      = ((mcsVfsRead fs table fd buf len).1, (mcsVfsRead fs table fd buf len).2.1,
          overTable (mcsVfsRead fs table fd buf len).2.2 rt) := by
  rw [mcsVfsRead, mcsVfsRead, readTransfer_over hF hT]
  cases hread : readTransfer fs table fd buf len with
  | error e => rfl
  | ok x =>
      obtain ⟨d, t⟩ := x
      have hr := readTransfer_ok hread
      obtain ⟨ht, hend⟩ := inExtent_bound hF (hr.inExtent hF hT)
      have hd := (mcsFdGet_some hr.slot).1
      have hbytes : (List.range t.len.toNat).map
            (fun i => (overFs fs r).data (t.start (overFs fs r) + i))
          = (List.range t.len.toNat).map (fun i => fs.data (t.start fs + i)) := by
        refine List.map_congr_left (fun i hi => ?_)
        rw [start_over ht, overFs_data (hend i (List.mem_range.mp hi))]
      simp only [hbytes, overTable_file hd, setFile_over hd]

/-- What a write is about lies within the bounds. -/
theorem writeTransfer_over (hF : FsInv fs) (hT : TableOk fs table) (fd : Int) (buf : Bool)
    (len : U64) :
    writeTransfer (overFs fs r) (overTable table rt) fd buf len
      = ((writeTransfer fs table fd buf len).1,
          overTable (writeTransfer fs table fd buf len).2 rt) := by
  rw [writeTransfer_eq, writeTransfer_eq]
  let f := fun x : Except VfsErr (Nat × Transfer) × FdTable => (x.1, overTable x.2 rt)
  refine checkOpen_over hF hT f (fun _ => rfl) (fun d i hd hi => ?_)
  have hpos : writePos (overFs fs r) (table.files d) i = writePos fs (table.files d) i := by
    rw [writePos, writePos, overFs_node hi]
    rfl
  simp only [overTable_file hd, overFs_node hi, overNode_dataCapacity, setFile_over hd, hpos]
  -- a position behind the extent, a short write
  refine ite_image f rfl (fun _ => ?_)
  exact ite_image f rfl (fun _ => rfl)

/-- **WRITE** stays within the arrays, and reads its buffer up to its length. -/
theorem mcsVfsWrite_over (hF : FsInv fs) (hT : TableOk fs table) (fd : Int)
    {buf buf' : Nat → U8} {len : U64} (hbuf : ∀ i, i < len.toNat → buf' i = buf i) :
    mcsVfsWrite (overFs fs r) (overTable table rt) fd (some buf') len
      = ((mcsVfsWrite fs table fd (some buf) len).1,
          overFs (mcsVfsWrite fs table fd (some buf) len).2.1 r,
          overTable (mcsVfsWrite fs table fd (some buf) len).2.2 rt) := by
  rw [mcsVfsWrite, mcsVfsWrite]
  simp only [Option.isSome_some, writeTransfer_over hF hT, Option.getD_some]
  rcases writeTransfer_cases fs table fd true len with
    ⟨e, heq⟩ | ⟨d, i, -, -, e, heq⟩ | ⟨d, t, hw, heq⟩
  · rw [heq]
  · rw [heq]
  · rw [heq]
    obtain ⟨ht, hend⟩ := inExtent_bound hF (hw.inExtent hF hT)
    have hd := (mcsFdGet_some hw.slot).1
    -- bytes of the buffer behind the count are not stored
    have hput : putBytes fs t buf' = putBytes fs t buf := by
      rw [putBytes, putBytes, mcsCopyBytes, mcsCopyBytes]
      refine congrArg (fun data => { fs with data := data }) (forN_congr (fun i hi => ?_) _)
      rw [hbuf i (hw.count ▸ hi)]
    simp only [putBytes_over ht hend, hput, overFs_node ht, overNode_size, overTable_file hd,
      setFile_over hd]
    by_cases hgrow : t.pos + t.len > ((putBytes fs t buf).nodes t.node).size
    · rw [if_pos hgrow, if_pos hgrow, setSize_over ht]
    · rw [if_neg hgrow, if_neg hgrow]

/-- **SEEK** and **CLOSE** stay within the arrays. -/
theorem mcsVfsLseek_over (hF : FsInv fs) (hT : TableOk fs table) (fd : Int) (offset : U64)
    (whence : Int) :
    mcsVfsLseek (overFs fs r) (overTable table rt) fd offset whence
      = ((mcsVfsLseek fs table fd offset whence).1,
          overTable (mcsVfsLseek fs table fd offset whence).2 rt) := by
  rw [mcsVfsLseek, mcsVfsLseek, mcsFdGet_over]
  cases hget : mcsFdGet table fd with
  | none => rfl
  | some d =>
      have hd := (mcsFdGet_some hget).1
      simp only [overTable_file hd]
      cases hnode : (table.files d).node with
      | none => rfl
      | some i =>
          obtain ⟨-, hi⟩ := node_lt hF hT hget hnode
          simp only [overFs_node hi, overNode_type, overNode_size, setFile_over hd]
          by_cases hdir : (fs.nodes i).type = .dir
          · rw [if_pos hdir, if_pos hdir]
          rw [if_neg hdir, if_neg hdir]
          -- the three bases, and the refusal of any other `whence`
          split
          · split <;> rfl
          · split
            · split <;> rfl
            · split
              · split <;> rfl
              · rfl

/-- A close stays within the bounds. -/
theorem mcsVfsClose_over (fd : Int) :
    mcsVfsClose (overTable table rt) fd
      = ((mcsVfsClose table fd).1, overTable (mcsVfsClose table fd).2 rt) := by
  rw [mcsVfsClose, mcsVfsClose, mcsFdGet_over]
  cases hget : mcsFdGet table fd with
  | none => rfl
  | some d => simp only [setFile_over (mcsFdGet_some hget).1]

end VfsBounds
