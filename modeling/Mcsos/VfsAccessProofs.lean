import Mcsos.VfsStaleProofs

/-! # Only write access changes a file

    Each call changes at most one file, and its own result tells which
    (`touched`): a write that was let through, a truncating open, a seed.  Every
    other node and every byte of every other extent stay as they are
    (`step_same`).

    A descriptor is let through by the flags in its slot.  Those are the flags
    its open was given, or the open of the descriptor it was duplicated from,
    with read access added when no access was asked for (`Recorded`); so what a
    slot permits was asked for by an open. -/

namespace VfsAccess

open Word Loop VfsModel VfsTree VfsInvariant VfsContents VfsStale

/-! ## The file a call changes -/

/-- The file that a call has written, seeded or truncated. -/
def touched (s : VfsState) : VfsOp → Option Nat
  | .seedFile path data len =>
      match (mcsRamfsSeedFile s.fs path data len).1 with
      | .ok t => some t.node
      | .error _ => none
  | .vfsWrite table fd buf len =>
      match (writeTransfer s.fs (s.tables table) fd buf.isSome len).1 with
      | .ok (_, t) => some t.node
      | .error _ => none
  | .vfsOpen table path flags => truncated s table path flags
  | _ => none

/-- A node is the same, and if it is a file so are all bytes of its extent. -/
structure SameNode (fs fs' : Ramfs) (i : Nat) : Prop where
  node : fs'.nodes i = fs.nodes i
  bytes : IsFile fs i → ∀ p, p < (fs.nodes i).dataCapacity.toNat →
    fs'.data ((fs.nodes i).dataOffset.toNat + p) = fs.data ((fs.nodes i).dataOffset.toNat + p)

variable {fs fs' fs'' : Ramfs} {s : VfsState} {f i : Nat}

theorem SameNode.refl (fs : Ramfs) (i : Nat) : SameNode fs fs i := ⟨rfl, fun _ _ _ => rfl⟩

theorem SameNode.trans (h : SameNode fs fs' i) (h' : SameNode fs' fs'' i)
    (hfile : IsFile fs i → IsFile fs' i) : SameNode fs fs'' i := by
  refine ⟨h'.node.trans h.node, fun hi p hp => ?_⟩
  have hb := h'.bytes (hfile hi)
  rw [h.node] at hb
  rw [hb p hp, h.bytes hi p hp]

/-- Creating a file leaves the other nodes alone. -/
theorem sameNode_createFile (hT : FsTree fs) (path : Option Path) (hi : i < fs.nodeCount.toNat) :
    SameNode fs (mcsRamfsCreateFile fs path).2 i := by
  rcases mcsRamfsCreateFile_cases hT path with
    ⟨e, heq⟩ | ⟨j, -, -, heq⟩ | ⟨p, leaf, -, heq⟩
  · rw [heq]
    exact .refl fs i
  · rw [heq]
    exact .refl fs i
  · rw [heq]
    exact ⟨addFile_node hi, fun _ _ _ => rfl⟩

/-- A new size is that of one node. -/
theorem sameNode_setSize (hne : i ≠ f) (size : U64) : SameNode fs (setSize fs f size) i := by
  refine ⟨?_, fun _ _ _ => rfl⟩
  rw [setSize_node, if_neg hne]

/-- Written bytes are those of one file. -/
theorem sameNode_putBytes (hF : FsInv fs) {t : Transfer} (hfile : IsFile fs t.node)
    (hfits : t.pos.toNat + t.len.toNat ≤ (fs.nodes t.node).dataCapacity.toNat)
    (bytes : Nat → U8) (hne : i ≠ t.node) : SameNode fs (putBytes fs t bytes) i := by
  refine ⟨rfl, fun hi p hp => ?_⟩
  rw [putBytes_file hF hfile hfits bytes hi hp, if_neg (fun h => hne h.1)]

/-- A write changes no node but the one it touches. -/
theorem sameNode_write (hI : VfsInv s) {table : Nat} {fd : Int} {buf : Option (Nat → U8)}
    {len : U64} (hne : touched s (.vfsWrite table fd buf len) ≠ some i) :
    SameNode s.fs (mcsVfsWrite s.fs (s.tables table) fd buf len).2.1 i := by
  simp only [touched] at hne
  rcases mcsVfsWrite_cases s.fs (s.tables table) fd buf len with
    ⟨e, -, heq⟩ | ⟨d, j, e, -, -, -, heq⟩ | ⟨d, t, hchk, hw, heq⟩
  · rw [heq]
    exact .refl s.fs i
  · rw [heq]
    exact .refl s.fs i
  · rw [hchk] at hne
    have hit : i ≠ t.node := fun hc => hne (by rw [hc])
    -- the bytes first, and then the size if the file grew
    have hput := sameNode_putBytes hI.fs ((hI.tables table).isFile hw.slot hw.node hw.file)
      hw.fits_toNat (buf.getD (fun _ => 0)) hit
    rw [heq]
    simp only
    split
    · exact hput.trans (sameNode_setSize hit _) id
    · exact hput

/-- A seed changes no node but the seeded file's. -/
theorem sameNode_seed (hF : FsInv fs) {path : Option Path} {data : Option (Nat → U8)} {len : U64}
    (hi : i < fs.nodeCount.toNat)
    (hne : ∀ t, (mcsRamfsSeedFile fs path data len).1 = .ok t → i ≠ t.node) :
    SameNode fs (mcsRamfsSeedFile fs path data len).2 i := by
  have hcreate := sameNode_createFile hF.tree path hi
  have hkeeps := (sameFiles_createFile hF.tree path).file i
  obtain ⟨hF', -, hfile⟩ := hF.createFile path
  rcases mcsRamfsSeedFile_cases fs path data len with
    ⟨e, heq⟩ | ⟨e, heq⟩ | ⟨node, hnode, hfits, heq⟩
  · rw [heq]
    exact .refl fs i
  · rw [heq]
    exact hcreate
  · rw [heq] at hne ⊢
    have hit : i ≠ node := hne _ rfl
    have hput := sameNode_putBytes hF' (t := ⟨node, 0, len⟩) (hfile node hnode)
      (by show 0 + len.toNat ≤ _; bv_omega) (data.getD (fun _ => 0)) hit
    exact hcreate.trans (hput.trans (sameNode_setSize hit len) id) hkeeps

/-- **STEP**: a call leaves every node alone but the one it tells. -/
theorem step_same (hI : VfsInv s) (hi : i < s.fs.nodeCount.toNat) {op : VfsOp}
    (hne : touched s op ≠ some i) : SameNode s.fs (vfsStep s op).2.fs i := by
  cases op with
  | createFile path => exact sameNode_createFile hI.fs.tree path hi
  | seedFile path data len =>
      refine sameNode_seed hI.fs hi (fun t ht hc => hne ?_)
      simp only [touched, ht, hc]
  | vfsOpen table path flags =>
      -- found or created, and then truncated or not
      have hcreate := sameNode_createFile hI.fs.tree path hi
      have hkeeps := (sameFiles_createFile hI.fs.tree path).file i
      have htrunc : ∀ f, truncated s table path flags = some f → i ≠ f :=
        fun f hf hc => hne (by rw [hc]; exact hf)
      show SameNode s.fs (mcsVfsOpen s.fs (s.tables table) path flags).2.1 i
      rcases open_cases hI.fs.tree table path flags with
        (⟨hfs, -⟩ | ⟨f, hfs, hf⟩) | (⟨hfs, -⟩ | ⟨f, hfs, hf⟩)
      · rw [hfs]
        exact .refl s.fs i
      · rw [hfs]
        exact sameNode_setSize (htrunc f hf) 0
      · rw [hfs]
        exact hcreate
      · rw [hfs]
        exact hcreate.trans (sameNode_setSize (htrunc f hf) 0) hkeeps
  | vfsWrite table fd buf len => exact sameNode_write hI hne
  | vfsRead => exact .refl s.fs i
  | vfsLseek => exact .refl s.fs i
  | vfsClose => exact .refl s.fs i
  | vfsDup => exact .refl s.fs i

/-! ## The flags of a descriptor -/

/-- Table, slot, and the flags the open of the descriptor there was given. -/
abbrev OpenedWith := Nat → Nat → U32

/-- A descriptor that was opened with `flags`. -/
def OpenedWith.put (W : OpenedWith) (table d : Nat) (flags : U32) : OpenedWith :=
  Function.update W table (Function.update (W table) d flags)

/-- A successful open records its flags, a successful dup those of the original. -/
def openedStep (s : VfsState) (W : OpenedWith) : VfsOp → OpenedWith
  | .vfsOpen table path flags =>
      match (mcsVfsOpen s.fs (s.tables table) path flags).1 with
      | .ok d => W.put table d flags
      | .error _ => W
  | .vfsDup table fd =>
      match (mcsVfsDup (s.tables table) fd).1 with
      | .ok d => W.put table d (W table fd.toNat)
      | .error _ => W
  | _ => W

/-- The record over a run. -/
def openedAfter : VfsState → OpenedWith → List VfsOp → OpenedWith
  | _, W, [] => W
  | s, W, op :: ops => openedAfter (vfsStep s op).2 (openedStep s W op) ops

/-- The slots of a table hold the flags on record. -/
def TableRecorded (table : FdTable) (w : Nat → U32) : Prop :=
  ∀ d, d < MCS_MAX_OPEN_FILES → (table.files d).used = true →
    (table.files d).flags = openFlags (w d)

/-- Every open descriptor of every table has the flags it was opened with. -/
def Recorded (s : VfsState) (W : OpenedWith) : Prop := ∀ i, TableRecorded (s.tables i) (W i)

variable {table : FdTable} {w : Nat → U32} {W : OpenedWith}

/-- A slot is filled anew, or given up. -/
theorem TableRecorded.setFile (h : TableRecorded table w) (d : Nat) {file : File} {flags : U32}
    (hfile : file.used = true → file.flags = openFlags flags) :
    TableRecorded (setFile table d file) (Function.update w d flags) := by
  intro j hj
  rw [setFile_file]
  by_cases hjd : j = d
  · rw [if_pos hjd, hjd, Function.update_self]
    exact hfile
  · rw [if_neg hjd, Function.update_of_ne hjd]
    exact h j hj

/-- A slot is changed without a new open. -/
theorem TableRecorded.keep (h : TableRecorded table w) (d : Nat) {file : File}
    (hfile : file.used = true → file.flags = openFlags (w d)) :
    TableRecorded (VfsModel.setFile table d file) w := by
  have hset := h.setFile d hfile
  rwa [Function.update_eq_self] at hset

/-- A moved offset does not matter. -/
theorem TableRecorded.movesOffset {table' : FdTable} {fd : Int} (h : TableRecorded table w)
    (hm : MovesOffset table fd table') : TableRecorded table' w := by
  cases hm with
  | stays => exact h
  | moves hget => exact h.keep _ (fun hu => h _ (mcsFdGet_some hget).1 hu)

/-- A table with its record. -/
theorem Recorded.setTable (h : Recorded s W) (fs : Ramfs) (i : Nat)
    (ht : TableRecorded table w) :
    Recorded (setTable { s with fs := fs } i table) (Function.update W i w) := by
  intro j
  show TableRecorded (Function.update s.tables i table j) (Function.update W i w j)
  by_cases hj : j = i
  · rw [hj, Function.update_self, Function.update_self]
    exact ht
  · rw [Function.update_of_ne hj, Function.update_of_ne hj]
    exact h j

/-- A table is changed without a new open. -/
theorem Recorded.keep (h : Recorded s W) {fs : Ramfs} {i : Nat} (ht : TableRecorded table (W i)) :
    Recorded (VfsModel.setTable { s with fs := fs } i table) W := by
  have hset := h.setTable fs i ht
  rwa [Function.update_eq_self] at hset

/-- An open records its flags, or fails. -/
theorem recorded_opensNode {node : Nat} {flags : U32} {r : Except VfsErr Nat × Ramfs × FdTable}
    (ht : TableRecorded table w) (h : OpensNode fs table node (openFlags flags) r) :
    (∃ e, r.1 = .error e ∧ TableRecorded r.2.2 w) ∨
    ∃ d, r.1 = .ok d ∧ TableRecorded r.2.2 (Function.update w d flags) := by
  cases h with
  | directory => exact Or.inl ⟨_, rfl, ht⟩
  | full => exact Or.inl ⟨_, rfl, ht⟩
  | denied => exact Or.inl ⟨_, rfl, ht.keep _ (fun hu => absurd hu Bool.false_ne_true)⟩
  | truncates => exact Or.inr ⟨_, rfl, ht.setFile _ (fun _ => rfl)⟩
  | opens => exact Or.inr ⟨_, rfl, ht.setFile _ (fun _ => rfl)⟩

/-- `mcs_vfs_open` records its flags, or fails. -/
theorem recorded_open (hT : FsTree s.fs) (h : Recorded s W) (i : Nat) (path : Option Path)
    (flags : U32) :
    Recorded (vfsStep s (.vfsOpen i path flags)).2 (openedStep s W (.vfsOpen i path flags)) := by
  have hresult : (∃ e, (mcsVfsOpen s.fs (s.tables i) path flags).1 = .error e ∧
        TableRecorded (mcsVfsOpen s.fs (s.tables i) path flags).2.2 (W i)) ∨
      ∃ d, (mcsVfsOpen s.fs (s.tables i) path flags).1 = .ok d ∧
        TableRecorded (mcsVfsOpen s.fs (s.tables i) path flags).2.2
          (Function.update (W i) d flags) := by
    have hopens := mcsVfsOpen_opens hT (s.tables i) path flags
    generalize mcsVfsOpen s.fs (s.tables i) path flags = r at hopens ⊢
    cases hopens with
    | refused e => exact Or.inl ⟨e, rfl, h i⟩
    | found _ ho => exact recorded_opensNode (h i) ho
    | created _ _ ho => exact recorded_opensNode (h i) ho
  simp only [openedStep, vfsStep]
  rcases hresult with ⟨e, heq, ht⟩ | ⟨d, heq, ht⟩
  · rw [heq]
    exact h.keep ht
  · rw [heq]
    exact h.setTable _ i ht

/-- **STEP**: the slots hold the flags on record. -/
theorem recorded_step (hI : VfsInv s) (h : Recorded s W) (op : VfsOp) :
    Recorded (vfsStep s op).2 (openedStep s W op) := by
  cases op with
  | createFile path => exact h
  | seedFile path data len => exact h
  | vfsOpen i path flags => exact recorded_open hI.fs.tree h i path flags
  | vfsRead i fd buf len => exact h.keep ((h i).movesOffset (mcsVfsRead_moves ..))
  | vfsWrite i fd buf len => exact h.keep ((h i).movesOffset (mcsVfsWrite_moves ..))
  | vfsLseek i fd offset whence => exact h.keep ((h i).movesOffset (mcsVfsLseek_moves ..))
  | vfsClose i fd =>
      refine h.keep ?_
      rw [mcsVfsClose]
      split
      · exact h i
      · exact (h i).keep _ (fun hu => absurd hu Bool.false_ne_true)
  | vfsDup i fd =>
      simp only [openedStep, vfsStep]
      rcases mcsVfsDup_cases (s.tables i) fd with
        ⟨-, heq⟩ | ⟨d, -, -, heq⟩ | ⟨d, d', hget, -, heq⟩
      · rw [heq]
        exact h.keep (h i)
      · rw [heq]
        exact h.keep (h i)
      · rw [heq]
        -- a duplicate has the flags of its original
        obtain ⟨hd, hfd, hused⟩ := mcsFdGet_some hget
        refine h.setTable s.fs i ((h i).setFile d' (fun _ => ?_))
        rw [hfd]
        exact h i d hd hused

/-- **RUN**: over any run of calls the slots hold the flags they were opened with. -/
theorem recorded_run (ops : List VfsOp) :
    ∀ {s : VfsState} {W : OpenedWith}, VfsInv s → Recorded s W →
      Recorded (Machine.exec vfsStep s ops) (openedAfter s W ops) := by
  induction ops with
  | nil => intro s W _ h; exact h
  | cons op ops ih => intro s W hI h; exact ih (vfsStep_inv hI op) (recorded_step hI h op)

/-! ## Who may change a file -/

/-- The flags ask for write access. -/
def AsksWrite (flags : U32) : Prop := flags &&& MCS_O_WRONLY ≠ 0 ∨ flags &&& MCS_O_RDWR ≠ 0

/-- The check for write access. -/
theorem mcsCanWrite_iff (flags : U32) : mcsCanWrite flags = true ↔ AsksWrite flags := by
  rw [mcsCanWrite, AsksWrite, Bool.or_eq_true, decide_eq_true_iff, decide_eq_true_iff]

/-- Read access, added to flags without any, gives no write access. -/
theorem mcsCanWrite_openFlags (flags : U32) :
    mcsCanWrite (openFlags flags) = mcsCanWrite flags := by
  rw [mcsCanWrite, mcsCanWrite, openFlags_and flags (by decide), openFlags_and flags (by decide)]

/-- An accepted write passes the check for write access. -/
theorem writeTransfer_access {table : FdTable} {fd : Int} {buf : Bool} {len : U64} {d : Nat}
    {t : Transfer} (h : (writeTransfer fs table fd buf len).1 = .ok (d, t)) :
    mcsCanWrite (table.files d).flags = true := by
  have hslot := (writeTransfer_ok h).slot
  rcases writeTransfer_refused fs table fd buf len with ⟨e, heq⟩ | ⟨-, d', i, ho⟩
  · rw [heq] at h
    cases h
  · have hd : d' = d := Option.some.inj (ho.slot.symm.trans hslot)
    exact hd ▸ ho.access

/-- A write that touches a file got past its checks. -/
theorem touched_write {table : Nat} {fd : Int} {buf : Option (Nat → U8)} {len : U64}
    (h : touched s (.vfsWrite table fd buf len) = some f) :
    ∃ d t, (writeTransfer s.fs (s.tables table) fd buf.isSome len).1 = .ok (d, t) ∧
      t.node = f := by
  simp only [touched] at h
  cases hchk : (writeTransfer s.fs (s.tables table) fd buf.isSome len).1 with
  | error e =>
      rw [hchk] at h
      cases h
  | ok r =>
      obtain ⟨d, t⟩ := r
      rw [hchk] at h
      exact ⟨d, t, rfl, Option.some.inj h⟩

/-- A truncating open asked for that and for write access, and has a file. -/
theorem truncated_spec (hI : FsInv s.fs) {table : Nat} {path : Option Path} {flags : U32}
    (h : truncated s table path flags = some f) :
    flags &&& MCS_O_TRUNC ≠ 0 ∧ AsksWrite flags ∧
      ((mcsRamfsLookup s.fs path = .ok f ∧ (s.fs.nodes f).type = .file) ∨
        f = s.fs.nodeCount.toNat) := by
  have hnode : ∀ {fs : Ramfs} {node : Nat} {r : Except VfsErr Nat × Ramfs × FdTable},
      mcsVfsOpen s.fs (s.tables table) path flags = r →
      OpensNode fs (s.tables table) node (openFlags flags) r →
      flags &&& MCS_O_TRUNC ≠ 0 ∧ AsksWrite flags ∧ f = node ∧ (fs.nodes f).type = .file := by
    intro fs node r hr ho
    rw [truncated, hr] at h
    cases ho with
    | directory => cases h
    | full => cases h
    | denied => cases h
    | truncates hd htrunc hwrite hfile =>
        rw [openFlags_trunc] at htrunc
        rw [mcsCanWrite_openFlags, mcsCanWrite_iff] at hwrite
        simp only [if_pos htrunc, setFile_file, if_pos] at h
        obtain rfl := Option.some.inj h
        exact ⟨htrunc, hwrite, rfl, hfile⟩
    | opens hd htrunc =>
        rw [openFlags_trunc] at htrunc
        simp only [htrunc, ne_eq, not_true_eq_false, if_false] at h
        cases h
  -- the truncated node was found, or has just been created
  have hopens := mcsVfsOpen_opens hI.tree (s.tables table) path flags
  generalize hr : mcsVfsOpen s.fs (s.tables table) path flags = r at hopens
  cases hopens with
  | refused e =>
      rw [truncated, hr] at h
      cases h
  | found hlook ho =>
      obtain ⟨htrunc, hwrite, rfl, hfile⟩ := hnode hr ho
      exact ⟨htrunc, hwrite, Or.inl ⟨hlook, hfile⟩⟩
  | created _ _ ho =>
      obtain ⟨htrunc, hwrite, rfl, -⟩ := hnode hr ho
      exact ⟨htrunc, hwrite, Or.inr rfl⟩

/-- No call changes the root directory. -/
theorem touched_ne_root (hI : VfsInv s) (op : VfsOp) : touched s op ≠ some 0 := by
  -- the root is a directory, and only files are touched
  have hroot := hI.fs.tree.root
  have hpos := hI.fs.tree.pos
  intro h
  cases op with
  | seedFile path data len =>
      obtain ⟨hF, -, hfile⟩ := hI.fs.createFile path
      simp only [touched] at h
      rcases mcsRamfsSeedFile_cases s.fs path data len with
        ⟨e, heq⟩ | ⟨e, heq⟩ | ⟨node, hnode, -, heq⟩
      · rw [heq] at h
        cases h
      · rw [heq] at h
        cases h
      · rw [heq] at h
        obtain rfl : node = 0 := Option.some.inj h
        exact absurd ((hfile 0 hnode).2.symm.trans hF.tree.root) (fun hc => by cases hc)
  | vfsWrite table fd buf len =>
      obtain ⟨d, t, hchk, hnode⟩ := touched_write h
      have hfile := (writeTransfer_ok hchk).file
      rw [hnode, hroot] at hfile
      cases hfile
  | vfsOpen table path flags =>
      obtain ⟨-, -, ⟨-, hfile⟩ | hnew⟩ := truncated_spec hI.fs h
      · rw [hroot] at hfile
        cases hfile
      · omega
  | createFile => cases h
  | vfsRead => cases h
  | vfsLseek => cases h
  | vfsClose => cases h
  | vfsDup => cases h

/-- The size of a file, or a byte of its extent, is another one. -/
def Changed (fs fs' : Ramfs) (f : Nat) : Prop :=
  (fs'.nodes f).size ≠ (fs.nodes f).size ∨
    ∃ p, p < (fs.nodes f).dataCapacity.toNat ∧
      fs'.data ((fs.nodes f).dataOffset.toNat + p) ≠ fs.data ((fs.nodes f).dataOffset.toNat + p)

/-- A file whose node is the same has not changed. -/
theorem SameNode.not_changed (h : SameNode fs fs' f) (hf : IsFile fs f) : ¬ Changed fs fs' f := by
  rintro (hsize | ⟨p, hp, hbyte⟩)
  · exact hsize (by rw [h.node])
  · exact hbyte (h.bytes hf p hp)

/-- The calls on descriptors that may change file `f`: a write through a descriptor of
    `f` that was opened for writing, and a truncating open of `f` for writing. -/
inductive MayChange (s : VfsState) (W : OpenedWith) (f : Nat) : VfsOp → Prop where
  | write {table d : Nat} {fd : Int} {buf : Option (Nat → U8)} {len : U64}
      (hget : mcsFdGet (s.tables table) fd = some d)
      (hnode : ((s.tables table).files d).node = some f) (hwrite : AsksWrite (W table d)) :
      MayChange s W f (.vfsWrite table fd buf len)
  | truncate {table : Nat} {path : Option Path} {flags : U32}
      (hlook : mcsRamfsLookup s.fs path = .ok f) (htrunc : flags &&& MCS_O_TRUNC ≠ 0)
      (hwrite : AsksWrite flags) : MayChange s W f (.vfsOpen table path flags)

/-- Seeding is not done through a descriptor. -/
def Seeds : VfsOp → Prop
  | .seedFile _ _ _ => True
  | _ => False

instance : DecidablePred Seeds
  | .seedFile .. => isTrue trivial
  | .createFile .. | .vfsOpen .. | .vfsRead .. | .vfsWrite .. | .vfsLseek .. | .vfsClose ..
  | .vfsDup .. => isFalse id

/-- A call touches a file only with the right to write it. -/
theorem mayChange_of_touched (hI : VfsInv s) (hW : Recorded s W) (hf : f < s.fs.nodeCount.toNat)
    {op : VfsOp} (hop : ¬ Seeds op) (h : touched s op = some f) : MayChange s W f op := by
  cases op with
  | seedFile => exact absurd trivial hop
  | vfsWrite table fd buf len =>
      obtain ⟨d, t, hchk, rfl⟩ := touched_write h
      have hw := writeTransfer_ok hchk
      obtain ⟨hd, -, hused⟩ := mcsFdGet_some hw.slot
      -- what the slot permits is what the open on record asked for
      have haccess := writeTransfer_access hchk
      rw [hW table d hd hused, mcsCanWrite_openFlags, mcsCanWrite_iff] at haccess
      exact .write hw.slot hw.node haccess
  | vfsOpen table path flags =>
      obtain ⟨htrunc, hwrite, ⟨hlook, -⟩ | hnew⟩ := truncated_spec hI.fs h
      · exact .truncate hlook htrunc hwrite
      · -- a file made by this open was not there before
        omega
  | createFile => cases h
  | vfsRead => cases h
  | vfsLseek => cases h
  | vfsClose => cases h
  | vfsDup => cases h

/-- No descriptor is open at the start. -/
theorem recorded_init (garbage : VfsState) (W : OpenedWith) : Recorded (vfsInit garbage) W := by
  intro i d hd hused
  have hfile := mcsFdTableInit_file (garbage.tables i) hd
  rw [show (vfsInit garbage).tables i = mcsFdTableInit (garbage.tables i) from rfl, hfile] at hused
  cases hused

/-- No run changes the root. -/
theorem root_run (garbage : VfsState) (ops : List VfsOp) :
    (Machine.exec vfsStep (vfsInit garbage) ops).fs.nodes 0 = (vfsInit garbage).fs.nodes 0 := by
  refine (Machine.exec_inv vfsStep
    (I := fun s => VfsInv s ∧ s.fs.nodes 0 = (vfsInit garbage).fs.nodes 0) ?_ ops _
    ⟨vfsInit_inv garbage, rfl⟩).2
  rintro s op ⟨hI, hroot⟩
  exact ⟨vfsStep_inv hI op, (step_same hI hI.fs.tree.pos (touched_ne_root hI op)).node.trans hroot⟩

/-- **ONLY WRITE ACCESS CHANGES A FILE**: after any calls, the size or a byte of a file
    changes only in a write through a descriptor whose open asked for write access, or
    in an open of that file that asks for truncation and for write access; and the root
    directory is what it was at the start. -/
theorem vfs_change_needs_write {garbage s : VfsState} {ops : List VfsOp}
    (hs : Machine.exec vfsStep (vfsInit garbage) ops = s) {op : VfsOp} (hop : ¬ Seeds op) :
    (∀ f, IsFile s.fs f → Changed s.fs (vfsStep s op).2.fs f →
      MayChange s (openedAfter (vfsInit garbage) (fun _ _ => 0) ops) f op) ∧
    (vfsStep s op).2.fs.nodes 0 = (vfsInit garbage).fs.nodes 0 := by
  have hI := exec_inv garbage ops
  have hW := recorded_run ops (vfsInit_inv garbage) (recorded_init garbage (fun _ _ => 0))
  have hroot := root_run garbage ops
  rw [hs] at hI hW hroot
  refine ⟨?_, (step_same hI hI.fs.tree.pos (touched_ne_root hI op)).node.trans hroot⟩
  intro f hf hchange
  refine mayChange_of_touched hI hW hf.1 hop ?_
  by_contra hne
  exact (step_same hI hf.1 hne).not_changed hf hchange

/-- Seed a file, open it for writing and duplicate the descriptor. -/
def dupRun : List VfsOp :=
  [.seedFile (some [slash, 0x61]) (some (fun i => BitVec.ofNat 8 i)) 4,
    .vfsOpen 0 (some [slash, 0x61]) MCS_O_WRONLY, .vfsDup 0 0, .vfsClose 0 0]

/-- A file is changed through a duplicate, which has the right of its original. -/
theorem vfs_change_needs_write_dup :
    Changed (Machine.exec vfsStep (vfsInit garbage) dupRun).fs
      (vfsStep (Machine.exec vfsStep (vfsInit garbage) dupRun)
        (.vfsWrite 0 1 (some (fun _ => 0x7a)) 1)).2.fs 1 ∧
    MayChange (Machine.exec vfsStep (vfsInit garbage) dupRun)
      (openedAfter (vfsInit garbage) (fun _ _ => 0) dupRun) 1
      (.vfsWrite 0 1 (some (fun _ => 0x7a)) 1) := by
  have hchange : Changed (Machine.exec vfsStep (vfsInit garbage) dupRun).fs
      (vfsStep (Machine.exec vfsStep (vfsInit garbage) dupRun)
        (.vfsWrite 0 1 (some (fun _ => 0x7a)) 1)).2.fs 1 :=
    Or.inr ⟨0, by decide +kernel, by decide +kernel⟩
  exact ⟨hchange, (vfs_change_needs_write rfl (by decide)).1 1
    ⟨by decide +kernel, by decide +kernel⟩ hchange⟩

end VfsAccess
