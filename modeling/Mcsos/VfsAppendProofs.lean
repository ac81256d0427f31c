import Mcsos.VfsAccessProofs

/-! # Appends are never lost

    A write through an append descriptor starts at the end of the file, whatever
    its offset was: seeks, reads and other descriptors may have left it anywhere.
    So while a file is written by such descriptors only, and neither truncated
    nor seeded, it is a log: what it held at first, and then the buffers of the
    writes that succeeded, in their order. -/

namespace VfsAppend

open Word Loop VfsModel VfsTree VfsInvariant VfsContents VfsStale VfsAccess

/-- The bytes of a file. -/
def contents (fs : Ramfs) (f : Nat) : List U8 :=
  (List.range (fs.nodes f).size.toNat).map
    (fun p => fs.data ((fs.nodes f).dataOffset.toNat + p))

/-- The bytes a write is given. -/
def bufferBytes (buf : Option (Nat → U8)) (len : U64) : List U8 :=
  (List.range len.toNat).map (buf.getD (fun _ => 0))

/-- If a call has written, seeded or truncated `f`, it was a write through an append
    descriptor. -/
def AppendOnly (f : Nat) (s : VfsState) (op : VfsOp) : Prop :=
  touched s op = some f →
    ∃ table fd d buf len, op = .vfsWrite table fd buf len ∧
      mcsFdGet (s.tables table) fd = some d ∧
      ((s.tables table).files d).flags &&& MCS_O_APPEND ≠ 0

/-- All calls of a run are of that kind. -/
def AppendRun (f : Nat) : VfsState → List VfsOp → Prop
  | _, [] => True
  | s, op :: ops => AppendOnly f s op ∧ AppendRun f (vfsStep s op).2 ops

/-- The buffer of a call that is a successful write to `f`. -/
def appendedBy (f : Nat) (s : VfsState) (op : VfsOp) : List U8 :=
  match op with
  | .vfsWrite _ _ buf len => if touched s op = some f then bufferBytes buf len else []
  | _ => []

/-- The buffers of the successful writes of a run to `f`, in their order. -/
def appended (f : Nat) : VfsState → List VfsOp → List U8
  | _, [] => []
  | s, op :: ops => appendedBy f s op ++ appended f (vfsStep s op).2 ops

variable {s : VfsState} {f : Nat} {op : VfsOp}

/-! ## One call -/

/-- No call takes a node away. -/
theorem step_nodeCount (hI : VfsInv s) (op : VfsOp) :
    s.fs.nodeCount.toNat ≤ (vfsStep s op).2.fs.nodeCount.toNat := by
  cases op with
  | createFile path => exact (hI.fs.createFile path).2.1
  | seedFile path data len => exact (mcsRamfsSeedFile_inv hI.fs path data len).2.1
  | vfsOpen table path flags => exact (mcsVfsOpen_inv hI.fs (hI.tables table) path flags).2.1
  | vfsWrite table fd buf len =>
      exact Nat.le_of_eq (congrArg BitVec.toNat
        (mcsVfsWrite_inv hI.fs (hI.tables table) fd buf len).2.1.symm)
  | vfsRead => exact Nat.le_refl _
  | vfsLseek => exact Nat.le_refl _
  | vfsClose => exact Nat.le_refl _
  | vfsDup => exact Nat.le_refl _

/-- A call that leaves the file alone. -/
theorem contents_same {fs fs' : Ramfs} (hF : FsInv fs) (hf : IsFile fs f)
    (h : SameNode fs fs' f) : contents fs' f = contents fs f := by
  have hsize := hF.data.size f hf
  rw [contents, contents, h.node]
  refine List.map_congr_left (fun p hp => h.bytes hf p ?_)
  have hp := List.mem_range.mp hp
  bv_omega

/-- **APPEND**: bytes put at the end of a file extend its contents. -/
theorem contents_put {fs : Ramfs} (hF : FsInv fs) {t : Transfer} (hfile : IsFile fs t.node)
    (hfits : t.pos.toNat + t.len.toNat ≤ (fs.nodes t.node).dataCapacity.toNat)
    (hend : t.pos = (fs.nodes t.node).size) (bytes : Nat → U8) :
    contents (setSize (putBytes fs t bytes) t.node (t.pos + t.len)) t.node
      = contents fs t.node ++ (List.range t.len.toNat).map bytes := by
  have hsize : (t.pos + t.len).toNat = (fs.nodes t.node).size.toNat + t.len.toNat := by
    rw [hend] at hfits ⊢
    bv_omega
  have hbyte := fun p hp => putBytes_file hF hfile hfits bytes (p := p) hfile hp
  rw [hend] at hbyte hfits
  rw [contents, setSize_node, if_pos rfl, hsize, List.range_add, List.map_append, List.map_map]
  -- below the old size nothing is written, above it the buffer
  congr 1
  · refine List.map_congr_left (fun p hp => ?_)
    have hp := List.mem_range.mp hp
    refine (hbyte p (by omega)).trans (if_neg ?_)
    rintro ⟨-, hle, -⟩
    omega
  · refine List.map_congr_left (fun p hp => ?_)
    have hp := List.mem_range.mp hp
    refine (hbyte ((fs.nodes t.node).size.toNat + p) (by omega)).trans ?_
    rw [if_pos ⟨rfl, by omega, by omega⟩, Nat.add_sub_cancel_left]

/-- A call that leaves the file alone adds nothing to it. -/
theorem append_same (hI : VfsInv s) (hf : IsFile s.fs f) (hne : touched s op ≠ some f) :
    IsFile (vfsStep s op).2.fs f ∧
      contents (vfsStep s op).2.fs f = contents s.fs f ++ appendedBy f s op := by
  have hsame := step_same hI hf.1 hne
  have hnone : appendedBy f s op = [] := by
    unfold appendedBy
    split
    · exact if_neg hne
    · rfl
  refine ⟨⟨Nat.lt_of_lt_of_le hf.1 (step_nodeCount hI op), ?_⟩, ?_⟩
  · rw [hsame.node]
    exact hf.2
  · rw [hnone, List.append_nil]
    exact contents_same hI.fs hf hsame

/-- A write through an append descriptor adds its buffer. -/
theorem append_write (hI : VfsInv s) {table d : Nat} {fd : Int} {buf : Option (Nat → U8)}
    {len : U64} (htouch : touched s (.vfsWrite table fd buf len) = some f)
    (hget : mcsFdGet (s.tables table) fd = some d)
    (happend : ((s.tables table).files d).flags &&& MCS_O_APPEND ≠ 0) :
    IsFile (vfsStep s (.vfsWrite table fd buf len)).2.fs f ∧
      contents (vfsStep s (.vfsWrite table fd buf len)).2.fs f
        = contents s.fs f ++ bufferBytes buf len := by
  show IsFile (mcsVfsWrite s.fs (s.tables table) fd buf len).2.1 f ∧
    contents (mcsVfsWrite s.fs (s.tables table) fd buf len).2.1 f = _
  simp only [touched] at htouch
  rcases mcsVfsWrite_cases s.fs (s.tables table) fd buf len with
    ⟨e, hchk, heq⟩ | ⟨d', j, e, hchk, -, -, heq⟩ | ⟨d', t, hchk, hw, heq⟩
  · rw [hchk] at htouch
    cases htouch
  · rw [hchk] at htouch
    cases htouch
  · rw [hchk] at htouch
    obtain rfl : t.node = f := Option.some.inj htouch
    obtain rfl : d' = d := Option.some.inj (hw.slot.symm.trans hget)
    have hfile := (hI.tables table).isFile hw.slot hw.node hw.file
    have hend : t.pos = (s.fs.nodes t.node).size := hw.pos.trans (if_pos happend)
    have hput := contents_put hI.fs hfile hw.fits_toNat hend (buf.getD (fun _ => 0))
    rw [heq, bufferBytes, ← hw.count]
    simp only
    split
    · exact ⟨(sameFiles_setSize _ _ _).file _ hfile, hput⟩
    · -- the buffer was empty, and the size stays what it was
      rename_i hstay
      have hsize : t.pos + t.len
          = ((putBytes s.fs t (buf.getD (fun _ => 0))).nodes t.node).size := by
        show t.pos + t.len = (s.fs.nodes t.node).size
        have hfits := hw.fits_toNat
        rw [hend] at hfits hstay ⊢
        bv_omega
      rw [hsize, setSize_self] at hput
      exact ⟨hfile, hput⟩

/-- **STEP**: a call on an append-only file adds its buffer or nothing. -/
theorem append_step (hI : VfsInv s) (hf : IsFile s.fs f) (hop : AppendOnly f s op) :
    IsFile (vfsStep s op).2.fs f ∧
      contents (vfsStep s op).2.fs f = contents s.fs f ++ appendedBy f s op := by
  by_cases htouch : touched s op = some f
  · obtain ⟨table, fd, d, buf, len, rfl, hget, happend⟩ := hop htouch
    rw [appendedBy, if_pos htouch]
    exact append_write hI htouch hget happend
  · exact append_same hI hf htouch

/-- **RUN**: the file grows by the buffers of its writers, in the order of their calls. -/
theorem append_run (ops : List VfsOp) :
    ∀ {s : VfsState}, VfsInv s → IsFile s.fs f → AppendRun f s ops →
      IsFile (Machine.exec vfsStep s ops).fs f ∧
        contents (Machine.exec vfsStep s ops).fs f = contents s.fs f ++ appended f s ops := by
  induction ops with
  | nil =>
      intro s _ hf _
      exact ⟨hf, (List.append_nil _).symm⟩
  | cons op ops ih =>
      intro s hI hf hrun
      obtain ⟨hf', hstep⟩ := append_step hI hf hrun.1
      obtain ⟨hend, hcontents⟩ := ih (vfsStep_inv hI op) hf' hrun.2
      rw [hstep, List.append_assoc] at hcontents
      exact ⟨hend, hcontents⟩

/-! ## When an append is refused -/

/-- A write through an append descriptor is refused for lack of space exactly when it
    would pass the capacity of the file. -/
theorem append_enospc_iff (hI : VfsInv s) (hf : IsFile s.fs f) {table d : Nat} {fd : Int}
    (buf : Option (Nat → U8)) (len : U64) (hget : mcsFdGet (s.tables table) fd = some d)
    (hnode : ((s.tables table).files d).node = some f)
    (happend : ((s.tables table).files d).flags &&& MCS_O_APPEND ≠ 0)
    (hwrite : mcsCanWrite ((s.tables table).files d).flags = true) :
    (mcsVfsWrite s.fs (s.tables table) fd buf len).1 = .error .enospc ↔
      buf.isSome = true ∧
        (s.fs.nodes f).dataCapacity.toNat < (s.fs.nodes f).size.toNat + len.toNat := by
  obtain ⟨hd, -, hused⟩ := mcsFdGet_some hget
  have hfs := (hI.tables table d hd hused).1
  have hsize := hI.fs.data.size f hf
  -- the write starts at the end of the file, wherever the offset is
  have hend : writePos s.fs ((s.tables table).files d) f = (s.fs.nodes f).size := if_pos happend
  by_cases hbuf : buf.isSome = true ∨ len = 0
  · rw [mcsVfsWrite, writeTransfer_open hbuf ⟨hget, hwrite, hnode, hfs, hf.2⟩, hend,
      if_neg (BitVec.not_lt.mpr hsize)]
    by_cases hshort : (s.fs.nodes f).dataCapacity - (s.fs.nodes f).size < len
    · rw [if_pos hshort]
      refine iff_of_true rfl ⟨hbuf.resolve_right (fun h0 => ?_), by bv_omega⟩
      rw [h0] at hshort
      exact absurd hshort BitVec.not_lt_zero
    · rw [if_neg hshort]
      refine iff_of_false (fun h => by cases h) (fun h => ?_)
      bv_omega
  · rw [not_or] at hbuf
    have hnull : ((!buf.isSome) = true ∧ len ≠ 0) := ⟨by simpa using hbuf.1, hbuf.2⟩
    rw [mcsVfsWrite, writeTransfer, if_pos hnull]
    exact iff_of_false (fun h => by cases h) (fun h => hbuf.1 h.1)

/-- **APPENDS ARE NEVER LOST**: from any state of any run, as long as a file is written
    by append descriptors only and neither truncated nor seeded, its contents are what
    they were, followed by the buffers of the successful writes in their order; and in
    every state so reached a write through an append descriptor of the file is refused
    for lack of space exactly when it would pass the capacity, and then leaves all files
    as they are. -/
theorem vfs_append_only {garbage s s' : VfsState} {ops ops' : List VfsOp} {f : Nat}
    (hs : Machine.exec vfsStep (vfsInit garbage) ops = s) (hf : IsFile s.fs f)
    (hrun : AppendRun f s ops') (hs' : Machine.exec vfsStep s ops' = s') :
    contents s'.fs f = contents s.fs f ++ appended f s ops' ∧
    ∀ table fd d buf len, mcsFdGet (s'.tables table) fd = some d →
      ((s'.tables table).files d).node = some f →
      ((s'.tables table).files d).flags &&& MCS_O_APPEND ≠ 0 →
      mcsCanWrite ((s'.tables table).files d).flags = true →
      ((vfsStep s' (.vfsWrite table fd buf len)).1.1 = .error .enospc ↔
        buf.isSome = true ∧
          (s'.fs.nodes f).dataCapacity.toNat < (s'.fs.nodes f).size.toNat + len.toNat) ∧
      ((vfsStep s' (.vfsWrite table fd buf len)).1.1 = .error .enospc →
        (vfsStep s' (.vfsWrite table fd buf len)).2.fs = s'.fs) := by
  have hI := exec_inv garbage ops
  rw [hs] at hI
  have hI' := Machine.exec_inv vfsStep (I := VfsInv) (fun _ op h => vfsStep_inv h op) ops' s hI
  obtain ⟨hf', hcontents⟩ := append_run ops' hI hf hrun
  rw [hs'] at hI' hf' hcontents
  refine ⟨hcontents, ?_⟩
  intro table fd d buf len hget hnode happend hwrite
  -- a write that is refused leaves the file system alone
  refine ⟨append_enospc_iff hI' hf' buf len hget hnode happend hwrite, ?_⟩
  show (mcsVfsWrite s'.fs (s'.tables table) fd buf len).1 = _ →
    (mcsVfsWrite s'.fs (s'.tables table) fd buf len).2.1 = _
  rcases mcsVfsWrite_cases s'.fs (s'.tables table) fd buf len with
    ⟨e, -, heq⟩ | ⟨d', j, e, -, -, -, heq⟩ | ⟨d', t, -, -, heq⟩
  · rw [heq]
    exact fun _ => rfl
  · rw [heq]
    exact fun _ => rfl
  · rw [heq]
    intro h
    cases h

/-- Seed a file and open it for appending through two tables. -/
def twoAppenders : List VfsOp :=
  [.seedFile (some [slash, 0x61]) (some (fun i => BitVec.ofNat 8 i)) 4,
    .vfsOpen 0 (some [slash, 0x61]) (MCS_O_WRONLY ||| MCS_O_APPEND),
    .vfsOpen 1 (some [slash, 0x61]) (MCS_O_RDWR ||| MCS_O_APPEND)]

/-- Both write, the second after a seek to the start. -/
def bothAppend : List VfsOp :=
  [.vfsWrite 0 0 (some (fun _ => 0x78)) 1, .vfsLseek 1 0 0 MCS_SEEK_SET,
    .vfsWrite 1 0 (some (fun _ => 0x79)) 1]

/-- Two descriptors append to one file, and both bytes are there. -/
theorem vfs_append_only_two :
    contents (Machine.exec vfsStep (Machine.exec vfsStep (vfsInit garbage) twoAppenders)
      bothAppend).fs 1 = [0, 1, 2, 3, 0x78, 0x79] := by
  have hrun : AppendRun 1 (Machine.exec vfsStep (vfsInit garbage) twoAppenders) bothAppend := by
    refine ⟨fun _ => ⟨0, 0, 0, _, _, rfl, by decide +kernel, by decide +kernel⟩, ?_⟩
    refine ⟨(fun h => by cases h), ?_⟩
    exact ⟨fun _ => ⟨1, 0, 0, _, _, rfl, by decide +kernel, by decide +kernel⟩, trivial⟩
  have hfile : IsFile (Machine.exec vfsStep (vfsInit garbage) twoAppenders).fs 1 :=
    ⟨by decide +kernel, by decide +kernel⟩
  rw [(vfs_append_only rfl hfile hrun rfl).1]
  decide +kernel

end VfsAppend
