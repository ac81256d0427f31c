import Mcsos.VfsContentsProofs

/-! # Bytes nobody stored

    A file is its extent up to its size.  Truncating a file or seeding it anew
    only lowers the size; the bytes above it keep their old values.  They come
    back into the file when a write starts past the end: the size jumps over
    the gap and whatever the gap held is part of the file again.

    So a byte that was not stored since its file last started over reads as 0
    exactly as long as every write that leaves a gap finds it zeroed
    (`CleanGap`).  That holds of every gap in a fresh extent, and of no gap
    over bytes that a shorter life of the file has left behind. -/

namespace VfsStale

open Word Loop VfsModel VfsTree VfsInvariant VfsContents

/-! ## The gap a write leaves -/

/-- The bytes between the end of the file and the start of the transfer are 0. -/
def ZeroGap (fs : Ramfs) (t : Transfer) : Prop :=
  ∀ p, p < t.pos.toNat → (fs.nodes t.node).size.toNat ≤ p →
    fs.data ((fs.nodes t.node).dataOffset.toNat + p) = 0

instance (fs : Ramfs) (t : Transfer) : Decidable (ZeroGap fs t) :=
  inferInstanceAs (Decidable (∀ p, p < t.pos.toNat → _))

/-- What the checks of a write have settled leaves a zeroed gap. -/
def SettledClean (fs : Ramfs) : Except VfsErr (Nat × Transfer) → Prop
  | .ok (_, t) => ZeroGap fs t
  | .error _ => True

instance (fs : Ramfs) : DecidablePred (SettledClean fs)
  | .ok (_, t) => inferInstanceAs (Decidable (ZeroGap fs t))
  | .error _ => isTrue trivial

/-- A call that, if it writes past the end of a file, finds the gap zeroed. -/
def CleanGap (s : VfsState) : VfsOp → Prop
  | .vfsWrite table fd buf len =>
      SettledClean s.fs (writeTransfer s.fs (s.tables table) fd buf.isSome len).1
  | _ => True

instance (s : VfsState) : DecidablePred (CleanGap s)
  | .vfsWrite .. => inferInstanceAs (Decidable (SettledClean _ _))
  | .createFile .. | .seedFile .. | .vfsOpen .. | .vfsRead .. | .vfsLseek .. | .vfsClose ..
  | .vfsDup .. => isTrue trivial

/-- Every call of the run is clean where it is made. -/
def CleanRun : VfsState → List VfsOp → Prop
  | _, [] => True
  | s, op :: ops => CleanGap s op ∧ CleanRun (vfsStep s op).2 ops

instance : ∀ (s : VfsState) (ops : List VfsOp), Decidable (CleanRun s ops)
  | _, [] => isTrue trivial
  | s, op :: ops =>
      have := instDecidableCleanRun (vfsStep s op).2 ops
      inferInstanceAs (Decidable (CleanGap s op ∧ _))

/-! ## Files without stale bytes -/

/-- Stored positions lie in their files, and what lies in a file without having
    been stored is 0. -/
structure Fresh (fs : Ramfs) (G : Stored) : Prop where
  below : ∀ i p b, G i p = some b → IsFile fs i ∧ p < (fs.nodes i).size.toNat
  zero : ∀ i p, IsFile fs i → p < (fs.nodes i).size.toNat → G i p = none →
    fs.data ((fs.nodes i).dataOffset.toNat + p) = 0

/-- A new file is empty. -/
theorem Fresh.createFile {fs : Ramfs} {G : Stored} (hT : FsTree fs) (h : Fresh fs G)
    (path : Option Path) : Fresh (mcsRamfsCreateFile fs path).2 G := by
  rcases mcsRamfsCreateFile_cases hT path with
    ⟨e, heq⟩ | ⟨i, -, -, heq⟩ | ⟨p, leaf, hc, heq⟩
  · rw [heq]
    exact h
  · rw [heq]
    exact h
  · rw [heq]
    have hsame := sameFiles_createFile hT path
    rw [heq] at hsame
    refine ⟨?_, ?_⟩
    · intro j q b hb
      obtain ⟨hj, hq⟩ := h.below j q b hb
      refine ⟨hsame.file j hj, ?_⟩
      rw [addFile_node hj.1]
      exact hq
    · intro j q hj hq hnone
      rcases (hc.canAdd hT).node_cases hj.1 with ⟨hold, hnode⟩ | hnew
      · have hj' : IsFile fs j := ⟨hold, by rw [← hnode]; exact hj.2⟩
        rw [hnode] at hq ⊢
        exact h.zero j q hj' hq hnone
      · -- the new file is empty
        rw [hnew, addFile_new] at hq
        exact absurd hq (Nat.not_lt_zero q)

theorem isFile_of_setSize {fs : Ramfs} {n i : Nat} {size : U64}
    (h : IsFile (setSize fs n size) i) : IsFile fs i := by
  obtain ⟨hlt, htype⟩ := h
  rw [setSize_node] at htype
  exact ⟨hlt, htype⟩

/-- A file that starts over has no bytes. -/
theorem Fresh.truncate {fs : Ramfs} {G : Stored} (h : Fresh fs G) (f : Nat) :
    Fresh (setSize fs f 0) (G.forget f) := by
  -- what was stored in the file is forgotten, and it has no bytes left
  have hsame := sameFiles_setSize fs f 0
  refine ⟨?_, ?_⟩
  · intro i p b hb
    rw [Stored.forget] at hb
    by_cases hif : i = f
    · rw [if_pos hif] at hb
      cases hb
    · rw [if_neg hif] at hb
      obtain ⟨hi, hp⟩ := h.below i p b hb
      rw [setSize_size, if_neg hif]
      exact ⟨hsame.file i hi, hp⟩
  · intro i p hi hp hnone
    rw [setSize_size] at hp
    have hi' := isFile_of_setSize hi
    rw [hsame.offset i hi']
    by_cases hif : i = f
    · rw [if_pos hif] at hp
      exact absurd hp (Nat.not_lt_zero p)
    · rw [if_neg hif] at hp
      rw [Stored.forget, if_neg hif] at hnone
      exact h.zero i p hi' hp hnone

/-- **STORE**: bytes put into a file keep it free of stale bytes if the gap
    before them is zeroed. -/
theorem Fresh.store {fs : Ramfs} {G : Stored} (hF : FsInv fs) (h : Fresh fs G) {t : Transfer}
    (hfile : IsFile fs t.node)
    (hfits : t.pos.toNat + t.len.toNat ≤ (fs.nodes t.node).dataCapacity.toNat)
    (hgap : ZeroGap fs t) (bytes : Nat → U8) (size : U64)
    (hsize : size.toNat = max (fs.nodes t.node).size.toNat (t.pos.toNat + t.len.toNat)) :
    Fresh (setSize (putBytes fs t bytes) t.node size)
      (G.put t.node t.pos.toNat t.len.toNat bytes) := by
  have hsame := sameFiles_setSize (putBytes fs t bytes) t.node size
  have hcap := hF.data.size t.node hfile
  refine ⟨?_, ?_⟩
  · intro i p b hb
    rw [Stored.put] at hb
    rw [setSize_size]
    by_cases hin : i = t.node ∧ t.pos.toNat ≤ p ∧ p < t.pos.toNat + t.len.toNat
    · rw [if_pos hin.1]
      exact ⟨hsame.file i (by rw [hin.1]; exact hfile), by omega⟩
    · rw [if_neg hin] at hb
      obtain ⟨hi, hp⟩ := h.below i p b hb
      refine ⟨hsame.file i hi, ?_⟩
      by_cases hit : i = t.node
      · rw [hit] at hp
        rw [if_pos hit]
        omega
      · rw [if_neg hit]
        exact hp
  · intro i p hi hp hnone
    rw [setSize_size] at hp
    have hi' : IsFile fs i := isFile_of_setSize hi
    rw [hsame.offset i hi']
    show (putBytes fs t bytes).data ((fs.nodes i).dataOffset.toNat + p) = 0
    rw [Stored.put] at hnone
    by_cases hin : i = t.node ∧ t.pos.toNat ≤ p ∧ p < t.pos.toNat + t.len.toNat
    · rw [if_pos hin] at hnone
      cases hnone
    rw [if_neg hin] at hnone
    by_cases hit : i = t.node
    · rw [if_pos hit] at hp
      subst hit
      -- a byte below the old size was zero; one above it lies in the gap
      rw [putBytes_file hF hfile hfits bytes hi' (by bv_omega), if_neg hin]
      by_cases hold : p < (fs.nodes t.node).size.toNat
      · exact h.zero t.node p hfile hold hnone
      · exact hgap p (by omega) (by omega)
    · rw [if_neg hit] at hp
      replace hp : p < (fs.nodes i).size.toNat := hp
      have hcap' := hF.data.size i hi'
      rw [putBytes_file hF hfile hfits bytes hi' (by bv_omega), if_neg hin]
      exact h.zero i p hi' hp hnone

/-! ## The calls -/

theorem setSize_self (fs : Ramfs) (n : Nat) : setSize fs n (fs.nodes n).size = fs := by
  rw [setSize]
  simp only [Function.update_eq_self]

/-- A write is a store with the size that covers it. -/
theorem fresh_write {s : VfsState} {G : Stored} (hI : VfsInv s) (h : Fresh s.fs G) (table : Nat)
    (fd : Int) (buf : Option (Nat → U8)) (len : U64)
    (hclean : CleanGap s (.vfsWrite table fd buf len)) :
    Fresh (mcsVfsWrite s.fs (s.tables table) fd buf len).2.1
      (storedStep s G (.vfsWrite table fd buf len)) := by
  simp only [storedStep]
  simp only [CleanGap] at hclean
  rcases mcsVfsWrite_cases s.fs (s.tables table) fd buf len with
    ⟨e, hchk, heq⟩ | ⟨d, i, e, hchk, -, -, heq⟩ | ⟨d, t, hchk, hw, heq⟩
  · rw [heq, hchk]
    exact h
  · rw [heq, hchk]
    exact h
  · rw [hchk] at hclean
    rw [heq, hchk]
    have hfile := (hI.tables table).isFile hw.slot hw.node hw.file
    have hfits := hw.fits_toNat
    have hstore := h.store hI.fs hfile hfits hclean (buf.getD (fun _ => 0))
    simp only
    rw [← hw.count]
    split
    · exact hstore (t.pos + t.len) (by bv_omega)
    · -- a write that does not grow the file stores its size unchanged
      rename_i hle
      have hsame := hstore (s.fs.nodes t.node).size (by bv_omega)
      rw [show (s.fs.nodes t.node).size
          = ((putBytes s.fs t (buf.getD (fun _ => 0))).nodes t.node).size from rfl,
        setSize_self] at hsame
      exact hsame

/-- Seeding is truncating and storing from the start. -/
theorem setSize_put_truncate (fs : Ramfs) (n : Nat) (len : U64) (bytes : Nat → U8) :
    setSize (putBytes (setSize fs n 0) ⟨n, 0, len⟩ bytes) n len
      = setSize (putBytes fs ⟨n, 0, len⟩ bytes) n len := by
  have hstart : Transfer.start (setSize fs n 0) ⟨n, 0, len⟩ = Transfer.start fs ⟨n, 0, len⟩ := by
    rw [Transfer.start, Transfer.start, setSize_node]
  rw [putBytes, putBytes, hstart]
  simp only [setSize, Function.update_idem, Function.update_self]

/-- A seeded file has no bytes but the seeded ones. -/
theorem fresh_seed {s : VfsState} {G : Stored} (hF : FsInv s.fs) (h : Fresh s.fs G)
    (path : Option Path) (data : Option (Nat → U8)) (len : U64) :
    Fresh (mcsRamfsSeedFile s.fs path data len).2 (storedStep s G (.seedFile path data len)) := by
  -- a seed is a truncation and a write at the start
  have hcreate := h.createFile hF.tree path
  obtain ⟨hF', -, hfile⟩ := hF.createFile path
  simp only [storedStep]
  rcases mcsRamfsSeedFile_cases s.fs path data len with
    ⟨e, heq⟩ | ⟨e, heq⟩ | ⟨node, hnode, hfits, heq⟩
  · rw [heq]
    exact h
  · rw [heq]
    exact hcreate
  · rw [heq, ← setSize_put_truncate]
    have hsame := sameFiles_setSize (mcsRamfsCreateFile s.fs path).2 node 0
    have hnode' := hfile node hnode
    refine (hcreate.truncate node).store (t := ⟨node, 0, len⟩) (hF'.setSize ?_)
      (hsame.file node hnode') ?_ ?_ _ len ?_
    · intro _
      bv_omega
    · rw [hsame.capacity node hnode']
      show 0 + len.toNat ≤ _
      bv_omega
    · intro p hp
      exact absurd hp (Nat.not_lt_zero p)
    · rw [setSize_size, if_pos rfl]
      show len.toNat = max 0 (0 + len.toNat)
      omega

/-- Flags other than read access are the caller's. -/
theorem openFlags_and (flags : U32) {mask : U32} (h : MCS_O_RDONLY &&& mask = 0#32) :
    openFlags flags &&& mask = flags &&& mask := by
  rw [openFlags]
  split
  · rw [BitVec.and_or_distrib_right, h, BitVec.or_zero]
  · rfl

/-- The default access does not touch the truncation. -/
theorem openFlags_trunc (flags : U32) :
    openFlags flags &&& MCS_O_TRUNC = flags &&& MCS_O_TRUNC :=
  openFlags_and flags (by decide)

/-- What an open does to the files: nothing, or it truncates the one it has
    opened, after creating it at most. -/
def OpensFrom (s : VfsState) (table : Nat) (path : Option Path) (flags : U32) (fs : Ramfs) :
    Prop :=
  ((mcsVfsOpen s.fs (s.tables table) path flags).2.1 = fs ∧
    truncated s table path flags = none) ∨
  ∃ f, (mcsVfsOpen s.fs (s.tables table) path flags).2.1 = setSize fs f 0 ∧
    truncated s table path flags = some f

theorem opensFrom_opensNode {s : VfsState} {table node : Nat} {path : Option Path} {flags : U32}
    {fs : Ramfs} {r : Except VfsErr Nat × Ramfs × FdTable}
    (hr : mcsVfsOpen s.fs (s.tables table) path flags = r)
    (h : OpensNode fs (s.tables table) node (openFlags flags) r) :
    OpensFrom s table path flags fs := by
  rw [OpensFrom, truncated, hr]
  cases h with
  | directory => exact Or.inl ⟨rfl, rfl⟩
  | full => exact Or.inl ⟨rfl, rfl⟩
  | denied => exact Or.inl ⟨rfl, rfl⟩
  | truncates hd htrunc =>
      rw [openFlags_trunc] at htrunc
      refine Or.inr ⟨node, rfl, ?_⟩
      simp only [if_pos htrunc, setFile_file, if_pos]
  | opens hd htrunc =>
      rw [openFlags_trunc] at htrunc
      exact Or.inl ⟨rfl, if_neg (not_not.mpr htrunc)⟩

/-- An open works on the files there are, or on those with one more. -/
theorem open_cases {s : VfsState} (hT : FsTree s.fs) (table : Nat) (path : Option Path)
    (flags : U32) :
    OpensFrom s table path flags s.fs ∨
    OpensFrom s table path flags (mcsRamfsCreateFile s.fs path).2 := by
  have ho := mcsVfsOpen_opens hT (s.tables table) path flags
  generalize hr : mcsVfsOpen s.fs (s.tables table) path flags = r at ho
  cases ho with
  | refused e =>
      rw [OpensFrom, truncated, hr]
      exact Or.inl (Or.inl ⟨rfl, rfl⟩)
  | found hlook h => exact Or.inl (opensFrom_opensNode hr h)
  | created _ hnew h =>
      rw [hnew.createFile hT]
      exact Or.inr (opensFrom_opensNode hr h)

/-- An open truncates, or leaves the bytes alone. -/
theorem fresh_opensFrom {s : VfsState} {G : Stored} {table : Nat} {path : Option Path}
    {flags : U32} {fs : Ramfs} (h : Fresh fs G) (ho : OpensFrom s table path flags fs) :
    Fresh (mcsVfsOpen s.fs (s.tables table) path flags).2.1
      (storedStep s G (.vfsOpen table path flags)) := by
  simp only [storedStep]
  rcases ho with ⟨hfs, htrunc⟩ | ⟨f, hfs, htrunc⟩
  · rw [hfs, htrunc]
    exact h
  · rw [hfs, htrunc]
    exact h.truncate f

/-- **STEP**: a clean call leaves no stale byte in any file. -/
theorem fresh_step {s : VfsState} {G : Stored} (hI : VfsInv s) (h : Fresh s.fs G) {op : VfsOp}
    (hclean : CleanGap s op) : Fresh (vfsStep s op).2.fs (storedStep s G op) := by
  cases op with
  | createFile path => exact h.createFile hI.fs.tree path
  | seedFile path data len => exact fresh_seed hI.fs h path data len
  | vfsOpen table path flags =>
      rcases open_cases hI.fs.tree table path flags with ho | ho
      · exact fresh_opensFrom h ho
      · exact fresh_opensFrom (h.createFile hI.fs.tree path) ho
  | vfsWrite table fd buf len => exact fresh_write hI h table fd buf len hclean
  | vfsRead => exact h
  | vfsLseek => exact h
  | vfsClose => exact h
  | vfsDup => exact h

/-- **RUN**: over a run whose writes find the gaps they leave zeroed, every byte of a file was
    stored by a call or is 0. -/
theorem fresh_run (ops : List VfsOp) :
    ∀ {s : VfsState} {G : Stored}, VfsInv s → Fresh s.fs G → CleanRun s ops →
      Fresh (Machine.exec vfsStep s ops).fs (storedAfter s G ops) := by
  induction ops with
  | nil => intro s G _ h _; exact h
  | cons op ops ih =>
      intro s G hI h hclean
      exact ih (vfsStep_inv hI op) (fresh_step hI h hclean.1) hclean.2

/-- There is no file at the start. -/
theorem fresh_init (garbage : VfsState) : Fresh (vfsInit garbage).fs (fun _ _ => none) := by
  have hroot := (vfsInit_inv garbage).fs.tree.root
  refine ⟨?_, ?_⟩
  · intro i p b h
    cases h
  · -- the only node is the root directory
    rintro i p ⟨hi, htype⟩ _ _
    have hi' : i < 1 := hi
    obtain rfl : i = 0 := by omega
    rw [hroot] at htype
    cases htype

/-! ## Reads -/

/-- Every byte a read would deliver now is 0 unless its position is stored. -/
def NoStaleRead (s : VfsState) (G : Stored) : Prop :=
  ∀ table fd buf len n bytes d f k,
    (vfsStep s (.vfsRead table fd buf len)).1 = (.ok n, bytes) →
    mcsFdGet (s.tables table) fd = some d → ((s.tables table).files d).node = some f →
    k < bytes.length → G f (((s.tables table).files d).offset.toNat + k) = none →
    bytes.getD k 0 = 0

/-- No read returns a byte that was not stored. -/
theorem Fresh.noStaleRead {s : VfsState} {G : Stored} (hI : VfsInv s) (h : Fresh s.fs G) :
    NoStaleRead s G := by
  intro table fd buf len n bytes d f k hread hd hf hk hnone
  obtain ⟨hfile, hp, hbyte⟩ := read_byte hI hread hd hf hk
  rw [hbyte]
  exact h.zero f _ hfile hp hnone

/-- A call that is not clean puts an old byte back into a file. -/
theorem stale_of_not_clean {s : VfsState} {G : Stored} (hI : VfsInv s) (h : Fresh s.fs G)
    {op : VfsOp} (hop : ¬ CleanGap s op) :
    ∃ f p, IsFile (vfsStep s op).2.fs f ∧ p < ((vfsStep s op).2.fs.nodes f).size.toNat ∧
      storedStep s G op f p = none ∧
      (vfsStep s op).2.fs.data (((vfsStep s op).2.fs.nodes f).dataOffset.toNat + p) ≠ 0 := by
  cases op with
  | vfsWrite table fd buf len =>
      simp only [CleanGap] at hop
      simp only [vfsStep, storedStep, setTable]
      rcases mcsVfsWrite_cases s.fs (s.tables table) fd buf len with
        ⟨e, hchk, heq⟩ | ⟨d, i, e, hchk, -, -, heq⟩ | ⟨d, t, hchk, hw, heq⟩
      · rw [hchk] at hop
        exact absurd trivial hop
      · rw [hchk] at hop
        exact absurd trivial hop
      · rw [hchk] at hop
        rw [heq, hchk]
        simp only [SettledClean, ZeroGap, not_forall] at hop
        obtain ⟨p, hpos, hsize, hdata⟩ := hop
        have hfile := (hI.tables table).isFile hw.slot hw.node hw.file
        have hfits := hw.fits_toNat
        have hgrow : t.pos + t.len > (s.fs.nodes t.node).size := by bv_omega
        have hsame := sameFiles_setSize (putBytes s.fs t (buf.getD (fun _ => 0))) t.node
          (t.pos + t.len)
        simp only [if_pos hgrow]
        refine ⟨t.node, p, hsame.file _ hfile, ?_, ?_, ?_⟩
        · rw [setSize_size, if_pos rfl]
          bv_omega
        · -- nothing past the end is stored, and the write starts behind the position
          rw [Stored.put, if_neg (by omega)]
          cases hG : G t.node p with
          | none => rfl
          | some b => exact absurd (h.below _ _ _ hG).2 (by omega)
        · rw [hsame.offset _ hfile]
          show (putBytes s.fs t _).data ((s.fs.nodes t.node).dataOffset.toNat + p) ≠ 0
          rw [putBytes_file hI.fs hfile hfits _ hfile (by omega), if_neg (by omega)]
          exact hdata
  | createFile => exact absurd trivial hop
  | seedFile => exact absurd trivial hop
  | vfsOpen => exact absurd trivial hop
  | vfsRead => exact absurd trivial hop
  | vfsLseek => exact absurd trivial hop
  | vfsClose => exact absurd trivial hop
  | vfsDup => exact absurd trivial hop

/-- **NO STALE DATA**, in every state of a run whose writes find the gaps they
    leave zeroed: a byte that a read delivers is 0 if its position was not
    stored since the file last started over.  A write that finds an old byte in
    its gap makes it part of the file again. -/
theorem vfs_no_stale_data {garbage s : VfsState} {ops : List VfsOp}
    (hs : Machine.exec vfsStep (vfsInit garbage) ops = s)
    (hclean : CleanRun (vfsInit garbage) ops) :
    NoStaleRead s (storedAfter (vfsInit garbage) (fun _ _ => none) ops) ∧
    ∀ op, ¬ CleanGap s op →
      ∃ f p, IsFile (vfsStep s op).2.fs f ∧ p < ((vfsStep s op).2.fs.nodes f).size.toNat ∧
        storedStep s (storedAfter (vfsInit garbage) (fun _ _ => none) ops) op f p = none ∧
        (vfsStep s op).2.fs.data (((vfsStep s op).2.fs.nodes f).dataOffset.toNat + p) ≠ 0 := by
  have hI := exec_inv garbage ops
  have hfresh := fresh_run ops (vfsInit_inv garbage) (fresh_init garbage) hclean
  rw [hs] at hI hfresh
  exact ⟨hfresh.noStaleRead hI, fun op hop => stale_of_not_clean hI hfresh hop⟩

/-- `/a` with the bytes `abcd`, opened for reading and writing. -/
def abcdRun (flags : U32) : List VfsOp :=
  [.seedFile (some [slash, 0x61]) (some (fun i => 0x61 + BitVec.ofNat 8 i)) 4,
    .vfsOpen 0 (some [slash, 0x61]) (MCS_O_RDWR ||| flags)]

/-- Write `z` two bytes past the end, and go back to the start. -/
def gapRun : List VfsOp :=
  abcdRun 0 ++ [.vfsLseek 0 0 6 MCS_SEEK_SET, .vfsWrite 0 0 (some (fun _ => 0x7a)) 1,
    .vfsLseek 0 0 0 MCS_SEEK_SET]

/-- The gap of a file that never was longer reads as zeros. -/
theorem vfs_no_stale_data_gap :
    (vfsStep (Machine.exec vfsStep (vfsInit garbage) gapRun) (.vfsRead 0 0 true 16)).1
      = (.ok 7, [0x61, 0x62, 0x63, 0x64, 0, 0, 0x7a]) ∧
    NoStaleRead (Machine.exec vfsStep (vfsInit garbage) gapRun)
      (storedAfter (vfsInit garbage) (fun _ _ => none) gapRun) :=
  ⟨by decide +kernel, (vfs_no_stale_data rfl (by decide +kernel)).1⟩

/-- Truncate `/a`, write `z` at position 3, and go back to the start. -/
def staleRun : List VfsOp :=
  abcdRun MCS_O_TRUNC ++ [.vfsLseek 0 0 3 MCS_SEEK_SET, .vfsWrite 0 0 (some (fun _ => 0x7a)) 1,
    .vfsLseek 0 0 0 MCS_SEEK_SET]

/-- The bytes from before the truncation are back. -/
theorem vfs_stale_gap :
    (vfsStep (Machine.exec vfsStep (vfsInit garbage) staleRun) (.vfsRead 0 0 true 4)).1
      = (.ok 4, [0x61, 0x62, 0x63, 0x7a]) ∧
    storedAfter (vfsInit garbage) (fun _ _ => none) staleRun 1 0 = none ∧
    ¬ NoStaleRead (Machine.exec vfsStep (vfsInit garbage) staleRun)
      (storedAfter (vfsInit garbage) (fun _ _ => none) staleRun) := by
  have hread : (vfsStep (Machine.exec vfsStep (vfsInit garbage) staleRun)
      (.vfsRead 0 0 true 4)).1 = (.ok 4, [0x61, 0x62, 0x63, 0x7a]) := by decide +kernel
  have hnone : storedAfter (vfsInit garbage) (fun _ _ => none) staleRun 1 0 = none := by
    decide +kernel
  refine ⟨hread, hnone, fun hno => ?_⟩
  have hzero := hno 0 0 true 4 4 _ 0 1 0 hread (by decide +kernel) (by decide +kernel)
    (by decide) (by decide +kernel)
  exact absurd hzero (by decide)

end VfsStale
