import Mcsos.VfsInvariantProofs

/-! # The last writer wins

    The abstract file system is a map from files and positions to the byte
    last stored there (`Stored`), forgotten when the file is truncated or
    seeded anew.  The ramfs keeps all files in one array; that the array
    agrees with the map (`Agrees`) survives every call, because a transfer
    stays in the extent of its own file and the extents are disjoint. -/

namespace VfsContents

open Word Loop VfsModel VfsTree VfsInvariant

/-! ## The map of stored bytes -/

/-- File, position, and the byte last stored there. -/
abbrev Stored := Nat → Nat → Option U8

/-- The first `len` bytes of a buffer go to position `pos` of file `f`. -/
def Stored.put (G : Stored) (f pos len : Nat) (bytes : Nat → U8) : Stored :=
  fun i p => if i = f ∧ pos ≤ p ∧ p < pos + len then some (bytes (p - pos)) else G i p

/-- File `f` starts over. -/
def Stored.forget (G : Stored) (f : Nat) : Stored :=
  fun i p => if i = f then none else G i p

/-- The file that a successful open with `MCS_O_TRUNC` has truncated. -/
def truncated (s : VfsState) (table : Nat) (path : Option Path) (flags : U32) : Option Nat :=
  match mcsVfsOpen s.fs (s.tables table) path flags with
  | (.ok fd, _, table') => if flags &&& MCS_O_TRUNC ≠ 0 then (table'.files fd).node else none
  | (.error _, _, _) => none

/-- What a call stores: a successful write its buffer, a successful seed the new
    contents, and a truncating open nothing at all. -/
def storedStep (s : VfsState) (G : Stored) : VfsOp → Stored
  | .seedFile path data len =>
      match (mcsRamfsSeedFile s.fs path data len).1 with
      | .ok t => (G.forget t.node).put t.node 0 len.toNat (data.getD (fun _ => 0))
      | .error _ => G
  | .vfsWrite table fd buf len =>
      match (writeTransfer s.fs (s.tables table) fd buf.isSome len).1 with
      | .ok (_, t) => G.put t.node t.pos.toNat len.toNat (buf.getD (fun _ => 0))
      | .error _ => G
  | .vfsOpen table path flags =>
      match truncated s table path flags with
      | some f => G.forget f
      | none => G
  | _ => G

/-- The bytes stored over a run. -/
def storedAfter : VfsState → Stored → List VfsOp → Stored
  | _, G, [] => G
  | s, G, op :: ops => storedAfter (vfsStep s op).2 (storedStep s G op) ops

/-! ## Agreement with the data array -/

/-- The data array holds what the map says. -/
def Agrees (fs : Ramfs) (G : Stored) : Prop :=
  ∀ i p b, G i p = some b → IsFile fs i ∧ p < (fs.nodes i).dataCapacity.toNat ∧
    fs.data ((fs.nodes i).dataOffset.toNat + p) = b

/-- A change that leaves the files where they are and the data as it is. -/
structure SameFiles (fs fs' : Ramfs) : Prop where
  file : ∀ i, IsFile fs i → IsFile fs' i
  offset : ∀ i, IsFile fs i → (fs'.nodes i).dataOffset = (fs.nodes i).dataOffset
  capacity : ∀ i, IsFile fs i → (fs'.nodes i).dataCapacity = (fs.nodes i).dataCapacity
  data : fs'.data = fs.data

/-- The files hold what they held. -/
theorem Agrees.of_sameFiles {fs fs' : Ramfs} {G : Stored} (h : Agrees fs G)
    (hs : SameFiles fs fs') : Agrees fs' G := by
  intro i p b hb
  obtain ⟨hfile, hp, hdata⟩ := h i p b hb
  refine ⟨hs.file i hfile, ?_, ?_⟩
  · rw [hs.capacity i hfile]
    exact hp
  · rw [hs.offset i hfile, hs.data]
    exact hdata

/-- To know less is no contradiction. -/
theorem Agrees.forget {fs : Ramfs} {G : Stored} (h : Agrees fs G) (f : Nat) :
    Agrees fs (G.forget f) := by
  intro i p b hb
  rw [Stored.forget] at hb
  split at hb
  · exact nomatch hb
  · exact h i p b hb

theorem SameFiles.refl (fs : Ramfs) : SameFiles fs fs :=
  ⟨fun _ h => h, fun _ _ => rfl, fun _ _ => rfl, rfl⟩

theorem SameFiles.trans {fs fs' fs'' : Ramfs} (h : SameFiles fs fs') (h' : SameFiles fs' fs'') :
    SameFiles fs fs'' :=
  ⟨fun i hi => h'.file i (h.file i hi),
    fun i hi => (h'.offset i (h.file i hi)).trans (h.offset i hi),
    fun i hi => (h'.capacity i (h.file i hi)).trans (h.capacity i hi),
    h'.data.trans h.data⟩

/-- A new size leaves the bytes where they are. -/
theorem sameFiles_setSize (fs : Ramfs) (n : Nat) (size : U64) :
    SameFiles fs (setSize fs n size) := by
  refine ⟨?_, ?_, ?_, rfl⟩
  · rintro i ⟨hi, hfile⟩
    refine ⟨hi, ?_⟩
    rw [setSize_node]
    exact hfile
  · intro i _
    rw [setSize_node]
  · intro i _
    rw [setSize_node]

/-- A new file leaves the bytes where they are. -/
theorem sameFiles_createFile {fs : Ramfs} (h : FsTree fs) (path : Option Path) :
    SameFiles fs (mcsRamfsCreateFile fs path).2 := by
  rcases mcsRamfsCreateFile_cases h path with
    ⟨e, heq⟩ | ⟨i, -, -, heq⟩ | ⟨p, leaf, hc, heq⟩
  · rw [heq]
    exact SameFiles.refl fs
  · rw [heq]
    exact SameFiles.refl fs
  · rw [heq]
    refine ⟨?_, ?_, ?_, rfl⟩
    · rintro i ⟨hi, hfile⟩
      refine ⟨?_, ?_⟩
      · rw [(hc.canAdd h).count]
        exact Nat.lt_succ_of_lt hi
      · rw [addFile_node hi]
        exact hfile
    · rintro i ⟨hi, -⟩
      rw [addFile_node hi]
    · rintro i ⟨hi, -⟩
      rw [addFile_node hi]

/-- Every byte of the data array after a copy. -/
theorem putBytes_data (fs : Ramfs) (t : Transfer) (bytes : Nat → U8) (k : Nat) :
    (putBytes fs t bytes).data k
      = if t.start fs ≤ k ∧ k < t.start fs + t.len.toNat then bytes (k - t.start fs)
        else fs.data k :=
  forN_update (t.start fs) (fun i _ => bytes i) t.len.toNat fs.data k

/-- **PUT**: a copy that stays in its file changes the bytes it covers and no
    other byte of any file. -/
theorem putBytes_file {fs : Ramfs} (hF : FsInv fs) {t : Transfer} (hfile : IsFile fs t.node)
    (hfits : t.pos.toNat + t.len.toNat ≤ (fs.nodes t.node).dataCapacity.toNat)
    (bytes : Nat → U8) {i p : Nat} (hi : IsFile fs i)
    (hp : p < (fs.nodes i).dataCapacity.toNat) :
    (putBytes fs t bytes).data ((fs.nodes i).dataOffset.toNat + p)
      = if i = t.node ∧ t.pos.toNat ≤ p ∧ p < t.pos.toNat + t.len.toNat
        then bytes (p - t.pos.toNat)
        else fs.data ((fs.nodes i).dataOffset.toNat + p) := by
  have hext := hF.data.extent t.node hfile
  rw [extentEnd] at hext
  rw [putBytes_data, start_toNat hF hfile hfits]
  by_cases hin : i = t.node ∧ t.pos.toNat ≤ p ∧ p < t.pos.toNat + t.len.toNat
  · obtain ⟨rfl, h1, h2⟩ := hin
    rw [if_pos ⟨by omega, by omega⟩, if_pos ⟨rfl, h1, h2⟩]
    congr 1
    omega
  · rw [if_neg hin, if_neg]
    rintro ⟨h1, h2⟩
    by_cases hit : i = t.node
    · subst hit
      exact hin ⟨rfl, by omega, by omega⟩
    · -- another file's byte would lie in two extents
      have hapart := hF.data.apart i t.node hi hfile hit
      rw [extentEnd, extentEnd] at hapart
      omega

/-- A write stores its bytes. -/
theorem Agrees.putBytes {fs : Ramfs} {G : Stored} (hF : FsInv fs) (h : Agrees fs G)
    {t : Transfer} (hfile : IsFile fs t.node)
    (hfits : t.pos.toNat + t.len.toNat ≤ (fs.nodes t.node).dataCapacity.toNat)
    (bytes : Nat → U8) :
    Agrees (putBytes fs t bytes) (G.put t.node t.pos.toNat t.len.toNat bytes) := by
  intro i p b hb
  show IsFile fs i ∧ p < (fs.nodes i).dataCapacity.toNat ∧
    (VfsModel.putBytes fs t bytes).data ((fs.nodes i).dataOffset.toNat + p) = b
  rw [Stored.put] at hb
  -- the byte is one of the written ones, or it is as before
  by_cases hin : i = t.node ∧ t.pos.toNat ≤ p ∧ p < t.pos.toNat + t.len.toNat
  · have hi : IsFile fs i := by
      rw [hin.1]
      exact hfile
    have hp : p < (fs.nodes i).dataCapacity.toNat := by
      rw [hin.1]
      omega
    refine ⟨hi, hp, ?_⟩
    rw [putBytes_file hF hfile hfits bytes hi hp, if_pos hin]
    rw [if_pos hin] at hb
    exact Option.some.inj hb
  · rw [if_neg hin] at hb
    obtain ⟨hi, hp, hdata⟩ := h i p b hb
    refine ⟨hi, hp, ?_⟩
    rw [putBytes_file hF hfile hfits bytes hi hp, if_neg hin]
    exact hdata

/-! ## The calls -/

/-- An open changes a size at most. -/
theorem sameFiles_opensNode {fs : Ramfs} {table : FdTable} {node : Nat} {flags : U32}
    {r : Except VfsErr Nat × Ramfs × FdTable} (h : OpensNode fs table node flags r) :
    SameFiles fs r.2.1 := by
  cases h with
  | directory => exact SameFiles.refl fs
  | full => exact SameFiles.refl fs
  | denied => exact SameFiles.refl fs
  | truncates => exact sameFiles_setSize fs node 0
  | opens => exact SameFiles.refl fs

/-- `mcs_vfs_open` adds a file and changes a size at most. -/
theorem sameFiles_open {fs : Ramfs} (h : FsTree fs) (table : FdTable) (path : Option Path)
    (flags : U32) : SameFiles fs (mcsVfsOpen fs table path flags).2.1 := by
  have ho := mcsVfsOpen_opens h table path flags
  generalize mcsVfsOpen fs table path flags = r at ho ⊢
  cases ho with
  | refused => exact SameFiles.refl fs
  | found _ h => exact sameFiles_opensNode h
  | created _ hnew ho =>
      have hsame := sameFiles_createFile h path
      rw [hnew.createFile h] at hsame
      exact hsame.trans (sameFiles_opensNode ho)

/-- A seed stores its bytes. -/
theorem agrees_seed {s : VfsState} {G : Stored} (hF : FsInv s.fs) (h : Agrees s.fs G)
    (path : Option Path) (data : Option (Nat → U8)) (len : U64) :
    Agrees (mcsRamfsSeedFile s.fs path data len).2 (storedStep s G (.seedFile path data len)) := by
  have hcreate := h.of_sameFiles (sameFiles_createFile hF.tree path)
  obtain ⟨hF', -, hfile⟩ := hF.createFile path
  simp only [storedStep]
  rcases mcsRamfsSeedFile_cases s.fs path data len with
    ⟨e, heq⟩ | ⟨e, heq⟩ | ⟨node, hnode, hfits, heq⟩
  · rw [heq]
    exact h
  · rw [heq]
    exact hcreate
  · rw [heq]
    have hput : Agrees (putBytes (mcsRamfsCreateFile s.fs path).2 ⟨node, 0, len⟩
        (data.getD (fun _ => 0))) ((G.forget node).put node 0 len.toNat _) :=
      (hcreate.forget node).putBytes hF' (t := ⟨node, 0, len⟩) (hfile node hnode)
        (by show 0 + len.toNat ≤ _; bv_omega) _
    exact hput.of_sameFiles (sameFiles_setSize ..)

/-- A write that is accepted stores its bytes. -/
theorem agrees_write {s : VfsState} {G : Stored} (hI : VfsInv s) (h : Agrees s.fs G)
    (table : Nat) (fd : Int) (buf : Option (Nat → U8)) (len : U64) :
    Agrees (mcsVfsWrite s.fs (s.tables table) fd buf len).2.1
      (storedStep s G (.vfsWrite table fd buf len)) := by
  simp only [storedStep]
  rcases mcsVfsWrite_cases s.fs (s.tables table) fd buf len with
    ⟨e, hchk, heq⟩ | ⟨d, i, e, hchk, -, -, heq⟩ | ⟨d, t, hchk, hw, heq⟩
  · rw [heq, hchk]
    exact h
  · rw [heq, hchk]
    exact h
  · rw [heq, hchk]
    have hput := h.putBytes hI.fs ((hI.tables table).isFile hw.slot hw.node hw.file)
      hw.fits_toNat (buf.getD (fun _ => 0))
    rw [hw.count] at hput
    simp only
    split
    · exact hput.of_sameFiles (sameFiles_setSize ..)
    · exact hput

/-- **STEP**: what a call stores is what the array holds afterwards. -/
theorem agrees_step {s : VfsState} {G : Stored} (hI : VfsInv s) (h : Agrees s.fs G)
    (op : VfsOp) : Agrees (vfsStep s op).2.fs (storedStep s G op) := by
  cases op with
  | createFile path => exact h.of_sameFiles (sameFiles_createFile hI.fs.tree path)
  | seedFile path data len => exact agrees_seed hI.fs h path data len
  | vfsOpen table path flags =>
      have hopen := h.of_sameFiles (sameFiles_open hI.fs.tree (s.tables table) path flags)
      simp only [storedStep]
      split
      · exact hopen.forget _
      · exact hopen
  | vfsWrite table fd buf len => exact agrees_write hI h table fd buf len
  | vfsRead => exact h
  | vfsLseek => exact h
  | vfsClose => exact h
  | vfsDup => exact h

/-- **RUN**: over any run the array holds at every position the byte stored there last. -/
theorem agrees_run (ops : List VfsOp) :
    ∀ {s : VfsState} {G : Stored}, VfsInv s → Agrees s.fs G →
      Agrees (Machine.exec vfsStep s ops).fs (storedAfter s G ops) := by
  induction ops with
  | nil => intro s G _ h; exact h
  | cons op ops ih => intro s G hI h; exact ih (vfsStep_inv hI op) (agrees_step hI h op)

/-- A byte that a read delivers is a byte of its file. -/
theorem read_byte {s : VfsState} (hI : VfsInv s) {table : Nat} {fd : Int} {buf : Bool} {len : U64}
    {n : Int} {bytes : List U8} {d f k : Nat}
    (hread : (vfsStep s (.vfsRead table fd buf len)).1 = (.ok n, bytes))
    (hd : mcsFdGet (s.tables table) fd = some d)
    (hf : ((s.tables table).files d).node = some f) (hk : k < bytes.length) :
    IsFile s.fs f ∧ ((s.tables table).files d).offset.toNat + k < (s.fs.nodes f).size.toNat ∧
    bytes.getD k 0 = s.fs.data ((s.fs.nodes f).dataOffset.toNat
      + (((s.tables table).files d).offset.toNat + k)) := by
  simp only [vfsStep] at hread
  rcases mcsVfsRead_cases s.fs (s.tables table) fd buf len with ⟨e, heq⟩ | ⟨d', t, hr, heq⟩
  · rw [heq] at hread
    cases hread
  rw [heq] at hread
  simp only [Prod.mk.injEq, Except.ok.injEq] at hread
  obtain ⟨-, rfl⟩ := hread
  obtain rfl : d' = d := Option.some.inj (hr.slot.symm.trans hd)
  obtain rfl : t.node = f := Option.some.inj (hr.node.symm.trans hf)
  rw [List.length_map, List.length_range] at hk
  have hcount := hr.count_toNat
  have hfile := (hI.tables table).isFile hr.slot hr.node hr.file
  have hsize := hI.fs.data.size t.node hfile
  have hext := hI.fs.data.extent t.node hfile
  have hbound : s.fs.dataUsed.toNat ≤ 8192 := hI.fs.data.bound
  rw [extentEnd] at hext
  -- the extent lies in the storage, so the sum does not wrap
  have hstart : t.start s.fs + k
      = (s.fs.nodes t.node).dataOffset.toNat + (((s.tables table).files d').offset.toNat + k) := by
    rw [Transfer.start, hr.pos]
    bv_omega
  refine ⟨hfile, by omega, ?_⟩
  rw [← hstart]
  simp [hk]

/-- **LAST WRITER WINS**: after any calls from the initial state, a successful
    read through an open descriptor of file `f` at offset `o` answers how much
    is left of `f` from `o` on, up to `len`; every byte it delivers at a
    position stored since `f` last started over is the byte last stored there;
    and it moves that descriptor by that amount and changes nothing else. -/
theorem vfs_read_last_stored {garbage s : VfsState} {ops : List VfsOp}
    (hs : Machine.exec vfsStep (vfsInit garbage) ops = s) (table : Nat) (fd : Int) (buf : Bool)
    (len : U64) {n : Int} {bytes : List U8}
    (hread : (vfsStep s (.vfsRead table fd buf len)).1 = (.ok n, bytes)) :
    ∃ d f, mcsFdGet (s.tables table) fd = some d ∧ ((s.tables table).files d).node = some f ∧
      n = min len.toNat
        ((s.fs.nodes f).size.toNat - ((s.tables table).files d).offset.toNat) ∧
      (bytes.length : Int) = n ∧
      (∀ k b, k < bytes.length →
        storedAfter (vfsInit garbage) (fun _ _ => none) ops f
          (((s.tables table).files d).offset.toNat + k) = some b →
        bytes.getD k 0 = b) ∧
      (vfsStep s (.vfsRead table fd buf len)).2
        = setTable s table (setFile (s.tables table) d
            { (s.tables table).files d with
              offset := ((s.tables table).files d).offset + BitVec.ofNat 64 bytes.length }) := by
  have hI := exec_inv garbage ops
  have hG : Agrees (Machine.exec vfsStep (vfsInit garbage) ops).fs
      (storedAfter (vfsInit garbage) (fun _ _ => none) ops) :=
    agrees_run ops (vfsInit_inv garbage) (fun _ _ _ h => nomatch h)
  rw [hs] at hI hG
  have hbyte := fun d f k => read_byte (d := d) (f := f) (k := k) hI hread
  simp only [vfsStep] at hread ⊢
  rcases mcsVfsRead_cases s.fs (s.tables table) fd buf len with ⟨e, heq⟩ | ⟨d, t, hr, heq⟩
  · rw [heq] at hread
    cases hread
  rw [heq] at hread ⊢
  simp only [Prod.mk.injEq, Except.ok.injEq] at hread
  obtain ⟨rfl, rfl⟩ := hread
  have hfile := (hI.tables table).isFile hr.slot hr.node hr.file
  have hsize := hI.fs.data.size t.node hfile
  have hext := hI.fs.data.extent t.node hfile
  have hbound : s.fs.dataUsed.toNat ≤ 8192 := hI.fs.data.bound
  have hcount := hr.count_toNat
  rw [extentEnd] at hext
  -- the count is far below the largest long
  have hint : t.len.toInt = t.len.toNat := BitVec.toInt_eq_toNat_of_lt (by bv_omega)
  refine ⟨d, t.node, hr.slot, hr.node, ?_, ?_, ?_, ?_⟩
  · rw [hint, hcount]
  · rw [List.length_map, List.length_range, hint]
  · intro k b hk hb
    obtain ⟨-, -, hdata⟩ := hG t.node _ b hb
    rw [(hbyte d t.node k hr.slot hr.node hk).2.2]
    exact hdata
  · rw [List.length_map, List.length_range, BitVec.ofNat_toNat, BitVec.setWidth_eq]

/-- Overwrite the second byte of the seeded file through another table. -/
def overwriteRun : List VfsOp :=
  smallRun ++ [.vfsOpen 1 (some [slash, 0x61]) MCS_O_WRONLY, .vfsLseek 1 0 1 MCS_SEEK_SET,
    .vfsWrite 1 0 (some (fun _ => 0x7a)) 1]

/-- A byte in the middle is overwritten, and read back with the others. -/
theorem vfs_read_last_stored_small :
    storedAfter (vfsInit garbage) (fun _ _ => none) overwriteRun 1 1 = some 0x7a ∧
    (vfsStep (Machine.exec vfsStep (vfsInit garbage) overwriteRun) (.vfsRead 0 0 true 16)).1
      = (.ok 4, [0, 0x7a, 2, 3]) ∧
    ∃ d f,
      mcsFdGet ((Machine.exec vfsStep (vfsInit garbage) overwriteRun).tables 0) 0 = some d ∧
      (((Machine.exec vfsStep (vfsInit garbage) overwriteRun).tables 0).files d).node = some f := by
  have hread : (vfsStep (Machine.exec vfsStep (vfsInit garbage) overwriteRun)
      (.vfsRead 0 0 true 16)).1 = (.ok 4, [0, 0x7a, 2, 3]) := by decide +kernel
  obtain ⟨d, f, hd, hf, -⟩ := vfs_read_last_stored rfl 0 0 true 16 hread
  exact ⟨by decide +kernel, hread, d, f, hd, hf⟩

end VfsContents
