import Mcsos.SyscallConfinementProofs
import Mcsos.VfsFailureProofs

/-! # Seeking

    `mcs_vfs_lseek` adds a base and an offset in a signed 64-bit type, stores
    the sum in an unsigned one and answers its low 32 bits as an `int`.  Over
    whole runs the base is never negative as a `long`: the offset of every
    descriptor and the size of every node stay below `2^63` (`exec_short`).  So
    the sum can only leave the type upwards, and the answer differs from the
    stored offset exactly for sums that an `int` does not hold. -/

namespace VfsSeek

open Word VfsModel VfsTree VfsInvariant VfsStale VfsFailure SyscallModel SyscallConfinement

variable {fs : Ramfs} {table : FdTable} {fd whence : Int} {offset base : U64}

/-! ## What a seek does -/

/-- Descriptor `fd` is slot `d`, opened on the file `i`, and the seek starts from
    `base`. -/
structure SeeksFrom (fs : Ramfs) (table : FdTable) (fd whence : Int) (d i : Nat) (base : U64) :
    Prop where
  slot : mcsFdGet table fd = some d
  node : (table.files d).node = some i
  file : (fs.nodes i).type = .file
  start : seekBase fs i (table.files d).offset whence = some base

/-- A seek starts at one place. -/
theorem SeeksFrom.unique {d d' i i' : Nat} {base' : U64}
    (h : SeeksFrom fs table fd whence d i base) (h' : SeeksFrom fs table fd whence d' i' base') :
    d = d' ∧ i = i' ∧ base = base' := by
  obtain rfl : d = d' := Option.some.inj (h.slot.symm.trans h'.slot)
  obtain rfl : i = i' := Option.some.inj (h.node.symm.trans h'.node)
  exact ⟨rfl, rfl, Option.some.inj (h.start.symm.trans h'.start)⟩

/-- The sum is stored if it is not negative. -/
theorem mcsVfsLseek_seeks {d i : Nat} (h : SeeksFrom fs table fd whence d i base)
    (offset : U64) :
    mcsVfsLseek fs table fd offset whence =
      if (base + offset).toInt < 0 then (.error .einval, table)
      else (.ok ((base + offset).setWidth 32).toInt,
        setFile table d { table.files d with offset := base + offset }) := by
  have hdir : (fs.nodes i).type ≠ .dir := by
    rw [h.file]
    intro hc
    cases hc
  -- `seekBase` makes the same tests as the source
  have hstart := h.start
  rw [seekBase] at hstart
  rw [mcsVfsLseek, h.slot]
  simp only [h.node, if_neg hdir]
  by_cases hset : whence = MCS_SEEK_SET
  · rw [if_pos hset] at hstart ⊢
    rw [← Option.some.inj hstart]
  rw [if_neg hset] at hstart ⊢
  by_cases hcur : whence = MCS_SEEK_CUR
  · rw [if_pos hcur] at hstart ⊢
    rw [← Option.some.inj hstart]
  rw [if_neg hcur] at hstart ⊢
  by_cases hend : whence = MCS_SEEK_END
  · rw [if_pos hend] at hstart ⊢
    rw [← Option.some.inj hstart]
  · rw [if_neg hend] at hstart
    cases hstart

/-- Every other seek is refused. -/
theorem mcsVfsLseek_refused (fs : Ramfs) (table : FdTable) (fd whence : Int) (offset : U64) :
    (∃ e, mcsVfsLseek fs table fd offset whence = (.error e, table)) ∨
    ∃ d i base, SeeksFrom fs table fd whence d i base := by
  cases hslot : mcsFdGet table fd with
  | none => exact Or.inl ⟨_, by rw [mcsVfsLseek, hslot]⟩
  | some d =>
      cases hnode : (table.files d).node with
      | none => exact Or.inl ⟨.eisdir, by simp only [mcsVfsLseek, hslot, hnode]⟩
      | some i =>
          cases htype : (fs.nodes i).type with
          | dir => exact Or.inl ⟨.eisdir, by simp only [mcsVfsLseek, hslot, hnode, htype, if_pos]⟩
          | file =>
              cases hstart : seekBase fs i (table.files d).offset whence with
              | some base => exact Or.inr ⟨d, i, base, hslot, hnode, htype, hstart⟩
              | none =>
                  refine Or.inl ⟨.einval, ?_⟩
                  rw [seekBase] at hstart
                  split at hstart
                  · cases hstart
                  rename_i hset
                  split at hstart
                  · cases hstart
                  rename_i hcur
                  split at hstart
                  · cases hstart
                  rename_i hend
                  simp only [mcsVfsLseek, hslot, hnode, htype, if_neg hset, if_neg hcur,
                    if_neg hend, reduceCtorEq, if_false]

/-! ## Offsets over whole runs -/

/-- Sizes that are not negative as a `long`. -/
def ShortSizes (fs : Ramfs) : Prop :=
  ∀ i, i < fs.nodeCount.toNat → (fs.nodes i).size.toNat < 2 ^ 63

/-- Offsets that are not negative as a `long`. -/
def ShortOffsets (table : FdTable) : Prop :=
  ∀ d, d < MCS_MAX_OPEN_FILES → (table.files d).offset.toNat < 2 ^ 63

/-- A new file has a short size. -/
theorem ShortSizes.createFile (hT : FsTree fs) (h : ShortSizes fs) (path : Option Path) :
    ShortSizes (mcsRamfsCreateFile fs path).2 := by
  rcases mcsRamfsCreateFile_cases hT path with
    ⟨e, heq⟩ | ⟨i, -, -, heq⟩ | ⟨p, leaf, hnew, heq⟩
  · rw [heq]
    exact h
  · rw [heq]
    exact h
  · rw [heq]
    intro i hi
    rcases (hnew.canAdd hT).node_cases hi with ⟨hold, hnode⟩ | rfl
    · rw [hnode]
      exact h i hold
    · rw [addFile_new]
      exact Nat.two_pow_pos 63

theorem ShortSizes.setSize (h : ShortSizes fs) (f : Nat) {size : U64}
    (hsize : size.toNat < 2 ^ 63) : ShortSizes (VfsModel.setSize fs f size) := by
  intro i hi
  rw [setSize_size]
  split
  · exact hsize
  · exact h i hi

theorem ShortSizes.putBytes (h : ShortSizes fs) (t : Transfer) (bytes : Nat → U8) :
    ShortSizes (VfsModel.putBytes fs t bytes) := h

/-- No file is larger than the data array. -/
theorem capacity_le (hF : FsInv fs) {i : Nat} (hi : IsFile fs i) :
    (fs.nodes i).dataCapacity.toNat ≤ 8192 := by
  have hext := hF.data.extent i hi
  have hbound : fs.dataUsed.toNat ≤ 8192 := hF.data.bound
  rw [extentEnd] at hext
  omega

theorem ShortOffsets.setFile (h : ShortOffsets table) (d : Nat) {file : File}
    (hfile : file.offset.toNat < 2 ^ 63) : ShortOffsets (VfsModel.setFile table d file) := by
  intro i hi
  rw [setFile_file]
  split
  · exact hfile
  · exact h i hi

/-- A seeded file has a short size. -/
theorem shortSizes_seed (hF : FsInv fs) (h : ShortSizes fs) (path : Option Path)
    (data : Option (Nat → U8)) (len : U64) : ShortSizes (mcsRamfsSeedFile fs path data len).2 := by
  have hcreate := h.createFile hF.tree path
  obtain ⟨hF', -, hfile⟩ := hF.createFile path
  rcases mcsRamfsSeedFile_cases fs path data len with
    ⟨e, heq⟩ | ⟨e, heq⟩ | ⟨node, hnode, hfits, heq⟩
  · rw [heq]
    exact h
  · rw [heq]
    exact hcreate
  · rw [heq]
    have hcap := capacity_le hF' (hfile node hnode)
    exact (hcreate.putBytes _ _).setSize node (by bv_omega)

/-- An open starts at a short offset. -/
theorem openOffset_short (h : ShortSizes fs) {node : Nat} (hnode : node < fs.nodeCount.toNat)
    (flags : U32) : (openOffset fs node flags).toNat < 2 ^ 63 := by
  rw [openOffset]
  split
  · exact h node hnode
  · decide

theorem opensNode_short {node : Nat} {flags : U32} {r : Except VfsErr Nat × Ramfs × FdTable}
    (hS : ShortSizes fs) (hO : ShortOffsets table) (hnode : node < fs.nodeCount.toNat)
    (h : OpensNode fs table node flags r) : ShortSizes r.2.1 ∧ ShortOffsets r.2.2 := by
  have hoffset := openOffset_short hS hnode flags
  cases h with
  | directory => exact ⟨hS, hO⟩
  | full => exact ⟨hS, hO⟩
  | denied => exact ⟨hS, hO.setFile _ hoffset⟩
  | truncates => exact ⟨hS.setSize _ (by decide), hO.setFile _ (Nat.two_pow_pos 63)⟩
  | opens => exact ⟨hS, hO.setFile _ hoffset⟩

/-- An open keeps sizes and offsets short. -/
theorem open_short (hF : FsInv fs) (hS : ShortSizes fs) (hO : ShortOffsets table)
    (path : Option Path) (flags : U32) :
    ShortSizes (mcsVfsOpen fs table path flags).2.1 ∧
    ShortOffsets (mcsVfsOpen fs table path flags).2.2 := by
  have h := mcsVfsOpen_opens hF.tree table path flags
  generalize mcsVfsOpen fs table path flags = r at h ⊢
  cases h with
  | refused => exact ⟨hS, hO⟩
  | found hlook h => exact opensNode_short hS hO (mcsRamfsLookup_lt hF.tree hlook) h
  | created _ hnew h =>
      have hS' := hS.createFile hF.tree path
      obtain ⟨-, -, hfile⟩ := hF.createFile path
      rw [hnew.createFile hF.tree] at hS' hfile
      exact opensNode_short hS' hO (hfile _ rfl).1 h

/-- A read stops at the end of its file, or does not move. -/
theorem read_short (hF : FsInv fs) (hT : TableOk fs table) (hO : ShortOffsets table) (fd : Int)
    (buf : Bool) (len : U64) : ShortOffsets (mcsVfsRead fs table fd buf len).2.2 := by
  rcases mcsVfsRead_cases fs table fd buf len with ⟨e, heq⟩ | ⟨d, t, hr, heq⟩
  · rw [heq]
    exact hO
  · rw [heq]
    have hfile := hT.isFile hr.slot hr.node hr.file
    have hsize := hF.data.size t.node hfile
    have hcap := capacity_le hF hfile
    have hcount := hr.count_toNat
    have hold := hO d (mcsFdGet_some hr.slot).1
    refine hO.setFile d ?_
    show ((table.files d).offset + t.len).toNat < 2 ^ 63
    bv_omega

/-- A write stops within the capacity of its file; one that is refused has moved its
    descriptor to the end of the file at most. -/
theorem write_short (hF : FsInv fs) (hT : TableOk fs table) (hS : ShortSizes fs)
    (hO : ShortOffsets table) (fd : Int) (buf : Option (Nat → U8)) (len : U64) :
    ShortSizes (mcsVfsWrite fs table fd buf len).2.1 ∧
    ShortOffsets (mcsVfsWrite fs table fd buf len).2.2 := by
  rcases mcsVfsWrite_cases fs table fd buf len with
    ⟨e, -, heq⟩ | ⟨d, i, e, -, hget, hnode, heq⟩ | ⟨d, t, -, hw, heq⟩
  · rw [heq]
    exact ⟨hS, hO⟩
  · rw [heq]
    obtain ⟨hd, -, hused⟩ := mcsFdGet_some hget
    obtain ⟨-, j, hj, hlt⟩ := hT d hd hused
    obtain rfl : j = i := Option.some.inj (hj.symm.trans hnode)
    refine ⟨hS, hO.setFile d ?_⟩
    show (writePos fs (table.files d) j).toNat < 2 ^ 63
    rw [writePos]
    split
    · exact hS j hlt
    · exact hO d hd
  · rw [heq]
    have hfits := hw.fits_toNat
    have hcap := capacity_le hF (hT.isFile hw.slot hw.node hw.file)
    -- a write ends in the storage
    have hend : (t.pos + t.len).toNat < 2 ^ 63 := by bv_omega
    refine ⟨?_, hO.setFile d hend⟩
    simp only
    split
    · exact (hS.putBytes t _).setSize t.node hend
    · exact hS

/-- A seek, which refuses negative offsets, keeps the offsets short. -/
theorem lseek_short (hO : ShortOffsets table) (fs : Ramfs) (fd whence : Int) (offset : U64) :
    ShortOffsets (mcsVfsLseek fs table fd offset whence).2 := by
  rcases mcsVfsLseek_refused fs table fd whence offset with ⟨e, heq⟩ | ⟨d, i, base, hs⟩
  · rw [heq]
    exact hO
  · rw [mcsVfsLseek_seeks hs]
    split
    · exact hO
    · rename_i hneg
      refine hO.setFile d ?_
      show (base + offset).toNat < 2 ^ 63
      rw [BitVec.toInt_eq_toNat_cond] at hneg
      split at hneg
      · omega
      · have hlt := (base + offset).isLt
        omega

/-- A close keeps the offsets short. -/
theorem close_short (hO : ShortOffsets table) (fd : Int) :
    ShortOffsets (mcsVfsClose table fd).2 := by
  rw [mcsVfsClose]
  split
  · exact hO
  · exact hO.setFile _ (by decide)

/-- A duplicate keeps the offsets short. -/
theorem dup_short (hO : ShortOffsets table) (fd : Int) : ShortOffsets (mcsVfsDup table fd).2 := by
  rcases mcsVfsDup_cases table fd with ⟨-, heq⟩ | ⟨d, -, -, heq⟩ | ⟨d, d', hget, -, heq⟩
  · rw [heq]
    exact hO
  · rw [heq]
    exact hO
  · rw [heq]
    exact hO.setFile d' (hO d (mcsFdGet_some hget).1)

/-- Everything a seek can start from is short. -/
structure Short (s : VfsState) : Prop where
  sizes : ShortSizes s.fs
  offsets : ∀ i, ShortOffsets (s.tables i)

theorem Short.update {s : VfsState} (h : Short s) {fs : Ramfs} {i : Nat} {table : FdTable}
    (hS : ShortSizes fs) (hO : ShortOffsets table) :
    Short (setTable { s with fs := fs } i table) := by
  refine ⟨hS, fun j => ?_⟩
  show ShortOffsets (Function.update s.tables i table j)
  by_cases hj : j = i
  · subst hj
    rw [Function.update_self]
    exact hO
  · rw [Function.update_of_ne hj]
    exact h.offsets j

/-- **STEP**: no call makes a size or an offset that is negative as a `long`. -/
theorem vfsStep_short {s : VfsState} (hI : VfsInv s) (h : Short s) (op : VfsOp) :
    Short (vfsStep s op).2 := by
  cases op with
  | createFile path => exact ⟨h.sizes.createFile hI.fs.tree path, h.offsets⟩
  | seedFile path data len => exact ⟨shortSizes_seed hI.fs h.sizes path data len, h.offsets⟩
  | vfsOpen table path flags =>
      obtain ⟨hS, hO⟩ := open_short hI.fs h.sizes (h.offsets table) path flags
      exact h.update hS hO
  | vfsRead table fd buf len =>
      exact h.update h.sizes (read_short hI.fs (hI.tables table) (h.offsets table) fd buf len)
  | vfsWrite table fd buf len =>
      obtain ⟨hS, hO⟩ := write_short hI.fs (hI.tables table) h.sizes (h.offsets table) fd buf len
      exact h.update hS hO
  | vfsLseek table fd offset whence =>
      exact h.update h.sizes (lseek_short (h.offsets table) s.fs fd whence offset)
  | vfsClose table fd => exact h.update h.sizes (close_short (h.offsets table) fd)
  | vfsDup table fd => exact h.update h.sizes (dup_short (h.offsets table) fd)

/-- All sizes and offsets are 0 at the start. -/
theorem short_init (garbage : VfsState) : Short (vfsInit garbage) := by
  refine ⟨fun i hi => ?_, fun i d hd => ?_⟩
  · have hcount : (vfsInit garbage).fs.nodeCount.toNat = 1 := rfl
    obtain rfl : i = 0 := by omega
    exact Nat.two_pow_pos 63
  · have hfile := mcsFdTableInit_file (garbage.tables i) hd
    rw [show (vfsInit garbage).tables i = mcsFdTableInit (garbage.tables i) from rfl, hfile]
    decide

/-- **RUN**: after any calls, no size and no offset is negative as a `long`. -/
theorem exec_short (garbage : VfsState) (ops : List VfsOp) :
    Short (Machine.exec vfsStep (vfsInit garbage) ops) :=
  (Machine.exec_inv vfsStep (I := fun s => VfsInv s ∧ Short s)
    (fun _ op h => ⟨vfsStep_inv h.1 op, vfsStep_short h.1 h.2 op⟩) ops _
    ⟨vfsInit_inv garbage, short_init garbage⟩).2

/-- A seek starts below `2^63`. -/
theorem seekBase_short {d i : Nat} (hT : TableOk fs table) (hS : ShortSizes fs)
    (hO : ShortOffsets table) (h : SeeksFrom fs table fd whence d i base) :
    base.toNat < 2 ^ 63 := by
  have hd := (mcsFdGet_some h.slot).1
  have hi := (hT.isFile h.slot h.node h.file).1
  have hstart := h.start
  rw [seekBase] at hstart
  split at hstart
  · rw [← Option.some.inj hstart]
    decide
  split at hstart
  · rw [← Option.some.inj hstart]
    exact hO d hd
  split at hstart
  · rw [← Option.some.inj hstart]
    exact hS i hi
  · cases hstart

/-! ## The answer of a seek -/

/-- The word that is stored, against the sum over the integers. -/
theorem seek_sum (hbase : base.toNat < 2 ^ 63) (offset : U64) :
    ((base + offset).toInt < 0 ↔
      (base.toNat : Int) + offset.toInt < 0 ∨ 2 ^ 63 ≤ (base.toNat : Int) + offset.toInt) ∧
    (0 ≤ (base.toNat : Int) + offset.toInt → (base.toNat : Int) + offset.toInt < 2 ^ 63 →
      ((base + offset).toNat : Int) = base.toNat + offset.toInt) := by
  have hlt := offset.isLt
  rw [BitVec.toInt_eq_toNat_cond, BitVec.toInt_eq_toNat_cond, BitVec.toNat_add]
  split
  · split
    · omega
    · omega
  · split
    · omega
    · omega

/-- The conversion `(int)` of a word. -/
theorem cut_toInt (x : U64) : (x.setWidth 32).toInt
    = if x.toNat % 2 ^ 32 < 2 ^ 31 then (x.toNat % 2 ^ 32 : Int)
      else (x.toNat % 2 ^ 32 : Int) - 2 ^ 32 := by
  rw [BitVec.toInt_eq_toNat_cond, BitVec.toNat_setWidth]
  split
  · rw [if_pos (by omega)]
    omega
  · rw [if_neg (by omega)]
    omega

/-- What a seek answers is what it does. -/
def SeekExact (fs : Ramfs) (table : FdTable) (fd : Int) (offset : U64) (whence : Int) : Prop :=
  (vfsReturn (mcsVfsLseek fs table fd offset whence).1 < 0 →
    (mcsVfsLseek fs table fd offset whence).2 = table) ∧
  (0 ≤ vfsReturn (mcsVfsLseek fs table fd offset whence).1 →
    ∃ d i base, SeeksFrom fs table fd whence d i base ∧
      (((mcsVfsLseek fs table fd offset whence).2.files d).offset.toNat : Int)
        = vfsReturn (mcsVfsLseek fs table fd offset whence).1 ∧
      vfsReturn (mcsVfsLseek fs table fd offset whence).1 = base.toNat + offset.toInt)

/-- A seek to a position that a `long` holds and an `int` does not; where the
    answer comes out negative, to another position than the present one. -/
structure SeeksFar (fs : Ramfs) (table : FdTable) (fd : Int) (offset : U64) (whence : Int)
    (d i : Nat) (base : U64) : Prop extends SeeksFrom fs table fd whence d i base where
  far : 2 ^ 31 ≤ (base.toNat : Int) + offset.toInt
  stored : (base.toNat : Int) + offset.toInt < 2 ^ 63
  shown : (base.toNat : Int) + offset.toInt ≠ (table.files d).offset.toNat ∨
    ((base.toNat : Int) + offset.toInt) % 2 ^ 32 < 2 ^ 31

/-- A seek that is refused is exact. -/
theorem seekExact_error {e : VfsErr}
    (h : mcsVfsLseek fs table fd offset whence = (.error e, table)) :
    SeekExact fs table fd offset whence := by
  have hneg := vfsStatus_neg e
  rw [SeekExact, h]
  refine ⟨fun _ => rfl, fun hpos => ?_⟩
  have hpos' : 0 ≤ vfsStatus e := hpos
  omega

/-- A seek that stores its sum `n`: the answer is right if an `int` holds `n`, and
    otherwise only if it is negative and nothing has moved. -/
theorem seekExact_stored {d i : Nat} {n : Nat} (hs : SeeksFrom fs table fd whence d i base)
    (hpos : ¬ (base + offset).toInt < 0) (hn : (base + offset).toNat = n)
    (hsum : (n : Int) = base.toNat + offset.toInt) :
    SeekExact fs table fd offset whence ↔
      n < 2 ^ 31 ∨ (n = (table.files d).offset.toNat ∧ ¬ n % 2 ^ 32 < 2 ^ 31) := by
  have hmoved : setFile table d { table.files d with offset := base + offset } = table ↔
      n = (table.files d).offset.toNat := by
    rw [setOffset_eq, ← BitVec.toNat_inj, hn]
  have hslot : (setFile table d { table.files d with offset := base + offset }).files d
      = { table.files d with offset := base + offset } := by
    rw [setFile_file, if_pos rfl]
  rw [SeekExact, mcsVfsLseek_seeks hs, if_neg hpos]
  simp only [vfsReturn, hmoved, cut_toInt, hn]
  by_cases hlow : n % 2 ^ 32 < 2 ^ 31
  · -- the answer is not negative
    rw [if_pos hlow]
    constructor
    · rintro ⟨-, hanswer⟩
      obtain ⟨d', i', base', hs', -, hr⟩ := hanswer (by omega)
      obtain ⟨rfl, rfl, rfl⟩ := hs.unique hs'
      exact Or.inl (by omega)
    · intro hn'
      refine ⟨fun hneg => absurd hneg (by omega), fun _ => ⟨d, i, base, hs, ?_, by omega⟩⟩
      rw [hslot]
      show ((base + offset).toNat : Int) = _
      omega
  · rw [if_neg hlow]
    constructor
    · rintro ⟨hstays, -⟩
      exact Or.inr ⟨hstays (by omega), hlow⟩
    · rintro (hsmall | ⟨hsame, -⟩)
      · omega
      · exact ⟨fun _ => hsame, fun hpos' => absurd hpos' (by omega)⟩

/-- A seek is exact unless it goes far. -/
theorem seekExact_iff (hT : TableOk fs table) (hS : ShortSizes fs) (hO : ShortOffsets table) :
    SeekExact fs table fd offset whence ↔
      ¬ ∃ d i base, SeeksFar fs table fd offset whence d i base := by
  by_cases hseek : ∃ d i base, SeeksFrom fs table fd whence d i base
  · obtain ⟨d, i, base, hs⟩ := hseek
    have hbase := seekBase_short hT hS hO hs
    -- the sum is negative as a long exactly if it is out of range
    obtain ⟨hneg, hword⟩ := seek_sum hbase offset
    by_cases hrefused : (base + offset).toInt < 0
    · refine iff_of_true (seekExact_error ((mcsVfsLseek_seeks hs offset).trans (if_pos hrefused)))
        ?_
      rintro ⟨d', i', base', hf⟩
      obtain ⟨rfl, rfl, rfl⟩ := hs.unique hf.toSeeksFrom
      have hfar := hf.far
      have hstored := hf.stored
      rcases hneg.mp hrefused with hlow | hhigh
      · omega
      · omega
    · rw [hneg, not_or] at hrefused
      have hn := hword (by omega) (by omega)
      rw [seekExact_stored hs (by rw [hneg, not_or]; exact hrefused) rfl hn]
      constructor
      · rintro hfine ⟨d', i', base', hf⟩
        obtain ⟨rfl, rfl, rfl⟩ := hs.unique hf.toSeeksFrom
        have hfar := hf.far
        rcases hfine with hsmall | ⟨hsame, hsign⟩
        · omega
        · rcases hf.shown with hmove | hshow
          · omega
          · omega
      · intro hno
        by_contra hbad
        rw [not_or, not_and, not_not] at hbad
        refine hno ⟨d, i, base, hs, by omega, by omega, ?_⟩
        by_cases hsame : (base + offset).toNat = (table.files d).offset.toNat
        · have hsign := hbad.2 hsame
          exact Or.inr (by omega)
        · exact Or.inl (by omega)
  · rcases mcsVfsLseek_refused fs table fd whence offset with ⟨e, heq⟩ | hs
    · refine iff_of_true (seekExact_error heq) ?_
      rintro ⟨d, i, base, hf⟩
      exact hseek ⟨d, i, base, hf.toSeeksFrom⟩
    · exact absurd hs hseek

/-- **LSEEK**: in every state of every run a seek answers what it does, except for
    positions from `2^31` on. -/
theorem lseek_exact_iff {garbage s : VfsState} {ops : List VfsOp}
    (hs : Machine.exec vfsStep (vfsInit garbage) ops = s) (i : Nat) (fd : Int) (offset : U64)
    (whence : Int) :
    SeekExact s.fs (s.tables i) fd offset whence ↔
      ¬ ∃ d f base, SeeksFar s.fs (s.tables i) fd offset whence d f base := by
  have hI := exec_inv garbage ops
  have hshort := exec_short garbage ops
  rw [hs] at hI hshort
  exact seekExact_iff (hI.tables i) hshort.sizes (hshort.offsets i)

/-- `/a` with four bytes, open as descriptor 0. -/
def opened : VfsState := Machine.exec vfsStep (vfsInit garbage) smallRun

/-- A seek from the start of the example's file. -/
theorem opened_seeks : SeeksFrom opened.fs (opened.tables 0) 0 MCS_SEEK_SET 0 1 0 :=
  ⟨by decide +kernel, by decide +kernel, by decide +kernel, by decide +kernel⟩

/-- The largest int is answered exactly, and the next offset is not. -/
theorem lseek_exact_iff_opened :
    SeekExact opened.fs (opened.tables 0) 0 0x7fffffff MCS_SEEK_SET ∧
    ¬ SeekExact opened.fs (opened.tables 0) 0 0x80000000 MCS_SEEK_SET := by
  refine ⟨(lseek_exact_iff rfl 0 0 _ _).mpr ?_, fun h => (lseek_exact_iff rfl 0 0 _ _).mp h ?_⟩
  · rintro ⟨d, f, base, hf⟩
    obtain ⟨rfl, rfl, rfl⟩ := opened_seeks.unique hf.toSeeksFrom
    exact absurd hf.far (by decide)
  · exact ⟨0, 1, 0, opened_seeks, by decide, by decide, Or.inl (by decide +kernel)⟩

/-- A seek to `2^31` answers a negative number and has moved the descriptor; one to
    `2^32 + 5` answers 5. -/
theorem lseek_answer_cut :
    vfsReturn (mcsVfsLseek opened.fs (opened.tables 0) 0 0x80000000 MCS_SEEK_SET).1
      = -0x80000000 ∧
    ((mcsVfsLseek opened.fs (opened.tables 0) 0 0x80000000 MCS_SEEK_SET).2.files 0).offset
      = 0x80000000 ∧
    ((opened.tables 0).files 0).offset = 0 ∧
    vfsReturn (mcsVfsLseek opened.fs (opened.tables 0) 0 0x100000005 MCS_SEEK_SET).1 = 5 ∧
    ((mcsVfsLseek opened.fs (opened.tables 0) 0 0x100000005 MCS_SEEK_SET).2.files 0).offset
      = 0x100000005 := by
  decide +kernel

end VfsSeek
