import Mcsos.VfsFailureProofs

/-! # What a successful write does

    `mcs_vfs_write` copies its whole buffer or nothing.  The copy goes to the
    descriptor's position, or to the end of the file for an append descriptor,
    and the size follows the new offset.  It does so without asking whether a
    byte was written: a write of no bytes at a position past the end makes the
    file longer.  `write_exact_iff` says that this is the only deviation. -/

namespace VfsWrite

open Word VfsModel VfsTree VfsInvariant VfsContents VfsFailure

variable {fs fs' : Ramfs} {table : FdTable} {fd : Int} {buf : Option (Nat → U8)} {len : U64}

/-- The ramfs after `len` bytes of a buffer went to position `pos` of the file `i`. -/
structure Written (fs fs' : Ramfs) (i : Nat) (pos : U64) (bytes : Nat → U8) (len : U64) :
    Prop where
  stored : ∀ k, k < len.toNat →
    fs'.data ((fs.nodes i).dataOffset.toNat + pos.toNat + k) = bytes k
  otherData : ∀ k, k < (fs.nodes i).dataOffset.toNat + pos.toNat ∨
    (fs.nodes i).dataOffset.toNat + pos.toNat + len.toNat ≤ k → fs'.data k = fs.data k
  otherNodes : ∀ j, j ≠ i → fs'.nodes j = fs.nodes j
  node : fs'.nodes i = { fs.nodes i with size := (fs'.nodes i).size }
  size : (fs'.nodes i).size.toNat = if len = 0 then (fs.nodes i).size.toNat
    else max (fs.nodes i).size.toNat (pos.toNat + len.toNat)
  count : fs'.nodeCount = fs.nodeCount
  used : fs'.dataUsed = fs.dataUsed

/-- A write that succeeds answers the length of its buffer and stores the
    buffer, and nothing else, in the file of its descriptor. -/
def WriteExact (fs : Ramfs) (table : FdTable) (fd : Int) (buf : Option (Nat → U8))
    (len : U64) : Prop :=
  ∀ n, (mcsVfsWrite fs table fd buf len).1 = .ok n → n = len.toNat ∧
    ∃ d i, OpenFor mcsCanWrite fs table fd d i ∧
      Written fs (mcsVfsWrite fs table fd buf len).2.1 i (writePos fs (table.files d) i)
        (buf.getD (fun _ => 0)) len

/-- A write of no bytes at a position past the end of the file and within its
    capacity. -/
structure EmptyPastEnd (fs : Ramfs) (table : FdTable) (fd : Int) (len : U64) (d i : Nat) :
    Prop where
  opened : OpenFor mcsCanWrite fs table fd d i
  empty : len = 0
  seeks : (table.files d).flags &&& MCS_O_APPEND = 0
  past : (fs.nodes i).size < (table.files d).offset
  within : (table.files d).offset ≤ (fs.nodes i).dataCapacity

/-- A write fails, or its descriptor is open for writing and the buffer fits. -/
theorem mcsVfsWrite_ok_cases (fs : Ramfs) (table : FdTable) (fd : Int)
    (buf : Option (Nat → U8)) (len : U64) :
    (∃ e, (mcsVfsWrite fs table fd buf len).1 = .error e) ∨
    ∃ d t, OpenFor mcsCanWrite fs table fd d t.node ∧ WritesTo fs table fd len d t ∧
      (mcsVfsWrite fs table fd buf len).1 = .ok t.len.toInt ∧
      (mcsVfsWrite fs table fd buf len).2.1 = writtenFs fs t (buf.getD (fun _ => 0)) := by
  rcases mcsVfsWrite_cases fs table fd buf len with
    ⟨e, -, heq⟩ | ⟨_, _, e, -, -, -, heq⟩ | ⟨d, t, hcheck, hw, heq⟩
  · exact Or.inl ⟨e, by rw [heq]⟩
  · exact Or.inl ⟨e, by rw [heq]⟩
  · refine Or.inr ⟨d, t, ?_, hw, by rw [heq], by rw [heq, writtenFs]⟩
    rcases writeTransfer_refused fs table fd buf.isSome len with ⟨e, hno⟩ | ⟨-, d', i, ho⟩
    · rw [hno] at hcheck
      cases hcheck
    · obtain rfl : d' = d := Option.some.inj (ho.slot.symm.trans hw.slot)
      obtain rfl : i = t.node := Option.some.inj (ho.node.symm.trans hw.node)
      exact ho

/-! ## The ramfs after the copy -/

theorem writtenFs_data (fs : Ramfs) (t : Transfer) (bytes : Nat → U8) :
    (writtenFs fs t bytes).data = (putBytes fs t bytes).data := by
  rw [writtenFs]
  split
  · rfl
  · rfl

/-- Of the nodes, at most the size of the file has changed. -/
theorem writtenFs_node (fs : Ramfs) (t : Transfer) (bytes : Nat → U8) (j : Nat) :
    (writtenFs fs t bytes).nodes j =
      { fs.nodes j with
        size := if j = t.node ∧ t.pos + t.len > (fs.nodes t.node).size then t.pos + t.len
          else (fs.nodes j).size } := by
  rw [writtenFs]
  by_cases hgrow : t.pos + t.len > (fs.nodes t.node).size
  · rw [if_pos hgrow, setSize_node]
    simp only [hgrow, and_true]
    rfl
  · rw [if_neg hgrow, if_neg (fun h => hgrow h.2)]
    rfl

/-- The size follows the new offset, whatever was written. -/
theorem writtenFs_size {t : Transfer} {c : Nat} (hfits : t.pos.toNat + t.len.toNat ≤ c)
    (hc : c < 2 ^ 64) (bytes : Nat → U8) :
    ((writtenFs fs t bytes).nodes t.node).size.toNat
      = max (fs.nodes t.node).size.toNat (t.pos.toNat + t.len.toNat) := by
  rw [writtenFs_node]
  by_cases hgrow : t.pos + t.len > (fs.nodes t.node).size
  · rw [if_pos ⟨rfl, hgrow⟩]
    bv_omega
  · rw [if_neg (fun h => hgrow h.2)]
    bv_omega

/-- **COPY**: everything but the size comes out as it should, and the size does
    exactly if a byte was written or the position is not past the end. -/
theorem written_iff (hF : FsInv fs) {t : Transfer} (hfile : IsFile fs t.node)
    (hfits : t.pos.toNat + t.len.toNat ≤ (fs.nodes t.node).dataCapacity.toNat)
    (bytes : Nat → U8) :
    Written fs (writtenFs fs t bytes) t.node t.pos bytes t.len ↔
      ¬ (t.len = 0 ∧ (fs.nodes t.node).size < t.pos) := by
  have hstart := start_toNat hF hfile hfits
  have hsize : ((writtenFs fs t bytes).nodes t.node).size.toNat
      = max (fs.nodes t.node).size.toNat (t.pos.toNat + t.len.toNat) :=
    writtenFs_size hfits (BitVec.isLt _) bytes
  constructor
  · rintro hw ⟨h0, hpast⟩
    have hkept := hw.size
    rw [if_pos h0, hsize, h0] at hkept
    bv_omega
  · intro hno
    refine ⟨?_, ?_, ?_, ?_, ?_, ?_, ?_⟩
    · intro k hk
      rw [writtenFs_data, putBytes_data, hstart, if_pos ⟨by omega, by omega⟩]
      congr 1
      omega
    · intro k hk
      rw [writtenFs_data, putBytes_data, hstart, if_neg (by omega)]
    · intro j hj
      rw [writtenFs_node, if_neg (fun h => hj h.1)]
    · rw [writtenFs_node]
    · rw [hsize]
      by_cases h0 : t.len = 0
      · rw [if_pos h0, h0]
        have hpos : ¬ (fs.nodes t.node).size < t.pos := fun h => hno ⟨h0, h⟩
        bv_omega
      · rw [if_neg h0]
    · rw [writtenFs]
      split
      · rfl
      · rfl
    · rw [writtenFs]
      split
      · rfl
      · rfl

/-! ## The call -/

/-- The position of an append descriptor is never past the end. -/
theorem writePos_past {d i : Nat} (hpast : (fs.nodes i).size < writePos fs (table.files d) i) :
    (table.files d).flags &&& MCS_O_APPEND = 0 ∧
    writePos fs (table.files d) i = (table.files d).offset := by
  rw [writePos] at hpast ⊢
  by_cases happend : (table.files d).flags &&& MCS_O_APPEND = 0
  · exact ⟨happend, if_neg (not_not.mpr happend)⟩
  · rw [if_pos happend] at hpast
    exact absurd hpast (BitVec.lt_irrefl _)

/-- A write is exact unless it writes nothing behind the end. -/
theorem writeExact_iff (hF : FsInv fs) (hT : TableOk fs table) :
    WriteExact fs table fd buf len ↔ ¬ ∃ d i, EmptyPastEnd fs table fd len d i := by
  constructor
  · rintro hexact ⟨d, i, he⟩
    have hpos : writePos fs (table.files d) i = (table.files d).offset :=
      if_neg (not_not.mpr he.seeks)
    have hwithin : ¬ writePos fs (table.files d) i > (fs.nodes i).dataCapacity := by
      rw [hpos]
      exact BitVec.not_lt.mpr he.within
    rcases mcsVfsWrite_ok_cases fs table fd buf len with ⟨e, herr⟩ | ⟨d', t, ho, hw, hok, hfs⟩
    · -- the checks let this write pass
      rw [mcsVfsWrite, writeTransfer_open (Or.inr he.empty) he.opened, if_neg hwithin,
        if_neg (by rw [he.empty]; exact BitVec.not_lt_zero)] at herr
      cases herr
    · obtain ⟨-, d'', i', ho', hwritten⟩ := hexact _ hok
      obtain ⟨rfl, rfl⟩ := ho'.unique ho
      obtain ⟨rfl, rfl⟩ := he.opened.unique ho
      rw [hfs, ← hw.pos, ← hw.count] at hwritten
      refine (written_iff hF (hT.isFile ho.slot ho.node ho.file) hw.fits_toNat _).mp hwritten
        ⟨hw.count.trans he.empty, ?_⟩
      rw [hw.pos, hpos]
      exact he.past
  · intro hno n hn
    rcases mcsVfsWrite_ok_cases fs table fd buf len with ⟨e, herr⟩ | ⟨d, t, ho, hw, hok, hfs⟩
    · rw [herr] at hn
      cases hn
    have hfile := hT.isFile ho.slot ho.node ho.file
    have hfits := hw.fits_toNat
    have hsmall : t.len.toInt = len.toNat := by
      have hext := hF.data.extent t.node hfile
      have hbound : fs.dataUsed.toNat ≤ 8192 := hF.data.bound
      rw [extentEnd] at hext
      rw [BitVec.toInt_eq_toNat_of_lt (by omega), hw.count]
    refine ⟨?_, d, t.node, ho, ?_⟩
    · rw [hok] at hn
      rw [← Except.ok.inj hn, hsmall]
    · rw [hfs, ← hw.pos, ← hw.count]
      refine (written_iff hF hfile hfits _).mpr ?_
      rintro ⟨h0, hpast⟩
      rw [hw.pos] at hpast
      obtain ⟨hseeks, hpos⟩ := writePos_past hpast
      refine hno ⟨d, t.node, ho, hw.count.symm.trans h0, hseeks, hpos ▸ hpast, ?_⟩
      rw [← hpos, ← hw.pos]
      exact hw.pos_le

/-- **WRITE**: in every state of every run a successful write stores its buffer
    and nothing else, except that an empty one past the end of its file makes
    the file longer. -/
theorem write_exact_iff {garbage s : VfsState} {ops : List VfsOp}
    (hs : Machine.exec vfsStep (vfsInit garbage) ops = s) (i : Nat) (fd : Int)
    (buf : Option (Nat → U8)) (len : U64) :
    WriteExact s.fs (s.tables i) fd buf len ↔
      ¬ ∃ d f, EmptyPastEnd s.fs (s.tables i) fd len d f := by
  have hI := exec_inv garbage ops
  rw [hs] at hI
  exact writeExact_iff hI.fs (hI.tables i)

/-- Seed `/a` with four bytes, open it and go to position 100. -/
def pastEndRun : List VfsOp :=
  [.seedFile pathA (some (fun i => BitVec.ofNat 8 i)) 4,
    .vfsOpen 0 pathA MCS_O_RDWR, .vfsLseek 0 0 100 MCS_SEEK_SET]

/-- The state after that run. -/
def pastEnd : VfsState := Machine.exec vfsStep (vfsInit garbage) pastEndRun

/-- A write of 156 bytes behind the end is exact, and a write of none is not. -/
theorem write_exact_iff_pastEnd :
    WriteExact pastEnd.fs (pastEnd.tables 0) 0 (some (fun _ => 7)) 156 ∧
    ¬ WriteExact pastEnd.fs (pastEnd.tables 0) 0 (some (fun _ => 7)) 0 := by
  refine ⟨(write_exact_iff rfl 0 0 _ 156).mpr ?_, fun h => (write_exact_iff rfl 0 0 _ 0).mp h ?_⟩
  · rintro ⟨d, f, he⟩
    exact absurd he.empty (by decide)
  · exact ⟨0, 1, ⟨by decide +kernel, by decide +kernel, by decide +kernel, by decide +kernel,
      by decide +kernel⟩, rfl, by decide +kernel, by decide +kernel, by decide +kernel⟩

/-- A write of no bytes, with no buffer at all, makes a file of four bytes one of a
    hundred. -/
theorem empty_write_grows :
    (pastEnd.fs.nodes 1).size = 4 ∧
    (mcsVfsWrite pastEnd.fs (pastEnd.tables 0) 0 none 0).1 = .ok 0 ∧
    ((mcsVfsWrite pastEnd.fs (pastEnd.tables 0) 0 none 0).2.1.nodes 1).size = 100 := by
  decide +kernel

end VfsWrite
