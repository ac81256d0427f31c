import Mcsos.VfsTreeProofs

/-! # Paths end at their terminator

    A path arrives in a buffer that is longer than the path.  What the buffer
    holds behind the terminator reaches no function of the file system: each of
    them does with the buffer what it does with the string in it (`cstr`), so
    opening a file does not depend on those bytes (`mcsVfsOpen_cstr`). -/

namespace VfsString

open Word Loop VfsModel VfsTree

/-- The string in a buffer: the characters before the first NUL. -/
def cstr (s : Path) : Path := s.takeWhile (· ≠ 0)

theorem cstr_cons {c : U8} (hc : c ≠ 0) (s : Path) : cstr (c :: s) = c :: cstr s := by
  rw [cstr, List.takeWhile_cons_of_pos (by simpa using hc)]
  rfl

/-- A case split on a buffer that the functions over strings follow. -/
theorem cstr_cases (s : Path) :
    cstr s = [] ∧ deref s = 0 ∨ ∃ c t, s = c :: t ∧ c ≠ 0 ∧ cstr s = c :: cstr t := by
  cases s with
  | nil => exact Or.inl ⟨rfl, rfl⟩
  | cons c t =>
      by_cases hc : c = 0
      · subst hc
        exact Or.inl ⟨rfl, rfl⟩
      · exact Or.inr ⟨c, t, rfl, hc, cstr_cons hc t⟩

/-- The first character of a C string. -/
theorem deref_cstr (s : Path) : deref (cstr s) = deref s := by
  rcases cstr_cases s with ⟨h, h0⟩ | ⟨c, t, rfl, -, h⟩
  · rw [h, h0]
    rfl
  · rw [h]
    rfl

/-- The length of a C string. -/
theorem mcsStrlen_cstr (s : Path) : mcsStrlen (cstr s) = mcsStrlen s := by
  induction s with
  | nil => rfl
  | cons c s ih =>
      by_cases hc : c = 0
      · subst hc
        rfl
      · rw [cstr_cons hc, mcsStrlen, mcsStrlen, ih]

/-- A segment ends before the terminator. -/
theorem segLen_cstr (s : Path) : segLen (cstr s) = segLen s := by
  induction s with
  | nil => rfl
  | cons c s ih =>
      by_cases hc : c = 0
      · subst hc
        rfl
      · rw [cstr_cons hc, segLen, segLen, ih]

/-- Behind a whole segment the string goes on as the buffer does. -/
theorem cstr_drop_segLen (s : Path) : cstr (s.drop (segLen s)) = (cstr s).drop (segLen s) := by
  induction s with
  | nil => rfl
  | cons c s ih =>
      rw [segLen]
      by_cases hc : c = slash ∨ c = 0
      · rw [if_pos hc]
        rfl
      · rw [if_neg hc, cstr_cons (fun h => hc (Or.inr h))]
        exact ih

/-- Behind a character that is not the terminator likewise. -/
theorem cstr_drop_one {s : Path} (h : deref s ≠ 0) : cstr (s.drop 1) = (cstr s).drop 1 := by
  rcases cstr_cases s with ⟨-, h0⟩ | ⟨c, t, rfl, -, hs⟩
  · exact absurd h0 h
  · rw [hs]
    rfl

/-- The characters of a segment are those of the C string. -/
theorem getD_cstr (s : Path) {i : Nat} (hi : i < segLen s) :
    (cstr s).getD i 0 = s.getD i 0 := by
  induction s generalizing i with
  | nil => rfl
  | cons c s ih =>
      rw [segLen] at hi
      by_cases hc : c = slash ∨ c = 0
      · rw [if_pos hc] at hi
        exact absurd hi (Nat.not_lt_zero i)
      · rw [if_neg hc] at hi
        rw [cstr_cons (fun h => hc (Or.inr h))]
        cases i with
        | zero => rfl
        | succ i => exact ih (by omega)

/-! ## Names -/

theorem mcsStreqN_cstr (s : Path) (b : Nat → U8) :
    mcsStreqN (cstr s) b (segLen s) = mcsStreqN s b (segLen s) := by
  rw [Bool.eq_iff_iff, mcsStreqN_iff, mcsStreqN_iff]
  refine and_congr_left (fun _ => forall₂_congr (fun i hi => ?_))
  rw [getD_cstr s hi]

/-- Children are searched by the C string. -/
theorem mcsFindChild_cstr (fs : Ramfs) (parent : U32) (s : Path) :
    mcsFindChild fs parent (cstr s) (segLen s) = mcsFindChild fs parent s (segLen s) := by
  simp only [mcsFindChild, mcsStreqN_cstr]

theorem mcsCopyName_cstr (dst : Nat → U8) (s : Path) :
    mcsCopyName dst (cstr s) (segLen s) = mcsCopyName dst s (segLen s) := by
  refine forN_congr (fun i hi => ?_) _
  rw [getD_cstr s (by omega)]

/-- Names are taken from the C string. -/
theorem mcsAllocNode_cstr (fs : Ramfs) (parent : U32) (type : VnodeType) (s : Path)
    (capacity : U64) :
    mcsAllocNode fs parent type (cstr s) (segLen s) capacity
      = mcsAllocNode fs parent type s (segLen s) capacity := by
  simp only [mcsAllocNode, mcsCopyName_cstr]

/-! ## Walking a path -/

/-- The rest of the path behind a segment and its slash. -/
theorem cstr_rest {seg : Path} (h : deref (seg.drop (segLen seg)) ≠ 0) :
    ((cstr seg).drop (segLen seg)).drop 1 = cstr ((seg.drop (segLen seg)).drop 1) := by
  rw [← cstr_drop_segLen, cstr_drop_one h]

/-- The walk does not look behind the terminator. -/
theorem lookupLoop_cstr (fs : Ramfs) :
    ∀ (rounds cur : Nat) (seg : Path),
      lookupLoop fs rounds cur (cstr seg) = lookupLoop fs rounds cur seg := by
  intro rounds
  induction rounds with
  | zero => intro cur seg; rfl
  | succ rounds ih =>
      intro cur seg
      have hnext : deref ((cstr seg).drop (segLen seg)) = deref (seg.drop (segLen seg)) := by
        rw [← cstr_drop_segLen, deref_cstr]
      simp only [lookupLoop, deref_cstr, segLen_cstr, mcsFindChild_cstr, hnext]
      by_cases hend : deref (seg.drop (segLen seg)) = 0
      · simp only [if_pos hend]
      · simp only [if_neg hend, cstr_rest hend, ih]

/-- A split of the string is the split of the buffer, with the leaf cut too. -/
theorem splitLoop_cstr (fs : Ramfs) :
    ∀ (rounds cur : Nat) (seg : Path),
      (∃ e, splitLoop fs rounds cur seg = .error e ∧
        splitLoop fs rounds cur (cstr seg) = .error e) ∨
      ∃ p leaf, splitLoop fs rounds cur seg = .ok (p, leaf, segLen leaf) ∧
        splitLoop fs rounds cur (cstr seg) = .ok (p, cstr leaf, segLen leaf) := by
  intro rounds
  induction rounds with
  | zero => intro cur seg; exact Or.inl ⟨_, rfl, rfl⟩
  | succ rounds ih =>
      intro cur seg
      -- behind a segment is a slash or the terminator
      have hnext : deref ((cstr seg).drop (segLen seg)) = deref (seg.drop (segLen seg)) := by
        rw [← cstr_drop_segLen, deref_cstr]
      simp only [splitLoop, segLen_cstr, mcsFindChild_cstr, hnext]
      by_cases hlen : segLen seg = 0 ∨ segLen seg ≥ MCS_MAX_NAME
      · simp only [if_pos hlen]
        exact Or.inl ⟨_, rfl, rfl⟩
      simp only [if_neg hlen]
      by_cases hend : deref (seg.drop (segLen seg)) = 0
      · simp only [if_pos hend]
        exact Or.inr ⟨cur, seg, rfl, rfl⟩
      simp only [if_neg hend, cstr_rest hend]
      cases mcsFindChild fs (fs.nodes cur).id seg (segLen seg) with
      | error rc => exact Or.inl ⟨rc, rfl, rfl⟩
      | ok cur =>
          dsimp only
          split
          · exact Or.inl ⟨_, rfl, rfl⟩
          · exact ih cur _

/-- Both the string and the buffer give the loops enough rounds. -/
theorem cstr_rounds {path : Path} (h : deref path ≠ 0) :
    (cstr (path.drop 1)).length < (cstr path).length + 1 ∧
    (cstr (path.drop 1)).length < path.length + 1 := by
  have hcut : ∀ s : Path, (cstr s).length ≤ s.length := fun s =>
    (List.takeWhile_sublist _).length_le
  have h1 := hcut path
  rw [cstr_drop_one h, List.length_drop]
  omega

/-- An absolute path is not empty. -/
theorem deref_ne_zero_of_slash {path : Path} (h : ¬ deref path ≠ slash) : deref path ≠ 0 := by
  rw [not_not.mp h]
  decide

/-- A lookup does not look behind the terminator. -/
theorem mcsRamfsLookup_cstr (fs : Ramfs) (path : Path) :
    mcsRamfsLookup fs (some (cstr path)) = mcsRamfsLookup fs (some path) := by
  rw [mcsRamfsLookup, mcsRamfsLookup, deref_cstr, mcsStrlen_cstr]
  by_cases habs : deref path ≠ slash
  · rw [if_pos habs, if_pos habs]
  have hfirst := deref_ne_zero_of_slash habs
  obtain ⟨hr, hr'⟩ := cstr_rounds hfirst
  rw [if_neg habs, if_neg habs, ← cstr_drop_one hfirst, deref_cstr,
      lookupLoop_rounds _ _ 0 _ hr hr', lookupLoop_cstr]

/-- The search for the parent does not look behind the terminator. -/
theorem mcsSplitParentLeaf_cstr (fs : Ramfs) (path : Path) :
    (∃ e, mcsSplitParentLeaf fs (some path) = .error e ∧
      mcsSplitParentLeaf fs (some (cstr path)) = .error e) ∨
    ∃ p leaf, mcsSplitParentLeaf fs (some path) = .ok (p, leaf, segLen leaf) ∧
      mcsSplitParentLeaf fs (some (cstr path)) = .ok (p, cstr leaf, segLen leaf) := by
  rw [mcsSplitParentLeaf, mcsSplitParentLeaf, deref_cstr, mcsStrlen_cstr]
  by_cases habs : deref path ≠ slash
  · rw [if_pos habs, if_pos habs]
    exact Or.inl ⟨_, rfl, rfl⟩
  have hfirst := deref_ne_zero_of_slash habs
  obtain ⟨hr, hr'⟩ := cstr_rounds hfirst
  rw [if_neg habs, if_neg habs, ← cstr_drop_one hfirst, deref_cstr,
      splitLoop_rounds _ _ 0 _ hr hr']
  by_cases hroot : deref (path.drop 1) = 0
  · rw [if_pos hroot, if_pos hroot]
    exact Or.inl ⟨_, rfl, rfl⟩
  rw [if_neg hroot, if_neg hroot]
  by_cases hlong : mcsStrlen path ≥ MCS_MAX_PATH
  · rw [if_pos hlong, if_pos hlong]
    exact Or.inl ⟨_, rfl, rfl⟩
  rw [if_neg hlong, if_neg hlong]
  exact splitLoop_cstr fs _ 0 _

/-- The creation of a file does not look behind the terminator. -/
theorem mcsRamfsCreateFile_cstr (fs : Ramfs) (path : Path) :
    mcsRamfsCreateFile fs (some (cstr path)) = mcsRamfsCreateFile fs (some path) := by
  simp only [mcsRamfsCreateFile, mcsRamfsLookup_cstr]
  rcases mcsSplitParentLeaf_cstr fs path with ⟨e, h, h'⟩ | ⟨p, leaf, h, h'⟩
  · rw [h, h']
    rfl
  · rw [h, h']
    simp only [mcsAllocNode_cstr]
    rfl

/-- **TERMINATOR**: opening a file depends on the string in the path buffer and
    not on what follows it. -/
theorem mcsVfsOpen_cstr (fs : Ramfs) (table : FdTable) (path : Path) (flags : U32) :
    mcsVfsOpen fs table (some (cstr path)) flags = mcsVfsOpen fs table (some path) flags := by
  simp only [mcsVfsOpen, mcsRamfsLookup_cstr, mcsRamfsCreateFile_cstr]
  rfl

/-! ## Buffers -/

/-- What comes behind the terminator is not part of the string. -/
theorem cstr_append {s : Path} (h : 0 ∈ s) (t : Path) : cstr (s ++ t) = cstr s := by
  induction s with
  | nil => exact absurd h List.not_mem_nil
  | cons c s ih =>
      by_cases hc : c = 0
      · subst hc
        rfl
      · rcases List.mem_cons.mp h with h0 | h0
        · exact absurd h0.symm hc
        · rw [List.cons_append, cstr_cons hc, cstr_cons hc, ih h0]

/-- Buffers that agree up to a terminator hold the same string. -/
theorem cstr_buffer {f g : Nat → U8} {k n : Nat} (hk : k < n) (h0 : f k = 0)
    (h : ∀ i, i ≤ k → f i = g i) :
    cstr ((List.range n).map f) = cstr ((List.range n).map g) := by
  obtain ⟨m, rfl⟩ := Nat.exists_eq_add_of_le hk
  have hsame : (List.range (k + 1)).map f = (List.range (k + 1)).map g :=
    List.map_congr_left (fun i hi => h i (Nat.le_of_lt_succ (List.mem_range.mp hi)))
  have hmem : (0 : U8) ∈ (List.range (k + 1)).map f :=
    List.mem_map.mpr ⟨k, List.mem_range.mpr (Nat.lt_succ_self k), h0⟩
  rw [List.range_add, List.map_append, List.map_append, cstr_append hmem, hsame,
      cstr_append (hsame ▸ hmem)]

end VfsString
