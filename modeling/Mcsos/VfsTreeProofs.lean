import Mcsos.VfsModel

/-! # The node table

    `FsTree` says that the node table is a tree of directories with a name at
    each node and no name twice below one directory; `FsData` says that the
    extents of the files lie side by side in the data array.

    The uniqueness of names rests on `mcs_ramfs_create_file` looking the path
    up before it splits it: the two loops walk the path in step, so a leaf
    that splits off and is not found has no node yet (`splitLoop_ok`). -/

namespace VfsTree

open Word Loop VfsModel

/-! ## Names -/

theorem mcsStreqN_iff (a : Path) (b : Nat → U8) (n : Nat) :
    mcsStreqN a b n = true ↔ (∀ i, i < n → a.getD i 0 = b i) ∧ b n = 0 := by
  simp [mcsStreqN, List.all_eq_true]

/-- A copied name, filled up with zeros. -/
theorem mcsCopyName_apply (dst : Nat → U8) (src : Path) {n k : Nat} (hn : n < 32) (hk : k < 32) :
    mcsCopyName dst src n k = if k < n then src.getD k 0 else 0 := by
  have hmin : min n (MCS_MAX_NAME - 1) = n := by
    show min n 31 = n
    omega
  have hfill := forN_update 0 (fun _ _ => (0 : U8)) MCS_MAX_NAME dst k
  have hcopy := forN_update 0 (fun i _ => src.getD i 0) n
    (forN (fun i dst => Function.update dst (0 + i) (0 : U8)) MCS_MAX_NAME dst) k
  simp only [Nat.zero_add, Nat.zero_le, true_and, Nat.sub_zero] at hfill hcopy
  rw [mcsCopyName, hmin]
  show forN (fun i dst => Function.update dst i (src.getD i 0)) n
    (forN (fun i dst => Function.update dst i 0) MCS_MAX_NAME dst) k = _
  rw [hcopy, hfill, if_pos (show k < MCS_MAX_NAME from hk)]

/-- Neither of the two characters that end a segment. -/
theorem segLen_char (s : Path) {i : Nat} (hi : i < segLen s) :
    s.getD i 0 ≠ slash ∧ s.getD i 0 ≠ 0 := by
  induction s generalizing i with
  | nil => exact absurd hi (Nat.not_lt_zero i)
  | cons c s ih =>
      rw [segLen] at hi
      by_cases hc : c = slash ∨ c = 0
      · rw [if_pos hc] at hi
        exact absurd hi (Nat.not_lt_zero i)
      · rw [if_neg hc] at hi
        rw [not_or] at hc
        cases i with
        | zero => exact hc
        | succ i => exact ih (by omega)

/-- A NUL-padded name of 1 to 31 characters without a slash. -/
def IsName (name : Nat → U8) : Prop :=
  ∃ n, 1 ≤ n ∧ n < MCS_MAX_NAME ∧ (∀ i, i < n → name i ≠ 0 ∧ name i ≠ slash) ∧
    ∀ i, n ≤ i → i < MCS_MAX_NAME → name i = 0

theorem isName_copy (dst : Nat → U8) {leaf : Path} (h0 : segLen leaf ≠ 0)
    (hlt : segLen leaf < 32) : IsName (mcsCopyName dst leaf (segLen leaf)) := by
  refine ⟨segLen leaf, by omega, hlt, ?_, ?_⟩
  · intro i hi
    rw [mcsCopyName_apply dst leaf hlt (by omega), if_pos hi]
    exact ⟨(segLen_char leaf hi).2, (segLen_char leaf hi).1⟩
  · intro i hi hi32
    rw [mcsCopyName_apply dst leaf hlt hi32, if_neg (by omega)]

/-! ## Children -/

/-- A child that is found has the parent and the name. -/
theorem mcsFindChild_ok {fs : Ramfs} {p : U32} {name : Path} {n i : Nat}
    (h : mcsFindChild fs p name n = .ok i) :
    i < fs.nodeCount.toNat ∧ (fs.nodes i).used = true ∧ (fs.nodes i).parent = p ∧
    mcsStreqN name (fs.nodes i).name n = true := by
  rw [mcsFindChild] at h
  split at h
  · exact nomatch h
  · split at h
    · rename_i j hj
      have hji : j = i := Except.ok.inj h
      subst hji
      have hp := List.find?_some hj
      have hm := List.mem_range.mp (List.mem_of_find?_eq_some hj)
      simp only [Bool.and_eq_true, decide_eq_true_eq] at hp
      exact ⟨hm, hp.1.1, hp.1.2, hp.2⟩
    · exact nomatch h

theorem proper_len {n : Nat} (h0 : n ≠ 0) (hn : n < 32) : ¬ (n = 0 ∨ n ≥ MCS_MAX_NAME) := by
  rintro (h | h)
  · exact h0 h
  · exact absurd hn (Nat.not_lt.mpr h)

/-- A search that fails for a proper name has ruled out every node. -/
theorem mcsFindChild_error {fs : Ramfs} {p : U32} {name : Path} {n : Nat} {e : VfsErr}
    (h0 : n ≠ 0) (hn : n < 32) (h : mcsFindChild fs p name n = .error e) :
    e = .enoent ∧ ∀ i, i < fs.nodeCount.toNat → (fs.nodes i).used = true →
      (fs.nodes i).parent = p → mcsStreqN name (fs.nodes i).name n = false := by
  rw [mcsFindChild, if_neg (proper_len h0 hn)] at h
  split at h
  · exact nomatch h
  · rename_i hnone
    refine ⟨(Except.error.inj h).symm, ?_⟩
    intro i hi hu hpar
    have hno := List.find?_eq_none.mp hnone i (List.mem_range.mpr hi)
    rw [hu, hpar] at hno
    simpa using hno

/-! ## Walking a path -/

/-- Going on behind a slash leaves less of the path. -/
private theorem rest_length {seg : Path} (h : deref (seg.drop (segLen seg)) ≠ 0) :
    ((seg.drop (segLen seg)).drop 1).length < seg.length := by
  have hne : seg.drop (segLen seg) ≠ [] := by
    intro hnil
    rw [hnil] at h
    exact h rfl
  have hpos := List.length_pos_of_ne_nil hne
  rw [List.length_drop] at hpos ⊢
  rw [List.length_drop]
  omega

/-- **ENOUGH ROUNDS**: the bound on the rounds of a lookup is never reached. -/
theorem lookupLoop_rounds {fs : Ramfs} :
    ∀ (r r' cur : Nat) (seg : Path), seg.length < r → seg.length < r' →
      lookupLoop fs r cur seg = lookupLoop fs r' cur seg := by
  intro r
  induction r with
  | zero => intro r' cur seg hr _; exact absurd hr (Nat.not_lt_zero _)
  | succ r ih =>
      intro r' cur seg hr hr'
      cases r' with
      | zero => exact absurd hr' (Nat.not_lt_zero _)
      | succ r' =>
          rw [lookupLoop, lookupLoop]
          by_cases hend : deref (seg.drop (segLen seg)) = 0
          · simp only [if_pos hend]
          · have hrest := rest_length hend
            have hnext : ∀ c, lookupLoop fs r c ((seg.drop (segLen seg)).drop 1)
                = lookupLoop fs r' c ((seg.drop (segLen seg)).drop 1) :=
              fun c => ih r' c _ (by omega) (by omega)
            simp only [if_neg hend, hnext]

/-- More rounds than the path has characters do not change a split. -/
theorem splitLoop_rounds {fs : Ramfs} :
    ∀ (r r' cur : Nat) (seg : Path), seg.length < r → seg.length < r' →
      splitLoop fs r cur seg = splitLoop fs r' cur seg := by
  intro r
  induction r with
  | zero => intro r' cur seg hr _; exact absurd hr (Nat.not_lt_zero _)
  | succ r ih =>
      intro r' cur seg hr hr'
      cases r' with
      | zero => exact absurd hr' (Nat.not_lt_zero _)
      | succ r' =>
          rw [splitLoop, splitLoop]
          by_cases hend : deref (seg.drop (segLen seg)) = 0
          · simp only [if_pos hend]
          · have hrest := rest_length hend
            have hnext : ∀ c, splitLoop fs r c ((seg.drop (segLen seg)).drop 1)
                = splitLoop fs r' c ((seg.drop (segLen seg)).drop 1) :=
              fun c => ih r' c _ (by omega) (by omega)
            simp only [if_neg hend, hnext]

/-- **IN STEP**: when the path splits into a directory and a leaf, the lookup
    loop ends by searching that directory for that leaf. -/
theorem splitLoop_ok {fs : Ramfs} {p n : Nat} {leaf : Path} :
    ∀ (rounds cur : Nat) (seg : Path), cur < fs.nodeCount.toNat →
      (fs.nodes cur).type = .dir → splitLoop fs rounds cur seg = .ok (p, leaf, n) →
      p < fs.nodeCount.toNat ∧ (fs.nodes p).type = .dir ∧ n = segLen leaf ∧ n ≠ 0 ∧ n < 32 ∧
      lookupLoop fs rounds cur seg = mcsFindChild fs (fs.nodes p).id leaf n := by
  intro rounds
  induction rounds with
  | zero => intro cur seg _ _ h; exact nomatch h
  | succ rounds ih =>
      intro cur seg hcur hdir h
      rw [splitLoop] at h
      by_cases hlen : segLen seg = 0 ∨ segLen seg ≥ MCS_MAX_NAME
      · simp only [if_pos hlen] at h
        exact nomatch h
      have hseg : deref seg ≠ 0 := by
        have hpos : 0 < segLen seg := by omega
        have hchar := (segLen_char seg hpos).2
        cases seg with
        | nil => exact absurd hpos (Nat.lt_irrefl 0)
        | cons c s => exact hchar
      have hlt : segLen seg < 32 := by
        have h32 : ¬ segLen seg ≥ 32 := fun hge => hlen (Or.inr hge)
        omega
      rw [lookupLoop]
      simp only [if_neg hlen, if_neg hseg] at h ⊢
      by_cases hend : deref (seg.drop (segLen seg)) = 0
      · -- the last segment: the loops part here
        rw [if_pos hend] at h
        have h' := Except.ok.inj h
        simp only [Prod.mk.injEq] at h'
        obtain ⟨rfl, rfl, rfl⟩ := h'
        refine ⟨hcur, hdir, rfl, by omega, hlt, ?_⟩
        cases mcsFindChild fs (fs.nodes cur).id seg (segLen seg) with
        | error rc => rfl
        | ok i => exact if_pos hend
      · rw [if_neg hend] at h
        cases hfind : mcsFindChild fs (fs.nodes cur).id seg (segLen seg) with
        | error rc =>
            rw [hfind] at h
            exact nomatch h
        | ok i =>
            rw [hfind] at h
            simp only at h ⊢
            by_cases hi : (fs.nodes i).type ≠ .dir
            · rw [if_pos hi] at h
              exact nomatch h
            · rw [if_neg hi] at h
              rw [if_neg hend, if_neg hi]
              exact ih i _ (mcsFindChild_ok hfind).1 (not_not.mp hi) h

/-- The walk ends at a node. -/
theorem lookupLoop_lt {fs : Ramfs} {n : Nat} :
    ∀ (rounds cur : Nat) (seg : Path), lookupLoop fs rounds cur seg = .ok n →
      n < fs.nodeCount.toNat := by
  intro rounds
  induction rounds with
  | zero => intro cur seg h; exact nomatch h
  | succ rounds ih =>
      intro cur seg h
      rw [lookupLoop] at h
      by_cases hseg : deref seg = 0
      · rw [if_pos hseg] at h
        exact nomatch h
      by_cases hlen : segLen seg = 0 ∨ segLen seg ≥ MCS_MAX_NAME
      · simp only [if_neg hseg, if_pos hlen] at h
        exact nomatch h
      simp only [if_neg hseg, if_neg hlen] at h
      cases hfind : mcsFindChild fs (fs.nodes cur).id seg (segLen seg) with
      | error rc =>
          rw [hfind] at h
          exact nomatch h
      | ok i =>
          rw [hfind] at h
          simp only at h
          by_cases hend : deref (seg.drop (segLen seg)) = 0
          · rw [if_pos hend] at h
            rw [← Except.ok.inj h]
            exact (mcsFindChild_ok hfind).1
          · rw [if_neg hend] at h
            split at h
            · exact nomatch h
            · exact ih i _ h

/-! ## The invariant -/

/-- **TREE**: the node table, up to `node_count`. -/
structure FsTree (fs : Ramfs) : Prop where
  pos : 0 < fs.nodeCount.toNat
  bound : fs.nodeCount.toNat ≤ MCS_MAX_NODES
  root : (fs.nodes 0).type = .dir
  used : ∀ i, i < fs.nodeCount.toNat → (fs.nodes i).used = true
  id : ∀ i, i < fs.nodeCount.toNat → (fs.nodes i).id = BitVec.ofNat 32 i
  parent : ∀ i, i < fs.nodeCount.toNat →
    (fs.nodes i).parent.toNat < fs.nodeCount.toNat ∧
    (fs.nodes (fs.nodes i).parent.toNat).type = .dir
  name : ∀ i, 0 < i → i < fs.nodeCount.toNat → IsName (fs.nodes i).name
  unique : ∀ i j, 0 < i → i < fs.nodeCount.toNat → 0 < j → j < fs.nodeCount.toNat → i ≠ j →
    (fs.nodes i).parent = (fs.nodes j).parent →
    ∃ k, k < MCS_MAX_NAME ∧ (fs.nodes i).name k ≠ (fs.nodes j).name k

/-- A node that holds data. -/
def IsFile (fs : Ramfs) (i : Nat) : Prop :=
  i < fs.nodeCount.toNat ∧ (fs.nodes i).type = .file

/-! ### Lookup and split of a whole path -/

/-- A lookup ends at a node. -/
theorem mcsRamfsLookup_lt {fs : Ramfs} (h : FsTree fs) {path : Option Path} {i : Nat}
    (hi : mcsRamfsLookup fs path = .ok i) : i < fs.nodeCount.toNat := by
  cases path with
  | none => exact nomatch hi
  | some path =>
      rw [mcsRamfsLookup] at hi
      split at hi
      · exact nomatch hi
      · split at hi
        · exact nomatch hi
        · split at hi
          · rw [← Except.ok.inj hi]
            exact h.pos
          · exact lookupLoop_lt _ _ _ hi

/-- The parent is a directory, and the lookup ends with the search for the leaf in it. -/
theorem mcsSplitParentLeaf_ok {fs : Ramfs} (h : FsTree fs) {path : Option Path} {p n : Nat}
    {leaf : Path} (hs : mcsSplitParentLeaf fs path = .ok (p, leaf, n)) :
    p < fs.nodeCount.toNat ∧ (fs.nodes p).type = .dir ∧ n = segLen leaf ∧ n ≠ 0 ∧ n < 32 ∧
    mcsRamfsLookup fs path = mcsFindChild fs (fs.nodes p).id leaf n := by
  cases path with
  | none => exact nomatch hs
  | some path =>
      rw [mcsSplitParentLeaf] at hs
      rw [mcsRamfsLookup]
      split at hs
      · exact nomatch hs
      · rename_i habs
        split at hs
        · exact nomatch hs
        · rename_i hroot
          split at hs
          · exact nomatch hs
          · rename_i hlong
            rw [if_neg habs, if_neg hlong, if_neg hroot]
            exact splitLoop_ok _ 0 _ h.pos h.root hs

/-- The end of a file's extent in the data array. -/
def extentEnd (fs : Ramfs) (i : Nat) : Nat :=
  (fs.nodes i).dataOffset.toNat + (fs.nodes i).dataCapacity.toNat

/-- **EXTENTS**: every file has its own piece of the data array. -/
structure FsData (fs : Ramfs) : Prop where
  size : ∀ i, IsFile fs i → (fs.nodes i).size ≤ (fs.nodes i).dataCapacity
  extent : ∀ i, IsFile fs i → extentEnd fs i ≤ fs.dataUsed.toNat
  apart : ∀ i j, IsFile fs i → IsFile fs j → i ≠ j →
    extentEnd fs i ≤ (fs.nodes j).dataOffset.toNat ∨
    extentEnd fs j ≤ (fs.nodes i).dataOffset.toNat
  bound : fs.dataUsed.toNat ≤ MCS_RAMFS_DATA_BYTES

/-- The state of the ramfs alone. -/
structure FsInv (fs : Ramfs) : Prop where
  tree : FsTree fs
  data : FsData fs

/-! ## A new file -/

/-- The ramfs with one more file below directory `p`, named by the segment
    `leaf`, with the next 256 bytes as its extent. -/
def addFile (fs : Ramfs) (p : Nat) (leaf : Path) : Ramfs :=
  { fs with
    nodes := Function.update fs.nodes fs.nodeCount.toNat
      { used := true
        id := fs.nodeCount.setWidth 32
        parent := (fs.nodes p).id
        type := .file
        name := mcsCopyName (fs.nodes fs.nodeCount.toNat).name leaf (segLen leaf)
        size := 0
        dataOffset := fs.dataUsed
        dataCapacity := 256 }
    nodeCount := fs.nodeCount + 1
    dataUsed := fs.dataUsed + 256 }

theorem addFile_node {fs : Ramfs} {p i : Nat} {leaf : Path} (hi : i < fs.nodeCount.toNat) :
    (addFile fs p leaf).nodes i = fs.nodes i :=
  Function.update_of_ne (Nat.ne_of_lt hi) _ _

/-- What `mcs_ramfs_create_file` has checked when it adds a file. -/
structure CanAdd (fs : Ramfs) (p : Nat) (leaf : Path) : Prop where
  parent : p < fs.nodeCount.toNat
  dir : (fs.nodes p).type = .dir
  nonempty : segLen leaf ≠ 0
  short : segLen leaf < 32
  room : fs.nodeCount.toNat < MCS_MAX_NODES
  space : (fs.dataUsed + 256).toNat ≤ MCS_RAMFS_DATA_BYTES
  new : ∀ i, i < fs.nodeCount.toNat → (fs.nodes i).parent = (fs.nodes p).id →
    mcsStreqN leaf (fs.nodes i).name (segLen leaf) = false

/-- A path that names no node yet, below a directory, with room for a file. -/
structure Creates (fs : Ramfs) (path : Option Path) (p : Nat) (leaf : Path) : Prop where
  missing : ∃ e, mcsRamfsLookup fs path = .error e
  split : mcsSplitParentLeaf fs path = .ok (p, leaf, segLen leaf)
  room : fs.nodeCount.toNat < MCS_MAX_NODES
  space : (fs.dataUsed + 256).toNat ≤ MCS_RAMFS_DATA_BYTES

theorem Creates.path_some {fs : Ramfs} {path : Option Path} {p : Nat} {leaf : Path}
    (hc : Creates fs path p leaf) : ¬ path.isNone = true := by
  intro hnone
  obtain rfl := Option.isNone_iff_eq_none.mp hnone
  exact nomatch hc.split

/-- A path that can be created has a place for its file. -/
theorem Creates.canAdd {fs : Ramfs} (h : FsTree fs) {path : Option Path} {p : Nat} {leaf : Path}
    (hc : Creates fs path p leaf) : CanAdd fs p leaf := by
  obtain ⟨hp, hdir, -, h0, hlt, hstep⟩ := mcsSplitParentLeaf_ok h hc.split
  obtain ⟨e, hlook⟩ := hc.missing
  rw [hlook] at hstep
  obtain ⟨-, hnone⟩ := mcsFindChild_error h0 hlt hstep.symm
  exact ⟨hp, hdir, h0, hlt, hc.room, hc.space,
    fun i hi hpar => hnone i hi (h.used i hi) hpar⟩

/-- A path that can be created is created at that place. -/
theorem Creates.createFile {fs : Ramfs} (h : FsTree fs) {path : Option Path} {p : Nat}
    {leaf : Path} (hc : Creates fs path p leaf) :
    mcsRamfsCreateFile fs path = (.ok fs.nodeCount.toNat, addFile fs p leaf) := by
  have hadd := hc.canAdd h
  obtain ⟨e, hlook⟩ := hc.missing
  rw [mcsRamfsCreateFile, if_neg hc.path_some, hlook]
  simp only [hc.split, if_neg (not_not_intro hadd.dir)]
  rw [mcsAllocNode, if_neg (proper_len hadd.nonempty hadd.short),
    if_neg (Nat.not_le.mpr hadd.room), if_neg (fun hs => Nat.not_lt.mpr hadd.space hs.2)]
  rfl

/-- **CREATE**: fails without a trace, finds a file, or adds one where there
    was room and no child of that name. -/
theorem mcsRamfsCreateFile_cases {fs : Ramfs} (h : FsTree fs) (path : Option Path) :
    (∃ e, mcsRamfsCreateFile fs path = (.error e, fs)) ∨
    (∃ i, mcsRamfsLookup fs path = .ok i ∧ IsFile fs i ∧
      mcsRamfsCreateFile fs path = (.ok i, fs)) ∨
    (∃ p leaf, Creates fs path p leaf ∧
      mcsRamfsCreateFile fs path = (.ok fs.nodeCount.toNat, addFile fs p leaf)) := by
  cases path with
  | none => exact Or.inl ⟨.einval, rfl⟩
  | some path =>
      cases hlook : mcsRamfsLookup fs (some path) with
      | ok i =>
          have hi : i < fs.nodeCount.toNat := mcsRamfsLookup_lt h hlook
          rw [mcsRamfsCreateFile, hlook]
          by_cases hfile : (fs.nodes i).type ≠ .file
          · exact Or.inl ⟨.eisdir, if_pos hfile⟩
          · exact Or.inr (Or.inl ⟨i, rfl, ⟨hi, not_not.mp hfile⟩, if_neg hfile⟩)
      | error e =>
          cases hsplit : mcsSplitParentLeaf fs (some path) with
          | error rc =>
              rw [mcsRamfsCreateFile, hlook]
              simp only [hsplit]
              exact Or.inl ⟨rc, rfl⟩
          | ok r =>
              obtain ⟨p, leaf, n⟩ := r
              obtain ⟨-, hdir, rfl, h0, hlt, -⟩ := mcsSplitParentLeaf_ok h hsplit
              by_cases hroom : fs.nodeCount.toNat < MCS_MAX_NODES ∧
                  (fs.dataUsed + 256).toNat ≤ MCS_RAMFS_DATA_BYTES
              · have hc : Creates fs (some path) p leaf := ⟨⟨e, hlook⟩, hsplit, hroom.1, hroom.2⟩
                exact Or.inr (Or.inr ⟨p, leaf, hc, hc.createFile h⟩)
              rw [mcsRamfsCreateFile, hlook]
              simp only [Option.isNone_some, Bool.false_eq_true, if_false, hsplit,
                if_neg (not_not_intro hdir)]
              rw [mcsAllocNode, if_neg (proper_len h0 hlt)]
              by_cases hfull : fs.nodeCount.toNat ≥ MCS_MAX_NODES
              · exact Or.inl ⟨.enospc, if_pos hfull⟩
              · have hspace : (fs.dataUsed + 256).toNat > MCS_RAMFS_DATA_BYTES :=
                  Nat.not_le.mp (fun hs => hroom ⟨Nat.not_le.mp hfull, hs⟩)
                refine Or.inl ⟨.enospc, ?_⟩
                rw [if_neg hfull, if_pos ⟨rfl, hspace⟩]

theorem CanAdd.count {fs : Ramfs} {p : Nat} {leaf : Path} (h : CanAdd fs p leaf) :
    (addFile fs p leaf).nodeCount.toNat = fs.nodeCount.toNat + 1 := by
  have hroom : fs.nodeCount.toNat < 64 := h.room
  show (fs.nodeCount + 1).toNat = _
  bv_omega

/-- A node of the larger table is an old one or the new one. -/
theorem CanAdd.node_cases {fs : Ramfs} {p i : Nat} {leaf : Path} (h : CanAdd fs p leaf)
    (hi : i < (addFile fs p leaf).nodeCount.toNat) :
    (i < fs.nodeCount.toNat ∧ (addFile fs p leaf).nodes i = fs.nodes i) ∨
    i = fs.nodeCount.toNat := by
  rw [h.count] at hi
  by_cases hold : i < fs.nodeCount.toNat
  · exact Or.inl ⟨hold, addFile_node hold⟩
  · exact Or.inr (by omega)

/-- The new file is empty, with its extent behind the others. -/
theorem addFile_new (fs : Ramfs) (p : Nat) (leaf : Path) :
    (addFile fs p leaf).nodes fs.nodeCount.toNat =
      { used := true
        id := fs.nodeCount.setWidth 32
        parent := (fs.nodes p).id
        type := .file
        name := mcsCopyName (fs.nodes fs.nodeCount.toNat).name leaf (segLen leaf)
        size := 0
        dataOffset := fs.dataUsed
        dataCapacity := 256 } :=
  Function.update_self ..

/-- The new name is none of its siblings'. -/
theorem CanAdd.name_ne {fs : Ramfs} {p j : Nat} {leaf : Path} (h : CanAdd fs p leaf)
    (hj : j < fs.nodeCount.toNat) (hpar : (fs.nodes j).parent = (fs.nodes p).id)
    (dst : Nat → U8) :
    ∃ k, k < MCS_MAX_NAME ∧
      mcsCopyName dst leaf (segLen leaf) k ≠ (fs.nodes j).name k := by
  by_contra hsame
  have heq : ∀ k, k < 32 → mcsCopyName dst leaf (segLen leaf) k = (fs.nodes j).name k :=
    fun k hk => not_not.mp (fun hne => hsame ⟨k, hk, hne⟩)
  have hstreq : mcsStreqN leaf (fs.nodes j).name (segLen leaf) = true := by
    refine (mcsStreqN_iff ..).mpr ⟨?_, ?_⟩
    · intro i hi
      rw [← heq i (Nat.lt_trans hi h.short), mcsCopyName_apply dst leaf h.short
        (Nat.lt_trans hi h.short), if_pos hi]
    · rw [← heq _ h.short, mcsCopyName_apply dst leaf h.short h.short,
          if_neg (Nat.lt_irrefl _)]
  rw [h.new j hj hpar] at hstreq
  exact absurd hstreq Bool.false_ne_true

/-- **ADD KEEPS THE TREE**: with room for a node and a name that its directory does not have,
    the new node is in the tree, and the names of siblings stay different. -/
theorem FsTree.addFile {fs : Ramfs} (hT : FsTree fs) {p : Nat} {leaf : Path}
    (h : CanAdd fs p leaf) : FsTree (addFile fs p leaf) := by
  have hroom : fs.nodeCount.toNat < 64 := h.room
  have hidp : (fs.nodes p).id.toNat = p := by
    have hp := h.parent
    rw [hT.id p hp, BitVec.toNat_ofNat, Nat.mod_eq_of_lt (by omega)]
  refine ⟨?_, ?_, ?_, ?_, ?_, ?_, ?_, ?_⟩
  · rw [h.count]
    omega
  · rw [h.count]
    exact hroom
  · rw [addFile_node hT.pos]
    exact hT.root
  · intro i hi
    rcases h.node_cases hi with ⟨hold, hnode⟩ | rfl
    · rw [hnode]
      exact hT.used i hold
    · rw [addFile_new]
  · intro i hi
    rcases h.node_cases hi with ⟨hold, hnode⟩ | rfl
    · rw [hnode]
      exact hT.id i hold
    · rw [addFile_new]
      exact BitVec.eq_of_toNat_eq (by simp)
  · intro i hi
    rw [h.count]
    rcases h.node_cases hi with ⟨hold, hnode⟩ | rfl
    · obtain ⟨hlt, hdir⟩ := hT.parent i hold
      rw [hnode, addFile_node hlt]
      exact ⟨by omega, hdir⟩
    · rw [addFile_new]
      simp only [hidp]
      rw [addFile_node h.parent]
      exact ⟨Nat.lt_succ_of_lt h.parent, h.dir⟩
  · intro i h0 hi
    rcases h.node_cases hi with ⟨hold, hnode⟩ | rfl
    · rw [hnode]
      exact hT.name i h0 hold
    · rw [addFile_new]
      exact isName_copy _ h.nonempty h.short
  · -- siblings: a name clash with the new node is what the lookup ruled out
    intro i j hi0 hi hj0 hj hne hpar
    rcases h.node_cases hi with ⟨hiold, hinode⟩ | rfl
    · rcases h.node_cases hj with ⟨hjold, hjnode⟩ | rfl
      · rw [hinode, hjnode] at hpar ⊢
        exact hT.unique i j hi0 hiold hj0 hjold hne hpar
      · rw [hinode, addFile_new] at hpar ⊢
        obtain ⟨k, hk, hkne⟩ := h.name_ne hiold hpar (fs.nodes fs.nodeCount.toNat).name
        exact ⟨k, hk, hkne.symm⟩
    · rcases h.node_cases hj with ⟨hjold, hjnode⟩ | rfl
      · rw [hjnode, addFile_new] at hpar ⊢
        exact h.name_ne hjold hpar.symm _
      · exact absurd rfl hne

/-- **ADD KEEPS THE EXTENTS**: the new file gets the next 256 bytes of the array, which no
    other file has. -/
theorem FsData.addFile {fs : Ramfs} (hD : FsData fs) {p : Nat} {leaf : Path}
    (h : CanAdd fs p leaf) : FsData (addFile fs p leaf) := by
  have hused : (VfsTree.addFile fs p leaf).dataUsed.toNat = fs.dataUsed.toNat + 256 := by
    have hb : fs.dataUsed.toNat ≤ 8192 := hD.bound
    show (fs.dataUsed + 256).toNat = _
    bv_omega
  have hcases : ∀ i, IsFile (VfsTree.addFile fs p leaf) i →
      (IsFile fs i ∧ (VfsTree.addFile fs p leaf).nodes i = fs.nodes i) ∨
      i = fs.nodeCount.toNat := by
    rintro i ⟨hi, hfile⟩
    rcases h.node_cases hi with ⟨hold, hnode⟩ | heq
    · rw [hnode] at hfile
      exact Or.inl ⟨⟨hold, hfile⟩, hnode⟩
    · exact Or.inr heq
  refine ⟨?_, ?_, ?_, h.space⟩
  · intro i hi
    rcases hcases i hi with ⟨hold, hnode⟩ | rfl
    · rw [hnode]
      exact hD.size i hold
    · rw [addFile_new]
      show (0 : U64) ≤ 256
      decide
  · intro i hi
    rw [hused, extentEnd]
    rcases hcases i hi with ⟨hold, hnode⟩ | rfl
    · rw [hnode]
      exact Nat.le_trans (hD.extent i hold) (Nat.le_add_right ..)
    · rw [addFile_new]
      exact Nat.le_refl _
  · intro i j hi hj hne
    rw [extentEnd, extentEnd]
    rcases hcases i hi with ⟨hiold, hinode⟩ | rfl
    · rcases hcases j hj with ⟨hjold, hjnode⟩ | rfl
      · rw [hinode, hjnode]
        exact hD.apart i j hiold hjold hne
      · rw [hinode, addFile_new]
        exact Or.inl (hD.extent i hiold)
    · rcases hcases j hj with ⟨hjold, hjnode⟩ | rfl
      · rw [hjnode, addFile_new]
        exact Or.inr (hD.extent j hjold)
      · exact absurd rfl hne

/-! ## Contents and sizes -/

theorem FsInv.setData {fs : Ramfs} (h : FsInv fs) (data : Nat → U8) :
    FsInv { fs with data := data } :=
  ⟨⟨h.tree.pos, h.tree.bound, h.tree.root, h.tree.used, h.tree.id, h.tree.parent, h.tree.name,
    h.tree.unique⟩, ⟨h.data.size, h.data.extent, h.data.apart, h.data.bound⟩⟩

theorem setSize_node (fs : Ramfs) (n : Nat) (size : U64) (i : Nat) :
    (setSize fs n size).nodes i
      = { fs.nodes i with size := if i = n then size else (fs.nodes i).size } := by
  by_cases hi : i = n
  · subst hi
    rw [if_pos rfl]
    exact Function.update_self ..
  · rw [if_neg hi]
    exact Function.update_of_ne hi _ _

theorem setSize_size (fs : Ramfs) (n : Nat) (size : U64) (i : Nat) :
    ((setSize fs n size).nodes i).size = if i = n then size else (fs.nodes i).size := by
  rw [setSize_node]

/-- A size within the capacity keeps the invariant. -/
theorem FsInv.setSize {fs : Ramfs} (h : FsInv fs) {n : Nat} {size : U64}
    (hsize : IsFile fs n → size ≤ (fs.nodes n).dataCapacity) : FsInv (setSize fs n size) := by
  have hfile : ∀ i, IsFile (VfsModel.setSize fs n size) i → IsFile fs i := by
    rintro i ⟨hi, ht⟩
    rw [setSize_node] at ht
    exact ⟨hi, ht⟩
  refine ⟨⟨h.tree.pos, h.tree.bound, ?_, ?_, ?_, ?_, ?_, ?_⟩, ⟨?_, ?_, ?_, h.data.bound⟩⟩
  · simp only [setSize_node]
    exact h.tree.root
  · simp only [setSize_node]
    exact h.tree.used
  · simp only [setSize_node]
    exact h.tree.id
  · simp only [setSize_node]
    exact h.tree.parent
  · simp only [setSize_node]
    exact h.tree.name
  · simp only [setSize_node]
    exact h.tree.unique
  · intro i hi
    rw [setSize_node]
    by_cases hin : i = n
    · subst hin
      simp only
      exact hsize (hfile i hi)
    · simp only [if_neg hin]
      exact h.data.size i (hfile i hi)
  · intro i hi
    rw [extentEnd, setSize_node]
    exact h.data.extent i (hfile i hi)
  · intro i j hi hj hne
    rw [extentEnd, extentEnd, setSize_node, setSize_node]
    exact h.data.apart i j (hfile i hi) (hfile j hj) hne

/-- **CREATE KEEPS THE INVARIANT**, and no node goes away. -/
theorem FsInv.createFile {fs : Ramfs} (h : FsInv fs) (path : Option Path) :
    FsInv (mcsRamfsCreateFile fs path).2 ∧
    fs.nodeCount.toNat ≤ (mcsRamfsCreateFile fs path).2.nodeCount.toNat ∧
    ∀ i, (mcsRamfsCreateFile fs path).1 = .ok i → IsFile (mcsRamfsCreateFile fs path).2 i := by
  rcases mcsRamfsCreateFile_cases h.tree path with
    ⟨e, heq⟩ | ⟨i, -, hi, heq⟩ | ⟨p, leaf, hnew, heq⟩
  · rw [heq]
    exact ⟨h, Nat.le_refl _, fun _ hi => nomatch hi⟩
  · rw [heq]
    refine ⟨h, Nat.le_refl _, ?_⟩
    intro j hj
    rw [← Except.ok.inj hj]
    exact hi
  · have hadd := hnew.canAdd h.tree
    rw [heq]
    refine ⟨⟨h.tree.addFile hadd, h.data.addFile hadd⟩, ?_, ?_⟩
    · rw [hadd.count]
      omega
    · intro j hj
      rw [← Except.ok.inj hj]
      refine ⟨?_, ?_⟩
      · rw [hadd.count]
        exact Nat.lt_succ_self _
      · rw [addFile_new]

end VfsTree
