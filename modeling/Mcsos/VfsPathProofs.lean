import Mathlib.Data.List.TakeWhile
import Mcsos.VfsStringProofs

/-! # What a path means

    An absolute path is `/`, or spells a list of segments: `/s1/s2/…/sk`.  In a
    well-formed node table the segments lead from the root from directory to
    child (`Chain`), and `mcs_ramfs_lookup` follows exactly these chains
    (`lookup_resolves_iff`).

    Both loops over a path, that of the lookup and that of the split, are
    compared with chains, and with each other only where they refuse a path
    (`mcsSplitParentLeaf_error`). -/

namespace VfsPath

open Word Loop VfsModel VfsTree VfsString

variable {fs : Ramfs} {d i j n : Nat} {s : Path} {segs : List Path}

/-! ## Well-formed tables -/

/-- The node table is a tree, and its root is named `/`, as `mcs_ramfs_init`
    leaves it: the root is no child of any directory. -/
structure WellFormed (fs : Ramfs) : Prop where
  tree : FsTree fs
  rootName : (fs.nodes 0).name 0 = slash

/-- A segment of a path. -/
structure IsSegment (s : Path) : Prop where
  nonempty : s.length ≠ 0
  short : s.length < MCS_MAX_NAME
  chars : ∀ c ∈ s, c ≠ slash ∧ c ≠ 0

/-- The segment names node `i`, a child of `d`. -/
structure Names (fs : Ramfs) (d : Nat) (s : Path) (i : Nat) : Prop where
  notRoot : 0 < i
  bound : i < fs.nodeCount.toNat
  parent : (fs.nodes i).parent.toNat = d
  name : ∀ k, k < MCS_MAX_NAME → (fs.nodes i).name k = s.getD k 0

/-- Each segment names a child of the node before it, which is a directory. -/
inductive Chain (fs : Ramfs) : Nat → List Path → Nat → Prop
  | here (d : Nat) : Chain fs d [] d
  | child {d i n : Nat} {s : Path} {segs : List Path} (hdir : (fs.nodes d).type = .dir)
      (hnames : Names fs d s i) (hrest : Chain fs i segs n) : Chain fs d (s :: segs) n

/-- A directory has at most one child of a name. -/
theorem Names.unique (h : FsTree fs) (hi : Names fs d s i) (hj : Names fs d s j) : i = j := by
  by_contra hne
  have hpar : (fs.nodes i).parent = (fs.nodes j).parent :=
    BitVec.eq_of_toNat_eq (by rw [hi.parent, hj.parent])
  obtain ⟨k, hk, hdiff⟩ := h.unique i j hi.notRoot hi.bound hj.notRoot hj.bound hne hpar
  exact hdiff (by rw [hi.name k hk, hj.name k hk])

theorem getD_mem {k : Nat} (hk : k < s.length) : s.getD k 0 ∈ s := by
  rw [List.getD_eq_getElem s 0 hk]
  exact List.getElem_mem hk

/-- A segment is determined by the padded name. -/
theorem IsSegment.ext {t : Path} (hs : IsSegment s) (ht : IsSegment t)
    (h : ∀ k, k < MCS_MAX_NAME → s.getD k 0 = t.getD k 0) : s = t := by
  -- the shorter one reads NUL where the longer one has a character
  have hle : ∀ {s t : Path}, IsSegment s → IsSegment t →
      (∀ k, k < MCS_MAX_NAME → s.getD k 0 = t.getD k 0) → s.length ≤ t.length := by
    intro s t hs ht h
    by_contra hlt
    have hchar := (hs.chars _ (getD_mem (show t.length < s.length by omega))).2
    rw [h _ ht.short, List.getD_eq_default _ _ (Nat.le_refl _)] at hchar
    exact hchar rfl
  have hlen : s.length = t.length :=
    Nat.le_antisymm (hle hs ht h) (hle ht hs (fun k hk => (h k hk).symm))
  refine List.ext_getElem hlen (fun k hk hk' => ?_)
  have hsame := h k (Nat.lt_trans hk hs.short)
  rwa [List.getD_eq_getElem s 0 hk, List.getD_eq_getElem t 0 hk'] at hsame

/-- A node has at most one name and one parent. -/
theorem Names.inj {d' : Nat} {t : Path} (hs : IsSegment s) (ht : IsSegment t)
    (h : Names fs d s i) (h' : Names fs d' t i) : d = d' ∧ s = t :=
  ⟨h.parent.symm.trans h'.parent,
   hs.ext ht (fun k hk => (h.name k hk).symm.trans (h'.name k hk))⟩

/-! ## The child of a name -/

/-- The id of a node is its index. -/
theorem id_toNat (h : FsTree fs) (hd : d < fs.nodeCount.toNat) : (fs.nodes d).id.toNat = d := by
  have hbound : fs.nodeCount.toNat ≤ 64 := h.bound
  rw [h.id d hd, BitVec.toNat_ofNat, Nat.mod_eq_of_lt (by omega)]

/-- A name that agrees with a segment and then ends is the padded segment. -/
theorem padded_of_streq {name : Nat → U8} (hname : IsName name)
    (heq : ∀ k, k < s.length → s.getD k 0 = name k) (hend : name s.length = 0) :
    ∀ k, k < MCS_MAX_NAME → name k = s.getD k 0 := by
  intro k hk
  obtain ⟨len, -, -, hchars, hpad⟩ := hname
  by_cases hks : k < s.length
  · exact (heq k hks).symm
  · have hlen : len ≤ s.length := by
      by_contra hlt
      exact (hchars s.length (by omega)).1 hend
    rw [hpad k (by omega) hk, List.getD_eq_default _ _ (by omega)]

/-- What `mcs_streq_n` compares: the first characters, and that the name ends there. -/
theorem streqN_take {buf : Path} {m : Nat} (hm : m ≤ buf.length) (name : Nat → U8) :
    mcsStreqN buf name m = true ↔
      (∀ k, k < (buf.take m).length → (buf.take m).getD k 0 = name k) ∧
        name (buf.take m).length = 0 := by
  have hlen : (buf.take m).length = m := List.length_take_of_le hm
  rw [mcsStreqN_iff, hlen]
  refine and_congr_left (fun _ => forall₂_congr (fun k hk => ?_))
  rw [List.getD_eq_getElem _ _ (by omega), List.getD_eq_getElem _ _ (by omega),
    List.getElem_take]

/-- **CHILD**: `mcs_find_child` finds the child that the segment names. -/
theorem mcsFindChild_iff (h : WellFormed fs) (hd : d < fs.nodeCount.toNat) {buf : Path} {m : Nat}
    (hm : m ≤ buf.length) (hs : IsSegment (buf.take m)) :
    mcsFindChild fs (fs.nodes d).id buf m = .ok i ↔ Names fs d (buf.take m) i := by
  have hlen : (buf.take m).length = m := List.length_take_of_le hm
  -- names are unique in a directory, so finding one is finding that one
  have hok : ∀ j, mcsFindChild fs (fs.nodes d).id buf m = .ok j → Names fs d (buf.take m) j := by
    intro j hj
    obtain ⟨hbound, -, hpar, hstreq⟩ := mcsFindChild_ok hj
    obtain ⟨heq, hend⟩ := (streqN_take hm _).mp hstreq
    have hnotRoot : 0 < j := by
      rw [Nat.pos_iff_ne_zero]
      rintro rfl
      have hpos : 0 < (buf.take m).length := Nat.pos_of_ne_zero hs.nonempty
      have hfirst := (hs.chars _ (getD_mem hpos)).1
      rw [heq 0 hpos, h.rootName] at hfirst
      exact hfirst rfl
    refine ⟨hnotRoot, hbound, by rw [hpar, id_toNat h.tree hd], ?_⟩
    exact padded_of_streq (h.tree.name j hnotRoot hbound) heq hend
  constructor
  · exact hok i
  · intro hnames
    have h0 : m ≠ 0 := by
      rw [← hlen]
      exact hs.nonempty
    have hlt : m < 32 := by
      rw [← hlen]
      exact hs.short
    cases hfind : mcsFindChild fs (fs.nodes d).id buf m with
    | ok j => rw [(hok j hfind).unique h.tree hnames]
    | error e =>
        have hpar : (fs.nodes i).parent = (fs.nodes d).id :=
          BitVec.eq_of_toNat_eq (by rw [hnames.parent, id_toNat h.tree hd])
        have hno := (mcsFindChild_error h0 hlt hfind).2 i hnames.bound
          (h.tree.used i hnames.bound) hpar
        have hyes : mcsStreqN buf (fs.nodes i).name m = true := by
          refine (streqN_take hm _).mpr ⟨fun k hk => ?_, ?_⟩
          · exact (hnames.name k (Nat.lt_trans hk hs.short)).symm
          · rw [hnames.name _ hs.short, List.getD_eq_default _ _ (Nat.le_refl _)]
        rw [hno] at hyes
        cases hyes

/-! ## Strings and segments -/

/-- `/s1/s2/…/sk`. -/
def spelled (segs : List Path) : Path := segs.flatMap (slash :: ·)

theorem spelled_cons (s : Path) (segs : List Path) :
    spelled (s :: segs) = slash :: (s ++ spelled segs) := rfl

theorem spelled_append (segs segs' : List Path) :
    spelled (segs ++ segs') = spelled segs ++ spelled segs' := List.flatMap_append

theorem deref_slash (rest : Path) : deref (slash :: rest) ≠ 0 := by
  show slash ≠ 0
  decide

/-- A segment runs up to the next slash. -/
theorem segLen_spelled (hs : ∀ c ∈ s, c ≠ slash ∧ c ≠ 0) (segs : List Path) :
    segLen (s ++ spelled segs) = s.length := by
  induction s with
  | nil =>
      cases segs with
      | nil => rfl
      | cons t segs => rfl
  | cons c s ih =>
      obtain ⟨hslash, hnul⟩ := hs c List.mem_cons_self
      rw [List.cons_append, segLen, if_neg (fun h => h.elim hslash hnul),
        ih (fun c hc => hs c (List.mem_cons_of_mem _ hc))]
      rfl

/-- What is behind a segment: nothing, or a slash. -/
theorem drop_segLen (buf : Path) (hnul : ∀ c ∈ buf, c ≠ 0) :
    buf.drop (segLen buf) = [] ∨ ∃ rest, buf.drop (segLen buf) = slash :: rest := by
  induction buf with
  | nil => exact Or.inl rfl
  | cons c buf ih =>
      rw [segLen]
      by_cases hc : c = slash ∨ c = 0
      · rw [if_pos hc]
        rcases hc with rfl | rfl
        · exact Or.inr ⟨buf, rfl⟩
        · exact absurd rfl (hnul 0 List.mem_cons_self)
      · rw [if_neg hc]
        exact ih (fun c hc => hnul c (List.mem_cons_of_mem _ hc))

/-- A segment ends with the string at the latest. -/
theorem segLen_le (buf : Path) : segLen buf ≤ buf.length := by
  induction buf with
  | nil => exact Nat.le_refl 0
  | cons c buf ih =>
      rw [segLen, List.length_cons]
      split
      · omega
      · omega

/-- A segment has no slash in it. -/
theorem take_segLen_chars (buf : Path) : ∀ c ∈ buf.take (segLen buf), c ≠ slash ∧ c ≠ 0 := by
  intro c hc
  obtain ⟨k, hk, rfl⟩ := List.mem_iff_getElem.mp hc
  have hk' : k < segLen buf := by
    rw [List.length_take] at hk
    omega
  have hchar := segLen_char buf hk'
  have hle := segLen_le buf
  rw [List.getD_eq_getElem _ _ (by omega)] at hchar
  rwa [List.getElem_take]

/-- A first segment of proper length is a segment. -/
theorem isSegment_take {buf : Path} (h : ¬ (segLen buf = 0 ∨ segLen buf ≥ MCS_MAX_NAME)) :
    IsSegment (buf.take (segLen buf)) := by
  rw [not_or, Nat.not_le] at h
  have hlen : (buf.take (segLen buf)).length = segLen buf :=
    List.length_take_of_le (segLen_le buf)
  exact ⟨by rw [hlen]; exact h.1, by rw [hlen]; exact h.2, take_segLen_chars buf⟩

/-- The end of a string is where a pointer reads NUL. -/
theorem end_iff {buf : Path} (hnul : ∀ c ∈ buf, c ≠ 0) :
    deref (buf.drop (segLen buf)) = 0 ↔ buf.drop (segLen buf) = [] := by
  rcases drop_segLen buf hnul with h | ⟨rest, h⟩
  · rw [h]
    exact iff_of_true rfl rfl
  · rw [h]
    exact iff_of_false (deref_slash rest) (List.cons_ne_nil slash rest)

/-- A string without NUL that starts with a segment: it ends there, or a slash and the
    rest follow. -/
theorem split_first (buf : Path) (hnul : ∀ c ∈ buf, c ≠ 0) :
    (deref (buf.drop (segLen buf)) = 0 ∧ buf = buf.take (segLen buf)) ∨
    ∃ rest, deref (buf.drop (segLen buf)) ≠ 0 ∧ (buf.drop (segLen buf)).drop 1 = rest ∧
      buf = buf.take (segLen buf) ++ slash :: rest := by
  have hsplit := List.take_append_drop (segLen buf) buf
  rcases drop_segLen buf hnul with h | ⟨rest, h⟩
  · refine Or.inl ⟨(end_iff hnul).mpr h, ?_⟩
    rw [h, List.append_nil] at hsplit
    exact hsplit.symm
  · refine Or.inr ⟨rest, ?_, by rw [h]; rfl, ?_⟩
    · rw [h]
      exact deref_slash rest
    · rw [h] at hsplit
      exact hsplit.symm

theorem nulFree_rest {buf rest : Path} (hnul : ∀ c ∈ buf, c ≠ 0) (h : buf = s ++ slash :: rest) :
    ∀ c ∈ rest, c ≠ 0 := by
  intro c hc
  refine hnul c ?_
  rw [h]
  exact List.mem_append_right _ (List.mem_cons_of_mem _ hc)

/-! ## The loops follow chains -/

/-- The segments of a string lead from `d` to `n`. -/
structure Leads (fs : Ramfs) (d : Nat) (segs : List Path) (n : Nat) (str : Path) : Prop where
  segments : ∀ s ∈ segs, IsSegment s
  string : str = spelled segs
  chain : Chain fs d segs n

theorem leads_here (d : Nat) : Leads fs d [] d [] :=
  ⟨fun _ ht => absurd ht List.not_mem_nil, rfl, .here d⟩

/-- One more segment in front. -/
theorem Leads.cons {str : Path} (hs : IsSegment s) (hdir : (fs.nodes d).type = .dir)
    (hnames : Names fs d s i) (h : Leads fs i segs n str) :
    Leads fs d (s :: segs) n (slash :: (s ++ str)) := by
  refine ⟨?_, by rw [spelled_cons, h.string], .child hdir hnames h.chain⟩
  intro t ht
  rcases List.mem_cons.mp ht with rfl | ht
  · exact hs
  · exact h.segments t ht

/-- **LOOKUP FOLLOWS**: where the loop arrives, a chain of segments leads. -/
theorem lookupLoop_leads (h : WellFormed fs) :
    ∀ (rounds d : Nat) (buf : Path), d < fs.nodeCount.toNat → (fs.nodes d).type = .dir →
      (∀ c ∈ buf, c ≠ 0) → lookupLoop fs rounds d buf = .ok n →
      ∃ segs, segs ≠ [] ∧ Leads fs d segs n (slash :: buf) := by
  intro rounds
  induction rounds with
  | zero =>
      intro d buf _ _ _ hloop
      cases hloop
  | succ rounds ih =>
      intro d buf hd hdir hnul hloop
      rw [lookupLoop] at hloop
      by_cases hstart : deref buf = 0
      · rw [if_pos hstart] at hloop
        cases hloop
      by_cases hlen : segLen buf = 0 ∨ segLen buf ≥ MCS_MAX_NAME
      · simp only [if_neg hstart, if_pos hlen] at hloop
        cases hloop
      simp only [if_neg hstart, if_neg hlen] at hloop
      have hs := isSegment_take hlen
      cases hfind : mcsFindChild fs (fs.nodes d).id buf (segLen buf) with
      | error rc =>
          rw [hfind] at hloop
          cases hloop
      | ok i =>
          rw [hfind] at hloop
          dsimp only at hloop
          have hnames := (mcsFindChild_iff h hd (segLen_le buf) hs).mp hfind
          -- the segment is the last one, or a slash follows
          rcases split_first buf hnul with ⟨hend, hbuf⟩ | ⟨rest, hend, hrest, hbuf⟩
          · rw [if_pos hend] at hloop
            obtain rfl := Except.ok.inj hloop
            rw [← hbuf] at hs hnames
            have hleads := Leads.cons hs hdir hnames (leads_here i)
            rw [List.append_nil] at hleads
            exact ⟨[buf], List.cons_ne_nil _ _, hleads⟩
          · rw [if_neg hend, hrest] at hloop
            split at hloop
            · cases hloop
            · rename_i hi
              obtain ⟨segs, -, hleads⟩ :=
                ih i rest hnames.bound (not_not.mp hi) (nulFree_rest hnul hbuf) hloop
              refine ⟨buf.take (segLen buf) :: segs, List.cons_ne_nil _ _, ?_⟩
              have hleads' := Leads.cons hs hdir hnames hleads
              rwa [← hbuf] at hleads'

/-- One round of the lookup at a segment that names a child. -/
theorem lookupLoop_first (h : WellFormed fs) (hd : d < fs.nodeCount.toNat) (hs : IsSegment s)
    (hnames : Names fs d s i) (rounds : Nat) (segs : List Path) :
    lookupLoop fs (rounds + 1) d (s ++ spelled segs) =
      if deref (spelled segs) = 0 then .ok i
      else if (fs.nodes i).type ≠ .dir then .error .enotdir
      else lookupLoop fs rounds i ((spelled segs).drop 1) := by
  have hlen := segLen_spelled hs.chars segs
  have hproper : ¬ (s.length = 0 ∨ s.length ≥ MCS_MAX_NAME) := proper_len hs.nonempty hs.short
  have hstart : deref (s ++ spelled segs) ≠ 0 := by
    cases s with
    | nil => exact absurd rfl hs.nonempty
    | cons c s => exact (hs.chars c List.mem_cons_self).2
  have hle : s.length ≤ (s ++ spelled segs).length := by
    rw [List.length_append]
    omega
  have hfind : mcsFindChild fs (fs.nodes d).id (s ++ spelled segs) s.length = .ok i := by
    rw [mcsFindChild_iff h hd hle (by rw [List.take_left]; exact hs), List.take_left]
    exact hnames
  rw [lookupLoop, if_neg hstart]
  simp only [hlen, if_neg hproper, hfind, List.drop_left]

/-- **LOOKUP ARRIVES**: the loop goes to the end of every chain. -/
theorem lookupLoop_of_chain (h : WellFormed fs) (segs : List Path) :
    ∀ {s : Path} {rounds d : Nat}, d < fs.nodeCount.toNat → (∀ t ∈ s :: segs, IsSegment t) →
      Chain fs d (s :: segs) n → (s ++ spelled segs).length < rounds →
      lookupLoop fs rounds d (s ++ spelled segs) = .ok n := by
  induction segs with
  | nil =>
      intro s rounds d hd hsegs hchain hrounds
      obtain ⟨rounds, rfl⟩ : ∃ r, rounds = r + 1 := ⟨rounds - 1, by omega⟩
      cases hchain with
      | child _ hnames hrest =>
          cases hrest
          rw [lookupLoop_first h hd (hsegs s List.mem_cons_self) hnames]
          rfl
  | cons t segs ih =>
      intro s rounds d hd hsegs hchain hrounds
      obtain ⟨rounds, rfl⟩ : ∃ r, rounds = r + 1 := ⟨rounds - 1, by omega⟩
      cases hchain with
      | @child _ i _ _ _ _ hnames hrest =>
          -- there is a segment behind this one, so the node is a directory
          have hi : (fs.nodes i).type = .dir := by
            cases hrest with
            | child hdir => exact hdir
          rw [lookupLoop_first h hd (hsegs s List.mem_cons_self) hnames, spelled_cons,
            if_neg (deref_slash _), if_neg (not_not_intro hi)]
          refine ih hnames.bound (fun u hu => hsegs u (List.mem_cons_of_mem s hu)) hrest ?_
          rw [spelled_cons, List.length_append, List.length_cons] at hrounds
          omega

/-- **SPLIT FOLLOWS**: a split names a directory that a chain leads to, and a leaf that
    ends the string. -/
theorem splitLoop_leads (h : WellFormed fs) {p m : Nat} {leaf : Path} :
    ∀ (rounds d : Nat) (buf : Path), d < fs.nodeCount.toNat → (fs.nodes d).type = .dir →
      (∀ c ∈ buf, c ≠ 0) → splitLoop fs rounds d buf = .ok (p, leaf, m) →
      IsSegment leaf ∧ ∃ segs str, Leads fs d segs p str ∧ slash :: buf = str ++ slash :: leaf := by
  intro rounds
  induction rounds with
  | zero =>
      intro d buf _ _ _ hloop
      cases hloop
  | succ rounds ih =>
      intro d buf hd hdir hnul hloop
      rw [splitLoop] at hloop
      by_cases hlen : segLen buf = 0 ∨ segLen buf ≥ MCS_MAX_NAME
      · simp only [if_pos hlen] at hloop
        cases hloop
      simp only [if_neg hlen] at hloop
      have hs := isSegment_take hlen
      -- the leaf is not looked up
      rcases split_first buf hnul with ⟨hend, hbuf⟩ | ⟨rest, hend, hrest, hbuf⟩
      · rw [if_pos hend] at hloop
        cases hloop
        rw [← hbuf] at hs
        exact ⟨hs, [], [], leads_here _, rfl⟩
      rw [if_neg hend, hrest] at hloop
      cases hfind : mcsFindChild fs (fs.nodes d).id buf (segLen buf) with
      | error rc =>
          rw [hfind] at hloop
          cases hloop
      | ok i =>
          rw [hfind] at hloop
          dsimp only at hloop
          have hnames := (mcsFindChild_iff h hd (segLen_le buf) hs).mp hfind
          split at hloop
          · cases hloop
          · rename_i hi
            obtain ⟨hleaf, segs, str, hleads, hstr⟩ :=
              ih i rest hnames.bound (not_not.mp hi) (nulFree_rest hnul hbuf) hloop
            refine ⟨hleaf, _, _, Leads.cons hs hdir hnames hleads, ?_⟩
            rw [List.cons_append, List.append_assoc, ← hstr, ← hbuf]

/-- Where the loop of the lookup fails for another reason than a missing entry, that of
    the split fails with the same code: they part only at the last segment, where the
    lookup still has to find the child. -/
theorem splitLoop_error {e : VfsErr} (he : e ≠ .enoent) :
    ∀ (rounds d : Nat) (buf : Path), lookupLoop fs rounds d buf = .error e →
      splitLoop fs rounds d buf = .error e := by
  intro rounds
  induction rounds with
  | zero =>
      intro d buf hloop
      exact congrArg Except.error (Except.error.inj hloop)
  | succ rounds ih =>
      intro d buf hloop
      rw [lookupLoop] at hloop
      rw [splitLoop]
      by_cases hlen : segLen buf = 0 ∨ segLen buf ≥ MCS_MAX_NAME
      · simp only [if_pos hlen] at hloop ⊢
        split at hloop
        · exact congrArg Except.error (Except.error.inj hloop)
        · exact congrArg Except.error (Except.error.inj hloop)
      -- both loops refuse the same segments, and only a missing child is not found
      have hproper : segLen buf ≠ 0 ∧ segLen buf < 32 := by
        rw [not_or, Nat.not_le] at hlen
        exact hlen
      have hstart : deref buf ≠ 0 := by
        intro h0
        cases buf with
        | nil => exact hproper.1 rfl
        | cons c buf => exact hproper.1 (if_pos (Or.inr h0))
      simp only [if_neg hlen, if_neg hstart] at hloop ⊢
      cases hfind : mcsFindChild fs (fs.nodes d).id buf (segLen buf) with
      | error rc =>
          rw [hfind] at hloop
          obtain rfl := Except.error.inj hloop
          exact absurd (mcsFindChild_error hproper.1 hproper.2 hfind).1 he
      | ok i =>
          rw [hfind] at hloop
          dsimp only at hloop ⊢
          by_cases hend : deref (buf.drop (segLen buf)) = 0
          · rw [if_pos hend] at hloop
            cases hloop
          rw [if_neg hend] at hloop ⊢
          by_cases hi : (fs.nodes i).type ≠ .dir
          · rw [if_pos hi] at hloop ⊢
            exact congrArg Except.error (Except.error.inj hloop)
          · rw [if_neg hi] at hloop ⊢
            exact ih i _ hloop

/-! ## Whole paths -/

/-- **MEANING** of a string: `/` is the root, and `/s1/…/sk` the end of the chain that
    its segments are, for strings of less than 128 characters. -/
def Resolves (fs : Ramfs) (str : Path) (n : Nat) : Prop :=
  str.length < MCS_MAX_PATH ∧
    (str = [slash] ∧ n = 0 ∨ ∃ segs, segs ≠ [] ∧ Leads fs 0 segs n str)

/-- A C string ends before its first zero. -/
theorem cstr_nulFree (path : Path) : ∀ c ∈ cstr path, c ≠ 0 := by
  intro c hc
  have hkeep := List.mem_takeWhile_imp hc
  simpa using hkeep

theorem mcsStrlen_nulFree {str : Path} (hnul : ∀ c ∈ str, c ≠ 0) : mcsStrlen str = str.length := by
  induction str with
  | nil => rfl
  | cons c str ih =>
      rw [mcsStrlen, if_neg (hnul c List.mem_cons_self),
        ih (fun c hc => hnul c (List.mem_cons_of_mem _ hc)), List.length_cons]

theorem deref_nulFree {str : Path} (hnul : ∀ c ∈ str, c ≠ 0) : deref str = 0 ↔ str = [] := by
  cases str with
  | nil => exact iff_of_true rfl rfl
  | cons c str => exact iff_of_false (hnul c List.mem_cons_self) (List.cons_ne_nil c str)

/-- The lookup of an absolute path. -/
theorem mcsRamfsLookup_slash {rest : Path} (hnul : ∀ c ∈ rest, c ≠ 0) :
    mcsRamfsLookup fs (some (slash :: rest)) =
      if (slash :: rest).length ≥ MCS_MAX_PATH then .error .enametoolong
      else if rest = [] then .ok 0
      else lookupLoop fs ((slash :: rest).length + 1) 0 rest := by
  have hnul' : ∀ c ∈ slash :: rest, c ≠ 0 := by
    intro c hc
    rcases List.mem_cons.mp hc with rfl | hc
    · decide
    · exact hnul c hc
  have habs : ¬ deref (slash :: rest) ≠ slash := not_not_intro rfl
  rw [mcsRamfsLookup, if_neg habs, mcsStrlen_nulFree hnul']
  simp only [List.drop_one, List.tail_cons, deref_nulFree hnul]

/-- A string that spells segments starts with a slash and the first of them. -/
theorem Leads.rest_ne_nil {rest : Path} (h : Leads fs d segs n (slash :: rest)) : rest ≠ [] := by
  rintro rfl
  have hstring := h.string
  cases segs with
  | nil => cases hstring
  | cons s segs =>
      rw [spelled_cons] at hstring
      have hnil := List.append_eq_nil_iff.mp (List.cons.inj hstring).2.symm
      exact (h.segments s List.mem_cons_self).nonempty (congrArg List.length hnil.1)

/-- What resolves starts with a slash. -/
theorem Resolves.absolute {str : Path} (h : Resolves fs str n) : ∃ rest, str = slash :: rest := by
  rcases h.2 with ⟨rfl, -⟩ | ⟨segs, hne, hleads⟩
  · exact ⟨[], rfl⟩
  · cases segs with
    | nil => exact absurd rfl hne
    | cons s segs => exact ⟨_, hleads.string⟩

/-- **RESOLUTION**: a lookup follows the meaning of the string. -/
theorem lookup_resolves_iff (h : WellFormed fs) (path : Path) (n : Nat) :
    mcsRamfsLookup fs (some path) = .ok n ↔ Resolves fs (cstr path) n := by
  rw [← mcsRamfsLookup_cstr]
  have hnul := cstr_nulFree path
  generalize cstr path = str at hnul ⊢
  -- the checks before the loop: absolute, short, and not the root itself
  by_cases habs : ∃ rest, str = slash :: rest
  swap
  · refine iff_of_false (fun hlook => ?_) (fun hres => habs hres.absolute)
    have hfirst : deref str ≠ slash := by
      cases str with
      | nil => exact fun h0 => absurd h0 (by decide)
      | cons c rest =>
          intro hc
          have hc' : c = slash := hc
          exact habs ⟨rest, by rw [hc']⟩
    rw [mcsRamfsLookup, if_pos hfirst] at hlook
    cases hlook
  obtain ⟨rest, rfl⟩ := habs
  have hrest : ∀ c ∈ rest, c ≠ 0 := fun c hc => hnul c (List.mem_cons_of_mem _ hc)
  rw [mcsRamfsLookup_slash hrest, Resolves]
  by_cases hlong : (slash :: rest).length ≥ MCS_MAX_PATH
  · rw [if_pos hlong]
    exact iff_of_false (fun hlook => by cases hlook) (fun hres => absurd hres.1 (by omega))
  rw [if_neg hlong]
  by_cases hnil : rest = []
  · rw [if_pos hnil]
    constructor
    · intro hlook
      exact ⟨by omega, Or.inl ⟨by rw [hnil], (Except.ok.inj hlook).symm⟩⟩
    · rintro ⟨-, ⟨-, rfl⟩ | ⟨segs, -, hleads⟩⟩
      · rfl
      · exact absurd hnil hleads.rest_ne_nil
  rw [if_neg hnil]
  constructor
  · intro hlook
    exact ⟨by omega, Or.inr (lookupLoop_leads h _ 0 rest h.tree.pos h.tree.root hrest hlook)⟩
  · rintro ⟨-, ⟨hroot, -⟩ | ⟨segs, hne, hleads⟩⟩
    · exact absurd (List.cons.inj hroot).2 hnil
    · cases segs with
      | nil => exact absurd rfl hne
      | cons s segs =>
          have hstring := hleads.string
          rw [spelled_cons] at hstring
          obtain rfl := (List.cons.inj hstring).2
          refine lookupLoop_of_chain h segs h.tree.pos hleads.segments hleads.chain ?_
          rw [List.length_cons]
          omega

/-- A path splits into the way to a directory and a leaf. -/
theorem mcsSplitParentLeaf_leads (h : WellFormed fs) {str leaf : Path} {p m : Nat}
    (hnul : ∀ c ∈ str, c ≠ 0) (hsplit : mcsSplitParentLeaf fs (some str) = .ok (p, leaf, m)) :
    str.length < MCS_MAX_PATH ∧ IsSegment leaf ∧
      ∃ segs parent, Leads fs 0 segs p parent ∧ str = parent ++ slash :: leaf := by
  rw [mcsSplitParentLeaf] at hsplit
  split at hsplit
  · cases hsplit
  rename_i habs
  split at hsplit
  · cases hsplit
  split at hsplit
  · cases hsplit
  rename_i hlong
  -- the checks have passed, and what is left is the loop
  cases str with
  | nil => exact absurd (not_not.mp habs) (by decide)
  | cons c rest =>
      obtain rfl : c = slash := not_not.mp habs
      rw [mcsStrlen_nulFree hnul] at hlong
      have hrest : ∀ c ∈ rest, c ≠ 0 := fun c hc => hnul c (List.mem_cons_of_mem _ hc)
      exact ⟨by omega, splitLoop_leads h _ 0 rest h.tree.pos h.tree.root hrest hsplit⟩

/-- **SAME REFUSALS**: a path that the lookup refuses for another reason than a missing
    entry is refused by the split with the same code. -/
theorem mcsSplitParentLeaf_error {path : Path} {e : VfsErr} (he : e ≠ .enoent)
    (hlook : mcsRamfsLookup fs (some path) = .error e) :
    mcsSplitParentLeaf fs (some path) = .error e := by
  rw [mcsRamfsLookup] at hlook
  rw [mcsSplitParentLeaf]
  by_cases habs : deref path ≠ slash
  · rw [if_pos habs] at hlook ⊢
    exact congrArg Except.error (Except.error.inj hlook)
  rw [if_neg habs] at hlook ⊢
  by_cases hroot : deref (path.drop 1) = 0
  · -- the root, which the lookup finds
    have hshort : ¬ mcsStrlen path ≥ MCS_MAX_PATH := by
      have hlen : mcsStrlen path = 1 := by
        cases path with
        | nil => exact absurd (not_not.mp habs) (by decide)
        | cons c rest =>
            obtain rfl : c = slash := not_not.mp habs
            have hend : mcsStrlen rest = 0 := by
              cases rest with
              | nil => rfl
              | cons c rest => exact if_pos hroot
            rw [mcsStrlen, hend]
            rfl
      rw [hlen]
      decide
    rw [if_neg hshort, if_pos hroot] at hlook
    cases hlook
  rw [if_neg hroot] at hlook ⊢
  by_cases hlong : mcsStrlen path ≥ MCS_MAX_PATH
  · rw [if_pos hlong] at hlook ⊢
    exact congrArg Except.error (Except.error.inj hlook)
  · rw [if_neg hlong] at hlook ⊢
    exact splitLoop_error he _ 0 _ hlook

/-! ## A table with a directory -/

/-- The root, and below it the directory `d`. -/
def dirFs : Ramfs :=
  { nodes := fun i =>
      if i = 0 then ⟨true, 0, 0, .dir, fun k => if k = 0 then slash else 0, 0, 0, 0⟩
      else ⟨true, 1, 0, .dir, fun k => if k = 0 then 0x64 else 0, 0, 0, 0⟩
    nodeCount := 2
    data := fun _ => 0
    dataUsed := 0 }

/-- The example with one directory. -/
theorem dirFs_wellFormed : WellFormed dirFs := by
  -- two nodes, of which the second has a name
  have hcases : ∀ i, i < dirFs.nodeCount.toNat → i = 0 ∨ i = 1 := by
    intro i hi
    have hi' : i < 2 := hi
    omega
  have hone : ∀ i, 0 < i → i < dirFs.nodeCount.toNat → i = 1 := by
    intro i h0 hi
    rcases hcases i hi with rfl | rfl
    · exact absurd h0 (Nat.lt_irrefl 0)
    · rfl
  refine ⟨⟨by decide, by decide, rfl, ?_, ?_, ?_, ?_, ?_⟩, rfl⟩
  · intro i hi
    rcases hcases i hi with rfl | rfl
    · rfl
    · rfl
  · intro i hi
    rcases hcases i hi with rfl | rfl
    · rfl
    · rfl
  · intro i hi
    rcases hcases i hi with rfl | rfl
    · exact ⟨by decide, rfl⟩
    · exact ⟨by decide, rfl⟩
  · intro i h0 hi
    rw [hone i h0 hi]
    refine ⟨1, by decide, by decide, ?_, ?_⟩
    · intro k hk
      obtain rfl : k = 0 := by omega
      exact ⟨by decide, by decide⟩
    · intro k hk _
      exact if_neg (by omega)
  · intro i j hi0 hi hj0 hj hne
    exact absurd ((hone i hi0 hi).trans (hone j hj0 hj).symm) hne

end VfsPath
