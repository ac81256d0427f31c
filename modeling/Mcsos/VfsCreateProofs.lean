import Mcsos.VfsPathProofs

/-! # Creating a file and finding it

    `mcs_ramfs_create_file` splits the path with a loop of its own, after a
    lookup has failed.  That the two loops agree is a fact about chains of
    segments: a chain through the table with one more file is an old chain, or it
    ends at the new file (`chain_of_addFile`), and there is only one way from the
    root to its directory (`chain_unique_path`), so exactly one string comes to
    resolve. -/

namespace VfsCreate

open Word Loop VfsModel VfsTree VfsString VfsPath

variable {fs : Ramfs} {d i n : Nat} {s : Path} {segs : List Path}

/-! ## The way to a node -/

/-- One more segment at the end. -/
theorem chain_snoc {e : Nat} (h : Chain fs d segs e) (hdir : (fs.nodes e).type = .dir)
    (hnames : Names fs e s n) : Chain fs d (segs ++ [s]) n := by
  induction h with
  | here d => exact .child hdir hnames (.here n)
  | child hdir' hnames' _ ih => exact .child hdir' hnames' (ih hdir hnames)

/-- The last segment of a way, and the directory it is in. -/
theorem chain_of_snoc (segs : List Path) :
    ∀ {d : Nat}, Chain fs d (segs ++ [s]) n →
      ∃ e, Chain fs d segs e ∧ (fs.nodes e).type = .dir ∧ Names fs e s n := by
  induction segs with
  | nil =>
      intro d h
      cases h with
      | child hdir hnames hrest =>
          cases hrest
          exact ⟨d, .here d, hdir, hnames⟩
  | cons t segs ih =>
      intro d h
      cases h with
      | child hdir hnames hrest =>
          obtain ⟨e, hchain, hdir', hnames'⟩ := ih hrest
          exact ⟨e, .child hdir hnames hchain, hdir', hnames'⟩

/-- **ONE WAY**: a node is reached from the root by one list of segments.  Parents and
    names determine it from the end; it cannot pass the root again, which is no child. -/
theorem chain_unique_path (segs : List Path) :
    ∀ {segs' : List Path} {n : Nat}, (∀ s ∈ segs, IsSegment s) → (∀ s ∈ segs', IsSegment s) →
      Chain fs 0 segs n → Chain fs 0 segs' n → segs = segs' := by
  induction segs using List.reverseRecOn with
  | nil =>
      intro segs' n _ _ h h'
      cases h
      rcases List.eq_nil_or_concat' segs' with rfl | ⟨init, t, rfl⟩
      · rfl
      · obtain ⟨e, -, -, hnames⟩ := chain_of_snoc init h'
        exact absurd hnames.notRoot (Nat.lt_irrefl 0)
  | append_singleton init s ih =>
      intro segs' n hsegs hsegs' h h'
      obtain ⟨e, hchain, -, hnames⟩ := chain_of_snoc init h
      rcases List.eq_nil_or_concat' segs' with rfl | ⟨init', t, rfl⟩
      · cases h'
        exact absurd hnames.notRoot (Nat.lt_irrefl 0)
      · obtain ⟨e', hchain', -, hnames'⟩ := chain_of_snoc init' h'
        have hlast : ∀ {init : List Path} {s : Path}, s ∈ init ++ [s] := fun {_ _} =>
          List.mem_append_right _ (List.mem_singleton.mpr rfl)
        -- a node has one name and one parent
        obtain ⟨rfl, rfl⟩ := Names.inj (hsegs s hlast) (hsegs' t hlast) hnames hnames'
        rw [ih (fun u hu => hsegs u (List.mem_append_left _ hu))
          (fun u hu => hsegs' u (List.mem_append_left _ hu)) hchain hchain']

/-! ## One more file -/

variable {p : Nat} {leaf : Path}

/-- Old names are kept. -/
theorem names_addFile (h : Names fs d s i) (hadd : CanAdd fs p leaf) :
    Names (addFile fs p leaf) d s i := by
  refine ⟨h.notRoot, ?_, ?_, ?_⟩
  · rw [hadd.count]
    exact Nat.lt_succ_of_lt h.bound
  · rw [addFile_node h.bound]
    exact h.parent
  · rw [addFile_node h.bound]
    exact h.name

/-- An old node has the name and the parent it had. -/
theorem names_of_addFile (h : Names (addFile fs p leaf) d s i)
    (hi : i < fs.nodeCount.toNat) : Names fs d s i := by
  have hparent := h.parent
  have hname := h.name
  rw [addFile_node hi] at hparent hname
  exact ⟨h.notRoot, hi, hparent, hname⟩

/-- The new file is the child that the leaf names. -/
theorem names_new (h : FsTree fs) (hadd : CanAdd fs p leaf) (hleaf : IsSegment leaf) :
    Names (addFile fs p leaf) p leaf fs.nodeCount.toNat := by
  have hlen : segLen leaf = leaf.length := by
    have hseg := segLen_spelled hleaf.chars []
    rwa [spelled, List.flatMap_nil, List.append_nil] at hseg
  refine ⟨h.pos, ?_, ?_, ?_⟩
  · rw [hadd.count]
    exact Nat.lt_succ_self _
  · rw [addFile_new]
    exact id_toNat h hadd.parent
  · intro k hk
    rw [addFile_new]
    dsimp only
    rw [mcsCopyName_apply _ leaf hadd.short hk, hlen]
    by_cases hlt : k < leaf.length
    · rw [if_pos hlt]
    · rw [if_neg hlt, List.getD_eq_default _ _ (by omega)]

/-- **NOTHING IS LOST**: a chain is a chain in the larger table. -/
theorem chain_addFile (hadd : CanAdd fs p leaf) (h : Chain fs d segs n) :
    d < fs.nodeCount.toNat → Chain (addFile fs p leaf) d segs n := by
  induction h with
  | here d =>
      intro _
      exact .here d
  | child hdir hnames _ ih =>
      intro hd
      refine .child ?_ (names_addFile hnames hadd) (ih hnames.bound)
      rw [addFile_node hd]
      exact hdir

/-- **NOTHING ELSE IS WON**: a chain of the larger table is an old one, or it goes to the
    directory of the new file and ends with the leaf. -/
theorem chain_of_addFile (hT : FsTree fs) (hadd : CanAdd fs p leaf) (hleaf : IsSegment leaf)
    (h : Chain (addFile fs p leaf) d segs n) :
    d < fs.nodeCount.toNat → (∀ s ∈ segs, IsSegment s) →
      Chain fs d segs n ∨
        n = fs.nodeCount.toNat ∧ ∃ init, segs = init ++ [leaf] ∧ Chain fs d init p := by
  induction h with
  | here d =>
      intro _ _
      exact Or.inl (.here d)
  | @child d i n s segs hdir hnames hrest ih =>
      intro hd hsegs
      rw [addFile_node hd] at hdir
      rcases hadd.node_cases hnames.bound with ⟨hi, -⟩ | rfl
      · have hnames' := names_of_addFile hnames hi
        rcases ih hi (fun t ht => hsegs t (List.mem_cons_of_mem s ht)) with
          hold | ⟨hn, init, rfl, hinit⟩
        · exact Or.inl (.child hdir hnames' hold)
        · exact Or.inr ⟨hn, s :: init, rfl, .child hdir hnames' hinit⟩
      · -- the new node is a file, so the chain ends here
        obtain ⟨rfl, rfl⟩ :=
          Names.inj (hsegs s List.mem_cons_self) hleaf hnames (names_new hT hadd hleaf)
        cases hrest with
        | here => exact Or.inr ⟨rfl, [], rfl, .here d⟩
        | child hfile =>
            rw [addFile_new] at hfile
            cases hfile

/-- A tree with one file more. -/
theorem wellFormed_addFile (h : WellFormed fs) (hadd : CanAdd fs p leaf) :
    WellFormed (addFile fs p leaf) := by
  refine ⟨h.tree.addFile hadd, ?_⟩
  rw [addFile_node h.tree.pos]
  exact h.rootName

/-- What the new file changes: its own path resolves, every path that did still does, and
    no other. -/
theorem resolves_addFile_iff (h : WellFormed fs) (hadd : CanAdd fs p leaf) (hleaf : IsSegment leaf)
    {init : List Path} {parent : Path} (hway : Leads fs 0 init p parent)
    (hshort : (parent ++ slash :: leaf).length < MCS_MAX_PATH) (str : Path) (n : Nat) :
    Resolves (addFile fs p leaf) str n ↔
      Resolves fs str n ∨ str = parent ++ slash :: leaf ∧ n = fs.nodeCount.toNat := by
  have hT := h.tree
  have hnew : Leads (addFile fs p leaf) 0 (init ++ [leaf]) fs.nodeCount.toNat
      (parent ++ slash :: leaf) := by
    refine ⟨?_, ?_, ?_⟩
    · intro s hs
      rcases List.mem_append.mp hs with hs | hs
      · exact hway.segments s hs
      · rw [List.mem_singleton.mp hs]
        exact hleaf
    · rw [spelled_append, hway.string]
      show _ = spelled init ++ (slash :: (leaf ++ []))
      rw [List.append_nil]
    · refine chain_snoc (chain_addFile hadd hway.chain hT.pos) ?_ (names_new hT hadd hleaf)
      rw [addFile_node hadd.parent]
      exact hadd.dir
  have hnil : init ++ [leaf] ≠ [] := List.append_ne_nil_of_right_ne_nil _ (List.cons_ne_nil _ _)
  constructor
  · rintro ⟨hlen, hroot | ⟨segs, hne, hleads⟩⟩
    · exact Or.inl ⟨hlen, Or.inl hroot⟩
    · rcases chain_of_addFile hT hadd hleaf hleads.chain hT.pos hleads.segments with
        hold | ⟨hn, init', rfl, hinit'⟩
      · exact Or.inl ⟨hlen, Or.inr ⟨segs, hne, hleads.segments, hleads.string, hold⟩⟩
      · -- the same way to the directory, hence the same string
        have hsame : init' = init := chain_unique_path init'
          (fun s hs => hleads.segments s (List.mem_append_left _ hs)) hway.segments hinit'
          hway.chain
        rw [hsame] at hleads
        exact Or.inr ⟨hleads.string.trans hnew.string.symm, hn⟩
  · rintro (⟨hlen, hroot | ⟨segs, hne, hleads⟩⟩ | ⟨rfl, rfl⟩)
    · exact ⟨hlen, Or.inl hroot⟩
    · exact ⟨hlen, Or.inr ⟨segs, hne, hleads.segments, hleads.string,
        chain_addFile hadd hleads.chain hT.pos⟩⟩
    · exact ⟨hshort, Or.inr ⟨init ++ [leaf], hnil, hnew⟩⟩

/-! ## Create and lookup -/

/-- A path that is created: the file is found under it, what resolved still does, nothing
    else does, and creating it again finds the file. -/
structure CreatesOnly (fs : Ramfs) (path : Path) (n : Nat) (fs' : Ramfs) : Prop where
  found : mcsRamfsLookup fs' (some path) = .ok n
  kept : ∀ q m, mcsRamfsLookup fs (some q) = .ok m → mcsRamfsLookup fs' (some q) = .ok m
  only : ∀ q m, mcsRamfsLookup fs' (some q) = .ok m →
    mcsRamfsLookup fs (some q) = .ok m ∨ cstr q = cstr path
  wellFormed : WellFormed fs'
  again : mcsRamfsCreateFile fs' (some path) = (.ok n, fs')

/-- Creating a file that is there finds it. -/
theorem createFile_existing {path : Path} (hlook : mcsRamfsLookup fs (some path) = .ok n)
    (hfile : (fs.nodes n).type = .file) : mcsRamfsCreateFile fs (some path) = (.ok n, fs) := by
  rw [mcsRamfsCreateFile, hlook]
  exact if_neg (not_not_intro hfile)

/-- The new file, seen through lookups. -/
theorem createsOnly_addFile (h : WellFormed fs) {path : Path}
    (hc : Creates fs (some (cstr path)) p leaf) :
    CreatesOnly fs path fs.nodeCount.toNat (addFile fs p leaf) := by
  have hadd := hc.canAdd h.tree
  have hwf := wellFormed_addFile h hadd
  obtain ⟨hshort, hleaf, init, parent, hway, hstr⟩ :=
    mcsSplitParentLeaf_leads h (cstr_nulFree path) hc.split
  rw [hstr] at hshort
  -- what resolves afterwards: what did before, and the new path
  have hres := resolves_addFile_iff h hadd hleaf hway hshort
  rw [← hstr] at hres
  have hfound : mcsRamfsLookup (addFile fs p leaf) (some path) = .ok fs.nodeCount.toNat :=
    (lookup_resolves_iff hwf path _).mpr ((hres _ _).mpr (Or.inr ⟨rfl, rfl⟩))
  refine ⟨hfound, ?_, ?_, hwf, ?_⟩
  · intro q m hq
    rw [lookup_resolves_iff h] at hq
    exact (lookup_resolves_iff hwf q m).mpr ((hres _ _).mpr (Or.inl hq))
  · intro q m hq
    rw [lookup_resolves_iff hwf, hres] at hq
    rcases hq with hold | ⟨hsame, -⟩
    · exact Or.inl ((lookup_resolves_iff h q m).mpr hold)
    · exact Or.inr hsame
  · refine createFile_existing hfound ?_
    rw [addFile_new]

/-- **CREATE AND LOOKUP AGREE**: a file that is created is found under its path, every
    path that resolved resolves to the same node, no other path comes to resolve, the
    table stays well-formed, and creating it again finds it; a path that the lookup
    refuses for another reason than a missing entry is refused with the same code, and
    nothing changes. -/
theorem create_lookup_agree (h : WellFormed fs) (path : Path) :
    (∀ n fs', mcsRamfsCreateFile fs (some path) = (.ok n, fs') → CreatesOnly fs path n fs') ∧
    (∀ e, mcsRamfsLookup fs (some path) = .error e → e ≠ .enoent →
      mcsRamfsCreateFile fs (some path) = (.error e, fs)) := by
  constructor
  · intro n fs' hcreate
    rw [← mcsRamfsCreateFile_cstr] at hcreate
    rcases mcsRamfsCreateFile_cases h.tree (some (cstr path)) with
      ⟨e, heq⟩ | ⟨i, hlook, hfile, heq⟩ | ⟨p, leaf, hc, heq⟩
    · rw [heq] at hcreate
      cases hcreate
    · rw [heq] at hcreate
      cases hcreate
      rw [mcsRamfsLookup_cstr] at hlook
      exact ⟨hlook, fun _ _ hq => hq, fun _ _ hq => Or.inl hq, h,
        createFile_existing hlook hfile.2⟩
    · rw [heq] at hcreate
      cases hcreate
      exact createsOnly_addFile h hc
  · intro e hlook he
    rw [mcsRamfsCreateFile, hlook, mcsSplitParentLeaf_error he hlook]
    rfl

/-- `/d/f` is created as node 2, and `/d` is the directory it was. -/
theorem create_lookup_agree_dir :
    mcsRamfsLookup (mcsRamfsCreateFile dirFs (some [slash, 0x64, slash, 0x66])).2
      (some [slash, 0x64, slash, 0x66]) = .ok 2 ∧
    mcsRamfsLookup (mcsRamfsCreateFile dirFs (some [slash, 0x64, slash, 0x66])).2
      (some [slash, 0x64]) = .ok 1 ∧
    mcsRamfsCreateFile dirFs (some [slash, 0x64, slash]) = (.error .einval, dirFs) := by
  have hok : (mcsRamfsCreateFile dirFs (some [slash, 0x64, slash, 0x66])).1 = .ok 2 := by decide
  have hcreates := (create_lookup_agree dirFs_wellFormed [slash, 0x64, slash, 0x66]).1 2 _
    (Prod.ext hok rfl)
  exact ⟨hcreates.found, hcreates.kept [slash, 0x64] 1 (by decide),
    (create_lookup_agree dirFs_wellFormed [slash, 0x64, slash]).2 .einval (by decide)
      (by decide)⟩

end VfsCreate
