import Mcsos.VmmTableProofs

/-! # The page-table tree in memory

    The tables hang together as a tree: a table is reached from the root by a
    path of at most three indices, and no table is reached by two paths.  The
    invariant `PageTables` names the tree by its paths: `tab p` is the table
    at path `p`.  Every entry of memory is then determined: an inner entry
    links the table at the extended path or is zero, a leaf entry encodes the
    mapping of its address or is zero.

    Because an entry's place is determined by its path and index, two writes
    to different places do not interfere, which is all the non-interference
    the walker needs. -/

namespace VmmTree

open Word Loop ByteMemory VmmModel VmmTable

/-! ## Storage of frames -/

/-- `phys_to_virt` gives each of the frames `F` its own non-null page of
    storage. -/
structure Storage (p2v : U64 → U64) (F : U64 → Prop) : Prop where
  nonnull : ∀ p, F p → p2v p ≠ 0
  fits : ∀ p, F p → (p2v p).toNat + 4096 ≤ 2 ^ 64
  apart : ∀ p q, F p → F q → p ≠ q →
    (p2v p).toNat + 4096 ≤ (p2v q).toNat ∨ (p2v q).toNat + 4096 ≤ (p2v p).toNat

variable {p2v : U64 → U64} {F : U64 → Prop} {root : U64}

/-- Entry `i` of the table in frame `t`. -/
def entry (p2v : U64 → U64) (mem : Mem) (t i : U64) : U64 :=
  load64 mem (entryAddr (p2v t) i)

/-- The addresses of a table's entries do not wrap. -/
theorem Storage.entryAddr_toNat (hs : Storage p2v F) {t i : U64} (ht : F t)
    (hi : i.toNat < 512) : (entryAddr (p2v t) i).toNat = (p2v t).toNat + 8 * i.toNat := by
  have hfit := hs.fits t ht
  rw [entryAddr, BitVec.toNat_add, BitVec.toNat_mul]
  show ((p2v t).toNat + 8 * i.toNat % 2 ^ 64) % 2 ^ 64 = _
  rw [Nat.mod_eq_of_lt (show 8 * i.toNat < 2 ^ 64 from by omega), Nat.mod_eq_of_lt (by omega)]

/-- Two different entries of frames occupy different bytes. -/
theorem Storage.entry_apart (hs : Storage p2v F) {t u i j : U64} (ht : F t)
    (hu : F u) (hi : i.toNat < 512) (hj : j.toNat < 512)
    (hne : ¬ (u = t ∧ j = i)) :
    Apart (entryAddr (p2v t) i) 8 (entryAddr (p2v u) j) 8 := by
  have hfit := hs.fits t ht
  have hfit' := hs.fits u hu
  rw [Apart, hs.entryAddr_toNat ht hi, hs.entryAddr_toNat hu hj]
  by_cases htu : u = t
  · subst htu
    have hij : j.toNat ≠ i.toNat := fun h => hne ⟨rfl, BitVec.eq_of_toNat_eq h⟩
    omega
  · rcases hs.apart u t hu ht htu with h | h <;> omega

/-- A store to an entry changes that entry and no other. -/
theorem Storage.entry_store (hs : Storage p2v F) {mem : Mem} {t u i j v : U64}
    (ht : F t) (hu : F u) (hi : i.toNat < 512) (hj : j.toNat < 512) :
    entry p2v (store64 mem (entryAddr (p2v t) i) v) u j
      = if u = t ∧ j = i then v else entry p2v mem u j := by
  by_cases h : u = t ∧ j = i
  · rw [if_pos h, h.1, h.2]
    exact load64_store64 mem _ v
  · rw [if_neg h]
    exact load64_store64_apart (hs.entry_apart ht hu hi hj h)

/-- Zeroing a page clears that table and no other. -/
theorem Storage.entry_zeroPage (hs : Storage p2v F) {mem : Mem} {n u j : U64}
    (hn : F n) (hu : F u) (hj : j.toNat < 512) :
    entry p2v (vmmZeroPage mem (p2v n)) u j = if u = n then 0 else entry p2v mem u j := by
  -- the loop has cleared the entries below its index
  have hloop : ∀ u j, F u → j.toNat < 512 →
      entry p2v (vmmZeroPage mem (p2v n)) u j
        = if u = n ∧ j.toNat < (512 : U64).toNat then 0 else entry p2v mem u j := by
    rw [vmmZeroPage]
    apply forUpTo_induct
      (fun k m => ∀ u j, F u → j.toNat < 512 →
        entry p2v m u j = if u = n ∧ j.toNat < k then 0 else entry p2v mem u j)
    · decide
    · decide
    · exact Nat.one_dvd _
    · intro u j _ _
      rw [if_neg (fun h => absurd h.2 (Nat.not_lt_zero _))]
    · intro i m _ hi _ hm u j hu hj
      have hi' : i.toNat < 512 := by bv_omega
      rw [hs.entry_store hn hu hi' hj, hm u j hu hj]
      show _ = if u = n ∧ j.toNat < i.toNat + 1 then 0 else entry p2v mem u j
      by_cases hun : u = n
      · by_cases hji : j = i
        · rw [if_pos ⟨hun, hji⟩, if_pos ⟨hun, by rw [hji]; omega⟩]
        · have hne : j.toNat ≠ i.toNat := fun h => hji (BitVec.eq_of_toNat_eq h)
          rw [if_neg (fun h => hji h.2)]
          by_cases hlt : j.toNat < i.toNat
          · rw [if_pos ⟨hun, hlt⟩, if_pos ⟨hun, by omega⟩]
          · rw [if_neg (fun h => hlt h.2), if_neg (fun h => absurd h.2 (by omega))]
      · rw [if_neg (fun h => hun h.1), if_neg (fun h => hun h.1), if_neg (fun h => hun h.1)]
  rw [hloop u j hu hj]
  by_cases hun : u = n
  · rw [if_pos ⟨hun, hj⟩, if_pos hun]
  · rw [if_neg (fun h => hun h.1), if_neg hun]

/-! ## The tree -/

/-- The abstract content of an address space. -/
abbrev PageMap := U64 → Option (U64 × U64)

/-- The map with another answer for one page. -/
def setPage (M : PageMap) (v : U64) (x : Option (U64 × U64)) : PageMap :=
  fun a => if a = v then x else M a

/-- Which table is at the end of a path of indices. -/
abbrev Tables := List U64 → Option U64

/-- A frame that is one of the tables. -/
def InUse (tab : Tables) (t : U64) : Prop := ∃ p, tab p = some t

/-- The tree with one more table, at path `p`. -/
def addTable (tab : Tables) (p : List U64) (n : U64) : Tables :=
  fun q => if q = p then some n else tab q

theorem addTable_same (tab : Tables) (p : List U64) (n : U64) :
    addTable tab p n p = some n := if_pos rfl

theorem addTable_of_ne {tab : Tables} {p q : List U64} {n : U64} (h : q ≠ p) :
    addTable tab p n q = tab q := if_neg h

/-- A path of the extended tree is the new one or an old one. -/
theorem addTable_cases {tab : Tables} {p q : List U64} {n u : U64}
    (h : addTable tab p n q = some u) : (q = p ∧ u = n) ∨ (q ≠ p ∧ tab q = some u) := by
  by_cases hq : q = p
  · rw [hq, addTable_same] at h
    exact Or.inl ⟨hq, (Option.some.inj h).symm⟩
  · rw [addTable_of_ne hq] at h
    exact Or.inr ⟨hq, h⟩

/-- The tables in use are the old ones and the new one. -/
theorem inUse_addTable {tab : Tables} {p : List U64} {n : U64} (hp : tab p = none) :
    InUse (addTable tab p n) = fun u => u = n ∨ InUse tab u := by
  funext u
  apply propext
  constructor
  · rintro ⟨q, hq⟩
    rcases addTable_cases hq with ⟨-, h⟩ | ⟨-, h⟩
    · exact Or.inl h
    · exact Or.inr ⟨q, h⟩
  · rintro (rfl | ⟨q, hq⟩)
    · exact ⟨p, addTable_same tab p u⟩
    · have hne : q ≠ p := by
        rintro rfl
        rw [hp] at hq
        exact nomatch hq
      exact ⟨q, by rw [addTable_of_ne hne]; exact hq⟩

/-- **TREE INVARIANT**: memory holds the tables `tab` and the mappings `M`. -/
structure PageTables (p2v : U64 → U64) (F : U64 → Prop) (root : U64) (mem : Mem)
    (tab : Tables) (M : PageMap) : Prop where
  root_tab : tab [] = some root
  stored : ∀ p t, tab p = some t → F t
  frame : ∀ p t, tab p = some t → p ≠ [] → t.toNat % 4096 = 0 ∧ t.toNat < 2 ^ 52
  unique : ∀ p q t, tab p = some t → tab q = some t → p = q
  parent : ∀ p i t, tab (p ++ [i]) = some t → ∃ u, tab p = some u
  inner : ∀ p t i, tab p = some t → p.length < 3 → i.toNat < 512 →
    entry p2v mem t i = (tab (p ++ [i])).elim 0 linkEntry
  leaf : ∀ v t, Valid v → tab (ptPath v) = some t →
    entry p2v mem t (idxPt v) = leafEntry (M v)
  unmapped : ∀ v, Valid v → tab (ptPath v) = none → M v = none
  shape : ∀ v x, M v = some x → ∃ paddr flags, x = installed paddr flags
  paths : ∀ p t, tab p = some t → p.length ≤ 3 ∧ ∀ i ∈ p, i.toNat < 512

variable {mem : Mem} {tab : Tables} {M : PageMap}

private theorem snoc_inj {p q : List U64} {i j : U64} (h : p ++ [i] = q ++ [j]) :
    p = q ∧ i = j := by
  obtain ⟨h1, h2⟩ := List.append_inj' h rfl
  exact ⟨h1, List.head_eq_of_cons_eq h2⟩

/-- Nothing hangs below a missing table. -/
theorem PageTables.none_below (hT : PageTables p2v F root mem tab M) {q : List U64} {j : U64}
    (hq : tab q = none) : tab (q ++ [j]) = none := by
  cases hc : tab (q ++ [j]) with
  | none => rfl
  | some u =>
      obtain ⟨u', hu'⟩ := hT.parent q j u hc
      rw [hq] at hu'
      exact nomatch hu'

/-- What zeroing a frame and linking it do to an entry of any frame. -/
theorem Storage.entry_link (hs : Storage p2v F) {t u n i j : U64} (htF : F t) (hnF : F n)
    (hu : F u) (hi : i.toNat < 512) (hj : j.toNat < 512) :
    entry p2v (store64 (vmmZeroPage mem (p2v n)) (entryAddr (p2v t) i) (linkEntry n)) u j
      = if u = t ∧ j = i then linkEntry n else if u = n then 0 else entry p2v mem u j := by
  rw [hs.entry_store htF hu hi hj, hs.entry_zeroPage hnF hu hj]

/-- A page table is no inner table. -/
theorem PageTables.ne_inner (hT : PageTables p2v F root mem tab M) {p : List U64} {t u v : U64}
    (ht : tab p = some t) (hlen : p.length < 3) (hu : tab (ptPath v) = some u) : u ≠ t := by
  intro h
  have hp := hT.unique (ptPath v) p t (h ▸ hu) ht
  rw [← hp] at hlen
  exact absurd hlen (by simp [ptPath])

/-- A fresh frame `n` for the free entry `i` of the inner table `t` at path `p`. -/
structure Linkable (F : U64 → Prop) (tab : Tables) (p : List U64) (t i n : U64) : Prop where
  table : tab p = some t
  inner : p.length < 3
  index : i.toNat < 512
  free : tab (p ++ [i]) = none
  stored : F n
  frame : n.toNat % 4096 = 0 ∧ n.toNat < 2 ^ 52
  fresh : ¬ InUse tab n

/-- The new frame is none of the tables. -/
theorem Linkable.ne {p q : List U64} {t i n u : U64} (h : Linkable F tab p t i n)
    (hq : tab q = some u) : u ≠ n :=
  fun heq => h.fresh ⟨q, heq ▸ hq⟩

/-- No table of the extended tree hangs in two places. -/
theorem PageTables.link_unique (hT : PageTables p2v F root mem tab M) {p q r : List U64}
    {t i n u : U64} (h : Linkable F tab p t i n) (hq : addTable tab (p ++ [i]) n q = some u)
    (hr : addTable tab (p ++ [i]) n r = some u) : q = r := by
  rcases addTable_cases hq with ⟨hq1, hq2⟩ | ⟨-, hq2⟩
  · rcases addTable_cases hr with ⟨hr1, -⟩ | ⟨-, hr2⟩
    · rw [hq1, hr1]
    · exact absurd hq2 (h.ne hr2)
  · rcases addTable_cases hr with ⟨-, hr2⟩ | ⟨-, hr2⟩
    · exact absurd hr2 (h.ne hq2)
    · exact hT.unique q r u hq2 hr2

/-- The entries of the inner tables, with the new table linked. -/
theorem PageTables.link_inner (hs : Storage p2v F) (hT : PageTables p2v F root mem tab M)
    {p q : List U64} {t i n u j : U64} (h : Linkable F tab p t i n)
    (hq : addTable tab (p ++ [i]) n q = some u) (hlen : q.length < 3) (hj : j.toNat < 512) :
    entry p2v (store64 (vmmZeroPage mem (p2v n)) (entryAddr (p2v t) i) (linkEntry n)) u j
      = (addTable tab (p ++ [i]) n (q ++ [j])).elim 0 linkEntry := by
  have htF := hT.stored _ _ h.table
  rcases addTable_cases hq with ⟨hq1, hq2⟩ | ⟨hq1, hq2⟩
  · -- the new table: zero, and nothing below it yet
    rw [hq2, hs.entry_link htF h.stored h.stored h.index hj,
      if_neg (fun hc => h.ne h.table hc.1.symm), if_pos rfl, addTable_of_ne (by rw [hq1]; simp),
      hT.none_below (by rw [hq1]; exact h.free)]
    rfl
  · rw [hs.entry_link htF h.stored (hT.stored _ _ hq2) h.index hj, if_neg (h.ne hq2)]
    by_cases hpi : u = t ∧ j = i
    · have hqp : q = p := hT.unique q p t (hpi.1 ▸ hq2) h.table
      rw [if_pos hpi, hqp, hpi.2, addTable_same]
      rfl
    · have hext : q ++ [j] ≠ p ++ [i] := by
        intro heq
        obtain ⟨h1, h2⟩ := snoc_inj heq
        rw [h1] at hq2
        exact hpi ⟨Option.some.inj (hq2.symm.trans h.table), h2⟩
      rw [if_neg hpi, addTable_of_ne hext]
      exact hT.inner q u j hq2 hlen hj

/-- The entries of the page tables, which the link does not reach. -/
theorem PageTables.link_leaf (hs : Storage p2v F) (hT : PageTables p2v F root mem tab M)
    {p : List U64} {t i n u v : U64} (h : Linkable F tab p t i n) (hv : Valid v)
    (hq : addTable tab (p ++ [i]) n (ptPath v) = some u) :
    entry p2v (store64 (vmmZeroPage mem (p2v n)) (entryAddr (p2v t) i) (linkEntry n)) u (idxPt v)
      = leafEntry (M v) := by
  have htF := hT.stored _ _ h.table
  rcases addTable_cases hq with ⟨hq1, hq2⟩ | ⟨-, hq2⟩
  · have hM : M v = none := hT.unmapped v hv (by rw [hq1]; exact h.free)
    rw [hq2, hs.entry_link htF h.stored h.stored h.index (idxPt_lt v),
      if_neg (fun hc => h.ne h.table hc.1.symm), if_pos rfl, hM]
    rfl
  · have hut := hT.ne_inner h.table h.inner hq2
    rw [hs.entry_link htF h.stored (hT.stored _ _ hq2) h.index (idxPt_lt v),
      if_neg (fun hc => hut hc.1), if_neg (h.ne hq2)]
    exact hT.leaf v u hv hq2

/-- Linking a fresh, zeroed table at a free inner entry extends the tree by
    one path and changes no mapping. -/
theorem PageTables.link (hs : Storage p2v F) (hT : PageTables p2v F root mem tab M)
    {p : List U64} {t i n : U64} (h : Linkable F tab p t i n) :
    PageTables p2v F root
      (store64 (vmmZeroPage mem (p2v n)) (entryAddr (p2v t) i) (linkEntry n))
      (addTable tab (p ++ [i]) n) M := by
  constructor
  case root_tab =>
    -- the root is not the table that is added
    rw [addTable_of_ne (by simp)]
    exact hT.root_tab
  case stored =>
    intro q u hq
    rcases addTable_cases hq with ⟨-, rfl⟩ | ⟨-, hq⟩
    · exact h.stored
    · exact hT.stored q u hq
  case frame =>
    intro q u hq hne
    rcases addTable_cases hq with ⟨-, rfl⟩ | ⟨-, hq⟩
    · exact h.frame
    · exact hT.frame q u hq hne
  case unique => exact fun q r u => hT.link_unique h
  case parent =>
    intro q j u hq
    rcases addTable_cases hq with ⟨hq1, -⟩ | ⟨-, hq2⟩
    · rw [(snoc_inj hq1).1, addTable_of_ne (by simp)]
      exact ⟨t, h.table⟩
    · obtain ⟨u', hu'⟩ := hT.parent q j u hq2
      by_cases hqp : q = p ++ [i]
      · exact ⟨n, by rw [hqp]; exact addTable_same ..⟩
      · exact ⟨u', by rw [addTable_of_ne hqp]; exact hu'⟩
  case inner => exact fun q u j => hT.link_inner hs h
  case leaf => exact fun v u => hT.link_leaf hs h
  case unmapped =>
    intro v hv hq
    by_cases hqp : ptPath v = p ++ [i]
    · rw [hqp, addTable_same] at hq
      cases hq
    · rw [addTable_of_ne hqp] at hq
      exact hT.unmapped v hv hq
  case shape => exact hT.shape
  case paths =>
    intro q u hq
    rcases addTable_cases hq with ⟨rfl, -⟩ | ⟨-, hq2⟩
    · refine ⟨by rw [List.length_append]; exact h.inner, fun j hj => ?_⟩
      rcases List.mem_append.mp hj with hj | hj
      · exact (hT.paths p t h.table).2 j hj
      · rw [List.mem_singleton.mp hj]
        exact h.index
    · exact hT.paths q u hq2

/-- Writing the leaf entry of an address changes the mapping of that address
    and of no other. -/
theorem PageTables.setLeaf (hs : Storage p2v F) (hT : PageTables p2v F root mem tab M)
    {v t : U64} (hv : Valid v) (ht : tab (ptPath v) = some t)
    {x : Option (U64 × U64)} (hx : ∀ y, x = some y → ∃ paddr flags, y = installed paddr flags) :
    PageTables p2v F root (store64 mem (entryAddr (p2v t) (idxPt v)) (leafEntry x)) tab
      (setPage M v x) := by
  have htF := hT.stored _ _ ht
  refine ⟨hT.root_tab, hT.stored, hT.frame, hT.unique, hT.parent, ?_, ?_, ?_, ?_, hT.paths⟩
  · intro p u i hu hlen hi
    -- no page table is a table of an inner level
    have hut := (hT.ne_inner hu hlen ht).symm
    rw [hs.entry_store htF (hT.stored _ _ hu) (idxPt_lt v) hi, if_neg (fun h => hut h.1)]
    exact hT.inner p u i hu hlen hi
  · intro a u ha hu
    rw [hs.entry_store htF (hT.stored _ _ hu) (idxPt_lt v) (idxPt_lt a)]
    by_cases hav : a = v
    · have hut : u = t := by
        rw [hav] at hu
        exact Option.some.inj (hu.symm.trans ht)
      rw [if_pos ⟨hut, by rw [hav]⟩, setPage, if_pos hav]
    · have hne : ¬ (u = t ∧ idxPt a = idxPt v) := by
        rintro ⟨hut, hpt⟩
        have hp := hT.unique (ptPath a) (ptPath v) t (hut ▸ hu) ht
        exact hav (valid_ext ha hv hp hpt)
      rw [if_neg hne, setPage, if_neg hav]
      exact hT.leaf a u ha hu
  · intro a ha hnone
    have hav : a ≠ v := by
      intro h
      rw [h, ht] at hnone
      cases hnone
    rw [setPage, if_neg hav]
    exact hT.unmapped a ha hnone
  · intro a y hy
    rw [setPage] at hy
    by_cases hav : a = v
    · rw [if_pos hav] at hy
      exact hx y hy
    · rw [if_neg hav] at hy
      exact hT.shape a y hy

/-- The tree lives in the entries of its tables: memory may change elsewhere. -/
theorem PageTables.of_entries {mem' : Mem} (hT : PageTables p2v F root mem tab M)
    (h : ∀ p t, tab p = some t → ∀ i : U64, i.toNat < 512 →
      entry p2v mem' t i = entry p2v mem t i) :
    PageTables p2v F root mem' tab M := by
  refine ⟨hT.root_tab, hT.stored, hT.frame, hT.unique, hT.parent, ?_, ?_, hT.unmapped,
    hT.shape, hT.paths⟩
  · intro p t i ht hlen hi
    rw [h p t ht i hi]
    exact hT.inner p t i ht hlen hi
  · intro v t hv ht
    rw [h _ t ht _ (idxPt_lt v)]
    exact hT.leaf v t hv ht

end VmmTree
