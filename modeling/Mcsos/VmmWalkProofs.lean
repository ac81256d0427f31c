import Mcsos.VmmRefinementProofs

/-! # Three walks over one memory

    `vmm_map_page`, `vmm_query_page` and `vmm_unmap_page` each walk down three
    levels of tables.  Nothing is assumed here of what memory holds: an entry
    may be huge, may lead to a frame that `phys_to_virt` does not reach, and
    tables may be shared or lead back to themselves.

    Both kinds of walk are taken over a path of indices: `lookPath` follows
    what is there, `openPath` allocates what is missing.  While every entry is
    present the two take the same tables.  From the first missing entry on,
    the walk of `vmm_map_page` is in tables it has just zeroed itself
    (`Blank`), where it meets neither a huge entry nor a mapping: this is where
    the frames it is given have to be fresh. -/

namespace VmmWalk

open Word ByteMemory VmmModel VmmTable VmmTree VmmRefinement

variable {Ctx : Type} {space : VmmSpace Ctx} {w : VmmWorld Ctx} {mem : Mem}
  {table i v : U64} {path : List U64}

/-! ## The walks over a path -/

/-- The walk of `vmm_query_page` and `vmm_unmap_page` from a table on. -/
def lookPath (space : VmmSpace Ctx) (mem : Mem) : U64 → List U64 → Except VmmErr U64
  | table, [] => .ok table
  | table, i :: path =>
      match nextTable space mem table i with
      | .error e => .error e
      | .ok next => lookPath space mem next path

/-- The walk of `vmm_map_page` from a table on. -/
def openPath (space : VmmSpace Ctx) :
    VmmWorld Ctx → U64 → List U64 → Except VmmErr U64 × VmmWorld Ctx
  | w, table, [] => (.ok table, w)
  | w, table, i :: path =>
      match getOrAllocNextTable space w table i with
      | (.error e, w) => (.error e, w)
      | (.ok next, w) => openPath space w next path

/-- What `vmm_map_page` does once the walk has ended. -/
def mapLeaf (v paddr flags : U64) :
    Except VmmErr U64 × VmmWorld Ctx → Except VmmErr Unit × VmmWorld Ctx
  | (.error e, w) => (.error e, w)
  | (.ok pt, w) =>
      let pte := entryAddr pt (idxPt v)
      if load64 w.mem pte &&& VMM_PTE_PRESENT ≠ 0 then (.error .exists, w)
      else
        let value := (paddr &&& VMM_PTE_ADDR_MASK) ||| VMM_PTE_PRESENT |||
          (flags &&& allowedFlags)
        (.ok (), { w with mem := store64 w.mem pte value })

/-- The table every walk starts in. -/
def rootTable (space : VmmSpace Ctx) : U64 := tableFromPhys space space.rootPaddr

/-- The walk follows the path of three indices. -/
theorem walkToPt_lookPath (hv : Valid v) (hroot : rootTable space ≠ 0) :
    walkToPt space mem v = lookPath space mem (rootTable space) (ptPath v) := by
  have hguard : ¬ ((!vmmIsCanonical v) = true ∨ (!vmmIsAligned4k v) = true) := by
    rw [hv.1, hv.2]
    decide
  rw [rootTable] at hroot ⊢
  rw [walkToPt, if_neg hguard, ptPath, lookPath]
  dsimp only
  rw [if_neg hroot]
  cases nextTable space mem (tableFromPhys space space.rootPaddr) (idxPml4 v) with
  | error e => rfl
  | ok pdpt =>
      dsimp only
      rw [lookPath]
      cases nextTable space mem pdpt (idxPdpt v) with
      | error e => rfl
      | ok pd =>
          dsimp only
          rw [lookPath]
          cases nextTable space mem pd (idxPd v) with
          | error e => rfl
          | ok pt => rfl

/-- A mapping opens the path and writes the last entry. -/
theorem vmmMapPage_openPath {paddr : U64} (hv : Valid v) (hp : vmmIsAligned4k paddr = true)
    (hroot : rootTable space ≠ 0) (flags : U64) :
    vmmMapPage space w v paddr flags
      = mapLeaf v paddr flags (openPath space w (rootTable space) (ptPath v)) := by
  have hguard : ¬ ((!vmmIsCanonical v) = true ∨ (!vmmIsAligned4k v) = true ∨
      (!vmmIsAligned4k paddr) = true) := by
    rw [hv.1, hv.2, hp]
    decide
  rw [rootTable] at hroot ⊢
  rw [vmmMapPage, if_neg hguard, ptPath, openPath]
  dsimp only
  rw [if_neg hroot]
  rcases getOrAllocNextTable space w (tableFromPhys space space.rootPaddr) (idxPml4 v) with
    ⟨e | pdpt, w1⟩
  · rfl
  · dsimp only
    rw [openPath]
    rcases getOrAllocNextTable space w1 pdpt (idxPdpt v) with ⟨e | pd, w2⟩
    · rfl
    · dsimp only
      rw [openPath]
      rcases getOrAllocNextTable space w2 pd (idxPd v) with ⟨e | pt, w3⟩
      · rfl
      · rfl

/-! ## One level -/

/-- An entry that leads on to a table. -/
def Links (e : U64) : Prop := e &&& VMM_PTE_PRESENT ≠ 0 ∧ e &&& VMM_PTE_HUGE = 0

/-- What `get_or_alloc_next_table` can do. -/
inductive Level (space : VmmSpace Ctx) (w : VmmWorld Ctx) (table i : U64) :
    Except VmmErr U64 × VmmWorld Ctx → Prop
  | found {next : U64} (hnext : nextTable space w.mem table i = .ok next) :
      Level space w table i (.ok next, w)
  | huge (hpresent : load64 w.mem (entryAddr table i) &&& VMM_PTE_PRESENT ≠ 0)
      (hhuge : load64 w.mem (entryAddr table i) &&& VMM_PTE_HUGE ≠ 0) :
      Level space w table i (.error .exists, w)
  | refused {e : VmmErr} {w' : VmmWorld Ctx} (he : e ≠ .exists) :
      Level space w table i (.error e, w')
  | linked {allocFrame : Ctx → U64 × Ctx} (halloc : space.allocFrame = some allocFrame)
      (hframe : (allocFrame w.ctx).1 ≠ VMM_INVALID_PHYS)
      (hreached : tableFromPhys space (allocFrame w.ctx).1 ≠ 0) :
      Level space w table i (.ok (tableFromPhys space (allocFrame w.ctx).1),
        ⟨store64 (vmmZeroPage w.mem (tableFromPhys space (allocFrame w.ctx).1))
          (entryAddr table i) (linkEntry (allocFrame w.ctx).1), (allocFrame w.ctx).2⟩)

/-- A look finds a table behind a linking entry that `phys_to_virt` reaches. -/
theorem nextTable_ok {next : U64} (h : nextTable space mem table i = .ok next) :
    Links (load64 mem (entryAddr table i)) ∧ next ≠ 0 ∧
    next = tableFromPhys space (load64 mem (entryAddr table i) &&& VMM_PTE_ADDR_MASK) := by
  rw [nextTable] at h
  dsimp only at h
  split at h
  · cases h
  · rename_i hlinks
    split at h
    · cases h
    · rename_i hnext
      cases h
      exact ⟨⟨fun h0 => hlinks (Or.inl h0), Decidable.not_not.mp (fun h0 => hlinks (Or.inr h0))⟩,
        hnext, rfl⟩

/-- The two walks take the same step where there is a table. -/
theorem getOrAllocNextTable_found {next : U64} (h : nextTable space w.mem table i = .ok next) :
    getOrAllocNextTable space w table i = (.ok next, w) := by
  obtain ⟨⟨hpresent, hhuge⟩, hne, hnext⟩ := nextTable_ok h
  rw [getOrAllocNextTable]
  dsimp only
  rw [if_pos hpresent, if_neg (not_not_intro hhuge), ← hnext, if_neg hne]

/-- A missing level is allocated, or refused for another reason than a mapping. -/
theorem getOrAllocNextTable_absent
    (habsent : ¬ load64 w.mem (entryAddr table i) &&& VMM_PTE_PRESENT ≠ 0) :
    Level space w table i (getOrAllocNextTable space w table i) := by
  rw [getOrAllocNextTable]
  dsimp only
  rw [if_neg habsent]
  cases halloc : space.allocFrame with
  | none => exact .refused (by decide)
  | some allocFrame =>
      dsimp only
      split
      · exact .refused (by decide)
      · rename_i hframe
        split
        · cases space.freeFrame with
          | none => exact .refused (by decide)
          | some freeFrame => exact .refused (by decide)
        · -- the frame is there and can be reached, so it is linked
          rename_i hreached
          exact .linked halloc (fun h => hframe (Or.inl h)) hreached

/-- **LEVEL**: `get_or_alloc_next_table` follows what a look follows, stops at
    a huge entry, or is past what memory held. -/
theorem getOrAllocNextTable_level :
    Level space w table i (getOrAllocNextTable space w table i) := by
  by_cases hpresent : load64 w.mem (entryAddr table i) &&& VMM_PTE_PRESENT ≠ 0
  · by_cases hhuge : load64 w.mem (entryAddr table i) &&& VMM_PTE_HUGE ≠ 0
    · have heq : getOrAllocNextTable space w table i = (.error .exists, w) := by
        rw [getOrAllocNextTable]
        dsimp only
        rw [if_pos hpresent, if_pos hhuge]
      rw [heq]
      exact .huge hpresent hhuge
    · cases hnext : nextTable space w.mem table i with
      | ok next =>
          rw [getOrAllocNextTable_found hnext]
          exact .found hnext
      | error e =>
          -- the entry links a frame that is not reached
          rw [getOrAllocNextTable]
          dsimp only
          rw [if_pos hpresent, if_neg hhuge]
          split
          · exact .refused (by decide)
          · rename_i hreached
            rw [nextTable] at hnext
            dsimp only at hnext
            rw [if_neg (fun h => h.elim hpresent hhuge), if_neg hreached] at hnext
            cases hnext
  · exact getOrAllocNextTable_absent hpresent

/-! ## A mapped address -/

/-- Where a look arrives, the walk of `vmm_map_page` arrives with nothing
    allocated and nothing written. -/
theorem openPath_of_lookPath {pt : U64} (path : List U64) :
    ∀ {table : U64}, lookPath space w.mem table path = .ok pt →
      openPath space w table path = (.ok pt, w) := by
  induction path with
  | nil =>
      intro table h
      cases h
      rfl
  | cons i path ih =>
      intro table h
      rw [lookPath] at h
      cases hnext : nextTable space w.mem table i with
      | error e =>
          rw [hnext] at h
          cases h
      | ok next =>
          rw [hnext] at h
          rw [openPath, getOrAllocNextTable_found hnext]
          exact ih h

/-- A walk that arrives is one of a canonical, aligned address, from a root
    that is reached. -/
theorem walkToPt_ok {pt : U64} (h : walkToPt space mem v = .ok pt) :
    Valid v ∧ rootTable space ≠ 0 := by
  by_cases hv : Valid v
  · refine ⟨hv, fun hroot => ?_⟩
    rw [walkToPt] at h
    split at h
    · cases h
    · rw [rootTable] at hroot
      dsimp only at h
      rw [if_pos hroot] at h
      cases h
  · rw [walkToPt_invalid hv] at h
    cases h

/-- A page that is found has an entry. -/
theorem vmmQueryPage_ok {m : VmmMapping} (h : vmmQueryPage space mem v = .ok m) :
    ∃ pt, walkToPt space mem v = .ok pt ∧
      load64 mem (entryAddr pt (idxPt v)) &&& VMM_PTE_PRESENT ≠ 0 := by
  rw [vmmQueryPage] at h
  cases hwalk : walkToPt space mem v with
  | error e =>
      rw [hwalk] at h
      cases h
  | ok pt =>
      refine ⟨pt, rfl, fun habsent => ?_⟩
      rw [hwalk] at h
      dsimp only at h
      rw [if_pos habsent] at h
      cases h

/-- **MAPPED**: an address that a query finds cannot be mapped again, and the
    attempt leaves memory and the allocator as they were. -/
theorem vmmMapPage_of_query {m : VmmMapping} {paddr : U64}
    (h : vmmQueryPage space w.mem v = .ok m) (hp : vmmIsAligned4k paddr = true) (flags : U64) :
    vmmMapPage space w v paddr flags = (.error .exists, w) := by
  obtain ⟨pt, hwalk, hpresent⟩ := vmmQueryPage_ok h
  obtain ⟨hv, hroot⟩ := walkToPt_ok hwalk
  rw [walkToPt_lookPath hv hroot] at hwalk
  rw [vmmMapPage_openPath hv hp hroot, openPath_of_lookPath _ hwalk, mapLeaf, if_pos hpresent]

/-- The code of a query and of an unmap, at every address and every memory. -/
theorem vmmUnmapPage_code (space : VmmSpace Ctx) (w : VmmWorld Ctx) (v : U64) :
    (vmmUnmapPage space w v).1 = (vmmQueryPage space w.mem v).map (fun _ => ()) := by
  rw [vmmUnmapPage, vmmQueryPage]
  cases walkToPt space w.mem v with
  | error e => rfl
  | ok pt =>
      dsimp only
      split
      · rfl
      · rfl

/-! ## Fresh frames -/

/-- The frame `t` is a table `k` levels below the root. -/
inductive TableAt (space : VmmSpace Ctx) (mem : Mem) : Nat → U64 → Prop
  | root : TableAt space mem 0 space.rootPaddr
  | link {k : Nat} {t i : U64} (ht : TableAt space mem k t) (hk : k < 3)
      (hreached : tableFromPhys space t ≠ 0) (hi : i.toNat < 512)
      (hlinks : Links (entry (tableFromPhys space) mem t i)) :
      TableAt space mem (k + 1) (entry (tableFromPhys space) mem t i &&& VMM_PTE_ADDR_MASK)

/-- The frame is in use as a table, at some level. -/
def UsedAsTable (space : VmmSpace Ctx) (mem : Mem) (t : U64) : Prop := ∃ k, TableAt space mem k t

/-- The frames `alloc_frame` hands out from `ctx` on are distinct and none of
    them is one of `U`. -/
def Fresh (allocFrame : Ctx → U64 × Ctx) (ctx : Ctx) (U : U64 → Prop) : Prop :=
  ∀ n, nthFrame allocFrame ctx n = VMM_INVALID_PHYS ∨
    (¬ U (nthFrame allocFrame ctx n) ∧
      ∀ m, m < n → nthFrame allocFrame ctx m ≠ nthFrame allocFrame ctx n)

/-- `phys_to_virt` gives every frame that it reaches a page of its own. -/
def OwnPages (space : VmmSpace Ctx) : Prop :=
  Storage (tableFromPhys space) (fun p => tableFromPhys space p ≠ 0)

/-- A frame that is reached is aligned. -/
theorem tableFromPhys_reached {p2v : U64 → U64} (hp2v : space.physToVirt = some p2v) {p : U64}
    (hp : tableFromPhys space p ≠ 0) : p.toNat % 4096 = 0 ∧ tableFromPhys space p = p2v p := by
  rw [tableFromPhys, hp2v] at hp ⊢
  dsimp only at hp ⊢
  split at hp
  · exact absurd rfl hp
  · rename_i hal
    rw [if_neg hal]
    rw [Bool.not_eq_true', Bool.not_eq_false] at hal
    exact ⟨(aligned_iff p).mp hal, rfl⟩

/-- A translation by a fixed offset of whole pages, as that of the kernel, gives every
    frame a page of its own. -/
theorem ownPages_offset {p2v : U64 → U64} {offset : U64} (hp2v : space.physToVirt = some p2v)
    (hoffset : ∀ p, p2v p = offset + p) (hal : offset.toNat % 4096 = 0) : OwnPages space := by
  refine ⟨fun p hp => hp, fun p hp => ?_, fun p q hp hq hne => ?_⟩
  · obtain ⟨hpal, heq⟩ := tableFromPhys_reached hp2v hp
    rw [heq, hoffset]
    bv_omega
  · obtain ⟨hpal, heq⟩ := tableFromPhys_reached hp2v hp
    obtain ⟨hqal, heq'⟩ := tableFromPhys_reached hp2v hq
    rw [heq, heq', hoffset, hoffset]
    have hne' : p.toNat ≠ q.toNat := fun h => hne (BitVec.eq_of_toNat_eq h)
    bv_omega

/-- The allocator's states, one further. -/
theorem nthCtx_next (allocFrame : Ctx → U64 × Ctx) (ctx : Ctx) (n : Nat) :
    nthCtx allocFrame (allocFrame ctx).2 n = nthCtx allocFrame ctx (n + 1) := by
  induction n with
  | zero => rfl
  | succ n ih =>
      show (allocFrame (nthCtx allocFrame (allocFrame ctx).2 n)).2 = _
      rw [ih]
      rfl

/-- After a frame is handed out, no later one is that frame. -/
theorem Fresh.next {allocFrame : Ctx → U64 × Ctx} {ctx : Ctx} {U : U64 → Prop}
    (h : Fresh allocFrame ctx U) (halloc : space.allocFrame = some allocFrame) :
    ∀ alloc, space.allocFrame = some alloc →
      Fresh alloc (allocFrame ctx).2 (· = (allocFrame ctx).1) := by
  intro alloc halloc' n
  rw [halloc] at halloc'
  cases halloc'
  have hshift : ∀ m, nthFrame allocFrame (allocFrame ctx).2 m
      = nthFrame allocFrame ctx (m + 1) := by
    intro m
    rw [nthFrame, nthFrame, nthCtx_next]
  rw [hshift]
  rcases h (n + 1) with hinvalid | ⟨-, hdistinct⟩
  · exact Or.inl hinvalid
  · refine Or.inr ⟨(hdistinct 0 (Nat.succ_pos n)).symm, fun m hm => ?_⟩
    rw [hshift]
    exact hdistinct (m + 1) (by omega)

/-- The first frame handed out is none of `U`. -/
theorem Fresh.first {allocFrame : Ctx → U64 × Ctx} {ctx : Ctx} {U : U64 → Prop}
    (h : Fresh allocFrame ctx U) (hvalid : (allocFrame ctx).1 ≠ VMM_INVALID_PHYS) :
    ¬ U (allocFrame ctx).1 := by
  rcases h 0 with hinvalid | ⟨hnew, -⟩
  · exact absurd hinvalid hvalid
  · exact hnew

/-! ## Tables that were just zeroed -/

/-- A table that is reached and holds nothing. -/
structure Blank (space : VmmSpace Ctx) (mem : Mem) (t : U64) : Prop where
  reached : tableFromPhys space t ≠ 0
  zero : ∀ i : U64, i.toNat < 512 → load64 mem (entryAddr (tableFromPhys space t) i) = 0

/-- A walk that met no huge entry and, if it arrived, arrived in a blank table. -/
structure Harmless (space : VmmSpace Ctx) (r : Except VmmErr U64 × VmmWorld Ctx) : Prop where
  free : r.1 ≠ .error .exists
  blank : ∀ pt, r.1 = .ok pt → ∃ t, pt = tableFromPhys space t ∧ Blank space r.2.mem t

theorem Harmless.refused {e : VmmErr} (he : e ≠ .exists) : Harmless space (.error e, w) :=
  ⟨fun h => he (Except.error.inj h), fun _ h => by cases h⟩

/-- A frame that is zeroed and linked from another table is blank. -/
theorem OwnPages.blank (hs : OwnPages space) {t n : U64} (ht : tableFromPhys space t ≠ 0)
    (hn : tableFromPhys space n ≠ 0) (hi : i.toNat < 512) (hne : n ≠ t) :
    Blank space (store64 (vmmZeroPage mem (tableFromPhys space n))
      (entryAddr (tableFromPhys space t) i) (linkEntry n)) n := by
  refine ⟨hn, fun j hj => ?_⟩
  show entry (tableFromPhys space) _ n j = 0
  rw [Storage.entry_link hs ht hn hn hi hj, if_neg (fun h => hne h.1), if_pos rfl]

/-- What a walk from a blank table does: every level is missing, and the table
    that is put there is blank again. -/
theorem openPath_blank (hs : OwnPages space) (path : List U64) :
    ∀ {w : VmmWorld Ctx} {t : U64}, Blank space w.mem t →
      (∀ allocFrame, space.allocFrame = some allocFrame → Fresh allocFrame w.ctx (· = t)) →
      (∀ i ∈ path, i.toNat < 512) →
      Harmless space (openPath space w (tableFromPhys space t) path) := by
  induction path with
  | nil =>
      intro w t hblank _ _
      exact ⟨fun h => (by cases h), fun pt h => ⟨t, (Except.ok.inj h).symm, hblank⟩⟩
  | cons i path ih =>
      intro w t hblank hfresh hpath
      have hi := hpath i List.mem_cons_self
      -- a blank table has no links to follow
      have hzero := hblank.zero i hi
      have hlevel : Level space w (tableFromPhys space t) i _ := getOrAllocNextTable_level
      rw [openPath]
      generalize getOrAllocNextTable space w (tableFromPhys space t) i = r at hlevel ⊢
      cases hlevel with
      | found hnext =>
          obtain ⟨⟨hpresent, -⟩, -⟩ := nextTable_ok hnext
          rw [hzero] at hpresent
          exact absurd hpresent (by decide)
      | huge hpresent =>
          rw [hzero] at hpresent
          exact absurd hpresent (by decide)
      | refused he => exact Harmless.refused he
      | linked halloc hframe hreached =>
          have hnew := (hfresh _ halloc).first hframe
          exact ih (hs.blank hblank.reached hreached hi hnew) (hfresh _ halloc |>.next halloc)
            (fun j hj => hpath j (List.mem_cons_of_mem i hj))

/-! ## Where the walks part -/

/-- The walk along a path meets an entry that is present and huge. -/
inductive MeetsHuge (space : VmmSpace Ctx) (mem : Mem) : U64 → List U64 → Prop
  | here {table i : U64} {path : List U64}
      (hpresent : load64 mem (entryAddr table i) &&& VMM_PTE_PRESENT ≠ 0)
      (hhuge : load64 mem (entryAddr table i) &&& VMM_PTE_HUGE ≠ 0) :
      MeetsHuge space mem table (i :: path)
  | later {table i next : U64} {path : List U64} (hnext : nextTable space mem table i = .ok next)
      (hlater : MeetsHuge space mem next path) : MeetsHuge space mem table (i :: path)

/-- **WALK**: the walk of `vmm_map_page` arrives where a look arrives, or the
    look meets a huge entry, or the walk is harmless. -/
theorem openPath_cases (hs : OwnPages space)
    (hfresh : ∀ allocFrame, space.allocFrame = some allocFrame →
      Fresh allocFrame w.ctx (UsedAsTable space w.mem)) (path : List U64) :
    ∀ {k : Nat} {t : U64}, TableAt space w.mem k t → k + path.length ≤ 3 →
      tableFromPhys space t ≠ 0 → (∀ i ∈ path, i.toNat < 512) →
      (∃ pt, lookPath space w.mem (tableFromPhys space t) path = .ok pt) ∨
      MeetsHuge space w.mem (tableFromPhys space t) path ∨
      Harmless space (openPath space w (tableFromPhys space t) path) := by
  induction path with
  | nil =>
      intro k t _ _ _ _
      exact Or.inl ⟨_, rfl⟩
  | cons i path ih =>
      intro k t ht hk hreached hpath
      have hi := hpath i List.mem_cons_self
      have hrest : ∀ j ∈ path, j.toNat < 512 := fun j hj => hpath j (List.mem_cons_of_mem i hj)
      rw [List.length_cons] at hk
      have hlevel : Level space w (tableFromPhys space t) i _ := getOrAllocNextTable_level
      rw [openPath]
      generalize getOrAllocNextTable space w (tableFromPhys space t) i = r at hlevel ⊢
      cases hlevel with
      | found hnext =>
          obtain ⟨hlinks, hne, hframe⟩ := nextTable_ok hnext
          have ht' := TableAt.link ht (by omega) hreached hi hlinks
          rw [hframe] at hne
          have hwalk := ih ht' (by omega) hne hrest
          rw [entry, ← hframe] at hwalk
          rcases hwalk with ⟨pt, hlook⟩ | hhuge | hharmless
          · refine Or.inl ⟨pt, ?_⟩
            rw [lookPath, hnext]
            exact hlook
          · exact Or.inr (Or.inl (.later hnext hhuge))
          · exact Or.inr (Or.inr hharmless)
      | huge hpresent hhuge => exact Or.inr (Or.inl (.here hpresent hhuge))
      | refused he => exact Or.inr (Or.inr (Harmless.refused he))
      | @linked allocFrame halloc hframe hreached' =>
          have hnew := (hfresh _ halloc).first hframe
          -- the new frame is no table yet
          have hne : (allocFrame w.ctx).1 ≠ t := by
            intro h
            rw [h] at hnew
            exact hnew ⟨k, ht⟩
          exact Or.inr (Or.inr (openPath_blank hs path (hs.blank hreached hreached' hi hne)
            (hfresh _ halloc |>.next halloc) hrest))

/-- Every index is below 512. -/
theorem ptPath_lt (v : U64) : ∀ i ∈ ptPath v, i.toNat < 512 := by
  intro i hi
  simp only [ptPath, List.mem_cons, List.not_mem_nil, or_false] at hi
  rcases hi with rfl | rfl | rfl
  · exact idxPml4_lt v
  · exact idxPdpt_lt v
  · exact idxPd_lt v

/-- After a harmless walk there is room for the mapping. -/
theorem mapLeaf_harmless {r : Except VmmErr U64 × VmmWorld Ctx} (h : Harmless space r)
    (v paddr flags : U64) : (mapLeaf v paddr flags r).1 ≠ .error .exists := by
  rcases r with ⟨e | pt, w'⟩
  · intro heq
    exact h.free (congrArg Except.error (Except.error.inj heq))
  · obtain ⟨t, rfl, hblank⟩ := h.blank pt rfl
    rw [mapLeaf, hblank.zero _ (idxPt_lt v), if_neg (by decide)]
    intro heq
    cases heq

/-- **TAKEN**: `vmm_map_page` finds an address taken only where a query finds
    it mapped or the walk meets a huge entry. -/
theorem vmmMapPage_exists (hs : OwnPages space)
    (hfresh : ∀ allocFrame, space.allocFrame = some allocFrame →
      Fresh allocFrame w.ctx (UsedAsTable space w.mem)) {paddr flags : U64}
    (h : (vmmMapPage space w v paddr flags).1 = .error .exists) :
    (∃ m, vmmQueryPage space w.mem v = .ok m) ∨
      MeetsHuge space w.mem (rootTable space) (ptPath v) := by
  have hguard : Valid v ∧ vmmIsAligned4k paddr = true ∧ rootTable space ≠ 0 := by
    rw [vmmMapPage] at h
    split at h
    · cases h
    · rename_i hok
      simp only [Bool.not_eq_true', not_or, Bool.not_eq_false] at hok
      refine ⟨⟨hok.1, hok.2.1⟩, hok.2.2, fun hroot => ?_⟩
      rw [rootTable] at hroot
      dsimp only at h
      rw [if_pos hroot] at h
      cases h
  obtain ⟨hv, hp, hroot⟩ := hguard
  rw [vmmMapPage_openPath hv hp hroot] at h
  -- the path was there, met a huge page, or is new and has an empty entry
  rcases openPath_cases hs hfresh (ptPath v) .root (Nat.le_refl 3) hroot (ptPath_lt v) with
    ⟨pt, hlook⟩ | hhuge | hharmless
  · refine Or.inl ?_
    rw [rootTable, openPath_of_lookPath _ hlook, mapLeaf] at h
    rw [vmmQueryPage, walkToPt_lookPath hv hroot, rootTable, hlook]
    dsimp only
    split
    · rename_i habsent
      rw [if_neg (not_not_intro habsent)] at h
      cases h
    · exact ⟨_, rfl⟩
  · exact Or.inr hhuge
  · exact absurd h (mapLeaf_harmless hharmless v paddr flags)

/-- **THREE WALKS AGREE**: over any content of memory, an unmap answers as a
    query; an address that a query finds is refused by `vmm_map_page`, with
    nothing allocated and nothing written; and `vmm_map_page` finds an address
    taken only where a query finds it or its walk meets a huge entry. -/
theorem walkers_agree (space : VmmSpace Ctx) (w : VmmWorld Ctx) (v : U64)
    (hpages : OwnPages space)
    (hfresh : ∀ allocFrame, space.allocFrame = some allocFrame →
      Fresh allocFrame w.ctx (UsedAsTable space w.mem)) :
    (vmmUnmapPage space w v).1 = (vmmQueryPage space w.mem v).map (fun _ => ()) ∧
    (∀ m, vmmQueryPage space w.mem v = .ok m →
      ∀ paddr flags, vmmIsAligned4k paddr = true →
        vmmMapPage space w v paddr flags = (.error .exists, w)) ∧
    (∀ paddr flags, (vmmMapPage space w v paddr flags).1 = .error .exists →
      (∃ m, vmmQueryPage space w.mem v = .ok m) ∨
        MeetsHuge space w.mem (rootTable space) (ptPath v)) :=
  ⟨vmmUnmapPage_code space w v,
   fun _ hquery _ flags hp => vmmMapPage_of_query hquery hp flags,
   fun _ _ htaken => vmmMapPage_exists hpages hfresh htaken⟩

/-! ## A root that links itself -/

/-- Memory in which the first entry of the root leads back to the root. -/
def selfLinked : Mem :=
  store64 (fun _ => 0) (entryAddr (tableFromPhys smallSpace 0) 0) VMM_PTE_PRESENT

/-- The example's tables have pages of their own. -/
theorem small_ownPages : OwnPages smallSpace :=
  ownPages_offset rfl (fun p => BitVec.add_comm p 0x1000000000000000) (by decide)

/-- The root is the only table, at every level. -/
theorem selfLinked_tables {k : Nat} {t : U64} (h : TableAt smallSpace selfLinked k t) : t = 0 := by
  induction h with
  | root => rfl
  | @link k t i _ _ _ hi _ ih =>
      have hroot : tableFromPhys smallSpace 0 ≠ 0 := by decide
      rw [ih, selfLinked, small_ownPages.entry_store hroot hroot (by decide) hi]
      split
      · decide
      · have hblank : entry (tableFromPhys smallSpace) (fun _ => 0) 0 i = 0 := by
          simp [entry, load64, loadBytes]
        rw [hblank]
        decide

theorem selfLinked_fresh : ∀ allocFrame, smallSpace.allocFrame = some allocFrame →
    Fresh allocFrame 0 (UsedAsTable smallSpace selfLinked) := by
  intro allocFrame halloc n
  cases halloc
  rcases threeFrames_fresh n with hinvalid | ⟨-, -, -, hroot, hdistinct⟩
  · exact Or.inl hinvalid
  · exact Or.inr ⟨fun ⟨_, ht⟩ => hroot (selfLinked_tables ht), hdistinct⟩

/-- The first page of the self-linked root is mapped, to the root itself. -/
theorem walkers_agree_selfLinked :
    (vmmUnmapPage smallSpace ⟨selfLinked, 0⟩ 0).1 = .ok () ∧
    vmmMapPage smallSpace ⟨selfLinked, 0⟩ 0 0x7000 3 = (.error .exists, ⟨selfLinked, 0⟩) := by
  have hquery : vmmQueryPage smallSpace selfLinked 0 = .ok ⟨0, 0, 1⟩ := by decide +kernel
  obtain ⟨hcode, hmapped, -⟩ :=
    walkers_agree smallSpace ⟨selfLinked, 0⟩ 0 small_ownPages selfLinked_fresh
  refine ⟨?_, hmapped _ hquery 0x7000 3 (by decide)⟩
  rw [hcode, hquery]
  rfl

end VmmWalk
