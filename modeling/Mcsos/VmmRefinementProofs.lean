import Mcsos.VmmTreeProofs

/-! # The page tables refine a partial map

    Each call of the walker is taken through the tree invariant: a level that
    exists is followed, a missing level is allocated, zeroed and linked, and
    only the last store touches a mapping.  A call that fails at any level
    has at most linked empty tables, which the invariant absorbs without a
    change to the map.

    The frame allocator enters by a contract: an invariant `A` of its state
    that knows the tables in use and from which every frame handed out is
    fresh.  Streams of fresh frames (`FreshFrames`) satisfy it. -/

namespace VmmRefinement

open Word ByteMemory VmmModel VmmTable VmmTree

variable {Ctx : Type}

/-- What the walker asks of its surroundings.  `A ctx U` says that the
    allocator state `ctx` will not hand out any of the tables `U`. -/
structure Env (space : VmmSpace Ctx) (p2v : U64 → U64) (F : U64 → Prop)
    (A : Ctx → (U64 → Prop) → Prop) : Prop where
  physToVirt : space.physToVirt = some p2v
  aligned : space.rootPaddr.toNat % 4096 = 0
  storage : Storage p2v F
  fresh : ∀ allocFrame, space.allocFrame = some allocFrame → ∀ ctx U, A ctx U →
    ((allocFrame ctx).1 = VMM_INVALID_PHYS ∧ A (allocFrame ctx).2 U) ∨
    ((allocFrame ctx).1.toNat % 4096 = 0 ∧ (allocFrame ctx).1.toNat < 2 ^ 52 ∧
      F (allocFrame ctx).1 ∧ ¬ U (allocFrame ctx).1 ∧
      A (allocFrame ctx).2 (fun t => t = (allocFrame ctx).1 ∨ U t))

variable {space : VmmSpace Ctx} {p2v : U64 → U64} {F : U64 → Prop}
  {A : Ctx → (U64 → Prop) → Prop} {w : VmmWorld Ctx} {M : PageMap}

/-- An aligned table is reached through the direct map. -/
theorem Env.tableFromPhys_eq (hE : Env space p2v F A) {p : U64} (hp : p.toNat % 4096 = 0) :
    tableFromPhys space p = p2v p := by
  rw [tableFromPhys, hE.physToVirt]
  show (if (!vmmIsAligned4k p) = true then 0 else p2v p) = p2v p
  rw [(aligned_iff p).mpr hp]
  rfl

/-- The world holds the map `M`, in some tree. -/
def Holds (space : VmmSpace Ctx) (p2v : U64 → U64) (F : U64 → Prop)
    (A : Ctx → (U64 → Prop) → Prop) (w : VmmWorld Ctx) (M : PageMap) : Prop :=
  ∃ tab, PageTables p2v F space.rootPaddr w.mem tab M ∧ A w.ctx (InUse tab)

/-- The walk has reached the table at path `p`. -/
def At (space : VmmSpace Ctx) (p2v : U64 → U64) (F : U64 → Prop)
    (A : Ctx → (U64 → Prop) → Prop) (w : VmmWorld Ctx) (M : PageMap) (p : List U64)
    (table : U64) : Prop :=
  ∃ tab t, PageTables p2v F space.rootPaddr w.mem tab M ∧ A w.ctx (InUse tab) ∧
    tab p = some t ∧ table = p2v t

theorem At.holds {p : List U64} {table : U64} (h : At space p2v F A w M p table) :
    Holds space p2v F A w M := by
  obtain ⟨tab, t, hT, hA, -⟩ := h
  exact ⟨tab, hT, hA⟩

theorem At.nonnull (hE : Env space p2v F A) {p : List U64} {table : U64}
    (h : At space p2v F A w M p table) : table ≠ 0 := by
  obtain ⟨tab, t, hT, -, ht, rfl⟩ := h
  exact hE.storage.nonnull t (hT.stored p t ht)

/-- The walk starts at the root. -/
theorem Holds.at_root (hE : Env space p2v F A) (h : Holds space p2v F A w M) :
    At space p2v F A w M [] (tableFromPhys space space.rootPaddr) := by
  obtain ⟨tab, hT, hA⟩ := h
  exact ⟨tab, space.rootPaddr, hT, hA, hT.root_tab, hE.tableFromPhys_eq hE.aligned⟩

/-! ## One level down, allocating -/

/-- A level that is there is followed. -/
theorem getOrAllocNextTable_present (hE : Env space p2v F A) {table t i : U64} (hF : F t)
    (hal : t.toNat % 4096 = 0) (hlt : t.toNat < 2 ^ 52)
    (hentry : load64 w.mem (entryAddr table i) = linkEntry t) :
    getOrAllocNextTable space w table i = (.ok (p2v t), w) := by
  obtain ⟨hpresent, hhuge, haddr⟩ := linkEntry_bits hal hlt
  simp only [getOrAllocNextTable, hentry]
  rw [if_pos hpresent, if_neg (not_not_intro hhuge), haddr, hE.tableFromPhys_eq hal,
    if_neg (hE.storage.nonnull t hF)]

private theorem absent_entry : ¬ ((0 : U64) &&& VMM_PTE_PRESENT ≠ 0) := by decide

/-- A fresh frame is zeroed and then linked. -/
theorem getOrAllocNextTable_fresh (hE : Env space p2v F A) {table i n : U64}
    {allocFrame : Ctx → U64 × Ctx} (halloc : space.allocFrame = some allocFrame)
    (hn : (allocFrame w.ctx).1 = n) (hF : F n) (hal : n.toNat % 4096 = 0)
    (hlt : n.toNat < 2 ^ 52) (hentry : load64 w.mem (entryAddr table i) = 0) :
    getOrAllocNextTable space w table i
      = (.ok (p2v n),
         { mem := store64 (vmmZeroPage w.mem (p2v n)) (entryAddr table i) (linkEntry n)
           ctx := (allocFrame w.ctx).2 }) := by
  have hvalid : ¬ (n = VMM_INVALID_PHYS ∨ (!vmmIsAligned4k n) = true) := by
    rintro (hinv | hbad)
    · rw [hinv] at hlt
      exact absurd hlt (by decide)
    · rw [(aligned_iff n).mpr hal] at hbad
      exact absurd hbad Bool.false_ne_true
  simp only [getOrAllocNextTable, hentry, halloc, hn]
  rw [if_neg absent_entry, if_neg hvalid, hE.tableFromPhys_eq hal,
    if_neg (hE.storage.nonnull n hF)]
  rfl

/-- **LEVEL**: `get_or_alloc_next_table` reaches the next path, or fails for
    want of a frame; the map stays. -/
theorem getOrAllocNextTable_spec (hE : Env space p2v F A) {p : List U64} {table i : U64}
    (h : At space p2v F A w M p table) (hlen : p.length < 3) (hi : i.toNat < 512) :
    (∃ next, (getOrAllocNextTable space w table i).1 = .ok next ∧
      At space p2v F A (getOrAllocNextTable space w table i).2 M (p ++ [i]) next) ∨
    ((getOrAllocNextTable space w table i).1 = .error .nomem ∧
      Holds space p2v F A (getOrAllocNextTable space w table i).2 M) := by
  obtain ⟨tab, t, hT, hA, ht, rfl⟩ := h
  -- the entry is a link or zero, and nothing else
  have hentry : load64 w.mem (entryAddr (p2v t) i) = (tab (p ++ [i])).elim 0 linkEntry :=
    hT.inner p t i ht hlen hi
  cases hnext : tab (p ++ [i]) with
  | some t' =>
      obtain ⟨hal, hlt⟩ := hT.frame _ _ hnext (by simp)
      rw [hnext] at hentry
      rw [getOrAllocNextTable_present hE (hT.stored _ _ hnext) hal hlt hentry]
      exact Or.inl ⟨p2v t', rfl, tab, t', hT, hA, hnext, rfl⟩
  | none =>
      rw [hnext] at hentry
      cases halloc : space.allocFrame with
      | none =>
          have heq : getOrAllocNextTable space w (p2v t) i = (.error .nomem, w) := by
            simp only [getOrAllocNextTable, hentry, Option.elim_none, halloc]
            rw [if_neg absent_entry]
          rw [heq]
          exact Or.inr ⟨rfl, tab, hT, hA⟩
      | some allocFrame =>
          rcases hE.fresh allocFrame halloc w.ctx _ hA with
            ⟨hinvalid, hA'⟩ | ⟨hal, hlt, hF, hnew, hA'⟩
          · have heq : getOrAllocNextTable space w (p2v t) i
                = (.error .nomem, { w with ctx := (allocFrame w.ctx).2 }) := by
              simp only [getOrAllocNextTable, hentry, Option.elim_none, halloc]
              rw [if_neg absent_entry, if_pos (Or.inl hinvalid)]
            rw [heq]
            exact Or.inr ⟨rfl, tab, hT, hA'⟩
          · rw [getOrAllocNextTable_fresh hE halloc rfl hF hal hlt hentry]
            refine Or.inl ⟨_, rfl, addTable tab (p ++ [i]) _, _,
              hT.link hE.storage ⟨ht, hlen, hi, hnext, hF, ⟨hal, hlt⟩, hnew⟩, ?_,
              addTable_same .., rfl⟩
            rw [inUse_addTable hnext]
            exact hA'

/-! ## One level down, looking -/

/-- The next table is the linked one. -/
theorem nextTable_spec (hE : Env space p2v F A) {mem : Mem} {tab : Tables}
    (hT : PageTables p2v F space.rootPaddr mem tab M) {p : List U64} {t i : U64}
    (ht : tab p = some t) (hlen : p.length < 3) (hi : i.toNat < 512) :
    nextTable space mem (p2v t) i
      = (tab (p ++ [i])).elim (.error .notFound) (fun t' => .ok (p2v t')) := by
  have hentry : load64 mem (entryAddr (p2v t) i) = (tab (p ++ [i])).elim 0 linkEntry :=
    hT.inner p t i ht hlen hi
  cases hnext : tab (p ++ [i]) with
  | none =>
      rw [hnext] at hentry
      simp only [nextTable, hentry, Option.elim_none]
      rfl
  | some t' =>
      obtain ⟨hal, hlt⟩ := hT.frame _ _ hnext (by simp)
      obtain ⟨hpresent, hhuge, haddr⟩ := linkEntry_bits hal hlt
      rw [hnext] at hentry
      have hok : ¬ (linkEntry t' &&& VMM_PTE_PRESENT = 0 ∨ linkEntry t' &&& VMM_PTE_HUGE ≠ 0) := by
        rintro (h | h)
        · exact hpresent h
        · exact h hhuge
      simp only [nextTable, hentry, Option.elim_some]
      rw [if_neg hok, haddr, hE.tableFromPhys_eq hal,
          if_neg (hE.storage.nonnull t' (hT.stored _ _ hnext))]

/-- The walk ends in the page table of the address if there is one. -/
theorem walkToPt_spec (hE : Env space p2v F A) {mem : Mem} {tab : Tables}
    (hT : PageTables p2v F space.rootPaddr mem tab M) {v : U64} (hv : Valid v) :
    walkToPt space mem v
      = (tab (ptPath v)).elim (.error .notFound) (fun t => .ok (p2v t)) := by
  have hguard : ¬ ((!vmmIsCanonical v) = true ∨ (!vmmIsAligned4k v) = true) := by
    rw [hv.1, hv.2]
    decide
  -- from here on one level after the other
  have hroot := hE.storage.nonnull _ (hT.stored _ _ hT.root_tab)
  rw [walkToPt, if_neg hguard]
  simp only [hE.tableFromPhys_eq hE.aligned]
  rw [if_neg hroot, nextTable_spec hE hT hT.root_tab (by decide) (idxPml4_lt v)]
  cases h1 : tab ([] ++ [idxPml4 v]) with
  | none =>
      have h3 : tab (ptPath v) = none := hT.none_below (hT.none_below h1)
      rw [h3]
      rfl
  | some pdpt =>
      simp only [Option.elim_some]
      rw [nextTable_spec hE hT h1 (by decide : 1 < 3) (idxPdpt_lt v)]
      cases h2 : tab ([] ++ [idxPml4 v] ++ [idxPdpt v]) with
      | none =>
          have h3 : tab (ptPath v) = none := hT.none_below h2
          rw [h3]
          rfl
      | some pd => exact nextTable_spec hE hT h2 (by decide : 2 < 3) (idxPd_lt v)

/-- The answer to a query, read off the abstract map. -/
def answer (M : PageMap) (v : U64) : Except VmmErr VmmMapping :=
  match M v with
  | some (paddr, flags) => .ok ⟨v, paddr, flags⟩
  | none => .error .notFound

/-- **QUERY**: the page tables answer as the map does. -/
theorem vmmQueryPage_spec (hE : Env space p2v F A) (h : Holds space p2v F A w M)
    {v : U64} (hv : Valid v) : vmmQueryPage space w.mem v = answer M v := by
  obtain ⟨tab, hT, -⟩ := h
  rw [vmmQueryPage, walkToPt_spec hE hT hv, answer]
  cases ht : tab (ptPath v) with
  | none =>
      rw [hT.unmapped v hv ht]
      rfl
  | some t =>
      -- the page table's entry is what was installed
      have hleaf : load64 w.mem (entryAddr (p2v t) (idxPt v)) = leafEntry (M v) :=
        hT.leaf v t hv ht
      simp only [Option.elim_some, hleaf]
      cases hM : M v with
      | none => rfl
      | some x =>
          obtain ⟨paddr, flags, rfl⟩ := hT.shape v x hM
          obtain ⟨hpresent, haddr, hflags⟩ := installed_bits paddr flags
          rw [if_neg hpresent, haddr, hflags]

/-- An address that is not canonical and aligned is refused in every state. -/
theorem walkToPt_invalid {mem : Mem} {v : U64} (hv : ¬ Valid v) :
    walkToPt space mem v = .error .inval := by
  have hguard : (!vmmIsCanonical v) = true ∨ (!vmmIsAligned4k v) = true := by
    by_cases hc : vmmIsCanonical v = true
    · refine Or.inr ?_
      rw [Bool.eq_false_iff.mpr (fun ha => hv ⟨hc, ha⟩)]
      rfl
    · refine Or.inl ?_
      rw [Bool.eq_false_iff.mpr hc]
      rfl
  rw [walkToPt, if_pos hguard]

theorem vmmQueryPage_invalid {mem : Mem} {v : U64} (hv : ¬ Valid v) :
    vmmQueryPage space mem v = .error .inval := by
  rw [vmmQueryPage, walkToPt_invalid hv]

/-! ## The calls -/

/-- The map after a call that answered `r`: inserted on a successful map,
    deleted on a successful unmap, untouched by a failure. -/
def mapStep (M : PageMap) : VmmOp → Except VmmErr Unit → PageMap
  | _, .error _ => M
  | .map vaddr paddr flags, .ok _ => setPage M vaddr (some (installed paddr flags))
  | .unmap vaddr, .ok _ => setPage M vaddr none

/-- A call keeps the invariant at the map its own answer calls for. -/
def Refines (space : VmmSpace Ctx) (p2v : U64 → U64) (F : U64 → Prop)
    (A : Ctx → (U64 → Prop) → Prop) (M : PageMap) (op : VmmOp)
    (r : Except VmmErr Unit × VmmWorld Ctx) : Prop :=
  Holds space p2v F A r.2 (mapStep M op r.1)

theorem Holds.refines_error {op : VmmOp} {e : VmmErr} (h : Holds space p2v F A w M) :
    Refines space p2v F A M op (.error e, w) := h

/-- **MAP**: three levels, then one leaf store. -/
theorem vmmMapPage_spec (hE : Env space p2v F A) (h : Holds space p2v F A w M)
    (vaddr paddr flags : U64) :
    Refines space p2v F A M (.map vaddr paddr flags) (vmmMapPage space w vaddr paddr flags) := by
  rw [vmmMapPage]
  by_cases hguard : (!vmmIsCanonical vaddr) = true ∨ (!vmmIsAligned4k vaddr) = true ∨
      (!vmmIsAligned4k paddr) = true
  · rw [if_pos hguard]
    exact h.refines_error
  have hv : Valid vaddr := by
    simp only [Bool.not_eq_true', not_or, Bool.not_eq_false] at hguard
    exact ⟨hguard.1, hguard.2.1⟩
  have hroot := h.at_root hE
  simp only [if_neg hguard, if_neg (hroot.nonnull hE)]
  have hpdpt := getOrAllocNextTable_spec hE hroot (by decide) (idxPml4_lt vaddr)
  cases h1 : getOrAllocNextTable space w _ (idxPml4 vaddr) with
  | mk r1 w1 =>
  rw [h1] at hpdpt
  rcases hpdpt with ⟨pdpt, rfl, hpdpt⟩ | ⟨rfl, hfail⟩
  swap
  · exact hfail.refines_error
  have hpd := getOrAllocNextTable_spec hE hpdpt (by decide : 1 < 3) (idxPdpt_lt vaddr)
  dsimp only
  cases h2 : getOrAllocNextTable space w1 pdpt (idxPdpt vaddr) with
  | mk r2 w2 =>
  rw [h2] at hpd
  rcases hpd with ⟨pd, rfl, hpd⟩ | ⟨rfl, hfail⟩
  swap
  · exact hfail.refines_error
  have hpt := getOrAllocNextTable_spec hE hpd (by decide : 2 < 3) (idxPd_lt vaddr)
  dsimp only
  cases h3 : getOrAllocNextTable space w2 pd (idxPd vaddr) with
  | mk r3 w3 =>
  rw [h3] at hpt
  rcases hpt with ⟨pt, rfl, hpt⟩ | ⟨rfl, hfail⟩
  swap
  · exact hfail.refines_error
  dsimp only
  split
  · -- already mapped; tables allocated on the way stay, the map does not change
    exact hpt.holds.refines_error
  · obtain ⟨tab, t, hT, hA, ht, rfl⟩ := hpt
    refine ⟨tab, ?_, hA⟩
    rw [← leafEntry_installed]
    exact hT.setLeaf hE.storage hv ht (fun y hy => ⟨paddr, flags, (Option.some.inj hy).symm⟩)

/-- **UNMAP**: clears the leaf the walk finds. -/
theorem vmmUnmapPage_spec (hE : Env space p2v F A) (h : Holds space p2v F A w M) (vaddr : U64) :
    Refines space p2v F A M (.unmap vaddr) (vmmUnmapPage space w vaddr) := by
  rw [vmmUnmapPage]
  by_cases hv : Valid vaddr
  · obtain ⟨tab, hT, hA⟩ := h
    rw [walkToPt_spec hE hT hv]
    cases ht : tab (ptPath vaddr) with
    | none => exact Holds.refines_error ⟨tab, hT, hA⟩
    | some t =>
        simp only [Option.elim_some]
        split
        · exact Holds.refines_error ⟨tab, hT, hA⟩
        · exact ⟨tab, hT.setLeaf (x := none) hE.storage hv ht (fun y hy => nomatch hy), hA⟩
  · rw [walkToPt_invalid hv]
    exact h.refines_error

/-- Every call does to the tables what its answer says about the map. -/
theorem vmmStep_spec (hE : Env space p2v F A) (h : Holds space p2v F A w M) (op : VmmOp) :
    Holds space p2v F A (vmmStep space w op).2 (mapStep M op (vmmStep space w op).1) := by
  cases op with
  | map vaddr paddr flags => exact vmmMapPage_spec hE h vaddr paddr flags
  | unmap vaddr => exact vmmUnmapPage_spec hE h vaddr

/-- The map a run leaves behind, built from what its calls answered. -/
def mapAfter (space : VmmSpace Ctx) : VmmWorld Ctx → PageMap → List VmmOp → PageMap
  | _, M, [] => M
  | w, M, op :: ops =>
      mapAfter space (vmmStep space w op).2 (mapStep M op (vmmStep space w op).1) ops

/-- **RUN**: every run keeps the invariant at its own map. -/
theorem exec_holds (hE : Env space p2v F A) (ops : List VmmOp) :
    ∀ {w : VmmWorld Ctx} {M : PageMap}, Holds space p2v F A w M →
      Holds space p2v F A (Machine.exec (vmmStep space) w ops) (mapAfter space w M ops) := by
  induction ops with
  | nil => intro w M h; exact h
  | cons op ops ih => intro w M h; exact ih (vmmStep_spec hE h op)

/-- A call that answers an error changes no query. -/
theorem step_error_query (hE : Env space p2v F A) (h : Holds space p2v F A w M) {op : VmmOp}
    {e : VmmErr} (he : (vmmStep space w op).1 = .error e) (v : U64) :
    vmmQueryPage space (vmmStep space w op).2.mem v = vmmQueryPage space w.mem v := by
  by_cases hv : Valid v
  · have hnext := vmmStep_spec hE h op
    rw [he] at hnext
    have hsame : Holds space p2v F A (vmmStep space w op).2 M := by
      cases op with
      | map => exact hnext
      | unmap => exact hnext
    rw [vmmQueryPage_spec hE hsame hv, vmmQueryPage_spec hE h hv]
  · rw [vmmQueryPage_invalid hv, vmmQueryPage_invalid hv]

/-! ## Streams of fresh frames -/

/-- The allocator state before its `n`-th call. -/
def nthCtx (allocFrame : Ctx → U64 × Ctx) (ctx : Ctx) : Nat → Ctx
  | 0 => ctx
  | n + 1 => (allocFrame (nthCtx allocFrame ctx n)).2

/-- What the `n`-th call of the allocator answers. -/
def nthFrame (allocFrame : Ctx → U64 × Ctx) (ctx : Ctx) (n : Nat) : U64 :=
  (allocFrame (nthCtx allocFrame ctx n)).1

/-- Every call of the allocator answers `VMM_INVALID_PHYS`, or one of the
    frames `F` that is aligned, below 2^52, and neither the root nor handed out
    before. -/
def FreshFrames (F : U64 → Prop) (root : U64) (allocFrame : Ctx → U64 × Ctx) (ctx : Ctx) :
    Prop :=
  ∀ n, nthFrame allocFrame ctx n = VMM_INVALID_PHYS ∨
    (F (nthFrame allocFrame ctx n) ∧
      (nthFrame allocFrame ctx n).toNat % 4096 = 0 ∧
      (nthFrame allocFrame ctx n).toNat < 2 ^ 52 ∧
      nthFrame allocFrame ctx n ≠ root ∧
      ∀ m, m < n → nthFrame allocFrame ctx m ≠ nthFrame allocFrame ctx n)

/-- The state of the allocator inside its stream: every table in use is the
    root or one of the frames handed out so far. -/
def InStream (space : VmmSpace Ctx) (ctx₀ ctx : Ctx) (U : U64 → Prop) : Prop :=
  ∀ allocFrame, space.allocFrame = some allocFrame →
    ∃ n, ctx = nthCtx allocFrame ctx₀ n ∧
      ∀ t, U t → t = space.rootPaddr ∨ ∃ m, m < n ∧ nthFrame allocFrame ctx₀ m = t

/-- Frames that come from a stream without repetitions. -/
theorem env_of_freshFrames {ctx₀ : Ctx} (hp2v : space.physToVirt = some p2v)
    (hal : space.rootPaddr.toNat % 4096 = 0) (hs : Storage p2v F)
    (hfresh : ∀ allocFrame, space.allocFrame = some allocFrame →
      FreshFrames F space.rootPaddr allocFrame ctx₀) :
    Env space p2v F (InStream space ctx₀) := by
  refine ⟨hp2v, hal, hs, ?_⟩
  intro allocFrame halloc ctx U hA
  obtain ⟨n, hctx, huse⟩ := hA allocFrame halloc
  rw [hctx]
  -- one call further in the same stream
  have hnext : ∀ V : U64 → Prop,
      (∀ t, V t → t = space.rootPaddr ∨ ∃ m, m < n + 1 ∧ nthFrame allocFrame ctx₀ m = t) →
      InStream space ctx₀ (allocFrame (nthCtx allocFrame ctx₀ n)).2 V := by
    intro V hV allocFrame' halloc'
    have heq : allocFrame = allocFrame' := Option.some.inj (halloc.symm.trans halloc')
    exact ⟨n + 1, by rw [← heq]; rfl, by rw [← heq]; exact hV⟩
  have hearlier : ∀ t, U t →
      t = space.rootPaddr ∨ ∃ m, m < n + 1 ∧ nthFrame allocFrame ctx₀ m = t := by
    intro t ht
    rcases huse t ht with h | ⟨m, hm, h⟩
    · exact Or.inl h
    · exact Or.inr ⟨m, by omega, h⟩
  rcases hfresh allocFrame halloc n with hinv | ⟨hF, hal', hlt, hroot, hnew⟩
  · exact Or.inl ⟨hinv, hnext U hearlier⟩
  · refine Or.inr ⟨hal', hlt, hF, ?_, hnext _ ?_⟩
    · intro hU
      rcases huse _ hU with h | ⟨m, hm, h⟩
      · exact hroot h
      · exact hnew m hm h
    · rintro t (rfl | ht)
      · exact Or.inr ⟨n, Nat.lt_succ_self n, rfl⟩
      · exact hearlier t ht

/-- A zeroed root table is the empty map. -/
theorem pageTables_zero {root : U64} {mem : Mem} (hF : F root)
    (hzero : ∀ i : U64, i.toNat < 512 → load64 mem (entryAddr (p2v root) i) = 0) :
    PageTables p2v F root mem (addTable (fun _ => none) [] root) (fun _ => none) := by
  -- the root is the only table
  have hnone : ∀ {p : List U64} {t : U64},
      addTable (fun _ => none) [] root p = some t → p = [] ∧ t = root := by
    intro p t h
    rcases addTable_cases h with h | ⟨-, h⟩
    · exact h
    · exact nomatch h
  refine ⟨addTable_same .., ?_, ?_, ?_, ?_, ?_, ?_, fun _ _ _ => rfl, (fun _ _ h => by cases h),
    ?_⟩
  · intro p t h
    rw [(hnone h).2]
    exact hF
  · intro p t h hne
    exact absurd (hnone h).1 hne
  · intro p q t hp hq
    rw [(hnone hp).1, (hnone hq).1]
  · intro p i t h
    exact absurd (hnone h).1 (by simp)
  · intro p t i h _ hi
    rw [(hnone h).2, addTable_of_ne (by simp)]
    exact hzero i hi
  · intro v t _ h
    exact absurd (hnone h).1 (by simp [ptPath])
  · intro p t h
    rw [(hnone h).1]
    exact ⟨by decide, fun i hi => absurd hi List.not_mem_nil⟩

/-- Only the root is in use at the start. -/
theorem inStream_start (ctx₀ : Ctx) :
    InStream space ctx₀ ctx₀ (InUse (addTable (fun _ => none) [] space.rootPaddr)) := by
  intro allocFrame _
  refine ⟨0, rfl, ?_⟩
  rintro t ⟨p, hp⟩
  rcases addTable_cases hp with ⟨-, h⟩ | ⟨-, h⟩
  · exact Or.inl h
  · exact nomatch h

/-- An initialised space has what it was given, with an aligned root. -/
theorem vmmSpaceInit_ok {root : U64} {allocFrame : Option (Ctx → U64 × Ctx)}
    {freeFrame : Option (Ctx → U64 → Ctx)}
    (hinit : vmmSpaceInit root allocFrame freeFrame (some p2v) = .ok space) :
    space = ⟨root, allocFrame, freeFrame, some p2v⟩ ∧ root.toNat % 4096 = 0 := by
  rw [vmmSpaceInit] at hinit
  split at hinit
  · exact nomatch hinit
  · rename_i hguard
    simp only [Option.isNone_some, Bool.false_eq_true, false_or, Bool.not_eq_true',
      Bool.not_eq_false] at hguard
    exact ⟨(Except.ok.inj hinit).symm, (aligned_iff root).mp hguard⟩

/-- **PAGE TABLES REFINE A PARTIAL MAP**: from a zeroed root and a stream of
    fresh frames, after any calls of `vmm_map_page` and `vmm_unmap_page`, a
    query of a canonical, aligned address answers as the map that the
    successful calls built; and a call that then fails changes the answer of no
    query. -/
theorem vmm_refines_partial_map {root : U64} {allocFrame : Option (Ctx → U64 × Ctx)}
    {freeFrame : Option (Ctx → U64 → Ctx)} {mem : Mem} {ctx : Ctx}
    (hinit : vmmSpaceInit root allocFrame freeFrame (some p2v) = .ok space)
    (hs : Storage p2v F) (hroot : F root)
    (hzero : ∀ i : U64, i.toNat < 512 → load64 mem (entryAddr (p2v root) i) = 0)
    (hfresh : ∀ alloc, allocFrame = some alloc → FreshFrames F root alloc ctx)
    (ops : List VmmOp) :
    (∀ v, Valid v →
      vmmQueryPage space (Machine.exec (vmmStep space) ⟨mem, ctx⟩ ops).mem v
        = answer (mapAfter space ⟨mem, ctx⟩ (fun _ => none) ops) v) ∧
    (∀ op e, (vmmStep space (Machine.exec (vmmStep space) ⟨mem, ctx⟩ ops) op).1 = .error e →
      ∀ v, vmmQueryPage space
          (vmmStep space (Machine.exec (vmmStep space) ⟨mem, ctx⟩ ops) op).2.mem v
        = vmmQueryPage space (Machine.exec (vmmStep space) ⟨mem, ctx⟩ ops).mem v) := by
  obtain ⟨rfl, hal⟩ := vmmSpaceInit_ok hinit
  have hE : Env ⟨root, allocFrame, freeFrame, some p2v⟩ p2v F _ :=
    env_of_freshFrames rfl hal hs hfresh
  have hrun := exec_holds hE ops (w := ⟨mem, ctx⟩)
    ⟨_, pageTables_zero hroot hzero, inStream_start ctx⟩
  exact ⟨fun v hv => vmmQueryPage_spec hE hrun hv, fun op e he v => step_error_query hE hrun he v⟩

/-! ## A walker with three frames to spend -/

/-- Hands out frames 1 to 3, then nothing. -/
def threeFrames (n : Nat) : U64 × Nat :=
  if n < 3 then (BitVec.ofNat 64 (4096 * (n + 1)), n + 1) else (VMM_INVALID_PHYS, n)

/-- Root in frame 0, frames mapped one to one from 2^60 on. -/
def smallSpace : VmmSpace Nat :=
  ⟨0, some threeFrames, none, some (fun p => p + 0x1000000000000000)⟩

/-- The frames of the example. -/
def smallFrame (p : U64) : Prop := p.toNat % 4096 = 0 ∧ p.toNat < 2 ^ 52

/-- The example's frames do not overlap. -/
theorem small_storage : Storage (fun p => p + 0x1000000000000000) smallFrame := by
  refine ⟨?_, ?_, ?_⟩
  · rintro p ⟨-, hlt⟩
    bv_omega
  · rintro p ⟨-, hlt⟩
    bv_omega
  · rintro p q ⟨hp, hplt⟩ ⟨hq, hqlt⟩ hne
    have hne' : p.toNat ≠ q.toNat := fun h => hne (BitVec.eq_of_toNat_eq h)
    bv_omega

theorem threeFrames_nthCtx (n : Nat) : nthCtx threeFrames 0 n = min n 3 := by
  induction n with
  | zero => rfl
  | succ n ih =>
      show (threeFrames (nthCtx threeFrames 0 n)).2 = _
      rw [ih, threeFrames]
      split
      · show min n 3 + 1 = _
        omega
      · show min n 3 = _
        omega

/-- The example's allocator has three different frames. -/
theorem threeFrames_fresh : FreshFrames smallFrame 0 threeFrames 0 := by
  have hval : ∀ n, n < 3 → (nthFrame threeFrames 0 n).toNat = 4096 * (n + 1) := by
    intro n hn
    rw [nthFrame, threeFrames_nthCtx, Nat.min_eq_left (by omega), threeFrames, if_pos hn,
        BitVec.toNat_ofNat, Nat.mod_eq_of_lt (by omega)]
  intro n
  by_cases hn : n < 3
  · have hv := hval n hn
    refine Or.inr ⟨⟨by omega, by omega⟩, by omega, by omega, ?_, ?_⟩
    · intro h
      rw [h] at hv
      exact absurd hv (by show 0 ≠ _; omega)
    · intro m hm h
      have hv' := hval m (by omega)
      rw [h] at hv'
      omega
  · refine Or.inl ?_
    rw [nthFrame, threeFrames_nthCtx, threeFrames, if_neg (by omega)]

/-- The example's space. -/
theorem small_init : vmmSpaceInit 0 (some threeFrames) none
    (some (fun p => p + 0x1000000000000000)) = .ok smallSpace := rfl

theorem small_zero : ∀ i : U64, i.toNat < 512 →
    load64 (fun _ => 0) (entryAddr (0 + 0x1000000000000000) i) = 0 := by
  intro i _
  simp [load64, loadBytes]

theorem small_fresh : ∀ alloc, some threeFrames = some alloc →
    FreshFrames smallFrame 0 alloc 0 := by
  intro alloc h
  cases h
  exact threeFrames_fresh

/-- Whether a page is mapped depends on the alignment of its target, and not on
    the flags. -/
theorem vmmMapPage_answer (space : VmmSpace Ctx) (w : VmmWorld Ctx) (vaddr flags flags' : U64)
    {paddr paddr' : U64} (h : vmmIsAligned4k paddr = vmmIsAligned4k paddr') :
    (vmmMapPage space w vaddr paddr flags).1 = (vmmMapPage space w vaddr paddr' flags').1 := by
  rw [vmmMapPage, vmmMapPage, h]
  split
  · rfl
  dsimp only
  split
  · rfl
  -- frame and flags are used at the last level only
  rcases getOrAllocNextTable space w _ (idxPml4 vaddr) with ⟨e | pdpt, w1⟩
  · rfl
  dsimp only
  rcases getOrAllocNextTable space w1 pdpt (idxPdpt vaddr) with ⟨e | pd, w2⟩
  · rfl
  dsimp only
  rcases getOrAllocNextTable space w2 pd (idxPd vaddr) with ⟨e | pt, w3⟩
  · rfl
  dsimp only
  split
  · rfl
  · rfl

/-- The three frames are enough for one page. -/
theorem small_map_ok (paddr flags : U64) (h : vmmIsAligned4k paddr = true) :
    (vmmStep smallSpace ⟨fun _ => 0, 0⟩ (.map 0x400000 paddr flags)).1 = .ok () := by
  have hzero : (vmmMapPage smallSpace ⟨fun _ => 0, 0⟩ 0x400000 0 0).1 = .ok () := by
    decide +kernel
  exact (vmmMapPage_answer smallSpace ⟨fun _ => 0, 0⟩ 0x400000 flags 0 h).trans hzero

/-- One mapping spends all three frames. -/
theorem vmm_refines_partial_map_small :
    vmmQueryPage smallSpace
        (Machine.exec (vmmStep smallSpace) ⟨fun _ => 0, 0⟩ [.map 0x400000 0x7000 0x83]).mem
        0x400000
      = .ok ⟨0x400000, 0x7000, 3⟩ := by
  have hmap := vmm_refines_partial_map small_init small_storage ⟨rfl, by decide⟩ small_zero
    small_fresh [.map 0x400000 0x7000 0x83]
  rw [hmap.1 0x400000 (by decide), mapAfter, mapAfter, small_map_ok 0x7000 0x83 (by decide)]
  decide

end VmmRefinement
