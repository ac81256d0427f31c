import Mcsos.VmmRefinementProofs

/-! # What a mapped page lets the processor do

    The processor decides an access from the four entries of its walk: user
    access and writing need their bit in all four, and one no-execute bit
    anywhere forbids execution.  The three inner entries are links
    (`linkEntry`), made by whichever mapping first needed the table; all of
    them are writable, none is executable-protected and none is a user entry.

    So the leaf alone decides writing and execution, which are what the caller
    asked for, while no page is ever reachable from user mode
    (`effectiveRights_page`): the rights of a page are the requested ones
    exactly when the request had no `VMM_PTE_USER`. -/

namespace VmmRights

open Word ByteMemory VmmModel VmmTable VmmTree VmmRefinement

/-- The entries the processor reads on the walk for `v`, root first. -/
def pageWalk (p2v : U64 → U64) (root : U64) (mem : Mem) (v : U64) : List U64 :=
  let pml4e := entry p2v mem root (idxPml4 v)
  let pdpte := entry p2v mem (pml4e &&& VMM_PTE_ADDR_MASK) (idxPdpt v)
  let pde := entry p2v mem (pdpte &&& VMM_PTE_ADDR_MASK) (idxPd v)
  let pte := entry p2v mem (pde &&& VMM_PTE_ADDR_MASK) (idxPt v)
  [pml4e, pdpte, pde, pte]

/-- What a page may be used for. -/
structure Rights where
  user : Bool
  write : Bool
  noExecute : Bool
deriving DecidableEq, Repr

/-- The bit is set in the entry. -/
def hasBit (bit e : U64) : Bool := e &&& bit ≠ 0

/-- The rule of the processor over the entries of a walk. -/
def effectiveRights (walk : List U64) : Rights :=
  { user := walk.all (hasBit VMM_PTE_USER)
    write := walk.all (hasBit VMM_PTE_WRITABLE)
    noExecute := walk.any (hasBit VMM_PTE_NO_EXECUTE) }

/-- What the flags of a `vmm_map_page` call ask for. -/
def requestedRights (flags : U64) : Rights :=
  { user := hasBit VMM_PTE_USER flags
    write := hasBit VMM_PTE_WRITABLE flags
    noExecute := hasBit VMM_PTE_NO_EXECUTE flags }

/-! ## The bits of an entry -/

/-- A bit of two entries in one. -/
theorem hasBit_or (bit a b : U64) : hasBit bit (a ||| b) = (hasBit bit a || hasBit bit b) := by
  have hzero : (a ||| b) &&& bit = 0 ↔ a &&& bit = 0 ∧ b &&& bit = 0 := by
    rw [BitVec.and_or_distrib_right]
    exact BitVec.or_eq_zero_iff
  rw [Bool.eq_iff_iff, Bool.or_eq_true]
  simp only [hasBit, decide_eq_true_eq, ne_eq, hzero, not_and_or]

/-- An address field has no bit outside the address mask. -/
theorem hasBit_masked {bit mask : U64} (a : U64) (hbit : mask &&& bit = 0) :
    hasBit bit (a &&& mask) = false := by
  have hzero : a &&& mask &&& bit = 0 := by
    rw [BitVec.and_assoc, hbit]
    exact BitVec.and_zero
  rw [hasBit, hzero]
  rfl

/-- A bit that the mask lets through. -/
theorem hasBit_allowed {bit mask : U64} (a : U64) (hbit : mask &&& bit = bit) :
    hasBit bit (a &&& mask) = hasBit bit a := by
  rw [hasBit, BitVec.and_assoc, hbit]
  rfl

/-- **LINK RIGHTS**: every link is writable and neither a user entry nor
    execution-protected. -/
theorem linkEntry_rights (t : U64) :
    hasBit VMM_PTE_USER (linkEntry t) = false ∧
    hasBit VMM_PTE_WRITABLE (linkEntry t) = true ∧
    hasBit VMM_PTE_NO_EXECUTE (linkEntry t) = false := by
  refine ⟨?_, ?_, ?_⟩
  · rw [linkEntry, hasBit_or, hasBit_or, hasBit_masked t (by decide)]
    decide
  · rw [linkEntry, hasBit_or, hasBit_or, hasBit_masked t (by decide)]
    decide
  · rw [linkEntry, hasBit_or, hasBit_or, hasBit_masked t (by decide)]
    decide

/-- A leaf carries each right it was asked for. -/
theorem leafEntry_bit {bit : U64} (paddr flags : U64) (haddr : VMM_PTE_ADDR_MASK &&& bit = 0)
    (hpresent : hasBit bit VMM_PTE_PRESENT = false) (hallowed : allowedFlags &&& bit = bit) :
    hasBit bit (leafEntry (some (installed paddr flags))) = hasBit bit flags := by
  rw [leafEntry_installed, hasBit_or, hasBit_or, hasBit_masked paddr haddr, hpresent,
      hasBit_allowed flags hallowed]
  rfl

/-- The rights that were asked for are in the page table's entry. -/
theorem leafEntry_rights (paddr flags : U64) :
    hasBit VMM_PTE_USER (leafEntry (some (installed paddr flags))) = hasBit VMM_PTE_USER flags ∧
    hasBit VMM_PTE_WRITABLE (leafEntry (some (installed paddr flags)))
      = hasBit VMM_PTE_WRITABLE flags ∧
    hasBit VMM_PTE_NO_EXECUTE (leafEntry (some (installed paddr flags)))
      = hasBit VMM_PTE_NO_EXECUTE flags :=
  ⟨leafEntry_bit paddr flags (by decide) (by decide) (by decide),
   leafEntry_bit paddr flags (by decide) (by decide) (by decide),
   leafEntry_bit paddr flags (by decide) (by decide) (by decide)⟩

/-- Three links and a leaf: writing and execution are the leaf's, and user
    access is denied whatever the leaf says. -/
theorem effectiveRights_links (t1 t2 t3 paddr flags : U64) :
    effectiveRights [linkEntry t1, linkEntry t2, linkEntry t3,
        leafEntry (some (installed paddr flags))]
      = { requestedRights flags with user := false } := by
  obtain ⟨hu1, hw1, hx1⟩ := linkEntry_rights t1
  obtain ⟨-, hw2, hx2⟩ := linkEntry_rights t2
  obtain ⟨-, hw3, hx3⟩ := linkEntry_rights t3
  obtain ⟨-, hw, hx⟩ := leafEntry_rights paddr flags
  simp only [effectiveRights, requestedRights, List.all_cons, List.all_nil, List.any_cons,
    List.any_nil, hu1, hw1, hx1, hw2, hx2, hw3, hx3, hw, hx, Bool.false_and, Bool.true_and,
    Bool.and_true, Bool.false_or, Bool.or_false]

/-! ## The walk through the tree -/

variable {Ctx : Type} {space : VmmSpace Ctx} {p2v : U64 → U64} {F : U64 → Prop}
  {A : Ctx → (U64 → Prop) → Prop} {w : VmmWorld Ctx} {M : PageMap} {root : U64} {mem : Mem}
  {tab : Tables}

/-- One level of the processor's walk, at a table that has a child. -/
theorem entry_link_of_tab (hT : PageTables p2v F root mem tab M) {p : List U64} {t t' i : U64}
    (ht : tab p = some t) (ht' : tab (p ++ [i]) = some t') (hlen : p.length < 3)
    (hi : i.toNat < 512) :
    entry p2v mem t i = linkEntry t' ∧ entry p2v mem t i &&& VMM_PTE_ADDR_MASK = t' := by
  obtain ⟨hal, hlt⟩ := hT.frame _ _ ht' (by simp)
  have hentry := hT.inner p t i ht hlen hi
  rw [ht', Option.elim_some] at hentry
  exact ⟨hentry, by rw [hentry, (linkEntry_bits hal hlt).2.2]⟩

/-- The walk for a mapped page reads three links and the page's leaf. -/
theorem pageWalk_mapped (hT : PageTables p2v F root mem tab M) {v : U64} {x : U64 × U64}
    (hv : Valid v) (hM : M v = some x) :
    ∃ t1 t2 t3, pageWalk p2v root mem v
      = [linkEntry t1, linkEntry t2, linkEntry t3, leafEntry (some x)] := by
  cases h3 : tab (ptPath v) with
  | none =>
      rw [hT.unmapped v hv h3] at hM
      cases hM
  | some t3 =>
      -- the tables above the page table exist, by the parents' field
      obtain ⟨t2, h2⟩ := hT.parent [idxPml4 v, idxPdpt v] (idxPd v) t3 h3
      obtain ⟨t1, h1⟩ := hT.parent [idxPml4 v] (idxPdpt v) t2 h2
      obtain ⟨e1, a1⟩ := entry_link_of_tab hT hT.root_tab h1 (by decide) (idxPml4_lt v)
      obtain ⟨e2, a2⟩ := entry_link_of_tab hT h1 h2 (by simp) (idxPdpt_lt v)
      obtain ⟨e3, a3⟩ := entry_link_of_tab hT h2 h3 (by simp) (idxPd_lt v)
      have e4 := hT.leaf v t3 hv h3
      refine ⟨t1, t2, t3, ?_⟩
      simp only [pageWalk, a1, a2, a3]
      rw [e1, e2, e3, e4, hM]

/-! ## The flags a page was mapped with -/

/-- The flags of the calls that made the present mappings. -/
def flagsStep (G : U64 → Option U64) : VmmOp → Except VmmErr Unit → U64 → Option U64
  | _, .error _ => G
  | .map vaddr _ flags, .ok _ => Function.update G vaddr (some flags)
  | .unmap vaddr, .ok _ => Function.update G vaddr none

/-- For each page, the flags of the successful `vmm_map_page` call of the run
    that mapped it, if it is mapped. -/
def flagsAfter (space : VmmSpace Ctx) :
    VmmWorld Ctx → (U64 → Option U64) → List VmmOp → U64 → Option U64
  | _, G, [] => G
  | w, G, op :: ops =>
      flagsAfter space (vmmStep space w op).2 (flagsStep G op (vmmStep space w op).1) ops

/-- The map holds each page with the flags it was asked for. -/
def Requested (M : PageMap) (G : U64 → Option U64) : Prop :=
  ∀ v, (M v = none ∧ G v = none) ∨
    (Valid v ∧ ∃ paddr flags, M v = some (installed paddr flags) ∧ G v = some flags)

/-- A successful map is of addresses the walker accepts. -/
theorem vmmMapPage_ok_args {vaddr paddr flags : U64}
    (h : (vmmMapPage space w vaddr paddr flags).1 = .ok ()) :
    Valid vaddr ∧ paddr.toNat % 4096 = 0 := by
  rw [vmmMapPage] at h
  by_cases hguard : (!vmmIsCanonical vaddr) = true ∨ (!vmmIsAligned4k vaddr) = true ∨
      (!vmmIsAligned4k paddr) = true
  · rw [if_pos hguard] at h
    cases h
  · simp only [Bool.not_eq_true', not_or, Bool.not_eq_false] at hguard
    exact ⟨⟨hguard.1, hguard.2.1⟩, (aligned_iff paddr).mp hguard.2.2⟩

/-- A page that a call does not touch stays as it was requested. -/
theorem Requested.update {G : U64 → Option U64} (h : Requested M G) {v : U64}
    {x : Option (U64 × U64)} {g : Option U64}
    (hv : (x = none ∧ g = none) ∨
      (Valid v ∧ ∃ paddr flags, x = some (installed paddr flags) ∧ g = some flags)) :
    Requested (setPage M v x) (Function.update G v g) := by
  intro a
  by_cases ha : a = v
  · subst ha
    rw [show setPage M a x a = x from if_pos rfl, Function.update_self]
    exact hv
  · rw [show setPage M v x a = M a from if_neg ha, Function.update_of_ne ha]
    exact h a

/-- Every call keeps the record of what was asked for. -/
theorem Requested.step {G : U64 → Option U64} (h : Requested M G) (op : VmmOp) :
    Requested (mapStep M op (vmmStep space w op).1) (flagsStep G op (vmmStep space w op).1) := by
  cases op with
  | map vaddr paddr flags =>
      cases hr : (vmmStep space w (.map vaddr paddr flags)).1 with
      | error e => exact h
      | ok _ => exact h.update (Or.inr ⟨(vmmMapPage_ok_args hr).1, paddr, flags, rfl, rfl⟩)
  | unmap vaddr =>
      cases (vmmStep space w (.unmap vaddr)).1 with
      | error e => exact h
      | ok _ => exact h.update (Or.inl ⟨rfl, rfl⟩)

/-- Every run keeps the record of what was asked for. -/
theorem requested_after (space : VmmSpace Ctx) (ops : List VmmOp) :
    ∀ {w : VmmWorld Ctx} {M : PageMap} {G : U64 → Option U64}, Requested M G →
      Requested (mapAfter space w M ops) (flagsAfter space w G ops) := by
  induction ops with
  | nil => intro w M G h; exact h
  | cons op ops ih => intro w M G h; exact ih (h.step op)

/-- **EFFECTIVE RIGHTS** of a mapped page: no user access, the rest as
    requested. -/
theorem effectiveRights_page {G : U64 → Option U64} (h : Holds space p2v F A w M)
    (hG : Requested M G) {v flags : U64} (hf : G v = some flags) :
    effectiveRights (pageWalk p2v space.rootPaddr w.mem v)
      = { requestedRights flags with user := false } := by
  obtain ⟨tab, hT, -⟩ := h
  rcases hG v with ⟨-, hnone⟩ | ⟨hv, paddr, flags', hM, hsome⟩
  · rw [hnone] at hf
    cases hf
  · obtain rfl : flags' = flags := Option.some.inj (hsome.symm.trans hf)
    obtain ⟨t1, t2, t3, hwalk⟩ := pageWalk_mapped hT hv hM
    rw [hwalk]
    exact effectiveRights_links t1 t2 t3 paddr flags'

/-- The pages a query finds are the requested ones. -/
theorem query_ok_iff {G : U64 → Option U64} (hE : Env space p2v F A)
    (h : Holds space p2v F A w M) (hG : Requested M G) (v : U64) :
    (∃ m, vmmQueryPage space w.mem v = .ok m) ↔ ∃ flags, G v = some flags := by
  rcases hG v with ⟨hM, hnone⟩ | ⟨hv, paddr, flags, hM, hsome⟩
  · rw [hnone]
    refine iff_of_false ?_ (fun ⟨_, h⟩ => by cases h)
    rintro ⟨m, hm⟩
    by_cases hv : Valid v
    · rw [vmmQueryPage_spec hE h hv, answer, hM] at hm
      cases hm
    · rw [vmmQueryPage_invalid hv] at hm
      cases hm
  · rw [hsome, vmmQueryPage_spec hE h hv, answer, hM]
    exact iff_of_true ⟨_, rfl⟩ ⟨flags, rfl⟩

/-- Taking the user's right away matters only if it was asked for. -/
theorem rights_eq_iff (flags : U64) :
    { requestedRights flags with user := false } = requestedRights flags ↔
      flags &&& VMM_PTE_USER = 0 := by
  simp only [requestedRights, hasBit, Rights.mk.injEq, and_true, eq_comm (a := false),
    decide_eq_false_iff_not, not_not]

/-- What a run from a zeroed root and a stream of fresh frames leaves: some
    tree, holding each page as it was requested. -/
theorem exec_requested {allocFrame : Option (Ctx → U64 × Ctx)}
    {freeFrame : Option (Ctx → U64 → Ctx)} {ctx : Ctx}
    (hinit : vmmSpaceInit root allocFrame freeFrame (some p2v) = .ok space)
    (hs : Storage p2v F) (hroot : F root)
    (hzero : ∀ i : U64, i.toNat < 512 → load64 mem (entryAddr (p2v root) i) = 0)
    (hfresh : ∀ alloc, allocFrame = some alloc → FreshFrames F root alloc ctx)
    (ops : List VmmOp) :
    Env space p2v F (InStream space ctx) ∧ space.rootPaddr = root ∧
    ∃ M, Holds space p2v F (InStream space ctx)
        (Machine.exec (vmmStep space) ⟨mem, ctx⟩ ops) M ∧
      Requested M (flagsAfter space ⟨mem, ctx⟩ (fun _ => none) ops) := by
  obtain ⟨rfl, hal⟩ := vmmSpaceInit_ok hinit
  have hE : Env ⟨root, allocFrame, freeFrame, some p2v⟩ p2v F _ :=
    env_of_freshFrames rfl hal hs hfresh
  have hrun := exec_holds hE ops (w := ⟨mem, ctx⟩)
    ⟨_, pageTables_zero hroot hzero, inStream_start ctx⟩
  exact ⟨hE, rfl, _, hrun, requested_after _ ops (fun _ => Or.inl ⟨rfl, rfl⟩)⟩

/-- **RIGHTS**: from a zeroed root and a stream of fresh frames, after any
    calls of `vmm_map_page` and `vmm_unmap_page`, the pages a query finds are
    those with a successful call behind them, and the effective rights of such
    a page are the rights requested exactly if `VMM_PTE_USER` was not. -/
theorem vmm_rights_iff {allocFrame : Option (Ctx → U64 × Ctx)}
    {freeFrame : Option (Ctx → U64 → Ctx)} {ctx : Ctx}
    (hinit : vmmSpaceInit root allocFrame freeFrame (some p2v) = .ok space)
    (hs : Storage p2v F) (hroot : F root)
    (hzero : ∀ i : U64, i.toNat < 512 → load64 mem (entryAddr (p2v root) i) = 0)
    (hfresh : ∀ alloc, allocFrame = some alloc → FreshFrames F root alloc ctx)
    (ops : List VmmOp) (v : U64) :
    ((∃ m, vmmQueryPage space (Machine.exec (vmmStep space) ⟨mem, ctx⟩ ops).mem v = .ok m) ↔
      ∃ flags, flagsAfter space ⟨mem, ctx⟩ (fun _ => none) ops v = some flags) ∧
    ∀ flags, flagsAfter space ⟨mem, ctx⟩ (fun _ => none) ops v = some flags →
      (effectiveRights
          (pageWalk p2v root (Machine.exec (vmmStep space) ⟨mem, ctx⟩ ops).mem v)
        = requestedRights flags ↔ flags &&& VMM_PTE_USER = 0) := by
  obtain ⟨hE, rfl, M, hrun, hreq⟩ := exec_requested hinit hs hroot hzero hfresh ops
  refine ⟨query_ok_iff hE hrun hreq v, fun flags hf => ?_⟩
  rw [effectiveRights_page hrun hreq hf]
  exact rights_eq_iff flags

/-! ## One page below three new tables -/

theorem flagsAfter_small (flags : U64) :
    flagsAfter smallSpace ⟨fun _ => 0, 0⟩ (fun _ => none) [.map 0x400000 0x7000 flags] 0x400000
      = some flags := by
  rw [flagsAfter, flagsAfter, small_map_ok 0x7000 flags (by decide)]
  show Function.update (fun _ => none) 0x400000 (some flags) 0x400000 = some flags
  rw [Function.update_self]

/-- A writable, execution-protected page. -/
theorem vmm_rights_iff_small :
    effectiveRights (pageWalk (fun p => p + 0x1000000000000000) 0
        (Machine.exec (vmmStep smallSpace) ⟨fun _ => 0, 0⟩
          [.map 0x400000 0x7000 (VMM_PTE_WRITABLE ||| VMM_PTE_NO_EXECUTE)]).mem 0x400000)
      = ⟨false, true, true⟩ := by
  have h := vmm_rights_iff small_init small_storage ⟨rfl, by decide⟩ small_zero small_fresh
    [.map 0x400000 0x7000 (VMM_PTE_WRITABLE ||| VMM_PTE_NO_EXECUTE)] 0x400000
  exact (h.2 _ (flagsAfter_small _)).mpr (by decide)

/-- A page mapped for user mode that user mode cannot reach. -/
theorem vmm_user_page_unreachable :
    flagsAfter smallSpace ⟨fun _ => 0, 0⟩ (fun _ => none) [.map 0x400000 0x7000 VMM_PTE_USER]
        0x400000
      = some VMM_PTE_USER ∧
    effectiveRights (pageWalk (fun p => p + 0x1000000000000000) 0
        (Machine.exec (vmmStep smallSpace) ⟨fun _ => 0, 0⟩
          [.map 0x400000 0x7000 VMM_PTE_USER]).mem 0x400000)
      ≠ requestedRights VMM_PTE_USER := by
  have hflags := flagsAfter_small VMM_PTE_USER
  obtain ⟨-, hroot, M, hrun, hreq⟩ := exec_requested small_init small_storage
    ⟨rfl, by decide⟩ small_zero small_fresh [.map 0x400000 0x7000 VMM_PTE_USER]
  refine ⟨hflags, ?_⟩
  rw [← hroot, effectiveRights_page hrun hreq hflags]
  decide

end VmmRights
