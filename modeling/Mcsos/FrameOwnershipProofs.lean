import Mcsos.KernelVmmModel
import Mcsos.PmmInvariantProofs
import Mcsos.VmmRefinementProofs

/-! # Every frame has one owner

    The frame manager only knows used and free.  That the page tables and the
    other clients never share a frame follows from the order of events: a frame
    is marked used before anyone sees its address, and only its owner frees it.

    The ledger invariant `Books` is the allocator contract of the walker
    (`kernel_env`), so the tree invariant holds along with it in every
    interleaving (`reach_owned`); what the tree invariant says about entries of
    memory is then read off for the tables that are reachable from the root. -/

namespace FrameOwnership

open Word Loop ByteMemory PmmModel PmmFrame PmmInvariant VmmModel VmmTable VmmTree VmmRefinement
open KernelVmmModel

/-! ## The frame manager as a set of used frames

    `Freeable s a` says that `a` is the address of a used frame below the
    limit, other than frame 0. -/

/-- What an allocation does: nothing, or one more used frame. -/
theorem alloc_cases {s : PmmState} (h : PmmInv s) :
    pmmAllocFrame s = (PMM_INVALID_FRAME, s) ∨
    ∃ n t, pmmAllocFrame s = (n, t) ∧ PmmInv t ∧ t.maxPhys = s.maxPhys ∧ ¬ Freeable s n ∧
      n.toNat % 4096 = 0 ∧ n ≠ 0 ∧ n < s.maxPhys ∧
      ∀ a, Freeable t a ↔ a = n ∨ Freeable s a := by
  rcases pmmAllocFrame_spec h with ⟨-, heq⟩ | ⟨k, hk, heq⟩
  · exact Or.inl heq
  obtain ⟨haddr, hinv, hlay, hclear⟩ := takeFrame_spec h hk
  obtain ⟨hlt, hfree, -⟩ := hk
  have hmax := h.frames
  have hk0 : k.toNat ≠ 0 := fun h0 => h.zero_used (h0 ▸ hfree)
  generalize hn : (takeFrame s k).1 = n at haddr
  generalize ht : (takeFrame s k).2 = t at hinv hlay hclear
  have hdiv : n.toNat / 4096 = k.toNat := by omega
  refine Or.inr ⟨n, t, ?_, hinv, hlay.maxPhys, ?_, by omega, ?_, ?_, ?_⟩
  · rw [heq, ← hn, ← ht]
  · rintro ⟨-, -, -, hused⟩
    rw [hdiv] at hused
    exact hused hfree
  · rintro rfl
    exact hk0 (by rw [← hdiv]; rfl)
  · rw [BitVec.lt_def]
    omega
  · intro a
    rw [Freeable, Freeable, hlay.maxPhys]
    -- the bitmap changed at frame `k` only, and aligned addresses are their frames
    constructor
    · rintro ⟨h1, h2, h3, h4⟩
      by_cases han : a = n
      · exact Or.inl han
      · refine Or.inr ⟨h1, h2, h3, fun hc => h4 ((hclear _ (h.frame_lt h3)).mpr ⟨hc, ?_⟩)⟩
        intro hak
        exact han (BitVec.eq_of_toNat_eq (by omega))
    · rintro (rfl | ⟨h1, h2, h3, h4⟩)
      · refine ⟨by omega, ?_, by rw [BitVec.lt_def]; omega, fun hc => ?_⟩
        · rintro rfl
          exact hk0 (by rw [← hdiv]; rfl)
        · rw [hdiv] at hc
          exact ((hclear _ hlt).mp hc).2 rfl
      · exact ⟨h1, h2, h3, fun hc => h4 ((hclear _ (h.frame_lt h3)).mp hc).1⟩

/-- What freeing a used frame does: one used frame less. -/
theorem free_used {s : PmmState} (h : PmmInv s) {n : U64} (hn : Freeable s n) :
    PmmInv (pmmFreeFrame s n).2 ∧ (pmmFreeFrame s n).2.maxPhys = s.maxPhys ∧
    ∀ a, Freeable s a → a ≠ n → Freeable (pmmFreeFrame s n).2 a := by
  rcases pmmFreeFrame_spec h n with ⟨-, -, hinv, hlay, hclear⟩ | ⟨hnot, -⟩
  · refine ⟨hinv, hlay.maxPhys, ?_⟩
    rintro a ⟨h1, h2, h3, h4⟩ hne
    refine ⟨h1, h2, by rw [hlay.maxPhys]; exact h3, fun hc => ?_⟩
    rcases (hclear _ (h.frame_lt h3)).mp hc with hc | hc
    · exact h4 hc
    · have hn1 := hn.1
      exact hne (BitVec.eq_of_toNat_eq (by omega))
  · exact absurd hn hnot

/-! ## The ledger -/

/-- The tables `U` and the frames held by the other clients are used and have
    no frame in common, and every frame the walker took is one of its tables. -/
structure Books (maxPhys root : U64) (l : FrameLedger) (U : U64 → Prop) : Prop where
  pmm : PmmInv l.pmm
  limit : l.pmm.maxPhys = maxPhys
  tables : ∀ t, U t → Freeable l.pmm t
  held : ∀ a ∈ l.held, Freeable l.pmm a
  apart : ∀ a ∈ l.held, ¬ U a
  root_table : U root
  taken : ∀ t ∈ l.taken, U t ∧ t ≠ root

/-- The frames the manager can hand out. -/
def Frame (maxPhys p : U64) : Prop := p.toNat % 4096 = 0 ∧ p ≠ 0 ∧ p < maxPhys

/-- Each frame's page is reached by a pointer that is not null and does not run
    over the end of the address space. -/
def DirectMap (hhdmOffset maxPhys : U64) : Prop :=
  ∀ p, Frame maxPhys p →
    kernelVmmPhysToVirt hhdmOffset p ≠ 0 ∧
    (kernelVmmPhysToVirt hhdmOffset p).toNat + 4096 ≤ 2 ^ 64

variable {hhdmOffset maxPhys root : U64} {l : FrameLedger} {U : U64 → Prop}

/-- Through the direct map each frame has its own 4096 bytes. -/
theorem directMap_storage (h : DirectMap hhdmOffset maxPhys) :
    Storage (kernelVmmPhysToVirt hhdmOffset) (Frame maxPhys) := by
  refine ⟨fun p hp => (h p hp).1, fun p hp => (h p hp).2, ?_⟩
  intro p q hp hq hne
  have hfp := (h p hp).2
  have hfq := (h q hq).2
  obtain ⟨hp1, -, -⟩ := hp
  obtain ⟨hq1, -, -⟩ := hq
  have hne' : p.toNat ≠ q.toNat := fun h => hne (BitVec.eq_of_toNat_eq h)
  rw [kernelVmmPhysToVirt] at hfp
  rw [kernelVmmPhysToVirt] at hfq
  rw [kernelVmmPhysToVirt, kernelVmmPhysToVirt]
  bv_omega

/-- A failed allocation is not entered. -/
theorem record_invalid (frames : Finset U64) : record frames PMM_INVALID_FRAME = frames :=
  if_pos rfl

/-- A frame is entered. -/
theorem record_frame (frames : Finset U64) {n : U64} (hn : n.toNat % 4096 = 0) :
    record frames n = insert n frames := by
  refine if_neg ?_
  rintro rfl
  exact absurd hn (by decide)

/-- **ALLOCATOR CONTRACT**: a frame the walker takes is a frame of the direct
    map, none of its tables so far, and a table from then on. -/
theorem Books.vmmAlloc (h : Books maxPhys root l U) :
    ((kernelVmmAlloc l).1 = VMM_INVALID_PHYS ∧ Books maxPhys root (kernelVmmAlloc l).2 U) ∨
    (Frame maxPhys (kernelVmmAlloc l).1 ∧ ¬ U (kernelVmmAlloc l).1 ∧
      Books maxPhys root (kernelVmmAlloc l).2 (fun t => t = (kernelVmmAlloc l).1 ∨ U t)) := by
  simp only [kernelVmmAlloc]
  rcases alloc_cases h.pmm with heq | ⟨n, t, heq, hinv, hmax, hnew, hal, h0, hlt, hused⟩
  · rw [heq]
    simp only [record_invalid]
    exact Or.inl ⟨rfl, h⟩
  · rw [heq]
    simp only [record_frame _ hal]
    -- a table's frame is marked used, and this one was free
    have hnU : ¬ U n := fun hU => hnew (h.tables n hU)
    refine Or.inr ⟨⟨hal, h0, h.limit ▸ hlt⟩, hnU, ?_⟩
    refine ⟨hinv, hmax.trans h.limit, ?_, ?_, ?_, Or.inr h.root_table, ?_⟩
    · rintro a (rfl | ha)
      · exact (hused a).mpr (Or.inl rfl)
      · exact (hused a).mpr (Or.inr (h.tables a ha))
    · intro a ha
      exact (hused a).mpr (Or.inr (h.held a ha))
    · rintro a ha (rfl | hU)
      · exact hnew (h.held a ha)
      · exact h.apart a ha hU
    · intro a ha
      rcases Finset.mem_insert.mp ha with rfl | ha
      · exact ⟨Or.inl rfl, fun hroot => hnU (hroot ▸ h.root_table)⟩
      · exact ⟨Or.inr (h.taken a ha).1, (h.taken a ha).2⟩

/-- A client is never given a table. -/
theorem Books.clientAlloc (h : Books maxPhys root l U) :
    Books maxPhys root (clientAlloc l).2 U ∧ ¬ U (KernelVmmModel.clientAlloc l).1 := by
  simp only [KernelVmmModel.clientAlloc]
  rcases alloc_cases h.pmm with heq | ⟨n, t, heq, hinv, hmax, hnew, hal, h0, hlt, hused⟩
  · rw [heq]
    simp only [record_invalid]
    refine ⟨h, fun hU => ?_⟩
    exact absurd (h.tables _ hU).1 (by decide)
  · rw [heq]
    simp only [record_frame _ hal]
    -- so no table is handed to a client
    have hnU : ¬ U n := fun hU => hnew (h.tables n hU)
    refine ⟨⟨hinv, hmax.trans h.limit, ?_, ?_, ?_, h.root_table, h.taken⟩, hnU⟩
    · intro a ha
      exact (hused a).mpr (Or.inr (h.tables a ha))
    · intro a ha
      rcases Finset.mem_insert.mp ha with rfl | ha
      · exact (hused a).mpr (Or.inl rfl)
      · exact (hused a).mpr (Or.inr (h.held a ha))
    · intro a ha
      rcases Finset.mem_insert.mp ha with rfl | ha
      · exact hnU
      · exact h.apart a ha

/-- A client that frees its own frame frees no table. -/
theorem Books.clientFree (h : Books maxPhys root l U) {n : U64} (hn : n ∈ l.held) :
    Books maxPhys root (clientFree l n).2 U := by
  obtain ⟨hinv, hmax, hused⟩ := free_used h.pmm (h.held n hn)
  refine ⟨hinv, hmax.trans h.limit, ?_, ?_, ?_, h.root_table, h.taken⟩
  · intro t ht
    exact hused t (h.tables t ht) (fun htn => h.apart n hn (htn ▸ ht))
  · intro a ha
    obtain ⟨hne, ha⟩ := Finset.mem_erase.mp ha
    exact hused a (h.held a ha) hne
  · intro a ha
    exact h.apart a (Finset.mem_erase.mp ha).2

/-! ## The kernel's address space -/

/-- The address space `kernel_vmm_init` sets up. -/
def kernelSpace (hhdmOffset root : U64) : VmmSpace FrameLedger :=
  ⟨root, some kernelVmmAlloc, some kernelVmmFree, some (kernelVmmPhysToVirt hhdmOffset)⟩

/-- The kernel's adapters are an allocator of the kind the walker is proved for. -/
theorem kernel_env (hmap : DirectMap hhdmOffset maxPhys) (hmax : maxPhys.toNat ≤ 2 ^ 36)
    (hroot : root.toNat % 4096 = 0) :
    Env (kernelSpace hhdmOffset root) (kernelVmmPhysToVirt hhdmOffset) (Frame maxPhys)
      (Books maxPhys root) := by
  refine ⟨rfl, hroot, directMap_storage hmap, ?_⟩
  rintro _ ⟨⟩ l U hA
  rcases hA.vmmAlloc with ⟨hinv, hA'⟩ | ⟨hF, hnew, hA'⟩
  · exact Or.inl ⟨hinv, hA'⟩
  · have hlt := hF.2.2
    rw [BitVec.lt_def] at hlt
    exact Or.inr ⟨hF.1, by omega, hF, hnew, hA'⟩

/-- The tables are a tree that the walker owns, in the kernel's world. -/
def Owned (hhdmOffset maxPhys root : U64) (w : VmmWorld FrameLedger) : Prop :=
  ∃ M, Holds (kernelSpace hhdmOffset root) (kernelVmmPhysToVirt hhdmOffset) (Frame maxPhys)
    (Books maxPhys root) w M

/-- A byte of one frame is in no entry of another. -/
theorem entry_update {F : U64 → Prop} {p2v : U64 → U64} (hs : Storage p2v F) (mem : Mem)
    {a t i offset : U64} {value : U8} (ha : F a) (ht : F t) (hne : a ≠ t)
    (hoff : offset.toNat < 4096) (hi : i.toNat < 512) :
    entry p2v (Function.update mem (p2v a + offset) value) t i = entry p2v mem t i := by
  have hfa := hs.fits a ha
  have hft := hs.fits t ht
  have hapart := hs.apart a t ha ht hne
  have haddr := hs.entryAddr_toNat ht hi
  rw [entry, entry]
  refine load64_congr (fun j hj => ?_)
  refine Function.update_of_ne ?_ _ _
  intro heq
  have hval := congrArg BitVec.toNat heq
  rw [BitVec.toNat_add, BitVec.toNat_add, haddr, BitVec.toNat_ofNat] at hval
  omega

/-- **STEP**: the walker and the clients keep the tree and the ledger. -/
theorem frameStep_owned (hmap : DirectMap hhdmOffset maxPhys) (hmax : maxPhys.toNat ≤ 2 ^ 36)
    (hroot : root.toNat % 4096 = 0) {w : VmmWorld FrameLedger} {op : FrameOp}
    (h : Owned hhdmOffset maxPhys root w) (hop : Allowed w op) :
    Owned hhdmOffset maxPhys root
      (frameStep hhdmOffset (kernelSpace hhdmOffset root) w op) := by
  obtain ⟨M, hM⟩ := h
  cases op with
  | vmm op => exact ⟨_, vmmStep_spec (kernel_env hmap hmax hroot) hM op⟩
  | alloc =>
      obtain ⟨tab, hT, hA⟩ := hM
      exact ⟨M, tab, hT, hA.clientAlloc.1⟩
  | free frame =>
      obtain ⟨tab, hT, hA⟩ := hM
      exact ⟨M, tab, hT, hA.clientFree hop⟩
  | write frame offset value =>
      obtain ⟨tab, hT, hA⟩ := hM
      obtain ⟨hheld, hoff⟩ := hop
      refine ⟨M, tab, hT.of_entries ?_, hA⟩
      intro p t ht i hi
      have hF : Frame maxPhys frame := by
        obtain ⟨h1, h2, h3, -⟩ := hA.held frame hheld
        exact ⟨h1, h2, hA.limit ▸ h3⟩
      -- a client's frame is no table, so no entry changes
      have hne : frame ≠ t := by
        rintro rfl
        exact hA.apart frame hheld ⟨p, ht⟩
      exact entry_update (directMap_storage hmap) w.mem hF (hT.stored p t ht) hne hoff hi

/-- A page filled with zeros is a table of absent entries. -/
theorem load64_memset {mem : Mem} {page i : U64} (hfits : page.toNat + 4096 ≤ 2 ^ 64)
    (hi : i.toNat < 512) : load64 (memset mem page 0 4096) (entryAddr page i) = 0 := by
  have hzero : loadBytes (memset mem page 0 4096) (entryAddr page i) 8
      = loadBytes (fun _ => 0) (entryAddr page i) 8 := by
    refine loadBytes_congr (fun j hj => ?_)
    rw [memset, fillBytes_apply mem page 0 hfits, if_pos]
    rw [inRange_iff hfits, entryAddr]
    bv_omega
  rw [load64, hzero]
  simp [loadBytes]

/-- With an aligned frame for the root, `kernel_vmm_init` comes to its end. -/
theorem kernelVmmInit_ok {pmm t : PmmState} {root : U64} (heq : pmmAllocFrame pmm = (root, t))
    (hal : root.toNat % 4096 = 0) (hhdmOffset : U64) (mem : Mem) (held : Finset U64) :
    kernelVmmInit hhdmOffset mem pmm held
      = .ok (kernelSpace hhdmOffset root,
          ⟨memset mem (hhdmOffset + root) 0 4096, ⟨t, ∅, ∅, held⟩⟩) := by
  have hvalid : root ≠ PMM_INVALID_FRAME := by
    rintro rfl
    exact absurd hal (by decide)
  have hspace : vmmSpaceInit root (some kernelVmmAlloc) (some kernelVmmFree)
      (some (kernelVmmPhysToVirt hhdmOffset)) = .ok (kernelSpace hhdmOffset root) := by
    rw [vmmSpaceInit, (aligned_iff root).mpr hal]
    rfl
  rw [kernelVmmInit, heq]
  dsimp only
  rw [if_neg hvalid, hspace]

/-- What `kernel_vmm_init` leaves when it does not stop the kernel. -/
theorem kernelVmmInit_owned {mem : Mem} {pmm : PmmState} {held : Finset U64}
    {space : VmmSpace FrameLedger} {w : VmmWorld FrameLedger}
    (hpmm : PmmInv pmm) (hheld : ∀ a ∈ held, Freeable pmm a)
    (hmap : DirectMap hhdmOffset pmm.maxPhys)
    (hinit : kernelVmmInit hhdmOffset mem pmm held = .ok (space, w)) :
    ∃ root, root.toNat % 4096 = 0 ∧ space = kernelSpace hhdmOffset root ∧
      Owned hhdmOffset pmm.maxPhys root w := by
  rcases alloc_cases hpmm with heq | ⟨root, t, heq, hinv, hmax, hnew, hal, h0, hlt, hused⟩
  · rw [kernelVmmInit, heq, if_pos rfl] at hinit
    cases hinit
  have hworld := kernelVmmInit_ok heq hal hhdmOffset mem held
  have hF : Frame pmm.maxPhys root := ⟨hal, h0, hlt⟩
  have hzero : ∀ i : U64, i.toNat < 512 →
      load64 (memset mem (hhdmOffset + root) 0 4096)
        (entryAddr (kernelVmmPhysToVirt hhdmOffset root) i) = 0 :=
    fun i hi => load64_memset (hmap root hF).2 hi
  -- from here on the page is only known to be zero
  generalize memset mem (hhdmOffset + root) 0 4096 = zeroed at hworld hzero
  obtain ⟨rfl, rfl⟩ := Prod.mk.inj (Except.ok.inj (hworld.symm.trans hinit))
  refine ⟨root, hal, rfl, fun _ => none, _, pageTables_zero hF hzero, ?_⟩
  have huse : ∀ t, InUse (addTable (fun _ => none) [] root) t → t = root := by
    rintro t ⟨p, hp⟩
    rcases addTable_cases hp with ⟨-, h⟩ | ⟨-, h⟩
    · exact h
    · cases h
  refine ⟨hinv, hmax, ?_, ?_, ?_, ⟨[], addTable_same ..⟩, ?_⟩
  · intro t ht
    exact (hused t).mpr (Or.inl (huse t ht))
  · intro a ha
    exact (hused a).mpr (Or.inr (hheld a ha))
  · intro a ha hU
    exact hnew (huse a hU ▸ hheld a ha)
  · intro t ht
    exact absurd ht (Finset.notMem_empty t)

/-- **RUN**: the walker owns its tables in every world reached. -/
theorem reach_owned (hmap : DirectMap hhdmOffset maxPhys) (hmax : maxPhys.toNat ≤ 2 ^ 36)
    (hroot : root.toNat % 4096 = 0) {w₀ w : VmmWorld FrameLedger}
    (h₀ : Owned hhdmOffset maxPhys root w₀)
    (h : FrameReach hhdmOffset (kernelSpace hhdmOffset root) w₀ w) :
    Owned hhdmOffset maxPhys root w := by
  induction h with
  | start => exact h₀
  | step op _ hop ih => exact frameStep_owned hmap hmax hroot ih hop

/-! ## The tables in memory -/

/-- The tables reached from the root over present entries, with their depth;
    depth 3 is the page tables, whose entries are leaves. -/
inductive TableAt (p2v : U64 → U64) (mem : Mem) (root : U64) : Nat → U64 → Prop
  | root : TableAt p2v mem root 0 root
  | next {d : Nat} {t i : U64} (h : TableAt p2v mem root d t) (hd : d < 3) (hi : i.toNat < 512)
      (hp : entry p2v mem t i &&& VMM_PTE_PRESENT ≠ 0) :
      TableAt p2v mem root (d + 1) (entry p2v mem t i &&& VMM_PTE_ADDR_MASK)

/-- Entry `i` of table `t` is a present non-leaf entry reachable from the root
    that points to frame `n`. -/
def Links (p2v : U64 → U64) (mem : Mem) (root t i n : U64) : Prop :=
  (∃ d, d < 3 ∧ TableAt p2v mem root d t) ∧ i.toNat < 512 ∧
  entry p2v mem t i &&& VMM_PTE_PRESENT ≠ 0 ∧ entry p2v mem t i &&& VMM_PTE_ADDR_MASK = n

section Tree

variable {p2v : U64 → U64} {F : U64 → Prop} {mem : Mem} {tab : Tables} {M : PageMap}

/-- A present inner entry is the link of the tree at that place. -/
theorem tab_of_present (hT : PageTables p2v F root mem tab M) {p : List U64} {t i : U64}
    (ht : tab p = some t) (hlen : p.length < 3) (hi : i.toNat < 512)
    (hp : entry p2v mem t i &&& VMM_PTE_PRESENT ≠ 0) :
    tab (p ++ [i]) = some (entry p2v mem t i &&& VMM_PTE_ADDR_MASK) := by
  have hentry := hT.inner p t i ht hlen hi
  cases hn : tab (p ++ [i]) with
  | none =>
      rw [hn] at hentry
      rw [hentry] at hp
      exact absurd rfl hp
  | some n =>
      obtain ⟨hal, hlt⟩ := hT.frame _ _ hn (by simp)
      rw [hn] at hentry
      rw [hentry]
      exact congrArg some (linkEntry_bits hal hlt).2.2.symm

/-- A step of the tree is a present inner entry. -/
theorem present_of_tab (hT : PageTables p2v F root mem tab M) {p : List U64} {t i n : U64}
    (ht : tab p = some t) (hn : tab (p ++ [i]) = some n) :
    p.length < 3 ∧ i.toNat < 512 ∧ entry p2v mem t i &&& VMM_PTE_PRESENT ≠ 0 ∧
      entry p2v mem t i &&& VMM_PTE_ADDR_MASK = n := by
  obtain ⟨hlen, hidx⟩ := hT.paths _ _ hn
  rw [List.length_append] at hlen
  have hi : i.toNat < 512 := hidx i (List.mem_append.mpr (Or.inr (List.mem_singleton.mpr rfl)))
  obtain ⟨hal, hlt⟩ := hT.frame _ _ hn (by simp)
  obtain ⟨hp, -, haddr⟩ := linkEntry_bits hal hlt
  have hentry := hT.inner p t i ht hlen hi
  rw [hn, Option.elim_some] at hentry
  rw [hentry]
  exact ⟨hlen, hi, hp, haddr⟩

/-- The tables in memory are those of the tree, depth for length. -/
theorem tableAt_path (hT : PageTables p2v F root mem tab M) {d : Nat} {t : U64}
    (h : TableAt p2v mem root d t) : ∃ p, p.length = d ∧ tab p = some t := by
  induction h with
  | root => exact ⟨[], rfl, hT.root_tab⟩
  | next _ hd hi hp ih =>
      obtain ⟨p, hlen, ht⟩ := ih
      exact ⟨_, by rw [List.length_append, hlen]; rfl, tab_of_present hT ht (hlen ▸ hd) hi hp⟩

/-- The table at the end of a path is reached from the root in as many steps. -/
theorem path_tableAt (hT : PageTables p2v F root mem tab M) (p : List U64) :
    ∀ {t : U64}, tab p = some t → TableAt p2v mem root p.length t := by
  induction p using List.reverseRecOn with
  | nil =>
      intro t ht
      obtain rfl : root = t := Option.some.inj (hT.root_tab.symm.trans ht)
      exact TableAt.root
  | append_singleton p i ih =>
      intro t ht
      obtain ⟨u, hu⟩ := hT.parent p i t ht
      obtain ⟨hlen, hi, hp, haddr⟩ := present_of_tab hT hu ht
      rw [List.length_append, ← haddr]
      exact TableAt.next (ih hu) hlen hi hp

/-- The links of memory are the steps of the tree. -/
theorem links_iff (hT : PageTables p2v F root mem tab M) {t i n : U64} :
    Links p2v mem root t i n ↔ ∃ p, tab p = some t ∧ tab (p ++ [i]) = some n := by
  constructor
  · rintro ⟨⟨d, hd, ht⟩, hi, hp, rfl⟩
    obtain ⟨p, rfl, htab⟩ := tableAt_path hT ht
    exact ⟨p, htab, tab_of_present hT htab hd hi hp⟩
  · rintro ⟨p, ht, hn⟩
    obtain ⟨hlen, hi, hp, haddr⟩ := present_of_tab hT ht hn
    exact ⟨⟨p.length, hlen, path_tableAt hT p ht⟩, hi, hp, haddr⟩

/-- A frame is linked at most once. -/
theorem links_unique (hT : PageTables p2v F root mem tab M) {t i t' i' n : U64}
    (h : Links p2v mem root t i n) (h' : Links p2v mem root t' i' n) : t' = t ∧ i' = i := by
  obtain ⟨p, ht, hn⟩ := (links_iff hT).mp h
  obtain ⟨p', ht', hn'⟩ := (links_iff hT).mp h'
  obtain ⟨hp, hi⟩ := List.append_inj' (hT.unique _ _ n hn' hn) rfl
  rw [hp] at ht'
  exact ⟨Option.some.inj (ht'.symm.trans ht), List.head_eq_of_cons_eq hi⟩

/-- The root is not linked at all. -/
theorem links_ne_root (hT : PageTables p2v F root mem tab M) {t i n : U64}
    (h : Links p2v mem root t i n) : n ≠ root := by
  rintro rfl
  obtain ⟨p, -, hn⟩ := (links_iff hT).mp h
  exact absurd (hT.unique _ _ n hn hT.root_tab) (by simp)

/-- Every other table is linked. -/
theorem exists_link (hT : PageTables p2v F root mem tab M) {n : U64} (h : InUse tab n)
    (hne : n ≠ root) : ∃ t i, Links p2v mem root t i n := by
  obtain ⟨p, hp⟩ := h
  rcases List.eq_nil_or_concat p with rfl | ⟨q, i, rfl⟩
  · exact absurd (Option.some.inj (hp.symm.trans hT.root_tab)) hne
  · rw [List.concat_eq_append] at hp
    obtain ⟨t, ht⟩ := hT.parent q i n hp
    exact ⟨t, i, (links_iff hT).mpr ⟨q, ht, hp⟩⟩

end Tree

/-- The frame at `a` lies below the limit and its bit is set. -/
def MarkedUsed (s : PmmState) (a : U64) : Prop :=
  a.toNat % 4096 = 0 ∧ a < s.maxPhys ∧ bitmapTest s.bitmap (a / PMM_PAGE_SIZE) = true

/-- What can be freed is marked used. -/
theorem markedUsed_of_freeable {s : PmmState} {a : U64} (h : Freeable s a) : MarkedUsed s a := by
  obtain ⟨hal, -, hlt, hused⟩ := h
  rw [clear_page_iff, Bool.not_eq_false] at hused
  exact ⟨hal, hlt, hused⟩

/-- **ONE OWNER PER FRAME**: after `kernel_vmm_init` on a frame manager with at
    most 64 GiB, in every interleaving of `vmm_map_page` and `vmm_unmap_page`
    calls with clients that keep to their own frames: the present non-leaf
    entries point to different frames, all marked used; no table is given to a
    client or held by one; and every frame the walker took is linked exactly
    once, or was given back. -/
theorem pmm_vmm_compose {mem : Mem} {pmm : PmmState} {held : Finset U64}
    {space : VmmSpace FrameLedger} {w₀ w : VmmWorld FrameLedger}
    (hpmm : PmmReachable pmm) (hmax : pmm.maxPhys.toNat ≤ 64 * 2 ^ 30)
    (hheld : ∀ a ∈ held, a ≠ 0 ∧ MarkedUsed pmm a) (hmap : DirectMap hhdmOffset pmm.maxPhys)
    (hinit : kernelVmmInit hhdmOffset mem pmm held = .ok (space, w₀))
    (h : FrameReach hhdmOffset space w₀ w) :
    (∀ t i n, Links (kernelVmmPhysToVirt hhdmOffset) w.mem space.rootPaddr t i n →
      MarkedUsed w.ctx.pmm n ∧ n ≠ space.rootPaddr ∧
      ∀ t' i', Links (kernelVmmPhysToVirt hhdmOffset) w.mem space.rootPaddr t' i' n →
        t' = t ∧ i' = i) ∧
    (∀ d t, TableAt (kernelVmmPhysToVirt hhdmOffset) w.mem space.rootPaddr d t →
      (clientAlloc w.ctx).1 ≠ t ∧ t ∉ w.ctx.held) ∧
    (∀ n ∈ w.ctx.taken,
      (∃! e : U64 × U64,
        Links (kernelVmmPhysToVirt hhdmOffset) w.mem space.rootPaddr e.1 e.2 n) ∨
      n ∈ w.ctx.givenBack) := by
  have hheld' : ∀ a ∈ held, Freeable pmm a := by
    intro a ha
    obtain ⟨hne, hal, hlt, hbit⟩ := hheld a ha
    rw [← Bool.not_eq_false, ← clear_page_iff] at hbit
    exact ⟨hal, hne, hlt, hbit⟩
  obtain ⟨root, hroot, rfl, h₀⟩ := kernelVmmInit_owned (PmmReachable.inv hpmm) hheld' hmap hinit
  obtain ⟨M, tab, hT, hA⟩ := reach_owned hmap (by omega) hroot h₀ h
  refine ⟨?_, ?_, ?_⟩
  · intro t i n hl
    obtain ⟨p, -, hn⟩ := (links_iff hT).mp hl
    exact ⟨markedUsed_of_freeable (hA.tables n ⟨_, hn⟩), links_ne_root hT hl,
      fun t' i' hl' => links_unique hT hl hl'⟩
  · intro d t ht
    obtain ⟨p, -, hp⟩ := tableAt_path hT ht
    refine ⟨?_, fun hheld => hA.apart t hheld ⟨p, hp⟩⟩
    rintro rfl
    exact hA.clientAlloc.2 ⟨p, hp⟩
  · -- a frame is given back only if it has no pointer, which the direct map excludes
    intro n hn
    obtain ⟨hU, hne⟩ := hA.taken n hn
    obtain ⟨t, i, hl⟩ := exists_link hT hU hne
    refine Or.inl ⟨(t, i), hl, ?_⟩
    rintro ⟨t', i'⟩ hl'
    obtain ⟨rfl, rfl⟩ := links_unique hT hl hl'
    rfl

/-! ## A kernel with two free frames -/

/-- Memory with a zeroed page for the root table, and garbage elsewhere. -/
def rootZeroed : Mem := fun x => if InRange 0xffff800000001000 4096 x then 0 else 0xff

/-- The kernel after `kernel_vmm_init` with frames 1 and 2 free. -/
def smallStart : VmmWorld FrameLedger :=
  ⟨rootZeroed, ⟨(pmmAllocFrame smallState).2, ∅, ∅, ∅⟩⟩

/-- The small kernel comes up with its root in frame 1. -/
theorem smallStart_init :
    kernelVmmInit 0xffff800000000000 (fun _ => 0xff) smallState ∅
      = .ok (kernelSpace 0xffff800000000000 0x1000, smallStart) := by
  have hzero : memset (fun _ => 0xff) 0xffff800000001000 0 4096 = rootZeroed :=
    funext (fillBytes_apply _ _ 0 (by decide))
  have hroot : (pmmAllocFrame smallState).1 = 0x1000 := by decide +kernel
  have hadd : (0xffff800000000000 : U64) + 0x1000 = 0xffff800000001000 := by decide
  rw [kernelVmmInit_ok (Prod.ext hroot rfl) (by decide), hadd, hzero]
  rfl

/-- A mapping that finds one frame where it needs three. -/
def failedMap : Except VmmErr Unit × VmmWorld FrameLedger :=
  vmmStep (kernelSpace 0xffff800000000000 0x1000) smallStart (.map 0x400000 0x7000 3)

/-- The mapping fails after it has taken a frame, which it keeps. -/
theorem failedMap_run : failedMap.1 = .error .nomem ∧ failedMap.2.ctx.taken = {0x2000} ∧
    failedMap.2.ctx.givenBack = ∅ := by
  decide +kernel

/-- The direct map of the small kernel does not wrap. -/
theorem small_directMap : DirectMap 0xffff800000000000 smallState.maxPhys := by
  have hlimit : smallState.maxPhys = 0x4000 := by decide +kernel
  rintro p ⟨-, -, hlt⟩
  rw [hlimit] at hlt
  rw [kernelVmmPhysToVirt]
  exact ⟨by bv_omega, by bv_omega⟩

/-- The table made before the failure stays linked, once. -/
theorem pmm_vmm_compose_nomem :
    failedMap.1 = .error .nomem ∧
    ∃! e : U64 × U64, Links (kernelVmmPhysToVirt 0xffff800000000000) failedMap.2.mem 0x1000
      e.1 e.2 0x2000 := by
  have hreach : FrameReach 0xffff800000000000 (kernelSpace 0xffff800000000000 0x1000)
      smallStart failedMap.2 :=
    .step (.vmm (.map 0x400000 0x7000 3)) .start trivial
  have h := pmm_vmm_compose (smallState_reachable []) (by decide +kernel)
    (fun a ha => absurd ha (Finset.notMem_empty a)) small_directMap smallStart_init hreach
  obtain ⟨hfail, htaken, hgiven⟩ := failedMap_run
  have hlinked := h.2.2 0x2000
  rw [htaken, hgiven] at hlinked
  exact ⟨hfail, (hlinked (Finset.mem_singleton_self _)).resolve_right (Finset.notMem_empty _)⟩

end FrameOwnership
