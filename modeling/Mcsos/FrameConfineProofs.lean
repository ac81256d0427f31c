import Mcsos.FrameOwnershipProofs
import Mcsos.VmmFootprintProofs

/-! # Frames never leave their kind

    Whatever holds of all frames that are free at the start holds of every frame
    that anyone has later: the manager hands out no other, and takes none back that
    it did not hand out.  With the footprint of the walker this confines what a run
    writes, too. -/

namespace FrameConfine

open Word ByteMemory PmmModel PmmFrame PmmInvariant VmmModel VmmTable VmmTree VmmRefinement
open VmmFootprint KernelVmmModel FrameOwnership

/-! ## The frame manager -/

/-- An allocation opens nothing, and gives out a frame that was free. -/
theorem alloc_clear {s : PmmState} (h : PmmInv s) :
    (pmmAllocFrame s).2.frameCount = s.frameCount ∧
    (∀ n, n < s.frameCount.toNat → Clear (pmmAllocFrame s).2 n → Clear s n) ∧
    ((pmmAllocFrame s).1 = PMM_INVALID_FRAME ∨
      (pmmAllocFrame s).1.toNat / 4096 < s.frameCount.toNat ∧
      Clear s ((pmmAllocFrame s).1.toNat / 4096)) := by
  rcases pmmAllocFrame_spec h with ⟨-, heq⟩ | ⟨k, hk, heq⟩
  · rw [heq]
    exact ⟨rfl, fun _ _ hn => hn, Or.inl rfl⟩
  · obtain ⟨haddr, -, hlay, hclear⟩ := takeFrame_spec h hk
    obtain ⟨hlt, hfree, -⟩ := hk
    have hdiv : (takeFrame s k).1.toNat / 4096 = k.toNat := by omega
    rw [heq]
    refine ⟨hlay.frameCount, fun n hn hn' => ((hclear n hn).mp hn').1, Or.inr ?_⟩
    rw [hdiv]
    exact ⟨hlt, hfree⟩

/-- A frame that is given back is the only one that may become free. -/
theorem free_clear {s : PmmState} (h : PmmInv s) (a : U64) :
    (pmmFreeFrame s a).2.frameCount = s.frameCount ∧
    ∀ n, n < s.frameCount.toNat → Clear (pmmFreeFrame s a).2 n →
      Clear s n ∨ n = a.toNat / 4096 := by
  rcases pmmFreeFrame_spec h a with ⟨-, -, -, hlay, hclear⟩ | ⟨-, heq⟩
  · exact ⟨hlay.frameCount, fun n hn hn' => (hclear n hn).mp hn'⟩
  · rw [heq]
    exact ⟨rfl, fun _ _ hn => Or.inl hn⟩

/-! ## The ledger -/

/-- Every frame that is free, a table or held by a client is one of `P`. -/
structure Confined (maxPhys root : U64) (P : Nat → Prop) (l : FrameLedger) (U : U64 → Prop) :
    Prop where
  books : Books maxPhys root l U
  free : ∀ n, n < l.pmm.frameCount.toNat → Clear l.pmm n → P n
  tables : ∀ t, U t → P (t.toNat / 4096)
  held : ∀ a ∈ l.held, P (a.toNat / 4096)

/-- The frames of `P` below the limit. -/
def FrameOf (maxPhys : U64) (P : Nat → Prop) (p : U64) : Prop :=
  Frame maxPhys p ∧ P (p.toNat / 4096)

variable {hhdmOffset maxPhys root : U64} {P : Nat → Prop} {l : FrameLedger} {U : U64 → Prop}

/-- Frames of a smaller set are stored apart as well. -/
theorem storage_of (h : DirectMap hhdmOffset maxPhys) :
    Storage (kernelVmmPhysToVirt hhdmOffset) (FrameOf maxPhys P) := by
  have hs := directMap_storage h
  exact ⟨fun p hp => hs.nonnull p hp.1, fun p hp => hs.fits p hp.1,
    fun p q hp hq => hs.apart p q hp.1 hq.1⟩

/-- Taking a frame makes no other one free. -/
theorem Confined.alloc_free (h : Confined maxPhys root P l U) :
    ∀ n, n < (pmmAllocFrame l.pmm).2.frameCount.toNat → Clear (pmmAllocFrame l.pmm).2 n → P n := by
  obtain ⟨hcount, hclear, -⟩ := alloc_clear h.books.pmm
  intro n hn hn'
  rw [hcount] at hn
  exact h.free n hn (hclear n hn hn')

/-- A frame that is handed out is one of the set. -/
theorem Confined.alloc_frame (h : Confined maxPhys root P l U) :
    (pmmAllocFrame l.pmm).1 = PMM_INVALID_FRAME ∨ P ((pmmAllocFrame l.pmm).1.toNat / 4096) := by
  obtain ⟨-, -, hinvalid | ⟨hlt, hfree⟩⟩ := alloc_clear h.books.pmm
  · exact Or.inl hinvalid
  · exact Or.inr (h.free _ hlt hfree)

/-- A frame the walker takes is of the kind. -/
theorem Confined.vmmAlloc (h : Confined maxPhys root P l U) :
    ((kernelVmmAlloc l).1 = VMM_INVALID_PHYS ∧ Confined maxPhys root P (kernelVmmAlloc l).2 U) ∨
    (FrameOf maxPhys P (kernelVmmAlloc l).1 ∧ ¬ U (kernelVmmAlloc l).1 ∧
      Confined maxPhys root P (kernelVmmAlloc l).2 (fun t => t = (kernelVmmAlloc l).1 ∨ U t)) := by
  rcases h.books.vmmAlloc with ⟨hinvalid, hbooks⟩ | ⟨hF, hnew, hbooks⟩
  · exact Or.inl ⟨hinvalid, hbooks, h.alloc_free, h.tables, h.held⟩
  · have hP : P ((kernelVmmAlloc l).1.toNat / 4096) := by
      refine h.alloc_frame.resolve_left (fun hinvalid => ?_)
      have hal := hF.1
      rw [show (kernelVmmAlloc l).1 = PMM_INVALID_FRAME from hinvalid] at hal
      exact absurd hal (by decide)
    refine Or.inr ⟨⟨hF, hP⟩, hnew, hbooks, h.alloc_free, ?_, h.held⟩
    rintro t (rfl | ht)
    · exact hP
    · exact h.tables t ht

/-- What a client allocates is confined. -/
theorem Confined.clientAlloc (h : Confined maxPhys root P l U) :
    Confined maxPhys root P (clientAlloc l).2 U := by
  refine ⟨h.books.clientAlloc.1, h.alloc_free, h.tables, ?_⟩
  intro a ha
  have ha : a ∈ record l.held (pmmAllocFrame l.pmm).1 := ha
  rcases h.alloc_frame with hinvalid | hP
  · rw [hinvalid, record_invalid] at ha
    exact h.held a ha
  · rw [record] at ha
    split at ha
    · exact h.held a ha
    · rcases Finset.mem_insert.mp ha with rfl | ha
      · exact hP
      · exact h.held a ha

/-- A client gives back what it has. -/
theorem Confined.clientFree (h : Confined maxPhys root P l U) {n : U64} (hn : n ∈ l.held) :
    Confined maxPhys root P (clientFree l n).2 U := by
  obtain ⟨hcount, hclear⟩ := free_clear h.books.pmm n
  refine ⟨h.books.clientFree hn, ?_, h.tables, fun a ha => h.held a (Finset.mem_erase.mp ha).2⟩
  intro m hm hm'
  have hm : m < l.pmm.frameCount.toNat := hcount ▸ hm
  rcases hclear m hm hm' with hfree | rfl
  · exact h.free m hm hfree
  · exact h.held n hn

/-! ## Runs -/

/-- The walker may be run on frames of the set, and stays in it. -/
theorem confined_env (hmap : DirectMap hhdmOffset maxPhys) (hmax : maxPhys.toNat ≤ 2 ^ 36)
    (hroot : root.toNat % 4096 = 0) :
    Env (kernelSpace hhdmOffset root) (kernelVmmPhysToVirt hhdmOffset) (FrameOf maxPhys P)
      (Confined maxPhys root P) := by
  refine ⟨rfl, hroot, storage_of hmap, ?_⟩
  rintro _ ⟨⟩ l U hA
  rcases hA.vmmAlloc with ⟨hinv, hA'⟩ | ⟨hF, hnew, hA'⟩
  · exact Or.inl ⟨hinv, hA'⟩
  · have hlt := hF.1.2.2
    rw [BitVec.lt_def] at hlt
    exact Or.inr ⟨hF.1.1, by omega, hF, hnew, hA'⟩

/-- The world has its tables in frames of `P`, all others it knows are of `P`, and its
    memory is `mem` elsewhere. -/
def Within (hhdmOffset maxPhys root : U64) (P : Nat → Prop) (mem : Mem)
    (w : VmmWorld FrameLedger) : Prop :=
  (∃ M, Holds (kernelSpace hhdmOffset root) (kernelVmmPhysToVirt hhdmOffset) (FrameOf maxPhys P)
    (Confined maxPhys root P) w M) ∧
  ∀ x, Elsewhere (kernelVmmPhysToVirt hhdmOffset) (FrameOf maxPhys P) x → w.mem x = mem x

variable {mem : Mem} {w w₀ : VmmWorld FrameLedger}

/-- Others may write where no frame of `P` is. -/
theorem Within.elsewhere (h : Within hhdmOffset maxPhys root P mem w)
    (hmap : DirectMap hhdmOffset maxPhys) {mem' : Mem}
    (hsame : ∀ x, ¬ Elsewhere (kernelVmmPhysToVirt hhdmOffset) (FrameOf maxPhys P) x →
      mem' x = w.mem x) :
    Within hhdmOffset maxPhys root P mem' { w with mem := mem' } := by
  obtain ⟨⟨M, tab, hT, hA⟩, -⟩ := h
  refine ⟨⟨M, tab, hT.of_entries ?_, hA⟩, fun _ _ => rfl⟩
  intro p t ht i hi
  have hF := hT.stored p t ht
  have hfits := (storage_of hmap).fits t hF
  have haddr := (storage_of (P := P) hmap).entryAddr_toNat hF hi
  refine load64_congr (fun j hj => hsame _ (fun helse => helse t hF ?_))
  rw [inRange_iff hfits, BitVec.toNat_add, haddr, BitVec.toNat_ofNat]
  omega

/-- **STEP**: the walker and the clients stay within the frames of `P`. -/
theorem frameStep_within (hmap : DirectMap hhdmOffset maxPhys) (hmax : maxPhys.toNat ≤ 2 ^ 36)
    (hroot : root.toNat % 4096 = 0) (h : Within hhdmOffset maxPhys root P mem w) {op : FrameOp}
    (hop : Allowed w op) :
    Within hhdmOffset maxPhys root P mem
      (frameStep hhdmOffset (kernelSpace hhdmOffset root) w op) := by
  obtain ⟨⟨M, hM⟩, hsame⟩ := h
  have hE : Env (kernelSpace hhdmOffset root) _ _ (Confined maxPhys root P) :=
    confined_env hmap hmax hroot
  cases op with
  | vmm op =>
      exact ⟨⟨_, vmmStep_spec hE hM op⟩,
        fun x hx => (vmmStep_elsewhere hE hM hx op).trans (hsame x hx)⟩
  | alloc =>
      obtain ⟨tab, hT, hA⟩ := hM
      exact ⟨⟨M, tab, hT, hA.clientAlloc⟩, hsame⟩
  | free frame =>
      obtain ⟨tab, hT, hA⟩ := hM
      exact ⟨⟨M, tab, hT, hA.clientFree hop⟩, hsame⟩
  | write frame offset value =>
      obtain ⟨tab, hT, hA⟩ := hM
      obtain ⟨hheld, hoff⟩ := hop
      have hF : FrameOf maxPhys P frame := by
        obtain ⟨h1, h2, h3, -⟩ := hA.books.held frame hheld
        exact ⟨⟨h1, h2, hA.books.limit ▸ h3⟩, hA.held frame hheld⟩
      constructor
      · refine ⟨M, tab, hT.of_entries ?_, hA⟩
        intro p t ht i hi
        -- a client's frame is no table, so no entry changes
        have hne : frame ≠ t := by
          rintro rfl
          exact hA.books.apart frame hheld ⟨p, ht⟩
        exact entry_update (storage_of hmap) w.mem hF (hT.stored p t ht) hne hoff hi
      · intro x hx
        refine (Function.update_of_ne ?_ _ _).trans (hsame x hx)
        rintro rfl
        refine hx frame hF ?_
        have hdiff : hhdmOffset + frame + offset - (hhdmOffset + frame) = offset := by bv_omega
        show (hhdmOffset + frame + offset - (hhdmOffset + frame)).toNat < 4096
        rw [hdiff]
        exact hoff

/-- **RUN**: and so does every interleaving of them. -/
theorem reach_within (hmap : DirectMap hhdmOffset maxPhys) (hmax : maxPhys.toNat ≤ 2 ^ 36)
    (hroot : root.toNat % 4096 = 0) (h₀ : Within hhdmOffset maxPhys root P mem w₀)
    (h : FrameReach hhdmOffset (kernelSpace hhdmOffset root) w₀ w) :
    Within hhdmOffset maxPhys root P mem w := by
  induction h with
  | start => exact h₀
  | step op _ hop ih => exact frameStep_within hmap hmax hroot ih hop

/-- The start: one table, in a frame of `P`, on a manager with no other frames. -/
theorem within_start {pmm t : PmmState} (hpmm : PmmInv pmm)
    (hmap : DirectMap hhdmOffset pmm.maxPhys)
    (hfree : ∀ n, n < pmm.frameCount.toNat → Clear pmm n → P n)
    (heq : pmmAllocFrame pmm = (root, t)) (hvalid : root ≠ PMM_INVALID_FRAME) :
    Within hhdmOffset pmm.maxPhys root P mem
      ⟨memset mem (hhdmOffset + root) 0 4096, ⟨t, ∅, ∅, ∅⟩⟩ := by
  obtain ⟨hcount, hclear, hfirst⟩ := alloc_clear hpmm
  rcases alloc_cases hpmm with hnone | ⟨root, t, heq', hinv, hmax, hnew, hal, h0, hlt, hused⟩
  · rw [heq] at hnone
    exact absurd (congrArg Prod.fst hnone) hvalid
  obtain ⟨rfl, rfl⟩ := Prod.mk.inj (heq'.symm.trans heq)
  rw [heq] at hcount hclear hfirst
  have hP : P (root.toNat / 4096) := by
    obtain ⟨hlt, hc⟩ := hfirst.resolve_left hvalid
    exact hfree _ hlt hc
  have hF : FrameOf pmm.maxPhys P root := ⟨⟨hal, h0, hlt⟩, hP⟩
  have hfits : (hhdmOffset + root).toNat + 4096 ≤ 2 ^ 64 := (hmap root hF.1).2
  -- the root is the only table
  have huse : ∀ t, InUse (addTable (fun _ => none) [] root) t → t = root := by
    rintro t ⟨p, hp⟩
    rcases addTable_cases hp with ⟨-, h⟩ | ⟨-, h⟩
    · exact h
    · cases h
  have hzero : ∀ i : U64, i.toNat < 512 →
      load64 (memset mem (hhdmOffset + root) 0 4096)
        (entryAddr (kernelVmmPhysToVirt hhdmOffset root) i) = 0 :=
    fun i hi => load64_memset hfits hi
  have hsame : ∀ x, Elsewhere (kernelVmmPhysToVirt hhdmOffset) (FrameOf pmm.maxPhys P) x →
      memset mem (hhdmOffset + root) 0 4096 x = mem x := by
    intro x hx
    rw [memset, fillBytes_apply mem _ 0 hfits]
    exact if_neg (hx root hF)
  -- from here on the page is only known to be zero
  generalize memset mem (hhdmOffset + root) 0 4096 = zeroed at hzero hsame
  refine ⟨⟨fun _ => none, _, pageTables_zero hF hzero, ?_⟩, hsame⟩
  have hnobody : ∀ {Q : U64 → Prop}, ∀ a ∈ (∅ : Finset U64), Q a :=
    fun a ha => absurd ha (Finset.notMem_empty a)
  refine ⟨⟨hinv, hmax, ?_, hnobody, hnobody, ⟨[], addTable_same ..⟩, hnobody⟩, ?_, ?_, hnobody⟩
  · intro t ht
    exact (hused t).mpr (Or.inl (huse t ht))
  · intro n hn hn'
    have hn : n < pmm.frameCount.toNat := hcount ▸ hn
    exact hfree n hn (hclear n hn hn')
  · intro t ht
    rw [huse t ht]
    exact hP

end FrameConfine
