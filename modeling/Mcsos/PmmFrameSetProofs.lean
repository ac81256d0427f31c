import Mcsos.PmmInvariantProofs
import Mathlib.Data.Finset.Max

/-! # The manager refines a set of free frames

    What the manager is for: a finite set of free frames below a limit, where
    allocation takes the minimum.  There is no bitmap, no counter and no hint
    in it.  Every reachable manager answers every run of calls exactly as the
    set it represents (`outputs_refine`), so all that a client can observe is
    the set; the hint in particular is invisible. -/

namespace PmmFrameSet

open Word Loop PmmModel PmmFrame PmmRange PmmInvariant

/-- The abstract manager: frames `0 .. limit - 1`, some of them free. -/
structure FrameSet where
  limit : Nat
  free : Finset Nat

/-- Abstract allocation: the least free frame, if there is one. -/
def FrameSet.alloc (F : FrameSet) : U64 × FrameSet :=
  if h : F.free.Nonempty then
    (BitVec.ofNat 64 (4096 * F.free.min' h), { F with free := F.free.erase (F.free.min' h) })
  else (PMM_INVALID_FRAME, F)

/-- The addresses the abstract manager takes back. -/
def FrameSet.Freeable (F : FrameSet) (a : U64) : Prop :=
  a.toNat % 4096 = 0 ∧ a ≠ 0 ∧ a.toNat < 4096 * F.limit ∧ a.toNat / 4096 ∉ F.free

instance (F : FrameSet) (a : U64) : Decidable (F.Freeable a) :=
  inferInstanceAs (Decidable (_ ∧ _ ∧ _ ∧ _))

/-- Abstract freeing. -/
def FrameSet.giveBack (F : FrameSet) (a : U64) : Bool × FrameSet :=
  if F.Freeable a then (true, { F with free := insert (a.toNat / 4096) F.free })
  else (false, F)

/-- One call on the set of free frames. -/
def frameSetStep (F : FrameSet) : PmmOp → PmmOut × FrameSet
  | .allocFrame => (.word F.alloc.1, F.alloc.2)
  | .freeFrame a => (.bool (F.giveBack a).1, (F.giveBack a).2)
  | .reserveRange b l =>
      (.bool (decide (l ≠ 0)), { F with free := F.free.filter (fun n => ¬ ReservesFrame b l n) })
  | .isFrameFree a => (.bool (decide (a.toNat % 4096 = 0 ∧ a.toNat / 4096 ∈ F.free)), F)
  | .freeCount => (.word (BitVec.ofNat 64 F.free.card), F)
  | .usedCount => (.word (BitVec.ofNat 64 (F.limit - F.free.card)), F)
  | .frameCount => (.word (BitVec.ofNat 64 F.limit), F)

/-- The set a manager represents. -/
def frameSet (s : PmmState) : FrameSet :=
  { limit := s.frameCount.toNat
    free := (Finset.range s.frameCount.toNat).filter (Clear s) }

/-- The set has the frames whose bit is clear. -/
theorem mem_frameSet (s : PmmState) (n : Nat) :
    n ∈ (frameSet s).free ↔ n < s.frameCount.toNat ∧ Clear s n := by
  rw [frameSet]
  rw [Finset.mem_filter, Finset.mem_range]

/-- The represented set after a step, from what the step did to the bits. -/
theorem frameSet_eq {s t : PmmState} (hlay : SameLayout s t) {A : Finset Nat}
    (hA : ∀ n, n ∈ A ↔ n < s.frameCount.toNat ∧ Clear t n) :
    frameSet t = { limit := (frameSet s).limit, free := A } := by
  have hfree : (frameSet t).free = A := by
    ext n
    rw [mem_frameSet, hlay.frameCount, hA]
  have hlim : (frameSet t).limit = (frameSet s).limit := congrArg BitVec.toNat hlay.frameCount
  rw [← hfree, ← hlim]

/-- The size of the set is the count that the kernel keeps. -/
theorem card_frameSet {s : PmmState} (h : PmmInv s) :
    (frameSet s).free.card = s.freeFrames.toNat := by
  rw [h.free_eq, Nat.count_eq_card_filter_range]
  rfl

/-- The least free frame is the minimum of the represented set. -/
theorem min_frameSet {s : PmmState} {k : Nat} (hk : IsLeastFree s k) :
    ∃ hne : (frameSet s).free.Nonempty, (frameSet s).free.min' hne = k := by
  have hmem : k ∈ (frameSet s).free := (mem_frameSet s k).mpr ⟨hk.1, hk.2.1⟩
  refine ⟨⟨k, hmem⟩, ?_⟩
  apply Nat.le_antisymm
  · exact Finset.min'_le _ k hmem
  · by_contra hlt
    have hmin := Finset.min'_mem (frameSet s).free ⟨k, hmem⟩
    exact hk.2.2 _ (Nat.lt_of_not_le hlt) ((mem_frameSet s _).mp hmin).2

/-- A frame can be given back to the set exactly if the kernel takes it back. -/
theorem freeable_frameSet {s : PmmState} (h : PmmInv s) (a : U64) :
    (frameSet s).Freeable a ↔ Freeable s a := by
  have hmax := h.frames
  rw [FrameSet.Freeable, Freeable]
  rw [mem_frameSet]
  show _ ∧ _ ∧ a.toNat < 4096 * s.frameCount.toNat ∧ _ ↔ _
  constructor
  · rintro ⟨h1, h2, h3, h4⟩
    exact ⟨h1, h2, by bv_omega, fun hc => h4 ⟨by omega, hc⟩⟩
  · rintro ⟨h1, h2, h3, h4⟩
    exact ⟨h1, h2, by bv_omega, fun hc => h4 hc.2⟩

private theorem ofNat_toNat_eq (x : U64) {n : Nat} (h : x.toNat = n) :
    x = BitVec.ofNat 64 n := by
  rw [← h, BitVec.ofNat_toNat, BitVec.setWidth_eq]

/-- The lowest free frame is taken out of the set. -/
theorem alloc_refine {s : PmmState} (h : PmmInv s) :
    (pmmAllocFrame s).1 = (frameSet s).alloc.1 ∧
    frameSet (pmmAllocFrame s).2 = (frameSet s).alloc.2 := by
  rcases pmmAllocFrame_spec h with ⟨hnone, heq⟩ | ⟨k, hk, heq⟩
  · -- no bit is clear, so there is no least element either
    have hempty : ¬ (frameSet s).free.Nonempty := by
      rintro ⟨n, hn⟩
      obtain ⟨hlt, hc⟩ := (mem_frameSet s n).mp hn
      exact hnone n hlt hc
    rw [FrameSet.alloc, dif_neg hempty, heq]
    exact ⟨rfl, rfl⟩
  · obtain ⟨hval, -, hlay, hclear⟩ := takeFrame_spec h hk
    obtain ⟨hne, hmin⟩ := min_frameSet hk
    rw [FrameSet.alloc, dif_pos hne, heq, hmin]
    refine ⟨ofNat_toNat_eq _ hval, ?_⟩
    refine frameSet_eq hlay (fun n => ?_)
    rw [Finset.mem_erase, mem_frameSet]
    constructor
    · rintro ⟨hne', hlt, hc⟩
      exact ⟨hlt, (hclear n hlt).mpr ⟨hc, hne'⟩⟩
    · rintro ⟨hlt, hc⟩
      obtain ⟨hold, hne'⟩ := (hclear n hlt).mp hc
      exact ⟨hne', hlt, hold⟩

/-- Giving a frame back inserts it. -/
theorem giveBack_refine {s : PmmState} (h : PmmInv s) (a : U64) :
    (pmmFreeFrame s a).1 = ((frameSet s).giveBack a).1 ∧
    frameSet (pmmFreeFrame s a).2 = ((frameSet s).giveBack a).2 := by
  rw [FrameSet.giveBack]
  -- accepted and refused addresses are the same on both sides
  rcases pmmFreeFrame_spec h a with ⟨hok, hret, -, hlay, hclear⟩ | ⟨hno, heq⟩
  · rw [if_pos ((freeable_frameSet h a).mpr hok), hret]
    refine ⟨rfl, frameSet_eq hlay (fun n => ?_)⟩
    rw [Finset.mem_insert, mem_frameSet]
    constructor
    · rintro (hna | ⟨hlt, hc⟩)
      · have hlt := h.frame_lt hok.2.2.1
        rw [hna]
        exact ⟨hlt, (hclear _ hlt).mpr (Or.inr rfl)⟩
      · exact ⟨hlt, (hclear n hlt).mpr (Or.inl hc)⟩
    · rintro ⟨hlt, hc⟩
      rcases (hclear n hlt).mp hc with hold | hna
      · exact Or.inr ⟨hlt, hold⟩
      · exact Or.inl hna
  · rw [if_neg (fun hf => hno ((freeable_frameSet h a).mp hf)), heq]
    exact ⟨rfl, rfl⟩

/-- A frame is reported free if it is in the set. -/
theorem isFree_refine {s : PmmState} (h : PmmInv s) (a : U64) :
    pmmIsFrameFree s a = decide (a.toNat % 4096 = 0 ∧ a.toNat / 4096 ∈ (frameSet s).free) := by
  have hmax := h.frames
  have htest := clear_page_iff s a
  rw [pmmIsFrameFree, if_neg h.not_uninit]
  by_cases hbad : (a &&& (PMM_PAGE_SIZE - 1)) ≠ 0 ∨ a ≥ s.maxPhys
  · -- the guard refuses addresses that name no frame
    rw [if_pos hbad]
    refine (decide_eq_false ?_).symm
    rintro ⟨hal, hmem⟩
    have hlt := ((mem_frameSet s _).mp hmem).1
    rcases hbad with hmis | hge
    · exact hmis ((page_aligned_iff a).mpr hal)
    · bv_omega
  · rw [if_neg hbad]
    rw [not_or, not_not, page_aligned_iff] at hbad
    obtain ⟨hal, hlt⟩ := hbad
    have hlt' : a.toNat / 4096 < s.frameCount.toNat := h.frame_lt (by bv_omega)
    cases hb : bitmapTest s.bitmap (a / PMM_PAGE_SIZE) with
    | false =>
        exact (decide_eq_true ⟨hal, (mem_frameSet s _).mpr ⟨hlt', htest.mpr hb⟩⟩).symm
    | true =>
        refine (decide_eq_false (fun hall => ?_)).symm
        rw [htest.mp ((mem_frameSet s _).mp hall.2).2] at hb
        exact nomatch hb

/-- **STEP REFINEMENT**: one call on the manager is the same call on the set. -/
theorem step_refine {s : PmmState} (h : PmmInv s) (op : PmmOp) :
    (pmmStep s op).1 = (frameSetStep (frameSet s) op).1 ∧
    frameSet (pmmStep s op).2 = (frameSetStep (frameSet s) op).2 := by
  cases op with
  | allocFrame =>
      obtain ⟨hout, hset⟩ := alloc_refine h
      exact ⟨congrArg PmmOut.word hout, hset⟩
  | freeFrame a =>
      obtain ⟨hout, hset⟩ := giveBack_refine h a
      exact ⟨congrArg PmmOut.bool hout, hset⟩
  | reserveRange b l =>
      obtain ⟨hret, -, hlay, hclear⟩ := pmmReserveRange_spec h b l
      refine ⟨congrArg PmmOut.bool hret, frameSet_eq hlay (fun n => ?_)⟩
      rw [Finset.mem_filter, mem_frameSet, and_assoc]
      exact and_congr_right (fun hlt => (hclear n hlt).symm)
  | isFrameFree a =>
      exact ⟨congrArg PmmOut.bool (isFree_refine h a), rfl⟩
  | freeCount =>
      refine ⟨congrArg PmmOut.word ?_, rfl⟩
      exact ofNat_toNat_eq _ (card_frameSet h).symm
  | usedCount =>
      refine ⟨congrArg PmmOut.word (ofNat_toNat_eq _ ?_), rfl⟩
      have hsum := h.sum_eq
      rw [card_frameSet h]
      show s.usedFrames.toNat = s.frameCount.toNat - s.freeFrames.toNat
      omega
  | frameCount => exact ⟨congrArg PmmOut.word (ofNat_toNat_eq _ rfl), rfl⟩

/-- **REFINEMENT**: every run of calls is answered as by the set. -/
theorem outputs_refine {s : PmmState} (h : PmmInv s) (ops : List PmmOp) :
    Machine.outputs pmmStep s ops = Machine.outputs frameSetStep (frameSet s) ops := by
  refine Machine.outputs_bisim pmmStep frameSetStep
    (R := fun s F => PmmInv s ∧ F = frameSet s) ?_ ops s (frameSet s) ⟨h, rfl⟩
  rintro s F op ⟨hinv, rfl⟩
  obtain ⟨hout, hnext⟩ := step_refine hinv op
  exact ⟨hout, (pmmStep_inv hinv op).1, hnext.symm⟩

/-- The represented set depends on the limit and the used bitmap bytes only. -/
theorem frameSet_congr {s t : PmmState} (hs : PmmInv s) (ht : PmmInv t)
    (hmax : s.maxPhys = t.maxPhys)
    (hbits : ∀ i, i < s.bitmapBytes → s.bitmap i = t.bitmap i) :
    frameSet s = frameSet t := by
  have hfc : s.frameCount = t.frameCount := by
    apply BitVec.eq_of_toNat_eq
    have h1 := hs.frames
    have h2 := ht.frames
    rw [hmax] at h1
    omega
  have hlim := s.frameCount.isLt
  rw [frameSet, frameSet]
  rw [← hfc]
  congr 1
  refine Finset.filter_congr (fun n hn => ?_)
  rw [Finset.mem_range] at hn
  rw [Clear, Clear]
  rw [bitmapTest_eq, bitmapTest_eq, hbits]
  -- the byte of a frame lies in the bitmap
  rw [BitVec.lt_def, hs.bytes_eq, BitVec.toNat_ushiftRight, BitVec.toNat_ofNat,
      Nat.mod_eq_of_lt (by omega), Nat.shiftRight_eq_div_pow]
  omega

end PmmFrameSet
