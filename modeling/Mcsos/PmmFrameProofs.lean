import Mcsos.PmmModel
import Mathlib.Tactic.Push

/-! # What the marking functions do to the set of free frames

    The bitmap is read as a set: frame `n` is free when its bit is clear.
    `mark_frame_used` and `mark_frame_free` remove and add one frame, and keep
    the bookkeeping `PmmCore`: the counters count the set, and nothing free
    lies below the search hint.  The range functions are loops over them, so
    their effect is a set of frames too; the sets are written with the wrapped
    end points that `align_up` really computes (`FreesFrame`,
    `ReservesFrame`). -/

namespace PmmFrame

open Word Loop PmmModel

/-! ## The byte-packed bitmap -/

/-- A frame index is its byte index and its bit inside the byte. -/
theorem index_eq_iff (i j : U64) :
    j = i ↔ j >>> 3 = i >>> 3 ∧ (j &&& 7).toNat = (i &&& 7).toNat := by
  constructor
  · intro h
    rw [h]
    exact ⟨rfl, rfl⟩
  · rintro ⟨hbyte, hbit⟩
    rw [and_lowMask_toNat j 7 3 rfl, and_lowMask_toNat i 7 3 rfl] at hbit
    bv_omega

private theorem bit_lt (i : U64) : (i &&& 7).toNat < 8 := by
  rw [and_lowMask_toNat i 7 3 rfl]
  omega

/-- Testing is reading one bit of one byte. -/
theorem bitmapTest_eq (b : Bitmap) (i : U64) :
    bitmapTest b i = (b (i >>> 3)).getLsbD (i &&& 7).toNat := by
  have hiff := and_bit_ne_zero (b (i >>> 3)) (i &&& 7).toNat (bit_lt i)
  rw [bitmapTest, bitMask]
  cases hbit : (b (i >>> 3)).getLsbD (i &&& 7).toNat with
  | true => exact decide_eq_true (hiff.mpr hbit)
  | false =>
      refine decide_eq_false (fun h => ?_)
      rw [hiff.mp h] at hbit
      exact nomatch hbit

/-- The set bit is set, and the others are as before. -/
theorem bitmapTest_set (b : Bitmap) (i j : U64) :
    bitmapTest (bitmapSet b i) j = (decide (j = i) || bitmapTest b j) := by
  rw [bitmapTest_eq, bitmapTest_eq]
  rw [bitmapSet, bitMask]
  by_cases hbyte : j >>> 3 = i >>> 3
  · rw [if_pos hbyte, BitVec.getLsbD_or, getLsbD_one_shiftLeft _ _ (bit_lt j)]
    by_cases hbit : (j &&& 7).toNat = (i &&& 7).toNat
    · simp [(index_eq_iff i j).mpr ⟨hbyte, hbit⟩]
    · have hne : j ≠ i := fun h => hbit ((index_eq_iff i j).mp h).2
      rw [decide_eq_false hbit, decide_eq_false hne, Bool.or_false, Bool.false_or]
  · have hne : j ≠ i := fun h => hbyte ((index_eq_iff i j).mp h).1
    simp [hbyte, hne]

/-- The cleared bit is clear, and the others are as before. -/
theorem bitmapTest_clear (b : Bitmap) (i j : U64) :
    bitmapTest (bitmapClear b i) j = (!decide (j = i) && bitmapTest b j) := by
  rw [bitmapTest_eq, bitmapTest_eq]
  rw [bitmapClear, bitMask]
  by_cases hbyte : j >>> 3 = i >>> 3
  · rw [if_pos hbyte, BitVec.getLsbD_and, BitVec.getLsbD_not,
        getLsbD_one_shiftLeft _ _ (bit_lt j)]
    by_cases hbit : (j &&& 7).toNat = (i &&& 7).toNat
    · simp [(index_eq_iff i j).mpr ⟨hbyte, hbit⟩]
    · have hne : j ≠ i := fun h => hbit ((index_eq_iff i j).mp h).2
      rw [decide_eq_false hbit, decide_eq_false hne, decide_eq_true (bit_lt j)]
      simp only [Bool.not_false, Bool.true_and, Bool.and_true]
  · have hne : j ≠ i := fun h => hbyte ((index_eq_iff i j).mp h).1
    simp [hbyte, hne]

/-! ## The set of free frames and its bookkeeping -/

/-- Frame `n` is free: its bit is clear. -/
def Clear (s : PmmState) (n : Nat) : Prop :=
  bitmapTest s.bitmap (BitVec.ofNat 64 n) = false

instance (s : PmmState) : DecidablePred (Clear s) :=
  fun n => inferInstanceAs (Decidable (bitmapTest s.bitmap (BitVec.ofNat 64 n) = false))

/-- A frame is clear if its bit is. -/
theorem clear_toNat (s : PmmState) (f : U64) :
    Clear s f.toNat ↔ bitmapTest s.bitmap f = false := by
  rw [Clear]
  rw [BitVec.ofNat_toNat, BitVec.setWidth_eq]

/-- The bookkeeping next to the bitmap: the limits agree, the counters count
    the free set and its complement, and no free frame is below the hint. -/
structure PmmCore (s : PmmState) : Prop where
  frames : s.maxPhys.toNat = s.frameCount.toNat * 4096
  free_eq : s.freeFrames.toNat = Nat.count (Clear s) s.frameCount.toNat
  sum_eq : s.freeFrames.toNat + s.usedFrames.toNat = s.frameCount.toNat
  hint_le : s.nextHint ≤ s.frameCount
  hint_used : ∀ n, n < s.nextHint.toNat → ¬ Clear s n

/-- The fields no marking function writes. -/
structure SameLayout (s t : PmmState) : Prop where
  bitmapBytes : t.bitmapBytes = s.bitmapBytes
  maxPhys : t.maxPhys = s.maxPhys
  frameCount : t.frameCount = s.frameCount
  initialized : t.initialized = s.initialized

theorem SameLayout.refl (s : PmmState) : SameLayout s s := ⟨rfl, rfl, rfl, rfl⟩

theorem SameLayout.trans {s t u : PmmState} (h : SameLayout s t) (h' : SameLayout t u) :
    SameLayout s u :=
  ⟨h'.bitmapBytes.trans h.bitmapBytes, h'.maxPhys.trans h.maxPhys,
    h'.frameCount.trans h.frameCount, h'.initialized.trans h.initialized⟩

/-- A used frame below the limit keeps the used counter positive. -/
theorem PmmCore.used_pos {s : PmmState} (h : PmmCore s) {n : Nat}
    (hn : n < s.frameCount.toNat) (hu : ¬ Clear s n) : 0 < s.usedFrames.toNat := by
  have hlt : Nat.count (Clear s) s.frameCount.toNat < s.frameCount.toNat := by
    rw [Nat.count_eq_card_filter_range]
    refine lt_of_lt_of_eq (Finset.card_lt_card ?_) (Finset.card_range _)
    refine Finset.filter_ssubset.mpr ⟨n, ?_, hu⟩
    exact Finset.mem_range.mpr hn
  have := h.free_eq
  have := h.sum_eq
  omega

/-- A free frame below the limit keeps the free counter positive. -/
theorem PmmCore.free_pos {s : PmmState} (h : PmmCore s) {n : Nat}
    (hn : n < s.frameCount.toNat) (hc : Clear s n) : 0 < s.freeFrames.toNat := by
  rw [h.free_eq, Nat.count_eq_card_filter_range]
  exact Finset.card_pos.mpr ⟨n, by simp [hn, hc]⟩

/-- Conversely, a zero free counter means that nothing is free. -/
theorem PmmCore.clear_of_pos {s : PmmState} (h : PmmCore s)
    (hpos : 0 < s.freeFrames.toNat) : ∃ n, n < s.frameCount.toNat ∧ Clear s n := by
  rw [h.free_eq, Nat.count_eq_card_filter_range] at hpos
  obtain ⟨n, hn⟩ := Finset.card_pos.mp hpos
  rw [Finset.mem_filter, Finset.mem_range] at hn
  exact ⟨n, hn.1, hn.2⟩

/-! ## One frame -/

/-- Marking a frame used keeps the layout. -/
theorem markFrameUsed_layout (s : PmmState) (f : U64) :
    SameLayout s (markFrameUsed s f) := by
  rw [markFrameUsed]
  split
  · exact SameLayout.refl s
  · split
    · exact ⟨rfl, rfl, rfl, rfl⟩
    · exact SameLayout.refl s

/-- Marking a frame free keeps the layout. -/
theorem markFrameFree_layout (s : PmmState) (f : U64) :
    SameLayout s (markFrameFree s f) := by
  rw [markFrameFree]
  split
  · exact SameLayout.refl s
  · split
    · exact ⟨rfl, rfl, rfl, rfl⟩
    · exact SameLayout.refl s

/-- `ofNat` names a frame below the limit exactly. -/
theorem ofNat_eq_iff {n : Nat} {c : U64} (hn : n < c.toNat) (f : U64) :
    BitVec.ofNat 64 n = f ↔ n = f.toNat := by
  constructor
  · intro h
    rw [← h, BitVec.toNat_ofNat, Nat.mod_eq_of_lt (by omega)]
  · intro h
    rw [h, BitVec.ofNat_toNat, BitVec.setWidth_eq]

/-- Marking a frame used removes exactly that frame from the free set. -/
theorem markFrameUsed_clear (s : PmmState) (f : U64) {n : Nat}
    (hn : n < s.frameCount.toNat) :
    Clear (markFrameUsed s f) n ↔ Clear s n ∧ n ≠ f.toNat := by
  rw [markFrameUsed]
  split
  · rename_i hge
    have hne : n ≠ f.toNat := by bv_omega
    exact ⟨fun h => ⟨h, hne⟩, fun h => h.1⟩
  · split
    · rw [Clear]
      rw [bitmapTest_set]
      simp only [Bool.or_eq_false_iff, decide_eq_false_iff_not, ofNat_eq_iff hn]
      exact and_comm
    · rename_i hset
      constructor
      · intro h
        refine ⟨h, fun heq => hset ?_⟩
        rw [heq, clear_toNat] at h
        rw [h]
        rfl
      · exact fun h => h.1

/-- Marking a frame free adds exactly that frame, if it is below the limit. -/
theorem markFrameFree_clear (s : PmmState) (f : U64) {n : Nat}
    (hn : n < s.frameCount.toNat) :
    Clear (markFrameFree s f) n ↔ Clear s n ∨ n = f.toNat := by
  rw [markFrameFree]
  split
  · rename_i hge
    have hne : n ≠ f.toNat := by bv_omega
    exact ⟨Or.inl, fun h => h.resolve_right hne⟩
  · split
    · rw [Clear]
      rw [bitmapTest_clear]
      simp only [Bool.and_eq_false_iff, Bool.not_eq_false', decide_eq_true_eq,
        ofNat_eq_iff hn]
      exact or_comm
    · rename_i hset
      constructor
      · exact Or.inl
      · rintro (h | heq)
        · exact h
        · rw [heq, clear_toNat]
          exact Bool.eq_false_iff.mpr hset

/-- A frame that is used already, or past the limit, is left alone. -/
theorem markFrameUsed_same {s : PmmState} {f : U64}
    (hf : ¬ (f.toNat < s.frameCount.toNat ∧ Clear s f.toNat)) : markFrameUsed s f = s := by
  rw [markFrameUsed]
  by_cases hge : f ≥ s.frameCount
  · rw [if_pos hge]
  · rw [if_neg hge]
    have hset : bitmapTest s.bitmap f = true := by
      by_contra hc
      exact hf ⟨by bv_omega, (clear_toNat s f).mpr (Bool.eq_false_iff.mpr hc)⟩
    rw [hset]
    rfl

/-- A free frame is taken, and the guard of the decrement passes. -/
theorem markFrameUsed_eq {s : PmmState} (h : PmmCore s) {f : U64}
    (hlt : f.toNat < s.frameCount.toNat) (hc : Clear s f.toNat) :
    markFrameUsed s f =
      { s with
        bitmap := bitmapSet s.bitmap f
        freeFrames := s.freeFrames - 1
        usedFrames := s.usedFrames + 1 } := by
  have hpos := h.free_pos hlt hc
  have hge : ¬ f ≥ s.frameCount := by bv_omega
  rw [markFrameUsed, if_neg hge, (clear_toNat s f).mp hc]
  simp only [Bool.not_false, if_true]
  rw [if_pos (show s.freeFrames > 0 by bv_omega)]

/-- A frame that is free already, or past the limit, is left alone. -/
theorem markFrameFree_same {s : PmmState} {f : U64}
    (hf : ¬ (f.toNat < s.frameCount.toNat ∧ ¬ Clear s f.toNat)) : markFrameFree s f = s := by
  rw [markFrameFree]
  by_cases hge : f ≥ s.frameCount
  · rw [if_pos hge]
  · rw [if_neg hge]
    have hc : Clear s f.toNat := by
      by_contra hc
      exact hf ⟨by bv_omega, hc⟩
    rw [if_neg (by rw [(clear_toNat s f).mp hc]; exact Bool.false_ne_true)]

/-- A used frame is given back, the guard of the decrement passes, and the hint
    drops to the frame. -/
theorem markFrameFree_eq {s : PmmState} (h : PmmCore s) {f : U64}
    (hlt : f.toNat < s.frameCount.toNat) (hc : ¬ Clear s f.toNat) :
    markFrameFree s f =
      { s with
        bitmap := bitmapClear s.bitmap f
        freeFrames := s.freeFrames + 1
        usedFrames := s.usedFrames - 1
        nextHint := if f < s.nextHint then f else s.nextHint } := by
  have hpos := h.used_pos hlt hc
  have hge : ¬ f ≥ s.frameCount := by bv_omega
  have htest : bitmapTest s.bitmap f = true := by
    by_contra hbit
    exact hc ((clear_toNat s f).mpr (Bool.eq_false_iff.mpr hbit))
  rw [markFrameFree, if_neg hge, if_pos htest, if_pos (show s.usedFrames > 0 by bv_omega)]

/-- Marking a frame used keeps the bookkeeping. -/
theorem markFrameUsed_core {s : PmmState} (h : PmmCore s) (f : U64) :
    PmmCore (markFrameUsed s f) := by
  by_cases hf : f.toNat < s.frameCount.toNat ∧ Clear s f.toNat
  · have hpos := h.free_pos hf.1 hf.2
    have hfree := h.free_eq
    have hsum := h.sum_eq
    have hhint := h.hint_le
    have hclear := fun n hn => markFrameUsed_clear s f (n := n) hn
    -- one free frame less, in the bitmap and in the count
    have hcount := count_remove hf.1 hf.2 hclear
    rw [markFrameUsed_eq h hf.1 hf.2] at hclear hcount ⊢
    refine ⟨h.frames, ?_, ?_, hhint, ?_⟩
    · show (s.freeFrames - 1).toNat = _
      bv_omega
    · show (s.freeFrames - 1).toNat + (s.usedFrames + 1).toNat = s.frameCount.toNat
      bv_omega
    · intro n hn hc
      exact h.hint_used n hn ((hclear n (by bv_omega)).mp hc).1
  · rw [markFrameUsed_same hf]
    exact h

/-- Marking a frame free keeps the bookkeeping: the hint drops to it. -/
theorem markFrameFree_core {s : PmmState} (h : PmmCore s) (f : U64) :
    PmmCore (markFrameFree s f) := by
  by_cases hf : f.toNat < s.frameCount.toNat ∧ ¬ Clear s f.toNat
  · have hused := h.used_pos hf.1 hf.2
    have hfree := h.free_eq
    have hsum := h.sum_eq
    have hhint := h.hint_le
    have hclear := fun n hn => markFrameFree_clear s f (n := n) hn
    -- the old set is the new one without `f`
    have hremove : ∀ n, n < s.frameCount.toNat →
        (Clear s n ↔ Clear (markFrameFree s f) n ∧ n ≠ f.toNat) := by
      intro n hn
      rw [hclear n hn]
      constructor
      · intro hc
        exact ⟨Or.inl hc, fun hnf => hf.2 (hnf ▸ hc)⟩
      · rintro ⟨hc | hc, hne⟩
        · exact hc
        · exact absurd hc hne
    have hcount := count_remove hf.1 ((hclear _ hf.1).mpr (Or.inr rfl)) hremove
    rw [markFrameFree_eq h hf.1 hf.2] at hclear hcount ⊢
    refine ⟨h.frames, ?_, ?_, ?_, ?_⟩
    · show (s.freeFrames + 1).toNat = _
      bv_omega
    · show (s.freeFrames + 1).toNat + (s.usedFrames - 1).toNat = s.frameCount.toNat
      bv_omega
    · show (if f < s.nextHint then f else s.nextHint) ≤ s.frameCount
      split
      · bv_omega
      · exact hhint
    · intro n hn hc
      have hn' : n < (if f < s.nextHint then f else s.nextHint).toNat := hn
      have hnh : n < s.nextHint.toNat ∧ n ≠ f.toNat := by
        split at hn' <;> bv_omega
      rcases (hclear n (by bv_omega)).mp hc with hold | hfn
      · exact h.hint_used n hnh.1 hold
      · exact hnh.2 hfn
  · rw [markFrameFree_same hf]
    exact h

end PmmFrame
