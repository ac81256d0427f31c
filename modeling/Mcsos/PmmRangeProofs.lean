import Mcsos.PmmFrameProofs

/-! # Ranges and the boot map

    `mark_range_free` and `mark_range_used` are loops of one-frame writes, so
    one lemma (`frames_loop`) covers both.  The frames a range touches are
    stated with the end points the code computes, wrap-around included; the
    free set after `pmm_init_from_map` is then an explicit set
    (`pmmInitFromMap_spec`) on which every statement about the boot map
    rests. -/

namespace PmmRange

open Word Loop PmmModel PmmFrame

/-! ## Rounding -/

/-- Rounding down to a page. -/
theorem alignDown_toNat (v : U64) :
    (alignDown v PMM_PAGE_SIZE).toNat = v.toNat / 4096 * 4096 :=
  and_highMask_toNat v (PMM_PAGE_SIZE - 1) 12 rfl

/-- Rounding up wraps at the top of the address space. -/
theorem alignUp_toNat (v : U64) :
    (alignUp v PMM_PAGE_SIZE).toNat = (v.toNat + 4095) % 2 ^ 64 / 4096 * 4096 := by
  have hsum : (v + PMM_PAGE_SIZE - 1).toNat = (v.toNat + 4095) % 2 ^ 64 := by
    rw [PMM_PAGE_SIZE]
    bv_omega
  rw [alignUp]
  rw [and_highMask_toNat _ (PMM_PAGE_SIZE - 1) 12 rfl, hsum]
  rfl

/-- `checked_add_u64` refuses exactly the sums that do not fit. -/
theorem checkedAddU64_cases (a b : U64) :
    (checkedAddU64 a b = none ∧ 2 ^ 64 ≤ a.toNat + b.toNat) ∨
    (checkedAddU64 a b = some (a + b) ∧ (a + b).toNat = a.toNat + b.toNat) := by
  rw [checkedAddU64]
  by_cases h : 0xffffffffffffffff - a < b
  · exact Or.inl ⟨if_pos h, by bv_omega⟩
  · exact Or.inr ⟨if_neg h, by bv_omega⟩

/-- The frame of an address. -/
theorem page_div_toNat (a : U64) : (a / PMM_PAGE_SIZE).toNat = a.toNat / 4096 := by
  rw [BitVec.toNat_udiv]
  rfl

/-- The mask test for a page's start. -/
theorem page_aligned_iff (a : U64) :
    (a &&& (PMM_PAGE_SIZE - 1)) = 0 ↔ a.toNat % 4096 = 0 :=
  and_lowMask_eq_zero_iff a (PMM_PAGE_SIZE - 1) 12 (by decide)

/-! ## Loops over frames -/

/-- A loop body that writes the status `v` into the frame at its address and
    keeps the bookkeeping. -/
structure FrameWriter (body : U64 → PmmState → PmmState) (v : Prop) : Prop where
  core : ∀ a t, PmmCore t → PmmCore (body a t)
  layout : ∀ a t, SameLayout t (body a t)
  clear : ∀ a t n, n < t.frameCount.toNat →
    (Clear (body a t) n ↔ if n = a.toNat / 4096 then v else Clear t n)

/-- The loop that frees. -/
theorem frameWriter_free :
    FrameWriter (fun addr pmm => markFrameFree pmm (addr / PMM_PAGE_SIZE)) True where
  core a t h := markFrameFree_core h _
  layout a t := markFrameFree_layout t _
  clear a t n hn := by
    rw [markFrameFree_clear t _ hn, page_div_toNat]
    by_cases hna : n = a.toNat / 4096
    · simp [hna]
    · simp [hna]

/-- The loop that reserves. -/
theorem frameWriter_used : FrameWriter reserveFrameAt False where
  core a t h := by
    have hc := markFrameUsed_core h (a / PMM_PAGE_SIZE)
    rw [reserveFrameAt]
    split
    · exact ⟨hc.frames, hc.free_eq, hc.sum_eq, hc.hint_le, hc.hint_used⟩
    · exact hc
  layout a t := by
    have hl := markFrameUsed_layout t (a / PMM_PAGE_SIZE)
    rw [reserveFrameAt]
    split
    · exact ⟨hl.bitmapBytes, hl.maxPhys, hl.frameCount, hl.initialized⟩
    · exact hl
  clear a t n hn := by
    -- the reserved count is no part of the bitmap
    have hbits : Clear (reserveFrameAt a t) n
        ↔ Clear (markFrameUsed t (a / PMM_PAGE_SIZE)) n := by
      rw [reserveFrameAt]
      split
      · exact Iff.rfl
      · exact Iff.rfl
    rw [hbits, markFrameUsed_clear t _ hn, page_div_toNat]
    by_cases hna : n = a.toNat / 4096
    · simp [hna]
    · simp [hna]

/-- **FRAME LOOP**: a loop of one-frame writes over a page-aligned range writes
    exactly the frames of the range. -/
theorem frames_loop {body : U64 → PmmState → PmmState} {v : Prop} {s : PmmState}
    (hw : FrameWriter body v) (h : PmmCore s) (start stop : U64)
    (hle : start ≤ stop) (hs : 4096 ∣ start.toNat) (he : 4096 ∣ stop.toNat) :
    PmmCore (forUpTo start stop PMM_PAGE_SIZE body s) ∧
    SameLayout s (forUpTo start stop PMM_PAGE_SIZE body s) ∧
    ∀ n, n < s.frameCount.toNat →
      (Clear (forUpTo start stop PMM_PAGE_SIZE body s) n ↔
        if start.toNat / 4096 ≤ n ∧ n < stop.toNat / 4096 then v else Clear s n) := by
  refine forUpTo_induct
    (fun i t => PmmCore t ∧ SameLayout s t ∧ ∀ n, n < s.frameCount.toNat →
      (Clear t n ↔ if start.toNat / 4096 ≤ n ∧ n < i / 4096 then v else Clear s n))
    hle (by decide) ?_ ?_ ?_
  · show 4096 ∣ stop.toNat - start.toNat
    exact Nat.dvd_sub he hs
  · refine ⟨h, SameLayout.refl s, ?_⟩
    intro n _
    rw [if_neg (by omega)]
  · intro i t hsi hi hdvd ⟨hcore, hlay, hclear⟩
    refine ⟨hw.core i t hcore, hlay.trans (hw.layout i t), ?_⟩
    intro n hn
    rw [hw.clear i t n (by rw [hlay.frameCount]; exact hn), hclear n hn]
    have hdvd' : 4096 ∣ i.toNat - start.toNat := hdvd
    have hge : start.toNat ≤ i.toNat := by bv_omega
    -- each step of the loop moves on by one frame
    have hnext : (i.toNat + PMM_PAGE_SIZE.toNat) / 4096 = i.toNat / 4096 + 1 := by
      show (i.toNat + 4096) / 4096 = _
      omega
    rw [hnext]
    by_cases hna : n = i.toNat / 4096
    · rw [if_pos hna, if_pos (by omega)]
    · rw [if_neg hna]
      by_cases hin : start.toNat / 4096 ≤ n ∧ n < i.toNat / 4096
      · rw [if_pos hin, if_pos (by omega)]
      · rw [if_neg hin, if_neg (by omega)]

/-- The same with the end clipped at the limit, as both range functions clip
    it: frames past the limit have no bit, so the clip loses nothing. -/
theorem clipped_loop {body : U64 → PmmState → PmmState} {v : Prop} {s : PmmState}
    (hw : FrameWriter body v) (h : PmmCore s) {start stop limit : U64}
    (hlim : s.maxPhys = limit) (hlt : ¬ stop ≤ start) (hbelow : ¬ start ≥ limit)
    (hs : 4096 ∣ start.toNat) (he : 4096 ∣ stop.toNat) :
    PmmCore (forUpTo start (if stop > limit then limit else stop) PMM_PAGE_SIZE body s) ∧
    SameLayout s (forUpTo start (if stop > limit then limit else stop) PMM_PAGE_SIZE body s) ∧
    ∀ n, n < s.frameCount.toNat →
      (Clear (forUpTo start (if stop > limit then limit else stop) PMM_PAGE_SIZE body s) n ↔
        if start.toNat / 4096 ≤ n ∧ n < stop.toNat / 4096 then v else Clear s n) := by
  have hmax := h.frames
  rw [hlim] at hmax
  have hclip : (if stop > limit then limit else stop).toNat
      = min stop.toNat (s.frameCount.toNat * 4096) := by
    split <;> bv_omega
  obtain ⟨hc, hl, hcl⟩ := frames_loop hw h start (if stop > limit then limit else stop)
    (by bv_omega) hs (by rw [hclip]; omega)
  refine ⟨hc, hl, ?_⟩
  intro n hn
  have hrange : (start.toNat / 4096 ≤ n ∧
      n < min stop.toNat (s.frameCount.toNat * 4096) / 4096) ↔
      start.toNat / 4096 ≤ n ∧ n < stop.toNat / 4096 := by omega
  rw [hcl n hn, hclip]
  simp only [hrange]

/-! ## The two range functions -/

/-- The frames `mark_range_free(base, length)` opens: whole frames of the
    range, from the wrapped upward rounding of the base on. -/
def FreesFrame (base length : U64) (n : Nat) : Prop :=
  length ≠ 0 ∧ base.toNat + length.toNat < 2 ^ 64 ∧
    (base.toNat + 4095) % 2 ^ 64 / 4096 ≤ n ∧
    n < (base.toNat + length.toNat) / 4096

/-- The frames `mark_range_used(base, length)` closes: every frame the range
    meets, up to the wrapped upward rounding of its end. -/
def ReservesFrame (base length : U64) (n : Nat) : Prop :=
  length ≠ 0 ∧ base.toNat + length.toNat < 2 ^ 64 ∧
    base.toNat / 4096 ≤ n ∧
    n < (base.toNat + length.toNat + 4095) % 2 ^ 64 / 4096

instance (base length : U64) : DecidablePred (FreesFrame base length) :=
  fun _ => inferInstanceAs (Decidable (_ ∧ _ ∧ _ ∧ _))

instance (base length : U64) : DecidablePred (ReservesFrame base length) :=
  fun _ => inferInstanceAs (Decidable (_ ∧ _ ∧ _ ∧ _))

/-- Counting the ignored frames touches nothing the bookkeeping reads. -/
theorem core_ignored {s : PmmState} (h : PmmCore s) (c : Prop) [Decidable c] (k : U64) :
    PmmCore (if c then { s with ignoredFrames := k } else s) ∧
    SameLayout s (if c then { s with ignoredFrames := k } else s) ∧
    ∀ n, Clear (if c then { s with ignoredFrames := k } else s) n ↔ Clear s n := by
  split
  · exact ⟨⟨h.frames, h.free_eq, h.sum_eq, h.hint_le, h.hint_used⟩, ⟨rfl, rfl, rfl, rfl⟩,
      fun _ => Iff.rfl⟩
  · exact ⟨h, SameLayout.refl s, fun _ => Iff.rfl⟩

/-- `s'` is `s` with the bits of the frames in `F` written: clear if `v`, else set. -/
structure Writes (v : Prop) (F : Nat → Prop) [DecidablePred F] (s s' : PmmState) : Prop where
  core : PmmCore s'
  layout : SameLayout s s'
  clear : ∀ n, n < s.frameCount.toNat → (Clear s' n ↔ if F n then v else Clear s n)

/-- Every early return writes nothing. -/
theorem Writes.skip {v : Prop} {F : Nat → Prop} [DecidablePred F] {s : PmmState} (h : PmmCore s)
    (hno : ∀ n, n < s.frameCount.toNat → ¬ F n) : Writes v F s s :=
  ⟨h, SameLayout.refl s, fun n hn => by rw [if_neg (hno n hn)]⟩

/-- What both range functions do from their rounded bounds on; `s₁` is the state
    the loop starts in. -/
theorem writes_range {body : U64 → PmmState → PmmState} {v : Prop} {F : Nat → Prop}
    [DecidablePred F] {s s₁ : PmmState} {start stop : U64} (hw : FrameWriter body v)
    (h : PmmCore s) (h₁ : PmmCore s₁) (hlay : SameLayout s s₁)
    (hbits : ∀ n, Clear s₁ n ↔ Clear s n) (hs : 4096 ∣ start.toNat) (he : 4096 ∣ stop.toNat)
    (hF : ∀ n, F n ↔ start.toNat / 4096 ≤ n ∧ n < stop.toNat / 4096) :
    Writes v F s (if stop ≤ start then s
      else if start ≥ s.maxPhys then s
      else forUpTo start (if stop > s.maxPhys then s.maxPhys else stop) PMM_PAGE_SIZE body s₁) := by
  have hmax := h.frames
  by_cases hempty : stop ≤ start
  · rw [if_pos hempty]
    refine .skip h (fun n _ hf => ?_)
    have hin := (hF n).mp hf
    bv_omega
  rw [if_neg hempty]
  by_cases habove : start ≥ s.maxPhys
  · rw [if_pos habove]
    refine .skip h (fun n hn hf => ?_)
    have hin := (hF n).mp hf
    bv_omega
  rw [if_neg habove]
  -- the limit is that of `s`, which the start state shares
  obtain ⟨hc, hl, hcl⟩ := clipped_loop hw h₁ hlay.maxPhys hempty habove hs he
  refine ⟨hc, hlay.trans hl, fun n hn => ?_⟩
  rw [hcl n (by rw [hlay.frameCount]; exact hn), hbits n]
  simp only [hF n]

/-- A range is freed from its first whole frame to its last. -/
theorem markRangeFree_writes {s : PmmState} (h : PmmCore s) (base length : U64) :
    Writes True (FreesFrame base length) s (markRangeFree s base length) := by
  rw [markRangeFree]
  by_cases hlen : length = 0
  · rw [if_pos hlen]
    exact .skip h (fun n _ hf => hf.1 hlen)
  rw [if_neg hlen]
  rcases checkedAddU64_cases base length with ⟨hadd, hbig⟩ | ⟨hadd, hsum⟩
  · rw [hadd]
    exact .skip h (fun n _ hf => absurd hf.2.1 (by omega))
  rw [hadd]
  have hstart := alignUp_toNat base
  have hstop := alignDown_toNat (base + length)
  rw [hsum] at hstop
  -- the count of ignored frames is no part of the invariant
  obtain ⟨h₁, hlay, hbits⟩ := core_ignored h
    (alignDown (base + length) PMM_PAGE_SIZE > s.maxPhys) (s.ignoredFrames +
      (alignDown (base + length) PMM_PAGE_SIZE -
        if alignDown (base + length) PMM_PAGE_SIZE > s.maxPhys then s.maxPhys
        else alignDown (base + length) PMM_PAGE_SIZE) / PMM_PAGE_SIZE)
  refine writes_range frameWriter_free h h₁ hlay hbits (by omega) (by omega) (fun n => ?_)
  have hlt := (base + length).isLt
  rw [FreesFrame]
  constructor
  · rintro ⟨-, -, hlo, hhi⟩
    exact ⟨by omega, by omega⟩
  · rintro ⟨hlo, hhi⟩
    exact ⟨hlen, by omega, by omega, by omega⟩

/-- A range is reserved with every frame that it touches. -/
theorem markRangeUsed_writes {s : PmmState} (h : PmmCore s) (base length : U64) :
    Writes False (ReservesFrame base length) s (markRangeUsed s base length) := by
  rw [markRangeUsed]
  by_cases hlen : length = 0
  · rw [if_pos hlen]
    exact .skip h (fun n _ hf => hf.1 hlen)
  rw [if_neg hlen]
  rcases checkedAddU64_cases base length with ⟨hadd, hbig⟩ | ⟨hadd, hsum⟩
  · rw [hadd]
    exact .skip h (fun n _ hf => absurd hf.2.1 (by omega))
  rw [hadd]
  have hstart := alignDown_toNat base
  have hstop := alignUp_toNat (base + length)
  rw [hsum] at hstop
  refine writes_range frameWriter_used h h (SameLayout.refl s) (fun _ => Iff.rfl) (by omega)
    (by omega) (fun n => ?_)
  have hlt := (base + length).isLt
  rw [ReservesFrame]
  constructor
  · rintro ⟨-, -, hlo, hhi⟩
    exact ⟨by omega, by omega⟩
  · rintro ⟨hlo, hhi⟩
    exact ⟨hlen, by omega, by omega, by omega⟩

/-- What is free after a range was freed. -/
theorem markRangeFree_spec {s : PmmState} (h : PmmCore s) (base length : U64) :
    PmmCore (markRangeFree s base length) ∧
    SameLayout s (markRangeFree s base length) ∧
    ∀ n, n < s.frameCount.toNat →
      (Clear (markRangeFree s base length) n ↔ Clear s n ∨ FreesFrame base length n) := by
  have hw := markRangeFree_writes h base length
  refine ⟨hw.core, hw.layout, fun n hn => ?_⟩
  rw [hw.clear n hn]
  by_cases hf : FreesFrame base length n
  · rw [if_pos hf]
    exact ⟨fun _ => Or.inr hf, fun _ => trivial⟩
  · rw [if_neg hf]
    exact ⟨Or.inl, fun hor => hor.resolve_right hf⟩

/-- What is free after a range was reserved. -/
theorem markRangeUsed_spec {s : PmmState} (h : PmmCore s) (base length : U64) :
    PmmCore (markRangeUsed s base length) ∧
    SameLayout s (markRangeUsed s base length) ∧
    ∀ n, n < s.frameCount.toNat →
      (Clear (markRangeUsed s base length) n ↔ Clear s n ∧ ¬ ReservesFrame base length n) := by
  have hw := markRangeUsed_writes h base length
  refine ⟨hw.core, hw.layout, fun n hn => ?_⟩
  rw [hw.clear n hn]
  by_cases hf : ReservesFrame base length n
  · rw [if_pos hf]
    exact ⟨fun hno => hno.elim, fun hno => hno.2 hf⟩
  · rw [if_neg hf]
    exact ⟨fun hc => ⟨hc, hf⟩, fun hc => hc.1⟩

/-! ## The boot map -/

/-- The two passes over the map, as sets of frames. -/
theorem foldl_freeUsable_spec (rs : List BootMemRegion) :
    ∀ {s : PmmState}, PmmCore s →
      PmmCore (rs.foldl freeUsable s) ∧ SameLayout s (rs.foldl freeUsable s) ∧
      ∀ n, n < s.frameCount.toNat → (Clear (rs.foldl freeUsable s) n ↔
        Clear s n ∨ ∃ r ∈ rs, r.type = BOOT_MEM_USABLE ∧ FreesFrame r.base r.length n) := by
  induction rs with
  | nil =>
      intro s h
      exact ⟨h, SameLayout.refl s, fun n _ => by simp⟩
  | cons r rs ih =>
      intro s h
      have hone : PmmCore (freeUsable s r) ∧ SameLayout s (freeUsable s r) ∧
          ∀ n, n < s.frameCount.toNat → (Clear (freeUsable s r) n ↔
            Clear s n ∨ (r.type = BOOT_MEM_USABLE ∧ FreesFrame r.base r.length n)) := by
        rw [freeUsable]
        by_cases ht : r.type = BOOT_MEM_USABLE
        · rw [if_pos ht]
          obtain ⟨h1, h2, h3⟩ := markRangeFree_spec h r.base r.length
          exact ⟨h1, h2, fun n hn => by rw [h3 n hn]; simp [ht]⟩
        · rw [if_neg ht]
          exact ⟨h, SameLayout.refl s, fun n _ => by simp [ht]⟩
      obtain ⟨h1, h2, h3⟩ := hone
      obtain ⟨i1, i2, i3⟩ := ih h1
      refine ⟨i1, h2.trans i2, ?_⟩
      intro n hn
      rw [List.foldl_cons, i3 n (by rw [h2.frameCount]; exact hn), h3 n hn]
      simp only [List.mem_cons, exists_eq_or_imp, or_assoc]

/-- What the second pass over the map leaves free. -/
theorem foldl_reserveOther_spec (rs : List BootMemRegion) :
    ∀ {s : PmmState}, PmmCore s →
      PmmCore (rs.foldl reserveOther s) ∧ SameLayout s (rs.foldl reserveOther s) ∧
      ∀ n, n < s.frameCount.toNat → (Clear (rs.foldl reserveOther s) n ↔
        Clear s n ∧ ∀ r ∈ rs, r.type ≠ BOOT_MEM_USABLE →
          ¬ ReservesFrame r.base r.length n) := by
  induction rs with
  | nil =>
      intro s h
      exact ⟨h, SameLayout.refl s, fun n _ => by simp⟩
  | cons r rs ih =>
      intro s h
      have hone : PmmCore (reserveOther s r) ∧ SameLayout s (reserveOther s r) ∧
          ∀ n, n < s.frameCount.toNat → (Clear (reserveOther s r) n ↔
            Clear s n ∧ (r.type ≠ BOOT_MEM_USABLE → ¬ ReservesFrame r.base r.length n)) := by
        rw [reserveOther]
        by_cases ht : r.type = BOOT_MEM_USABLE
        · rw [if_neg (fun hne => hne ht)]
          exact ⟨h, SameLayout.refl s, fun n _ => by simp [ht]⟩
        · rw [if_pos ht]
          obtain ⟨h1, h2, h3⟩ := markRangeUsed_spec h r.base r.length
          exact ⟨h1, h2, fun n hn => by rw [h3 n hn]; simp [ht]⟩
      -- one region, and then the rest of the map
      obtain ⟨h1, h2, h3⟩ := hone
      obtain ⟨i1, i2, i3⟩ := ih h1
      refine ⟨i1, h2.trans i2, ?_⟩
      intro n hn
      rw [List.foldl_cons, i3 n (by rw [h2.frameCount]; exact hn), h3 n hn]
      simp only [List.forall_mem_cons, and_assoc]

/-- The bytes of a bitmap for all frames. -/
theorem requiredBytes_toNat (maxPhysBytes : U64) :
    ((maxPhysBytes / PMM_PAGE_SIZE + 7) / 8).toNat = (maxPhysBytes.toNat / 4096 + 7) / 8 := by
  rw [BitVec.toNat_udiv, BitVec.toNat_add, page_div_toNat]
  show (maxPhysBytes.toNat / 4096 + 7) % 2 ^ 64 / 8 = _
  rw [Nat.mod_eq_of_lt (by omega)]

/-- Before the map is read, every frame below the limit is used. -/
theorem pmmAllUsed_spec (pmm : PmmState) (storage : Bitmap) {maxPhysBytes : U64}
    (hal : maxPhysBytes.toNat % 4096 = 0) :
    PmmCore (pmmAllUsed pmm storage maxPhysBytes) ∧
    ∀ n, n < maxPhysBytes.toNat / 4096 → ¬ Clear (pmmAllUsed pmm storage maxPhysBytes) n := by
  have hfc := page_div_toNat maxPhysBytes
  have hused : ∀ n, n < maxPhysBytes.toNat / 4096 →
      ¬ Clear (pmmAllUsed pmm storage maxPhysBytes) n := by
    intro n hn hc
    have hreq := requiredBytes_toNat maxPhysBytes
    have hbyte : (BitVec.ofNat 64 n) >>> 3 < (maxPhysBytes / PMM_PAGE_SIZE + 7) / 8 := by
      rw [BitVec.lt_def, hreq, BitVec.toNat_ushiftRight, BitVec.toNat_ofNat,
          Nat.mod_eq_of_lt (by omega), Nat.shiftRight_eq_div_pow]
      omega
    rw [Clear] at hc
    rw [bitmapTest_eq] at hc
    -- every byte up to the last frame's is filled with ones
    have hff : (pmmAllUsed pmm storage maxPhysBytes).bitmap ((BitVec.ofNat 64 n) >>> 3)
        = 0xff := if_pos hbyte
    rw [hff] at hc
    have hlt : ((BitVec.ofNat 64 n : U64) &&& 7).toNat < 8 := by
      rw [and_lowMask_toNat _ 7 3 rfl]
      omega
    generalize ((BitVec.ofNat 64 n : U64) &&& 7).toNat = k at hc hlt
    have hall : ∀ k : Fin 8, (0xff : U8).getLsbD k = true := by decide
    have hk := hall ⟨k, hlt⟩
    rw [hc] at hk
    cases hk
  refine ⟨⟨?_, ?_, ?_, ?_, ?_⟩, hused⟩
  · show maxPhysBytes.toNat = (maxPhysBytes / PMM_PAGE_SIZE).toNat * 4096
    rw [hfc]
    omega
  · show 0 = Nat.count _ (maxPhysBytes / PMM_PAGE_SIZE).toNat
    rw [hfc, Nat.count_eq_card_filter_range, eq_comm, Finset.card_eq_zero,
        Finset.filter_eq_empty_iff]
    intro n hn
    exact hused n (Finset.mem_range.mp hn)
  · show 0 + (maxPhysBytes / PMM_PAGE_SIZE).toNat = (maxPhysBytes / PMM_PAGE_SIZE).toNat
    omega
  · show (0 : U64) ≤ maxPhysBytes / PMM_PAGE_SIZE
    bv_omega
  · intro n hn
    exact absurd hn (Nat.not_lt_zero n)

/-- The frames the map opens, as `pmm_init_from_map` computes them. -/
def InitFree (regions : List BootMemRegion) (n : Nat) : Prop :=
  n ≠ 0 ∧ (∃ r ∈ regions, r.type = BOOT_MEM_USABLE ∧ FreesFrame r.base r.length n) ∧
    ∀ r ∈ regions, r.type ≠ BOOT_MEM_USABLE → ¬ ReservesFrame r.base r.length n

/-- The range the source reserves for the null page is frame 0. -/
theorem reservesFrame_zero (n : Nat) : ReservesFrame 0 PMM_PAGE_SIZE n ↔ n = 0 := by
  constructor
  · rintro ⟨-, -, -, h4⟩
    have h4' : n < 1 := h4
    omega
  · intro h0
    rw [h0]
    exact ⟨by decide, by decide, by decide, by decide⟩

/-- The arguments `pmm_init_from_map` accepts, and the four passes it makes. -/
theorem pmmInitFromMap_some {garbage s : PmmState} {regions : List BootMemRegion}
    {storage : Bitmap} {storageBytes maxPhysBytes : U64}
    (h : pmmInitFromMap garbage regions storage storageBytes maxPhysBytes = some s) :
    maxPhysBytes ≠ 0 ∧ maxPhysBytes.toNat % 4096 = 0 ∧
    s = { regions.foldl reserveOther (markRangeUsed
            (regions.foldl freeUsable (pmmAllUsed garbage storage maxPhysBytes))
            0 PMM_PAGE_SIZE) with initialized := true } := by
  rw [pmmInitFromMap] at h
  by_cases hr : regions = []
  · rw [if_pos hr] at h
    cases h
  rw [if_neg hr] at h
  by_cases hm : maxPhysBytes = 0 ∨ (maxPhysBytes &&& (PMM_PAGE_SIZE - 1)) ≠ 0
  · rw [if_pos hm] at h
    cases h
  rw [if_neg hm] at h
  by_cases hb : storageBytes < (maxPhysBytes / PMM_PAGE_SIZE + 7) / 8
  · rw [if_pos hb] at h
    cases h
  rw [if_neg hb] at h
  rw [not_or, not_not, page_aligned_iff] at hm
  exact ⟨hm.1, hm.2, (Option.some.inj h).symm⟩

/-- When `pmm_init_from_map` returns true, and the state it then leaves. -/
theorem pmmInitFromMap_spec {garbage s : PmmState} {regions : List BootMemRegion}
    {storage : Bitmap} {storageBytes maxPhysBytes : U64}
    (h : pmmInitFromMap garbage regions storage storageBytes maxPhysBytes = some s) :
    PmmCore s ∧ s.initialized = true ∧ s.maxPhys = maxPhysBytes ∧
    0 < s.frameCount.toNat ∧ s.bitmapBytes.toNat = (s.frameCount.toNat + 7) / 8 ∧
    ∀ n, n < s.frameCount.toNat → (Clear s n ↔ InitFree regions n) := by
  obtain ⟨hne, hal, hs⟩ := pmmInitFromMap_some h
  have hpos : maxPhysBytes.toNat ≠ 0 := by bv_omega
  have hfc := page_div_toNat maxPhysBytes
  -- the four passes of the source, each with what it does to a frame
  obtain ⟨c0, u0⟩ := pmmAllUsed_spec garbage storage hal
  obtain ⟨c1, l1, e1⟩ := foldl_freeUsable_spec regions c0
  obtain ⟨c2, l2, e2⟩ := markRangeUsed_spec c1 0 PMM_PAGE_SIZE
  obtain ⟨c3, l3, e3⟩ := foldl_reserveOther_spec regions c2
  have hlay := (l1.trans l2).trans l3
  have hcount : s.frameCount = maxPhysBytes / PMM_PAGE_SIZE := by
    rw [hs]
    exact hlay.frameCount
  refine ⟨?_, ?_, ?_, ?_, ?_, ?_⟩
  · rw [hs]
    exact ⟨c3.frames, c3.free_eq, c3.sum_eq, c3.hint_le, c3.hint_used⟩
  · rw [hs]
  · rw [hs]
    exact hlay.maxPhys
  · rw [hcount, hfc]
    omega
  · rw [hcount, hfc, ← requiredBytes_toNat, hs]
    exact congrArg BitVec.toNat hlay.bitmapBytes
  · intro n hn
    rw [hcount, hfc] at hn
    have hn0 : n < (pmmAllUsed garbage storage maxPhysBytes).frameCount.toNat := by
      show n < (maxPhysBytes / PMM_PAGE_SIZE).toNat
      rw [hfc]
      exact hn
    have hclear : Clear s n ↔ Clear (List.foldl reserveOther (markRangeUsed
        (List.foldl freeUsable (pmmAllUsed garbage storage maxPhysBytes) regions)
        0 PMM_PAGE_SIZE) regions) n := by
      rw [hs]
      exact Iff.rfl
    rw [hclear, e3 n (by rw [l2.frameCount, l1.frameCount]; exact hn0),
        e2 n (by rw [l1.frameCount]; exact hn0), e1 n hn0, reservesFrame_zero]
    rw [InitFree]
    constructor
    · rintro ⟨⟨hfree | hfree, h0⟩, hres⟩
      · exact absurd hfree (u0 n hn)
      · exact ⟨h0, hfree, hres⟩
    · rintro ⟨h0, hfree, hres⟩
      exact ⟨⟨Or.inr hfree, h0⟩, hres⟩

end PmmRange
