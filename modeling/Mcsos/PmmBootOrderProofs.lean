import Mathlib.Data.List.Perm.Basic
import Mcsos.PmmBootMapProofs

/-! # The order of the boot map does not matter

    Regions may overlap, and a frame is counted by the region that meets it
    first.  Which one that is depends on the order of the map; the totals do
    not.  Each of the two passes over the map is determined by the state it
    starts from and the set of its regions: which frames are free after it, by
    the set of frames each region opens or closes; the two counters, since they
    count the bitmap; the reserved frames, since they and the free ones have a
    constant sum; the ignored frames, since they are a sum over the regions.
    The rest of the state is not touched. -/

namespace PmmBootOrder

open Word Loop PmmModel PmmFrame PmmRange

/-! ## What a pass leaves alone -/

/-- The bits behind the last frame are the same. -/
def SameTail (s t : PmmState) : Prop :=
  ∀ (i : U64) (k : Nat), k < 8 → s.frameCount.toNat ≤ 8 * i.toNat + k →
    (t.bitmap i).getLsbD k = (s.bitmap i).getLsbD k

/-- What opening frames leaves alone. -/
structure Opened (s t : PmmState) : Prop where
  count : t.frameCount = s.frameCount
  tail : SameTail s t
  reserved : t.reservedFrames = s.reservedFrames
  hint : s.nextHint = 0 → t.nextHint = 0

/-- What closing frames leaves alone. -/
structure Closed (s t : PmmState) : Prop where
  count : t.frameCount = s.frameCount
  tail : SameTail s t
  ignored : t.ignoredFrames = s.ignoredFrames
  hint : t.nextHint = s.nextHint

variable {s t u : PmmState}

theorem SameTail.refl (s : PmmState) : SameTail s s := fun _ _ _ _ => rfl

theorem SameTail.trans (h : SameTail s t) (hcount : t.frameCount = s.frameCount)
    (h' : SameTail t u) : SameTail s u := by
  intro i k hk hle
  rw [h' i k hk (by rw [hcount]; exact hle), h i k hk hle]

theorem Opened.refl (s : PmmState) : Opened s s := ⟨rfl, .refl s, rfl, id⟩

theorem Opened.trans (h : Opened s t) (h' : Opened t u) : Opened s u :=
  ⟨h'.count.trans h.count, h.tail.trans h.count h'.tail, h'.reserved.trans h.reserved,
    fun h0 => h'.hint (h.hint h0)⟩

theorem Closed.refl (s : PmmState) : Closed s s := ⟨rfl, .refl s, rfl, rfl⟩

theorem Closed.trans (h : Closed s t) (h' : Closed t u) : Closed s u :=
  ⟨h'.count.trans h.count, h.tail.trans h.count h'.tail, h'.ignored.trans h.ignored,
    h'.hint.trans h.hint⟩

/-- The bit of a frame below the count is none of those behind the last frame. -/
theorem tail_ne {c f i : U64} {k : Nat} (hf : ¬ f ≥ c) (hle : c.toNat ≤ 8 * i.toNat + k) :
    ¬ (i = f >>> 3 ∧ k = (f &&& 7).toNat) := by
  rintro ⟨rfl, rfl⟩
  rw [and_lowMask_toNat f 7 3 rfl, BitVec.toNat_ushiftRight, Nat.shiftRight_eq_div_pow] at hle
  bv_omega

/-- Setting the bit of a frame leaves the bits behind the last frame. -/
theorem bitmapSet_tail (b : Bitmap) {c f i : U64} {k : Nat} (hf : ¬ f ≥ c) (hk : k < 8)
    (hle : c.toNat ≤ 8 * i.toNat + k) : (bitmapSet b f i).getLsbD k = (b i).getLsbD k := by
  rw [bitmapSet]
  split
  · rename_i hi
    have hbit : k ≠ (f &&& 7).toNat := fun h => tail_ne hf hle ⟨hi, h⟩
    rw [BitVec.getLsbD_or, bitMask, getLsbD_one_shiftLeft _ _ hk, decide_eq_false hbit,
      Bool.or_false]
  · rfl

/-- Clearing the bit of a frame leaves the bits behind the last frame. -/
theorem bitmapClear_tail (b : Bitmap) {c f i : U64} {k : Nat} (hf : ¬ f ≥ c) (hk : k < 8)
    (hle : c.toNat ≤ 8 * i.toNat + k) : (bitmapClear b f i).getLsbD k = (b i).getLsbD k := by
  rw [bitmapClear]
  split
  · rename_i hi
    have hbit : k ≠ (f &&& 7).toNat := fun h => tail_ne hf hle ⟨hi, h⟩
    rw [BitVec.getLsbD_and, BitVec.getLsbD_not, bitMask, getLsbD_one_shiftLeft _ _ hk,
      decide_eq_false hbit, decide_eq_true hk]
    simp only [Bool.not_false, Bool.and_true]
  · rfl

/-! ## One frame, one range, one pass -/

/-- Freeing a frame keeps the tail, the reserved count and a hint of 0. -/
theorem opened_frame (s : PmmState) (f : U64) : Opened s (markFrameFree s f) := by
  rw [markFrameFree]
  split
  · exact .refl s
  rename_i hf
  split
  · refine ⟨rfl, fun i k hk hle => bitmapClear_tail s.bitmap hf hk hle, rfl, fun h0 => ?_⟩
    show (if f < s.nextHint then f else s.nextHint) = 0
    rw [h0]
    exact if_neg BitVec.not_lt_zero
  · exact .refl s

/-- Marking a frame used keeps the tail, the ignored count and the hint. -/
theorem closed_frame (s : PmmState) (f : U64) : Closed s (markFrameUsed s f) := by
  rw [markFrameUsed]
  split
  · exact .refl s
  rename_i hf
  split
  · exact ⟨rfl, fun i k hk hle => bitmapSet_tail s.bitmap hf hk hle, rfl, rfl⟩
  · exact .refl s

/-- Reserving a frame keeps the tail, the ignored count and the hint. -/
theorem closed_reserve (s : PmmState) (a : U64) : Closed s (reserveFrameAt a s) := by
  have h := closed_frame s (a / PMM_PAGE_SIZE)
  rw [reserveFrameAt]
  split
  · exact ⟨h.count, h.tail, h.ignored, h.hint⟩
  · exact h

/-- Freeing a range only opens frames. -/
theorem opened_range (s : PmmState) (base length : U64) :
    Opened s (markRangeFree s base length) := by
  have hloop : ∀ start stop s₁, Opened s s₁ → Opened s (forUpTo start stop PMM_PAGE_SIZE
      (fun addr pmm => markFrameFree pmm (addr / PMM_PAGE_SIZE)) s₁) :=
    fun _ _ _ h₁ => forUpTo_inv (P := Opened s) (fun _ t ht => ht.trans (opened_frame t _)) h₁
  -- every early return leaves the state alone
  rw [markRangeFree]
  split
  · exact .refl s
  split
  · exact .refl s
  simp only
  split
  · exact .refl s
  split
  · exact .refl s
  refine hloop _ _ _ ?_
  split
  · exact ⟨rfl, .refl s, rfl, id⟩
  · exact .refl s

/-- Reserving a range only closes frames. -/
theorem closed_range (s : PmmState) (base length : U64) :
    Closed s (markRangeUsed s base length) := by
  rw [markRangeUsed]
  split
  · exact .refl s
  split
  · exact .refl s
  simp only
  split
  · exact .refl s
  split
  · exact .refl s
  · exact forUpTo_inv (P := Closed s) (fun _ t ht => ht.trans (closed_reserve t _)) (.refl s)

/-- The first pass over the map frees ranges only. -/
theorem opened_pass (s : PmmState) (rs : List BootMemRegion) :
    Opened s (rs.foldl freeUsable s) := by
  refine List.foldlRecOn (motive := Opened s) rs freeUsable (.refl s) (fun t ht r _ => ?_)
  rw [freeUsable]
  split
  · exact ht.trans (opened_range t _ _)
  · exact ht

/-- The second pass reserves ranges only. -/
theorem closed_pass (s : PmmState) (rs : List BootMemRegion) :
    Closed s (rs.foldl reserveOther s) := by
  refine List.foldlRecOn (motive := Closed s) rs reserveOther (.refl s) (fun t ht r _ => ?_)
  rw [reserveOther]
  split
  · exact ht.trans (closed_range t _ _)
  · exact ht

/-! ## The ignored frames -/

/-- The frames of a usable range behind the limit, as `mark_range_free` counts them. -/
def ignoredBy (maxPhys base length : U64) : U64 :=
  if length = 0 then 0
  else match checkedAddU64 base length with
  | none => 0
  | some end_ =>
      if alignDown end_ PMM_PAGE_SIZE ≤ alignUp base PMM_PAGE_SIZE then 0
      else if alignUp base PMM_PAGE_SIZE ≥ maxPhys then 0
      else if alignDown end_ PMM_PAGE_SIZE > maxPhys then
        (alignDown end_ PMM_PAGE_SIZE - maxPhys) / PMM_PAGE_SIZE
      else 0

/-- Freeing a frame ignores nothing. -/
theorem frame_ignored (s : PmmState) (f : U64) :
    (markFrameFree s f).ignoredFrames = s.ignoredFrames := by
  rw [markFrameFree]
  split
  · rfl
  split
  · rfl
  · rfl

/-- Freeing a range counts what lies above the limit. -/
theorem range_ignored (s : PmmState) (base length : U64) :
    (markRangeFree s base length).ignoredFrames
      = s.ignoredFrames + ignoredBy s.maxPhys base length := by
  -- the count is taken before the loop, and the loop keeps it
  have hloop : ∀ start stop (s₁ : PmmState), (forUpTo start stop PMM_PAGE_SIZE
      (fun addr pmm => markFrameFree pmm (addr / PMM_PAGE_SIZE)) s₁).ignoredFrames
      = s₁.ignoredFrames :=
    fun _ _ s₁ => forUpTo_inv (P := fun t => t.ignoredFrames = s₁.ignoredFrames)
      (fun _ t ht => (frame_ignored t _).trans ht) rfl
  rw [markRangeFree, ignoredBy]
  by_cases hlen : length = 0
  · rw [if_pos hlen, if_pos hlen]
    exact (BitVec.add_zero _).symm
  rw [if_neg hlen, if_neg hlen]
  cases checkedAddU64 base length with
  | none => exact (BitVec.add_zero _).symm
  | some end_ =>
      simp only
      split
      · exact (BitVec.add_zero _).symm
      split
      · exact (BitVec.add_zero _).symm
      rw [hloop]
      split
      · rfl
      · exact (BitVec.add_zero _).symm

/-- What a region adds to the count in the first pass. -/
def ignoredOf (maxPhys : U64) (r : BootMemRegion) : U64 :=
  if r.type = BOOT_MEM_USABLE then ignoredBy maxPhys r.base r.length else 0

/-- What one region adds to the count. -/
theorem freeUsable_ignored (s : PmmState) (r : BootMemRegion) :
    (freeUsable s r).ignoredFrames = s.ignoredFrames + ignoredOf s.maxPhys r := by
  rw [freeUsable, ignoredOf]
  split
  · exact range_ignored s _ _
  · exact (BitVec.add_zero _).symm

/-- What the first pass adds to it. -/
theorem pass_ignored (rs : List BootMemRegion) : ∀ {s : PmmState}, PmmCore s →
    (rs.foldl freeUsable s).ignoredFrames
      = rs.foldl (fun k r => k + ignoredOf s.maxPhys r) s.ignoredFrames := by
  induction rs with
  | nil => intro s _; rfl
  | cons r rs ih =>
      intro s h
      obtain ⟨hcore, hlay, -⟩ := foldl_freeUsable_spec [r] h
      have hmax : (freeUsable s r).maxPhys = s.maxPhys := hlay.maxPhys
      have hrest := ih (s := freeUsable s r) hcore
      rw [hmax, freeUsable_ignored] at hrest
      exact hrest

/-! ## The reserved frames -/

/-- Reserving a frame below the limit moves it from the free ones to the reserved
    ones. -/
theorem reserve_sum (h : PmmCore s) {a : U64} (ha : a.toNat / 4096 < s.frameCount.toNat) :
    (reserveFrameAt a s).reservedFrames + (reserveFrameAt a s).freeFrames
      = s.reservedFrames + s.freeFrames := by
  have hpage := page_div_toNat a
  rw [reserveFrameAt]
  by_cases hc : Clear s (a / PMM_PAGE_SIZE).toNat
  · rw [markFrameUsed_eq h (by omega) hc, (clear_toNat s _).mp hc]
    simp only [Bool.not_false, if_true]
    bv_omega
  · have hset : bitmapTest s.bitmap (a / PMM_PAGE_SIZE) = true := by
      by_contra hbit
      exact hc ((clear_toNat s _).mpr (Bool.eq_false_iff.mpr hbit))
    rw [markFrameUsed_same (fun hf => hc hf.2), hset]
    rfl

/-- Reserving a range counts each frame that was free as reserved. -/
theorem range_sum (h : PmmCore s) (base length : U64) :
    (markRangeUsed s base length).reservedFrames + (markRangeUsed s base length).freeFrames
      = s.reservedFrames + s.freeFrames := by
  have hframes := h.frames
  rw [markRangeUsed]
  split
  · rfl
  split
  · rfl
  rename_i end_ _
  simp only
  split
  · rfl
  rename_i hlt
  split
  · rfl
  rename_i hbelow
  have hstart := alignDown_toNat base
  have hstop := alignUp_toNat end_
  generalize alignDown base PMM_PAGE_SIZE = start at *
  generalize alignUp end_ PMM_PAGE_SIZE = stop at *
  -- every counter value lies below the limit
  have hclip : (if stop > s.maxPhys then s.maxPhys else stop).toNat
      = min stop.toNat (s.frameCount.toNat * 4096) := by
    split
    · bv_omega
    · bv_omega
  refine (forUpTo_induct (fun _ t => PmmCore t ∧ SameLayout s t ∧
    t.reservedFrames + t.freeFrames = s.reservedFrames + s.freeFrames)
    (by bv_omega) (by decide) ?_ ⟨h, .refl s, rfl⟩ ?_).2.2
  · rw [hclip]
    show 4096 ∣ min stop.toNat (s.frameCount.toNat * 4096) - start.toNat
    omega
  · rintro i t - hi - ⟨hcore, hlay, hsum⟩
    refine ⟨frameWriter_used.core i t hcore, hlay.trans (frameWriter_used.layout i t), ?_⟩
    rw [reserve_sum hcore (by rw [hlay.frameCount]; bv_omega), hsum]

/-- The second pass counts each frame that was free as reserved. -/
theorem pass_sum (rs : List BootMemRegion) (h : PmmCore s) :
    (rs.foldl reserveOther s).reservedFrames + (rs.foldl reserveOther s).freeFrames
      = s.reservedFrames + s.freeFrames := by
  refine (List.foldlRecOn (motive := fun t => PmmCore t ∧
    t.reservedFrames + t.freeFrames = s.reservedFrames + s.freeFrames) rs reserveOther
    ⟨h, rfl⟩ (fun t ht r _ => ?_)).2
  rw [reserveOther]
  split
  · exact ⟨(markRangeUsed_spec ht.1 _ _).1, (range_sum ht.1 _ _).trans ht.2⟩
  · exact ht

/-! ## What determines a state -/

/-- The bit of a frame, by byte and place. -/
theorem clear_iff_bit (s : PmmState) {i : U64} {k : Nat} (hk : k < 8)
    (hn : 8 * i.toNat + k < 2 ^ 64) :
    Clear s (8 * i.toNat + k) ↔ (s.bitmap i).getLsbD k = false := by
  have hval : (BitVec.ofNat 64 (8 * i.toNat + k)).toNat = 8 * i.toNat + k := by
    rw [BitVec.toNat_ofNat, Nat.mod_eq_of_lt hn]
  have hbyte : BitVec.ofNat 64 (8 * i.toNat + k) >>> 3 = i := by
    apply BitVec.eq_of_toNat_eq
    rw [BitVec.toNat_ushiftRight, hval, Nat.shiftRight_eq_div_pow]
    omega
  have hbit : (BitVec.ofNat 64 (8 * i.toNat + k) &&& 7).toNat = k := by
    rw [and_lowMask_toNat _ 7 3 rfl, hval]
    omega
  rw [Clear, bitmapTest_eq, hbyte, hbit]

/-- The free frames and the untouched bits behind them are the whole bitmap. -/
theorem bitmap_eq
    (hclear : ∀ n, n < s.frameCount.toNat → (Clear t n ↔ Clear s n)) (htail : SameTail s t) :
    t.bitmap = s.bitmap := by
  funext i
  refine BitVec.eq_of_getLsbD_eq (fun k hk => ?_)
  by_cases hn : 8 * i.toNat + k < s.frameCount.toNat
  · have hlim := s.frameCount.isLt
    have hiff := hclear _ hn
    rw [clear_iff_bit t hk (by omega), clear_iff_bit s hk (by omega)] at hiff
    cases hbit : (s.bitmap i).getLsbD k with
    | false => exact hiff.mpr hbit
    | true =>
        cases hbit' : (t.bitmap i).getLsbD k with
        | true => rfl
        | false =>
            rw [hiff.mp hbit'] at hbit
            cases hbit
  · exact htail i k hk (by omega)

/-- Two managers with the same free frames have the same counters. -/
theorem free_eq (hs : PmmCore s) (ht : PmmCore t) (hcount : t.frameCount = s.frameCount)
    (hclear : ∀ n, n < s.frameCount.toNat → (Clear t n ↔ Clear s n)) :
    t.freeFrames = s.freeFrames := by
  apply BitVec.eq_of_toNat_eq
  rw [hs.free_eq, ht.free_eq, hcount, Nat.count_eq_card_filter_range,
    Nat.count_eq_card_filter_range]
  congr 1
  exact Finset.filter_congr (fun n hn => hclear n (Finset.mem_range.mp hn))

/-- **STATE**: the free frames, the bits behind them and the three fields that no
    counter determines are the whole state. -/
theorem state_eq (hs : PmmCore s) (ht : PmmCore t) (hlay : SameLayout s t)
    (hclear : ∀ n, n < s.frameCount.toNat → (Clear t n ↔ Clear s n)) (htail : SameTail s t)
    (hreserved : t.reservedFrames = s.reservedFrames)
    (hignored : t.ignoredFrames = s.ignoredFrames) (hhint : t.nextHint = s.nextHint) :
    t = s := by
  have hbitmap := bitmap_eq hclear htail
  have hfree := free_eq hs ht hlay.frameCount hclear
  have hused : t.usedFrames = s.usedFrames := by
    have hsum := hs.sum_eq
    have hsum' := ht.sum_eq
    rw [hlay.frameCount, hfree] at hsum'
    bv_omega
  obtain ⟨hbytes, hmax, hcount, hinit⟩ := hlay
  cases s
  cases t
  simp only [PmmState.mk.injEq]
  exact ⟨hbitmap, hbytes, hmax, hcount, hfree, hused, hreserved, hignored, hhint, hinit⟩

/-- Two states with the layout of a third. -/
theorem layout_common (h : SameLayout s t) (h' : SameLayout s u) : SameLayout t u :=
  ⟨h'.bitmapBytes.trans h.bitmapBytes.symm, h'.maxPhys.trans h.maxPhys.symm,
    h'.frameCount.trans h.frameCount.symm, h'.initialized.trans h.initialized.symm⟩

/-- Two states with the tail of a third. -/
theorem tail_common (h : SameTail s t) (hcount : t.frameCount = s.frameCount)
    (h' : SameTail s u) : SameTail t u := by
  intro i k hk hle
  rw [hcount] at hle
  rw [h' i k hk hle, h i k hk hle]

/-! ## The two passes, in any order -/

variable {rs rs' : List BootMemRegion}

/-- The first pass does not depend on the order of the regions. -/
theorem free_pass_perm (h : PmmCore s) (h0 : s.nextHint = 0) (hperm : rs.Perm rs') :
    rs'.foldl freeUsable s = rs.foldl freeUsable s := by
  obtain ⟨hcore, hlay, hclear⟩ := foldl_freeUsable_spec rs h
  obtain ⟨hcore', hlay', hclear'⟩ := foldl_freeUsable_spec rs' h
  have hopen := opened_pass s rs
  have hopen' := opened_pass s rs'
  refine state_eq hcore hcore' (layout_common hlay hlay') (fun n hn => ?_)
    (tail_common hopen.tail hopen.count hopen'.tail) (hopen'.reserved.trans hopen.reserved.symm)
    ?_ ((hopen'.hint h0).trans (hopen.hint h0).symm)
  · rw [hlay.frameCount] at hn
    rw [hclear n hn, hclear' n hn]
    simp only [hperm.mem_iff]
  · rw [pass_ignored rs h, pass_ignored rs' h]
    refine hperm.symm.foldl_eq' (fun x _ y _ k => ?_) _
    show k + _ + _ = k + _ + _
    rw [BitVec.add_assoc, BitVec.add_comm (ignoredOf _ x), ← BitVec.add_assoc]

/-- The second pass does not depend on the order of the regions. -/
theorem reserve_pass_perm (h : PmmCore s) (hperm : rs.Perm rs') :
    rs'.foldl reserveOther s = rs.foldl reserveOther s := by
  obtain ⟨hcore, hlay, hclear⟩ := foldl_reserveOther_spec rs h
  obtain ⟨hcore', hlay', hclear'⟩ := foldl_reserveOther_spec rs' h
  have hclosed := closed_pass s rs
  have hclosed' := closed_pass s rs'
  have hsame : ∀ n, n < (rs.foldl reserveOther s).frameCount.toNat →
      (Clear (rs'.foldl reserveOther s) n ↔ Clear (rs.foldl reserveOther s) n) := by
    intro n hn
    rw [hlay.frameCount] at hn
    rw [hclear n hn, hclear' n hn]
    simp only [hperm.mem_iff]
  refine state_eq hcore hcore' (layout_common hlay hlay') hsame
    (tail_common hclosed.tail hclosed.count hclosed'.tail) ?_
    (hclosed'.ignored.trans hclosed.ignored.symm) (hclosed'.hint.trans hclosed.hint.symm)
  -- what is not free any more has been reserved
  have hfree := free_eq hcore hcore' (layout_common hlay hlay').frameCount hsame
  have hsum := pass_sum rs h
  have hsum' := pass_sum rs' h
  rw [hfree] at hsum'
  exact (BitVec.add_left_inj _).mp (hsum'.trans hsum.symm)

/-- **ORDER**: a map and any permutation of it are accepted alike and leave the same
    state, bit for bit and counter for counter. -/
theorem bootMap_order (hperm : rs.Perm rs') (garbage : PmmState) (storage : Bitmap)
    (storageBytes maxPhysBytes : U64) :
    pmmInitFromMap garbage rs storage storageBytes maxPhysBytes
      = pmmInitFromMap garbage rs' storage storageBytes maxPhysBytes := by
  have hnil : rs = [] ↔ rs' = [] := by
    constructor
    · rintro rfl
      exact hperm.nil_eq.symm
    · rintro rfl
      exact hperm.eq_nil
  rw [pmmInitFromMap, pmmInitFromMap]
  by_cases hempty : rs = []
  · rw [if_pos hempty, if_pos (hnil.mp hempty)]
  rw [if_neg hempty, if_neg (fun h => hempty (hnil.mpr h))]
  by_cases hmax : maxPhysBytes = 0 ∨ (maxPhysBytes &&& (PMM_PAGE_SIZE - 1)) ≠ 0
  · rw [if_pos hmax, if_pos hmax]
  rw [if_neg hmax, if_neg hmax]
  by_cases hbytes : storageBytes < (maxPhysBytes / PMM_PAGE_SIZE + 7) / 8
  · rw [if_pos hbytes, if_pos hbytes]
  rw [if_neg hbytes, if_neg hbytes]
  -- the checks are over; what is left are the two passes
  rw [not_or, not_not, page_aligned_iff] at hmax
  have hcore := (pmmAllUsed_spec garbage storage hmax.2).1
  have hcore' := (foldl_freeUsable_spec rs hcore).1
  simp only
  rw [free_pass_perm hcore rfl hperm,
    reserve_pass_perm (markRangeUsed_spec hcore' 0 PMM_PAGE_SIZE).1 hperm]

/-- Two usable regions that overlap, cut off at the limit, and a reserved one across
    both. -/
theorem bootMap_order_three :
    pmmInitFromMap ⟨fun _ => 0, 0, 0, 0, 0, 0, 0, 0, 0, false⟩
      [⟨0, 0x4000, 1⟩, ⟨0x2000, 0x8000, 1⟩, ⟨0x2800, 0x1000, 2⟩] (fun _ => 0) 1 0x8000
    = pmmInitFromMap ⟨fun _ => 0, 0, 0, 0, 0, 0, 0, 0, 0, false⟩
      [⟨0x2800, 0x1000, 2⟩, ⟨0x2000, 0x8000, 1⟩, ⟨0, 0x4000, 1⟩] (fun _ => 0) 1 0x8000 :=
  bootMap_order (by decide) _ _ _ _

end PmmBootOrder
