import Mcsos.PmmRangeProofs

/-! # The representation invariant of the physical memory manager

    `PmmInv` is the bookkeeping of an initialised manager: the counters count
    the bitmap, nothing free is below the hint, and frame 0 is used.  One spec
    lemma per call says what the call answers and what it does to the free
    set; each keeps `PmmInv`, so every reachable state has it. -/

namespace PmmInvariant

open Word Loop PmmModel PmmFrame PmmRange

/-- The invariant of an allocator that has been initialised. -/
structure PmmInv (s : PmmState) : Prop extends PmmCore s where
  initialized : s.initialized = true
  frames_pos : 0 < s.frameCount.toNat
  bytes_eq : s.bitmapBytes.toNat = (s.frameCount.toNat + 7) / 8
  zero_used : ¬ Clear s 0

/-- A successful `pmm_init_from_map` establishes the invariant. -/
theorem pmmInv_init {garbage s : PmmState} {regions : List BootMemRegion}
    {storage : Bitmap} {storageBytes maxPhysBytes : U64}
    (h : pmmInitFromMap garbage regions storage storageBytes maxPhysBytes = some s) :
    PmmInv s := by
  obtain ⟨hcore, hinit, -, hpos, hbytes, hclear⟩ := pmmInitFromMap_spec h
  exact ⟨hcore, hinit, hpos, hbytes, fun h0 => ((hclear 0 hpos).mp h0).1 rfl⟩

/-- A marking function keeps the invariant when it keeps the bookkeeping and
    does not free frame 0. -/
theorem PmmInv.of_layout {s t : PmmState} (h : PmmInv s) (hcore : PmmCore t)
    (hlay : SameLayout s t) (hzero : ¬ Clear t 0) : PmmInv t where
  toPmmCore := hcore
  initialized := hlay.initialized.trans h.initialized
  frames_pos := by
    rw [hlay.frameCount]
    exact h.frames_pos
  bytes_eq := by
    rw [hlay.bitmapBytes, hlay.frameCount]
    exact h.bytes_eq
  zero_used := hzero

/-- The check for initialisation passes. -/
theorem PmmInv.not_uninit {s : PmmState} (h : PmmInv s) :
    ¬ (!s.initialized) = true := by
  rw [h.initialized]
  exact Bool.false_ne_true

/-- The frame number of an address below the limit is below the frame count. -/
theorem PmmInv.frame_lt {s : PmmState} (h : PmmInv s) {a : U64} (ha : a < s.maxPhys) :
    a.toNat / 4096 < s.frameCount.toNat := by
  have hmax := h.frames
  bv_omega

/-! ## One spec lemma per call -/

/-- `k` is the smallest free frame. -/
def IsLeastFree (s : PmmState) (k : Nat) : Prop :=
  k < s.frameCount.toNat ∧ Clear s k ∧ ∀ n, n < k → ¬ Clear s n

/-- Taking the smallest free frame keeps the invariant, with the hint moved
    right behind it. -/
theorem takeFrame_spec {s : PmmState} (h : PmmInv s) {k : U64}
    (hk : IsLeastFree s k.toNat) :
    (takeFrame s k).1.toNat = 4096 * k.toNat ∧
    PmmInv (takeFrame s k).2 ∧ SameLayout s (takeFrame s k).2 ∧
    ∀ n, n < s.frameCount.toNat →
      (Clear (takeFrame s k).2 n ↔ Clear s n ∧ n ≠ k.toNat) := by
  have hmax := h.frames
  obtain ⟨hlt, hclr, hmin⟩ := hk
  have hcore := markFrameUsed_core h.toPmmCore k
  have hlay := markFrameUsed_layout s k
  have hclear := fun n hn => markFrameUsed_clear s k (n := n) hn
  refine ⟨?_, ?_, ⟨hlay.bitmapBytes, hlay.maxPhys, hlay.frameCount, hlay.initialized⟩, hclear⟩
  · show (k * PMM_PAGE_SIZE).toNat = 4096 * k.toNat
    rw [PMM_PAGE_SIZE]
    rw [BitVec.toNat_mul]
    show k.toNat * 4096 % 2 ^ 64 = _
    rw [Nat.mod_eq_of_lt (by omega), Nat.mul_comm]
  · -- the frame is below the count, so the next hint does not wrap
    have hk1 : (k + 1).toNat = k.toNat + 1 := by bv_omega
    refine h.of_layout ⟨hcore.frames, hcore.free_eq, hcore.sum_eq, ?_, ?_⟩
      ⟨hlay.bitmapBytes, hlay.maxPhys, hlay.frameCount, hlay.initialized⟩ ?_
    · show k + 1 ≤ (markFrameUsed s k).frameCount
      rw [hlay.frameCount]
      bv_omega
    · intro n hn hc
      have hn' : n < k.toNat + 1 := by
        rw [← hk1]
        exact hn
      have hold := (hclear n (by omega)).mp hc
      exact hmin n (by omega) hold.1
    · intro hc
      exact h.zero_used ((hclear 0 h.frames_pos).mp hc).1

/-- A scan that rules out a stretch of the bitmap leaves no free frame in it. -/
theorem not_clear_of_scan {s : PmmState} {start stop : U64} {n : Nat}
    (h : ∀ j, start ≤ j → j < stop → (!bitmapTest s.bitmap j) = false)
    (hlo : start.toNat ≤ n) (hhi : n < stop.toNat) : ¬ Clear s n := by
  intro hc
  have hval : (BitVec.ofNat 64 n).toNat = n := by
    rw [BitVec.toNat_ofNat, Nat.mod_eq_of_lt (by omega)]
  have hbit := h (BitVec.ofNat 64 n) (by rw [BitVec.le_def, hval]; exact hlo)
    (by rw [BitVec.lt_def, hval]; exact hhi)
  rw [show bitmapTest s.bitmap (BitVec.ofNat 64 n) = false from hc] at hbit
  cases hbit

/-- Everything free is at or above the hint, so the scan from the hint finds
    the smallest free frame when there is a free frame at all. -/
theorem hintScan_spec {s : PmmState} (h : PmmInv s) {n : Nat}
    (hn : n < s.frameCount.toNat) (hc : Clear s n) :
    ∃ k, findUpTo s.nextHint s.frameCount (fun f => !bitmapTest s.bitmap f) = some k ∧
      IsLeastFree s k.toNat := by
  cases hf : findUpTo s.nextHint s.frameCount (fun f => !bitmapTest s.bitmap f) with
  | none =>
      have hge : ¬ n < s.nextHint.toNat := fun hlt => h.hint_used n hlt hc
      exact absurd hc (not_clear_of_scan (findUpTo_none hf) (by omega) hn)
  | some k =>
      obtain ⟨h1, h2, h3, h4⟩ := findUpTo_some hf
      refine ⟨k, rfl, by bv_omega, ?_, ?_⟩
      · rw [clear_toNat]
        simpa using h3
      · intro m hm
        by_cases hlow : m < s.nextHint.toNat
        · exact h.hint_used m hlow
        · exact not_clear_of_scan h4 (by omega) hm

/-- `pmm_alloc_frame` takes the smallest free frame, and refuses exactly when
    there is none; its second scan never runs to a hit. -/
theorem pmmAllocFrame_spec {s : PmmState} (h : PmmInv s) :
    ((∀ n, n < s.frameCount.toNat → ¬ Clear s n) ∧
      pmmAllocFrame s = (PMM_INVALID_FRAME, s)) ∨
    (∃ k : U64, IsLeastFree s k.toNat ∧ pmmAllocFrame s = takeFrame s k) := by
  by_cases hnone : ∀ n, n < s.frameCount.toNat → ¬ Clear s n
  · refine Or.inl ⟨hnone, ?_⟩
    have hzero : s.freeFrames = 0 := by
      by_contra hne
      obtain ⟨n, hn, hc⟩ := h.clear_of_pos (by bv_omega)
      exact hnone n hn hc
    rw [pmmAllocFrame]
    rw [if_pos (by simp [hzero])]
  · refine Or.inr ?_
    have hex : ∃ n, n < s.frameCount.toNat ∧ Clear s n := by
      by_contra hno
      exact hnone (fun n hn hc => hno ⟨n, hn, hc⟩)
    obtain ⟨n, hn, hc⟩ := hex
    have hfree := h.free_pos hn hc
    have hguard : ¬ (!s.initialized || decide (s.freeFrames = 0)) = true := by
      have hne : s.freeFrames ≠ 0 := by bv_omega
      rw [h.initialized, decide_eq_false hne]
      exact Bool.false_ne_true
    -- a free frame exists, so the scan from the hint finds one
    obtain ⟨k, hscan, hk⟩ := hintScan_spec h hn hc
    refine ⟨k, hk, ?_⟩
    rw [pmmAllocFrame, if_neg hguard, hscan]

/-- The frame of an address is clear when its bit is. -/
theorem clear_page_iff (s : PmmState) (a : U64) :
    Clear s (a.toNat / 4096) ↔ bitmapTest s.bitmap (a / PMM_PAGE_SIZE) = false := by
  rw [← clear_toNat, page_div_toNat]

/-- The addresses `pmm_free_frame` accepts. -/
def Freeable (s : PmmState) (a : U64) : Prop :=
  a.toNat % 4096 = 0 ∧ a ≠ 0 ∧ a < s.maxPhys ∧ ¬ Clear s (a.toNat / 4096)

/-- `pmm_free_frame` adds the frame of an acceptable address, and refuses every
    other address without a change. -/
theorem pmmFreeFrame_spec {s : PmmState} (h : PmmInv s) (a : U64) :
    (Freeable s a ∧ (pmmFreeFrame s a).1 = true ∧ PmmInv (pmmFreeFrame s a).2 ∧
      SameLayout s (pmmFreeFrame s a).2 ∧
      ∀ n, n < s.frameCount.toNat →
        (Clear (pmmFreeFrame s a).2 n ↔ Clear s n ∨ n = a.toNat / 4096)) ∨
    (¬ Freeable s a ∧ pmmFreeFrame s a = (false, s)) := by
  have hmaxlt := s.maxPhys.isLt
  have htest := clear_page_iff s a
  rw [pmmFreeFrame]
  rw [if_neg h.not_uninit]
  by_cases hbad : (a &&& (PMM_PAGE_SIZE - 1)) ≠ 0 ∨ a = 0 ∨ a ≥ s.maxPhys
  · refine Or.inr ⟨?_, if_pos hbad⟩
    rintro ⟨h1, h2, h3, -⟩
    rcases hbad with hal | h0 | hge
    · exact hal ((page_aligned_iff a).mpr h1)
    · exact h2 h0
    · bv_omega
  · rw [if_neg hbad]
    rw [not_or, not_or, not_not, page_aligned_iff] at hbad
    obtain ⟨hal, hne, hlt⟩ := hbad
    have hlt' : a < s.maxPhys := by bv_omega
    by_cases hc : Clear s (a.toNat / 4096)
    · refine Or.inr ⟨fun hf => hf.2.2.2 hc, ?_⟩
      rw [htest.mp hc]
      rfl
    · refine Or.inl ⟨⟨hal, hne, hlt', hc⟩, ?_⟩
      have hset : bitmapTest s.bitmap (a / PMM_PAGE_SIZE) = true := by
        by_contra hf
        exact hc (htest.mpr (Bool.eq_false_iff.mpr hf))
      rw [hset]
      have hcore := markFrameFree_core h.toPmmCore (a / PMM_PAGE_SIZE)
      have hlay := markFrameFree_layout s (a / PMM_PAGE_SIZE)
      have hclear := fun n hn => markFrameFree_clear s (a / PMM_PAGE_SIZE) (n := n) hn
      rw [page_div_toNat] at hclear
      refine ⟨rfl, h.of_layout hcore hlay ?_, hlay, hclear⟩
      -- frame 0 would need the address 0, which is refused
      intro h0
      rcases (hclear 0 h.frames_pos).mp h0 with hold | hz
      · exact h.zero_used hold
      · have hpos : a.toNat ≠ 0 := by bv_omega
        omega

/-- `pmm_reserve_range` removes the frames of its range. -/
theorem pmmReserveRange_spec {s : PmmState} (h : PmmInv s) (base length : U64) :
    (pmmReserveRange s base length).1 = decide (length ≠ 0) ∧
    PmmInv (pmmReserveRange s base length).2 ∧
    SameLayout s (pmmReserveRange s base length).2 ∧
    ∀ n, n < s.frameCount.toNat →
      (Clear (pmmReserveRange s base length).2 n ↔
        Clear s n ∧ ¬ ReservesFrame base length n) := by
  rw [pmmReserveRange]
  by_cases hlen : length = 0
  · rw [if_pos (by simp [hlen])]
    refine ⟨by simp [hlen], h, SameLayout.refl s, ?_⟩
    intro n _
    exact ⟨fun hc => ⟨hc, fun hr => hr.1 hlen⟩, fun hc => hc.1⟩
  · have hguard : ¬ (!s.initialized || decide (length = 0)) = true := by
      rw [h.initialized, decide_eq_false hlen]
      exact Bool.false_ne_true
    rw [if_neg hguard]
    obtain ⟨hcore, hlay, hclear⟩ := markRangeUsed_spec h.toPmmCore base length
    refine ⟨(decide_eq_true hlen).symm, h.of_layout hcore hlay ?_, hlay, hclear⟩
    intro h0
    exact h.zero_used ((hclear 0 h.frames_pos).mp h0).1

/-! ## Every reachable state -/

/-- Allocating keeps the invariant and the layout. -/
theorem pmmAllocFrame_inv {s : PmmState} (h : PmmInv s) :
    PmmInv (pmmAllocFrame s).2 ∧ SameLayout s (pmmAllocFrame s).2 := by
  rcases pmmAllocFrame_spec h with ⟨-, heq⟩ | ⟨k, hk, heq⟩
  · rw [heq]
    exact ⟨h, SameLayout.refl s⟩
  · obtain ⟨-, hinv, hlay, -⟩ := takeFrame_spec h hk
    rw [heq]
    exact ⟨hinv, hlay⟩

/-- Every call keeps the invariant and the layout. -/
theorem pmmStep_inv {s : PmmState} (h : PmmInv s) (op : PmmOp) :
    PmmInv (pmmStep s op).2 ∧ SameLayout s (pmmStep s op).2 := by
  cases op with
  | allocFrame => exact pmmAllocFrame_inv h
  | freeFrame a =>
      show PmmInv (pmmFreeFrame s a).2 ∧ SameLayout s (pmmFreeFrame s a).2
      rcases pmmFreeFrame_spec h a with ⟨-, -, hinv, hlay, -⟩ | ⟨-, heq⟩
      · exact ⟨hinv, hlay⟩
      · rw [heq]
        exact ⟨h, SameLayout.refl s⟩
  | reserveRange b l =>
      obtain ⟨-, hinv, hlay, -⟩ := pmmReserveRange_spec h b l
      exact ⟨hinv, hlay⟩
  | isFrameFree a => exact ⟨h, SameLayout.refl s⟩
  | freeCount => exact ⟨h, SameLayout.refl s⟩
  | usedCount => exact ⟨h, SameLayout.refl s⟩
  | frameCount => exact ⟨h, SameLayout.refl s⟩

/-- Every run keeps the invariant. -/
theorem exec_pmmInv {s : PmmState} (h : PmmInv s) (ops : List PmmOp) :
    PmmInv (Machine.exec pmmStep s ops) :=
  Machine.exec_inv pmmStep (I := PmmInv) (fun _ op hs => (pmmStep_inv hs op).1) ops s h

/-- Every run keeps the layout. -/
theorem exec_layout {s : PmmState} (h : PmmInv s) (ops : List PmmOp) :
    SameLayout s (Machine.exec pmmStep s ops) := by
  have hboth := Machine.exec_inv pmmStep (I := fun t => PmmInv t ∧ SameLayout s t)
    (fun t op ht => ⟨(pmmStep_inv ht.1 op).1, ht.2.trans (pmmStep_inv ht.1 op).2⟩)
    ops s ⟨h, SameLayout.refl s⟩
  exact hboth.2

/-- Every reachable allocator satisfies the invariant. -/
theorem PmmReachable.inv {s : PmmState} (h : PmmReachable s) : PmmInv s := by
  obtain ⟨garbage, s₀, regions, storage, storageBytes, maxPhysBytes, ops, hinit, hs⟩ := h
  rw [hs]
  exact exec_pmmInv (pmmInv_init hinit) ops

/-- **REPRESENTATION INVARIANT**: in every reachable state the two counters
    count the bitmap (so no guarded decrement is ever skipped by its guard),
    the hint is in range with nothing free below it, and frame 0 is used. -/
theorem pmm_reachable_invariant {s : PmmState} (h : PmmReachable s) :
    s.freeFrames.toNat = Nat.count (Clear s) s.frameCount.toNat ∧
    s.freeFrames.toNat + s.usedFrames.toNat = s.frameCount.toNat ∧
    (∀ n, n < s.frameCount.toNat →
      (¬ Clear s n → s.usedFrames > 0) ∧ (Clear s n → s.freeFrames > 0)) ∧
    s.nextHint ≤ s.frameCount ∧
    (∀ n, n < s.nextHint.toNat → ¬ Clear s n) ∧
    ¬ Clear s 0 := by
  have hinv := PmmReachable.inv h
  refine ⟨hinv.free_eq, hinv.sum_eq, ?_, hinv.hint_le, hinv.hint_used, hinv.zero_used⟩
  intro n hn
  constructor
  · intro hu
    have := hinv.used_pos hn hu
    bv_omega
  · intro hc
    have := hinv.free_pos hn hc
    bv_omega

/-! ## A small machine to evaluate on -/

/-- Four frames of usable memory, the last one cut off by a reserved region. -/
def smallBoot : Option PmmState :=
  pmmInitFromMap ⟨fun _ => 0, 0, 0, 0, 0, 0, 0, 0, 0, false⟩
    [⟨0, 0x4000, 1⟩, ⟨0x3800, 0x100, 2⟩] (fun _ => 0) 1 0x4000

/-- The allocator after that boot. -/
def smallState : PmmState := smallBoot.get (by decide)

/-- The small allocator is reachable, and so is what a run makes of it. -/
theorem smallState_reachable (ops : List PmmOp) :
    PmmReachable (Machine.exec pmmStep smallState ops) :=
  ⟨_, smallState, _, _, _, _, ops, (Option.some_get (x := smallBoot) (by decide)).symm, rfl⟩

/-- Two frames are free at first, and one after an allocation. -/
theorem pmm_reachable_invariant_small :
    (Machine.exec pmmStep smallState [.allocFrame]).freeFrames = 1 ∧
    Nat.count (Clear (Machine.exec pmmStep smallState [.allocFrame])) 4 = 1 :=
  have h := pmm_reachable_invariant (smallState_reachable [.allocFrame])
  have hfree : (Machine.exec pmmStep smallState [.allocFrame]).freeFrames = 1 := by decide
  have hcount : (Machine.exec pmmStep smallState [.allocFrame]).frameCount = 4 := by decide
  ⟨hfree, by
    have h1 := h.1
    rw [hfree, hcount] at h1
    exact h1.symm⟩

end PmmInvariant
