import Mcsos.PmmFrameSetProofs

/-! # Histories of the physical memory manager

    A used frame becomes free again in one way only: a `pmm_free_frame` of its
    own address that returns true (`freed_between`).  So no address is handed
    out twice without having been freed in between, and memory that the boot
    map or a reservation closed stays closed until somebody frees it by
    address.  The single used bit does not record why a frame is used, so
    `pmm_free_frame` opens reserved frames as readily as allocated ones. -/

namespace PmmHistory

open Word Loop PmmModel PmmFrame PmmRange PmmInvariant PmmFrameSet

/-- `pmm_free_frame(a)` succeeds somewhere along `ops`, run from `s`. -/
def FreedDuring (s : PmmState) (ops : List PmmOp) (a : U64) : Prop :=
  ∃ before after, ops = before ++ PmmOp.freeFrame a :: after ∧
    (pmmFreeFrame (Machine.exec pmmStep s before) a).1 = true

/-- The only call that frees frame `n` is a `pmm_free_frame` of its address. -/
theorem step_frees {s : PmmState} (h : PmmInv s) {op : PmmOp} {n : Nat}
    (hn : n < s.frameCount.toNat) (h0 : ¬ Clear s n) (h1 : Clear (pmmStep s op).2 n) :
    op = PmmOp.freeFrame (BitVec.ofNat 64 (4096 * n)) ∧
    (pmmFreeFrame s (BitVec.ofNat 64 (4096 * n))).1 = true := by
  cases op with
  | allocFrame =>
      have h1' : Clear (pmmAllocFrame s).2 n := h1
      rcases pmmAllocFrame_spec h with ⟨-, heq⟩ | ⟨k, hk, heq⟩
      · rw [heq] at h1'
        exact absurd h1' h0
      · obtain ⟨-, -, -, hclear⟩ := takeFrame_spec h hk
        rw [heq] at h1'
        exact absurd ((hclear n hn).mp h1').1 h0
  | freeFrame a =>
      have h1' : Clear (pmmFreeFrame s a).2 n := h1
      rcases pmmFreeFrame_spec h a with ⟨hok, hret, -, -, hclear⟩ | ⟨-, heq⟩
      · -- the only frame whose bit is cleared is the one that is freed
        have hna := ((hclear n hn).mp h1').resolve_left h0
        have ha : a = BitVec.ofNat 64 (4096 * n) := by
          have hal := hok.1
          apply BitVec.eq_of_toNat_eq
          rw [BitVec.toNat_ofNat, Nat.mod_eq_of_lt (by omega)]
          omega
        rw [← ha]
        exact ⟨rfl, hret⟩
      · rw [heq] at h1'
        exact absurd h1' h0
  | reserveRange b l =>
      obtain ⟨-, -, -, hclear⟩ := pmmReserveRange_spec h b l
      exact absurd ((hclear n hn).mp h1).1 h0
  | isFrameFree a => exact absurd h1 h0
  | freeCount => exact absurd h1 h0
  | usedCount => exact absurd h1 h0
  | frameCount => exact absurd h1 h0

/-- **FREED IN BETWEEN**: a frame that is used now and free after a run was
    freed by address during the run. -/
theorem freed_between {s : PmmState} (h : PmmInv s) {ops : List PmmOp} {n : Nat}
    (hn : n < s.frameCount.toNat) (h0 : ¬ Clear s n)
    (h1 : Clear (Machine.exec pmmStep s ops) n) :
    FreedDuring s ops (BitVec.ofNat 64 (4096 * n)) := by
  obtain ⟨before, op, after, hsplit, hb, ha⟩ :=
    Machine.exec_flip pmmStep (P := fun t => Clear t n) ops s h0 h1
  have hlay := exec_layout h before
  obtain ⟨hop, hret⟩ := step_frees (exec_pmmInv h before)
    (by rw [hlay.frameCount]; exact hn) hb ha
  refine ⟨before, after, ?_, hret⟩
  rw [hsplit, hop]

/-- The frame an allocation hands out: free before, used after, and its
    address names it. -/
theorem alloc_frame_of_ne {s : PmmState} (h : PmmInv s) {a : U64}
    (ha : (pmmAllocFrame s).1 = a) (hne : a ≠ PMM_INVALID_FRAME) :
    ∃ k, IsLeastFree s k ∧ a = BitVec.ofNat 64 (4096 * k) ∧
      a.toNat / 4096 = k ∧ ¬ Clear (pmmAllocFrame s).2 k := by
  rcases pmmAllocFrame_spec h with ⟨-, heq⟩ | ⟨k, hk, heq⟩
  · rw [heq] at ha
    exact absurd ha.symm hne
  · obtain ⟨hval, -, -, hclear⟩ := takeFrame_spec h hk
    rw [heq] at ha ⊢
    rw [ha] at hval
    refine ⟨k.toNat, hk, ?_, by omega, ?_⟩
    · rw [← hval, BitVec.ofNat_toNat, BitVec.setWidth_eq]
    · intro hc
      exact ((hclear k.toNat hk.1).mp hc).2 rfl

/-! ## Take the minimum -/

/-- There is only one lowest free frame. -/
theorem leastFree_unique {s : PmmState} {j k : Nat} (hj : IsLeastFree s j)
    (hk : IsLeastFree s k) : j = k := by
  apply Nat.le_antisymm
  · exact Nat.le_of_not_lt (fun hlt => hj.2.2 k hlt hk.2.1)
  · exact Nat.le_of_not_lt (fun hlt => hk.2.2 j hlt hj.2.1)

/-- The scan of `pmm_alloc_frame` that starts over at 0 finds nothing: every
    frame below the hint is used. -/
theorem wrapScan_eq_none {s : PmmState} (h : PmmInv s) :
    findUpTo 0 s.nextHint (fun f => !bitmapTest s.bitmap f) = none := by
  refine findUpTo_eq_none (fun j _ hj => ?_)
  have hused := h.hint_used j.toNat (by bv_omega)
  rw [clear_toNat] at hused
  simpa using hused

/-- `pmm_alloc_frame` against the free set: refusal exactly when it is empty,
    its least element otherwise. -/
theorem allocFrame_takes_least {s : PmmState} (h : PmmInv s) :
    ((pmmAllocFrame s).1 = PMM_INVALID_FRAME ↔
      ∀ n, n < s.frameCount.toNat → ¬ Clear s n) ∧
    ((pmmAllocFrame s).1 = PMM_INVALID_FRAME → (pmmAllocFrame s).2 = s) ∧
    (∀ k, IsLeastFree s k →
      (pmmAllocFrame s).1.toNat = 4096 * k ∧
      ∀ n, n < s.frameCount.toNat →
        (Clear (pmmAllocFrame s).2 n ↔ Clear s n ∧ n ≠ k)) := by
  rcases pmmAllocFrame_spec h with ⟨hnone, heq⟩ | ⟨k, hk, heq⟩
  · rw [heq]
    refine ⟨⟨fun _ => hnone, fun _ => rfl⟩, fun _ => rfl, ?_⟩
    intro k hk
    exact absurd hk.2.1 (hnone k hk.1)
  · obtain ⟨hval, -, -, hclear⟩ := takeFrame_spec h hk
    -- a frame address is a multiple of 4096, the refusal code is not
    have hvalid : (takeFrame s k).1 ≠ PMM_INVALID_FRAME := by
      intro hbad
      rw [hbad] at hval
      have hval' : 18446744073709551615 = 4096 * k.toNat := hval
      omega
    rw [heq]
    refine ⟨⟨fun hbad => absurd hbad hvalid, fun hnone => ?_⟩,
      fun hbad => absurd hbad hvalid, ?_⟩
    · exact absurd hk.2.1 (hnone _ hk.1)
    · intro m hm
      rw [← leastFree_unique hk hm]
      exact ⟨hval, hclear⟩

/-- `pmm_free_frame` against the free set: it adds the frame it names, or
    refuses and leaves the state alone. -/
theorem freeFrame_adds {s : PmmState} (h : PmmInv s) (p : U64) :
    ((pmmFreeFrame s p).1 = true ↔ Freeable s p) ∧
    ((pmmFreeFrame s p).1 = true → ∀ n, n < s.frameCount.toNat →
      (Clear (pmmFreeFrame s p).2 n ↔ Clear s n ∨ n = p.toNat / 4096)) ∧
    ((pmmFreeFrame s p).1 = false → (pmmFreeFrame s p).2 = s) := by
  rcases pmmFreeFrame_spec h p with ⟨hok, hret, -, -, hclear⟩ | ⟨hno, heq⟩
  · refine ⟨⟨fun _ => hok, fun _ => hret⟩, fun _ => hclear, fun hf => ?_⟩
    rw [hret] at hf
    cases hf
  · rw [heq]
    exact ⟨⟨fun hf => absurd hf Bool.false_ne_true, fun hf => absurd hf hno⟩,
      fun hf => absurd hf Bool.false_ne_true, fun _ => rfl⟩

/-- An address that two allocations return was freed between them. -/
theorem realloc_freed {s : PmmState} (h : PmmInv s) {mid : List PmmOp} {a : U64}
    (hne : a ≠ PMM_INVALID_FRAME) (hfst : (pmmAllocFrame s).1 = a)
    (hsnd : (pmmAllocFrame (Machine.exec pmmStep (pmmAllocFrame s).2 mid)).1 = a) :
    FreedDuring (pmmAllocFrame s).2 mid a := by
  obtain ⟨hinv, hlay⟩ := pmmAllocFrame_inv h
  obtain ⟨k, hk, ha, hak, hused⟩ := alloc_frame_of_ne h hfst hne
  obtain ⟨k', hk', -, hak', -⟩ := alloc_frame_of_ne (exec_pmmInv hinv mid) hsnd hne
  have hkk : k' = k := hak'.symm.trans hak
  rw [hkk] at hk'
  rw [ha]
  exact freed_between hinv (by rw [hlay.frameCount]; exact hk.1) hused hk'.2.1

/-- **REFINEMENT OF THE FREE SET**: allocation takes the least free frame and
    refuses exactly when there is none (the wrap-around scan never hits);
    freeing accepts exactly the used, aligned, non-zero addresses below the
    limit; every run is answered as by the set of free frames.  Hence an
    address is not handed out twice without a successful free in between, and
    states with the same limit and bitmap cannot be told apart. -/
theorem pmm_refines_frame_set :
    (∀ s, PmmReachable s →
      ((pmmAllocFrame s).1 = PMM_INVALID_FRAME ↔
        ∀ n, n < s.frameCount.toNat → ¬ Clear s n) ∧
      ((pmmAllocFrame s).1 = PMM_INVALID_FRAME → (pmmAllocFrame s).2 = s) ∧
      (∀ k, IsLeastFree s k →
        (pmmAllocFrame s).1.toNat = 4096 * k ∧
        ∀ n, n < s.frameCount.toNat →
          (Clear (pmmAllocFrame s).2 n ↔ Clear s n ∧ n ≠ k)) ∧
      findUpTo 0 s.nextHint (fun f => !bitmapTest s.bitmap f) = none ∧
      (∀ p, ((pmmFreeFrame s p).1 = true ↔ Freeable s p) ∧
        ((pmmFreeFrame s p).1 = true → ∀ n, n < s.frameCount.toNat →
          (Clear (pmmFreeFrame s p).2 n ↔ Clear s n ∨ n = p.toNat / 4096)) ∧
        ((pmmFreeFrame s p).1 = false → (pmmFreeFrame s p).2 = s)) ∧
      ∀ ops, Machine.outputs pmmStep s ops
        = Machine.outputs frameSetStep (frameSet s) ops) ∧
    (∀ s, PmmReachable s → ∀ mid a, a ≠ PMM_INVALID_FRAME →
      (pmmAllocFrame s).1 = a →
      (pmmAllocFrame (Machine.exec pmmStep (pmmAllocFrame s).2 mid)).1 = a →
      FreedDuring (pmmAllocFrame s).2 mid a) ∧
    (∀ s t, PmmReachable s → PmmReachable t → s.maxPhys = t.maxPhys →
      (∀ i, i < s.bitmapBytes → s.bitmap i = t.bitmap i) →
      ∀ ops, Machine.outputs pmmStep s ops = Machine.outputs pmmStep t ops) := by
  refine ⟨?_, ?_, ?_⟩
  · intro s hs
    have h := PmmReachable.inv hs
    obtain ⟨hrefuse, hkeep, hleast⟩ := allocFrame_takes_least h
    exact ⟨hrefuse, hkeep, hleast, wrapScan_eq_none h, freeFrame_adds h, outputs_refine h⟩
  · intro s hs mid a hne hfst hsnd
    exact realloc_freed (PmmReachable.inv hs) hne hfst hsnd
  · intro s t hs ht hmax hbits ops
    have h := PmmReachable.inv hs
    have h' := PmmReachable.inv ht
    rw [outputs_refine h, outputs_refine h', frameSet_congr h h' hmax hbits]

/-- On the small machine the two free frames come out in order, and the second
    one comes back first once it has been freed. -/
theorem pmm_refines_frame_set_small :
    Machine.outputs pmmStep smallState
        [.allocFrame, .allocFrame, .freeFrame 0x2000, .allocFrame]
      = [.word 0x1000, .word 0x2000, .bool true, .word 0x2000] ∧
    FreedDuring (pmmAllocFrame (Machine.exec pmmStep smallState [.allocFrame])).2
      [.freeFrame 0x2000] 0x2000 :=
  ⟨by decide, pmm_refines_frame_set.2.1 _ (smallState_reachable [.allocFrame])
    [.freeFrame 0x2000] 0x2000 (by decide) (by decide) (by decide)⟩

/-! ## Reserved memory -/

/-- A mistaken `pmm_free_frame` of a frame that the boot map reserved, or that
    a reservation closed, puts it back into circulation. -/
theorem reserved_frame_handed_out :
    ¬ ((∀ ops a, (pmmAllocFrame (Machine.exec pmmStep smallState ops)).1 = a →
          a ≠ PMM_INVALID_FRAME → Clear smallState (a.toNat / 4096)) ∧
        (∀ before base length after a,
          (pmmAllocFrame (Machine.exec pmmStep smallState
            (before ++ .reserveRange base length :: after))).1 = a →
          a ≠ PMM_INVALID_FRAME → ¬ ReservesFrame base length (a.toNat / 4096))) := by
  intro h
  have hbad := h.1 [.freeFrame 0x3000, .allocFrame, .allocFrame] 0x3000
    (by decide) (by decide)
  exact absurd hbad (by decide)

/-- **RESERVED UNTIL FREED**: along every run from a successful init, an
    allocation returns a frame that was free right after init or that
    `pmm_free_frame` has freed by address since; and if a reservation had left
    the frame used, `pmm_free_frame` freed it between that reservation and the
    allocation. -/
theorem pmm_reserved_until_freed {garbage s₀ : PmmState} {regions : List BootMemRegion}
    {storage : Bitmap} {storageBytes maxPhysBytes : U64}
    (hinit : pmmInitFromMap garbage regions storage storageBytes maxPhysBytes = some s₀)
    (ops : List PmmOp) (a : U64)
    (ha : (pmmAllocFrame (Machine.exec pmmStep s₀ ops)).1 = a)
    (hne : a ≠ PMM_INVALID_FRAME) :
    (Clear s₀ (a.toNat / 4096) ∨ FreedDuring s₀ ops a) ∧
    ∀ before base length after, ops = before ++ .reserveRange base length :: after →
      ¬ Clear (pmmReserveRange (Machine.exec pmmStep s₀ before) base length).2
        (a.toNat / 4096) →
      FreedDuring (pmmReserveRange (Machine.exec pmmStep s₀ before) base length).2
        after a := by
  have h := pmmInv_init hinit
  obtain ⟨k, hk, hak, hdiv, -⟩ := alloc_frame_of_ne (exec_pmmInv h ops) ha hne
  have hlt := hk.1
  rw [(exec_layout h ops).frameCount] at hlt
  rw [hdiv, hak]
  constructor
  · by_cases hc : Clear s₀ k
    · exact Or.inl hc
    · exact Or.inr (freed_between h hlt hc hk.2.1)
  · intro before base length after hsplit hused
    have hb := exec_pmmInv h before
    obtain ⟨-, hinv, hlay, -⟩ := pmmReserveRange_spec hb base length
    refine freed_between hinv ?_ hused ?_
    · rw [hlay.frameCount, (exec_layout h before).frameCount]
      exact hlt
    · have hend := hk.2.1
      -- the run after the reservation ends in the same state
      rw [hsplit, Machine.exec_append] at hend
      exact hend

/-- Frame 3 is reserved at boot, freed, and allocated as the second one after that. -/
theorem pmm_reserved_until_freed_small :
    ¬ Clear smallState 3 ∧
    (pmmAllocFrame (Machine.exec pmmStep smallState
      [.freeFrame 0x3000, .allocFrame, .allocFrame])).1 = 0x3000 ∧
    FreedDuring smallState [.freeFrame 0x3000, .allocFrame, .allocFrame] 0x3000 :=
  have hused : ¬ Clear smallState 3 := by decide
  have hout : (pmmAllocFrame (Machine.exec pmmStep smallState
      [.freeFrame 0x3000, .allocFrame, .allocFrame])).1 = 0x3000 := by decide
  ⟨hused, hout,
    (pmm_reserved_until_freed (Option.some_get (x := smallBoot) (by decide)).symm
      [.freeFrame 0x3000, .allocFrame, .allocFrame] 0x3000 hout
      (by decide)).1.resolve_left hused⟩

end PmmHistory
