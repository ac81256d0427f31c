import Mcsos.ElfPlanProofs

/-! # What a rejected image leaves in the plan

    `m11_elf64_plan_load` clears the plan before it looks at the image, writes
    the entry once the header has passed, and then a segment per loadable
    program header.  The two exits of the loop clear the plan again.  The exit
    behind it, for an image without a loadable header, does not: what it leaves
    has no segments, but it has the entry. -/

namespace ElfReject

open Word ElfModel ElfFormat ElfPlan

variable {image : Nat → U8} {imageSize : U64} {region : UserRegion} {plan outPlan : Plan}

/-- An entirely zero plan. -/
structure IsZero (plan : Plan) : Prop where
  entry : plan.entry = 0
  segmentCount : plan.segmentCount = 0
  segments : ∀ i, i < M11_MAX_LOAD_SEGMENTS → plan.segments i = ⟨0, 0, 0, 0, 0, 0⟩

/-- An image with nothing to load: all that is asked of a header holds, and it
    names a place to start at, but no program header is loadable. -/
structure NothingToLoad (image : Nat → U8) (imageSize : U64) (region : UserRegion) : Prop where
  size : 64 ≤ imageSize.toNat
  header : WellFormedHeader (ehdr image)
  table : (ehdr image).ePhentsize = 56 ∧ 0 < (ehdr image).ePhnum.toNat ∧
    (ehdr image).ePhoff.toNat + 56 * (ehdr image).ePhnum.toNat ≤ imageSize.toNat
  entry : InRegion region (ehdr image).eEntry.toNat 1
  noLoads : loads image = []
  start : (ehdr image).eEntry ≠ 0

/-- A cleared plan is zero. -/
theorem isZero_zeroPlan (plan : Plan) : IsZero (zeroPlan plan) :=
  ⟨rfl, rfl, fun _ hi => if_pos hi⟩

/-- **THE LOOP CLEARS UP**: whichever header is refused, nothing of the ones
    before it stays. -/
theorem planHeaders_refused (hs : List Phdr) (plan : Plan)
    (hno : (planHeaders imageSize region hs plan).1 ≠ .ok ()) :
    IsZero (planHeaders imageSize region hs plan).2 := by
  induction hs generalizing plan with
  | nil => exact absurd rfl hno
  | cons ph hs ih =>
      cases hload : isLoad ph with
      | false =>
          rw [planHeaders, planHeader_skip hload] at hno ⊢
          exact ih plan hno
      | true =>
          rw [planHeaders, planHeader_load hload] at hno ⊢
          by_cases hfull : 8 ≤ plan.segmentCount.toNat
          · rw [if_pos hfull]
            exact isZero_zeroPlan plan
          rw [if_neg hfull] at hno ⊢
          -- the plan is cleared where a segment is refused
          cases hseg : validateLoadSegment ph imageSize region with
          | error e => exact isZero_zeroPlan plan
          | ok u =>
              rw [hseg] at hno
              exact ih (addSegment plan ph) hno

/-- Without a loadable header the loop does nothing. -/
theorem planHeaders_noLoads (hs : List Phdr) (plan : Plan) (hnone : hs.filter isLoad = []) :
    planHeaders imageSize region hs plan = (.ok (), plan) := by
  induction hs with
  | nil => rfl
  | cons ph hs ih =>
      cases hload : isLoad ph with
      | false =>
          rw [List.filter_cons_of_neg (by simp [hload])] at hnone
          rw [planHeaders, planHeader_skip hload]
          exact ih hnone
      | true =>
          rw [List.filter_cons_of_pos hload] at hnone
          cases hnone

/-- A loop that passes and leaves no segment has found no loadable header. -/
theorem noLoads_of_count {hs : List Phdr} (hok : (planHeaders imageSize region hs plan).1 = .ok ())
    (hcount : (planHeaders imageSize region hs plan).2.segmentCount = 0) :
    hs.filter isLoad = [] := by
  have hlen := congrArg List.length (planHeaders_plan hs plan hok).2
  rw [planned_length, hcount, List.length_append, List.length_map] at hlen
  have hzero : (0 : U32).toNat = 0 := rfl
  exact List.eq_nil_of_length_eq_zero (by omega)

/-- **BEHIND THE LOOP**: a refusal leaves the plan clear, unless nothing was to
    load and the entry is there. -/
theorem finishPlan_refused (hs : List Phdr) (plan : Plan) (hplan : plan.segmentCount = 0)
    (hsegments : ∀ i, i < M11_MAX_LOAD_SEGMENTS → plan.segments i = ⟨0, 0, 0, 0, 0, 0⟩) :
    ((finishPlan (planHeaders imageSize region hs plan)).1 ≠ .ok () →
      IsZero (finishPlan (planHeaders imageSize region hs plan)).2) ↔
    ¬ (hs.filter isLoad = [] ∧ plan.entry ≠ 0) := by
  rw [finishPlan_snd]
  constructor
  · rintro h ⟨hnone, hentry⟩
    rw [planHeaders_noLoads hs plan hnone] at h
    rw [finishPlan, if_pos hplan] at h
    exact hentry (h (fun hok => by cases hok)).entry
  · intro hsome hno
    by_cases hok : (planHeaders imageSize region hs plan).1 = .ok ()
    · -- only the count can have failed, so nothing was planned
      have hcount : (planHeaders imageSize region hs plan).2.segmentCount = 0 := by
        by_contra hpos
        refine hno ((finishPlan_ok_iff _).mpr ⟨hok, ?_⟩)
        rw [planned_length]
        bv_omega
      have hnone := noLoads_of_count hok hcount
      rw [planHeaders_noLoads hs plan hnone]
      exact ⟨not_not.mp (fun hentry => hsome ⟨hnone, hentry⟩), hplan, hsegments⟩
    · exact planHeaders_refused hs plan hok

/-- **A REJECTED IMAGE LEAVES AN EMPTY PLAN**, exactly if it is not one with
    nothing to load. -/
theorem elf_plan_reject_clears (image : Nat → U8) (imageSize : U64) (region : UserRegion)
    (outPlan : Plan) :
    ((planLoad image imageSize region outPlan).1 ≠ .ok () →
      IsZero (planLoad image imageSize region outPlan).2) ↔
    ¬ NothingToLoad image imageSize region := by
  rw [planLoad_eq]
  by_cases hsize : imageSize.toNat < EHDR_SIZE
  · rw [if_pos hsize]
    exact iff_of_true (fun _ => isZero_zeroPlan outPlan)
      (fun h => absurd h.size (Nat.not_le.mpr hsize))
  rw [if_neg hsize]
  cases hhdr : validateHeader (ehdr image) imageSize region with
  | error e =>
      refine iff_of_true (fun _ => isZero_zeroPlan outPlan) (fun h => ?_)
      rw [validateHeader_iff.mpr ⟨h.header, h.table, h.entry⟩] at hhdr
      cases hhdr
  | ok u =>
      obtain ⟨hheader, htable, hentry⟩ := validateHeader_iff.mp hhdr
      -- the entry point is in the plan before the headers are read
      refine (finishPlan_refused (phdrs image)
        { zeroPlan outPlan with entry := (ehdr image).eEntry } rfl
        (isZero_zeroPlan outPlan).segments).trans (not_congr ?_)
      exact ⟨fun h => ⟨Nat.not_lt.mp hsize, hheader, htable, hentry, h.1, h.2⟩,
        fun h => ⟨h.noLoads, h.start⟩⟩

/-- An executable whose only program header is `PT_NOTE`. -/
def noteOnly : Nat → U8 := fun i =>
  (ehdrBytes 0x400000 1 ++ leBytes 4 4 ++ leBytes 52 0).getD i 0

/-- **LEFT BEHIND**: it is refused, and its entry stays in the plan. -/
theorem elf_plan_reject_entry :
    (planLoad noteOnly 120 userRegion noPlan).1 = .error .segcount ∧
    (planLoad noteOnly 120 userRegion noPlan).2.entry = 0x400000 ∧
    ¬ IsZero (planLoad noteOnly 120 userRegion noPlan).2 := by
  have hentry : (planLoad noteOnly 120 userRegion noPlan).2.entry = 0x400000 := by
    decide +kernel
  refine ⟨by decide +kernel, hentry, fun h => ?_⟩
  exact absurd (hentry.symm.trans h.entry) (by decide)

end ElfReject
