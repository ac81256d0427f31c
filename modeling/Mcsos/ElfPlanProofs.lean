import Mcsos.ElfFormatProofs

/-! # The ELF planner

    The planner accepts exactly the well-formed images; its plan is then the
    loadable program headers in file order, and on every input it reads only
    bytes of the image.

    It checks the headers one at a time.  No segment is both writable and
    executable, but a writable and an executable segment may share addresses:
    whether they do is left to the image (`elf_plan_write_xor_execute`). -/

namespace ElfPlan

open Word ReadLog ElfModel ElfFormat

variable {image : Nat → U8} {imageSize : U64} {region : UserRegion} {plan outPlan : Plan}
variable {ph : Phdr}

/-! ## The loop over the program headers -/

/-- The loop on program headers already read. -/
def planHeaders (imageSize : U64) (region : UserRegion) : List Phdr → Plan → ElfResult × Plan
  | [], plan => (.ok (), plan)
  | ph :: hs, plan =>
      match planHeader imageSize region plan ph with
      | (.error e, plan) => (.error e, plan)
      | (.ok (), plan) => planHeaders imageSize region hs plan

/-- What the loop computes is what it computes from the list of headers. -/
theorem value_planLoop (n at_ : Nat) (plan : Plan) :
    value image (planLoop imageSize region n at_ plan) =
      planHeaders imageSize region (phdrsFrom image n at_) plan := by
  induction n generalizing at_ plan with
  | zero => rfl
  | succ n ih =>
      simp only [planLoop, phdrsFrom, planHeaders, value_bind]
      cases planHeader imageSize region plan (value image (readPhdr at_)) with
      | mk res plan' =>
          cases res with
          | error e => rfl
          | ok u => exact ih _ _

/-- The segments a plan holds. -/
def planned (plan : Plan) : List SegmentPlan :=
  (List.range plan.segmentCount.toNat).map plan.segments

/-- The plan has as many segments as it counts. -/
theorem planned_length (plan : Plan) : (planned plan).length = plan.segmentCount.toNat := by
  rw [planned, List.length_map, List.length_range]

/-- The count does not wrap while there is room. -/
theorem addSegment_count (h : plan.segmentCount.toNat < 8) :
    (addSegment plan ph).segmentCount.toNat = plan.segmentCount.toNat + 1 := by
  show (plan.segmentCount + 1).toNat = _
  bv_omega

/-- A segment is planned behind the others. -/
theorem addSegment_planned (h : plan.segmentCount.toNat < 8) :
    planned (addSegment plan ph) = planned plan ++ [segmentOf ph] := by
  rw [planned, addSegment_count h, List.range_succ, List.map_append]
  congr 1
  · refine List.map_congr_left (fun i hi => ?_)
    exact if_neg (List.mem_range.mp hi).ne
  · simp [addSegment]

/-- What one round of the loop does with a loadable header. -/
theorem planHeader_load (hload : isLoad ph = true) :
    planHeader imageSize region plan ph =
      if 8 ≤ plan.segmentCount.toNat then (.error .segcount, zeroPlan plan)
      else match validateLoadSegment ph imageSize region with
        | .error e => (.error e, zeroPlan plan)
        | .ok () => (.ok (), addSegment plan ph) := by
  rw [planHeader, if_neg (not_not.mpr (beq_iff_eq.mp hload))]
  rfl

/-- Any header but a load header is passed over. -/
theorem planHeader_skip (hload : isLoad ph = false) :
    planHeader imageSize region plan ph = (.ok (), plan) := by
  rw [planHeader]
  exact if_pos (fun h => by rw [isLoad, h] at hload; cases hload)

/-- The loop passes exactly when the loadable headers are few enough and each
    can be placed. -/
theorem planHeaders_ok_iff (hs : List Phdr) (plan : Plan) (hcount : plan.segmentCount.toNat ≤ 8) :
    (planHeaders imageSize region hs plan).1 = .ok () ↔
      plan.segmentCount.toNat + (hs.filter isLoad).length ≤ 8 ∧
      ∀ ph ∈ hs.filter isLoad, WellFormedSegment ph imageSize region := by
  induction hs generalizing plan with
  | nil =>
      refine iff_of_true rfl ⟨hcount, ?_⟩
      intro ph hph
      cases hph
  | cons ph hs ih =>
      cases hload : isLoad ph with
      | false =>
          rw [planHeaders, planHeader_skip hload, List.filter_cons_of_neg (by simp [hload])]
          exact ih plan hcount
      | true =>
          rw [planHeaders, planHeader_load hload, List.filter_cons_of_pos hload, List.length_cons]
          by_cases hfull : 8 ≤ plan.segmentCount.toNat
          · rw [if_pos hfull]
            exact error_iff (fun h => by omega)
          rw [if_neg hfull]
          cases hseg : validateLoadSegment ph imageSize region with
          | error e =>
              refine error_iff (fun h => ?_)
              rw [validateLoadSegment_iff.mpr (h.2 ph (List.mem_cons_self ..))] at hseg
              cases hseg
          | ok u =>
              have hwf : WellFormedSegment ph imageSize region := validateLoadSegment_iff.mp hseg
              have hadd : (addSegment plan ph).segmentCount.toNat = plan.segmentCount.toNat + 1 :=
                addSegment_count (Nat.lt_of_not_le hfull)
              -- the count of the longer plan pays for the shorter list
              refine (ih (addSegment plan ph) (by omega)).trans ?_
              rw [hadd, List.forall_mem_cons]
              constructor
              · rintro ⟨hlen, hall⟩
                exact ⟨by omega, hwf, hall⟩
              · rintro ⟨hlen, -, hall⟩
                exact ⟨by omega, hall⟩

/-- The plan of a loop that passes: the loadable headers, in order. -/
theorem planHeaders_plan (hs : List Phdr) (plan : Plan)
    (hok : (planHeaders imageSize region hs plan).1 = .ok ()) :
    (planHeaders imageSize region hs plan).2.entry = plan.entry ∧
      planned (planHeaders imageSize region hs plan).2 =
        planned plan ++ (hs.filter isLoad).map segmentOf := by
  induction hs generalizing plan with
  | nil => exact ⟨rfl, (List.append_nil _).symm⟩
  | cons ph hs ih =>
      cases hload : isLoad ph with
      | false =>
          rw [planHeaders, planHeader_skip hload] at hok ⊢
          rw [List.filter_cons_of_neg (by simp [hload])]
          exact ih plan hok
      | true =>
          rw [planHeaders, planHeader_load hload] at hok ⊢
          rw [List.filter_cons_of_pos hload]
          by_cases hfull : 8 ≤ plan.segmentCount.toNat
          · rw [if_pos hfull] at hok
            cases hok
          rw [if_neg hfull] at hok ⊢
          cases hseg : validateLoadSegment ph imageSize region with
          | error e =>
              rw [hseg] at hok
              cases hok
          | ok u =>
              rw [hseg] at hok
              -- the one header that is added comes before those of the rest
              obtain ⟨hentry, hplan⟩ := ih (addSegment plan ph) hok
              refine ⟨hentry, hplan.trans ?_⟩
              rw [addSegment_planned (Nat.lt_of_not_le hfull), List.map_cons, List.append_assoc]
              rfl

/-- From an empty plan on, that is all of the plan but its entry. -/
theorem planHeaders_zeroPlan {hs : List Phdr} {entry : U64} {outPlan : Plan}
    (hok : (planHeaders imageSize region hs { zeroPlan outPlan with entry := entry }).1 = .ok ()) :
    (planHeaders imageSize region hs { zeroPlan outPlan with entry := entry }).2.entry = entry ∧
      planned (planHeaders imageSize region hs { zeroPlan outPlan with entry := entry }).2 =
        (hs.filter isLoad).map segmentOf := by
  obtain ⟨hentry, hplan⟩ := planHeaders_plan hs { zeroPlan outPlan with entry := entry } hok
  exact ⟨hentry, hplan.trans (List.nil_append _)⟩

/-! ## What is read -/

/-- A field is read within its bytes. -/
theorem readsBelow_field {n : Nat} (w k i : Nat) (h : i + k ≤ n) :
    ReadsBelow n image (field w k i) :=
  readsBelow_bind (readsBelow_word k i h) (readsBelow_pure _)

/-- The file header is read within its 64 bytes. -/
theorem readsBelow_ehdr {n : Nat} (h : 64 ≤ n) : ReadsBelow n image readEhdr := by
  rw [readEhdr]
  repeat refine readsBelow_bind (readsBelow_field _ _ _ (by omega)) ?_
  exact readsBelow_pure _

/-- A program header is read within its 56 bytes. -/
theorem readsBelow_phdr {n at_ : Nat} (h : at_ + 56 ≤ n) : ReadsBelow n image (readPhdr at_) := by
  rw [readPhdr]
  repeat refine readsBelow_bind (readsBelow_field _ _ _ (by omega)) ?_
  exact readsBelow_pure _

/-- The loop reads within the table that was checked. -/
theorem readsBelow_planLoop {m : Nat} (n at_ : Nat) (plan : Plan) (h : at_ + 56 * n ≤ m) :
    ReadsBelow m image (planLoop imageSize region n at_ plan) := by
  induction n generalizing at_ plan with
  | zero => exact readsBelow_pure _
  | succ n ih =>
      refine readsBelow_bind (readsBelow_phdr (by omega)) ?_
      cases planHeader imageSize region plan (value image (readPhdr at_)) with
      | mk res plan' =>
          cases res with
          | error e => exact readsBelow_pure _
          | ok u =>
              refine ih _ _ ?_
              show at_ + 56 + 56 * n ≤ m
              omega

/-- The planner reads only bytes of the image, whatever they say. -/
theorem readsBelow_planLoad :
    ReadsBelow imageSize.toNat image (m11Elf64PlanLoad imageSize region outPlan) := by
  rw [m11Elf64PlanLoad]
  by_cases hsize : imageSize.toNat < EHDR_SIZE
  · simp only [if_pos hsize]
    exact readsBelow_pure _
  simp only [if_neg hsize]
  refine readsBelow_bind (readsBelow_ehdr (Nat.not_lt.mp hsize)) ?_
  cases hhdr : validateHeader (value image readEhdr) imageSize region with
  | error e => exact readsBelow_pure _
  | ok u =>
      obtain ⟨-, ⟨-, -, htable⟩, -⟩ := validateHeader_iff.mp hhdr
      exact readsBelow_bind (readsBelow_planLoop _ _ _ htable) (readsBelow_pure _)

/-! ## The planner -/

/-- What `m11_elf64_plan_load` answers and leaves in the plan. -/
def planLoad (image : Nat → U8) (imageSize : U64) (region : UserRegion) (outPlan : Plan) :
    ElfResult × Plan :=
  value image (m11Elf64PlanLoad imageSize region outPlan)

/-- The load, with the reads done beforehand: size, header, then the list of program headers. -/
theorem planLoad_eq :
    planLoad image imageSize region outPlan =
      if imageSize.toNat < EHDR_SIZE then (.error .size, zeroPlan outPlan)
      else match validateHeader (ehdr image) imageSize region with
        | .error e => (.error e, zeroPlan outPlan)
        | .ok () => finishPlan (planHeaders imageSize region (phdrs image)
            { zeroPlan outPlan with entry := (ehdr image).eEntry }) := by
  unfold planLoad m11Elf64PlanLoad
  by_cases hsize : imageSize.toNat < EHDR_SIZE
  · simp only [if_pos hsize]
    rfl
  have hfold : value image readEhdr = ehdr image := rfl
  simp only [if_neg hsize, value_bind, hfold, phdrs]
  generalize ehdr image = eh
  cases validateHeader eh imageSize region with
  | error e => rfl
  | ok u => simp only [value_bind, value_planLoop, value_pure]

/-- A load succeeds if no header was refused and one was planned. -/
theorem finishPlan_ok_iff (r : ElfResult × Plan) :
    (finishPlan r).1 = .ok () ↔ r.1 = .ok () ∧ 0 < (planned r.2).length := by
  obtain ⟨res, plan⟩ := r
  rw [planned_length]
  cases res with
  | error e => exact error_iff (fun h => by cases h.1)
  | ok u =>
      by_cases hz : plan.segmentCount = 0
      · refine iff_of_false ?_ (fun h => ?_)
        · rw [finishPlan, if_pos hz]
          exact fun h => by cases h
        · have hpos := h.2
          rw [hz] at hpos
          exact absurd hpos (by decide)
      · rw [finishPlan, if_neg hz]
        refine iff_of_true rfl ⟨rfl, ?_⟩
        show 0 < plan.segmentCount.toNat
        bv_omega

/-- The last check changes nothing in the plan. -/
theorem finishPlan_snd (r : ElfResult × Plan) : (finishPlan r).2 = r.2 := by
  obtain ⟨res, plan⟩ := r
  cases res with
  | error e => rfl
  | ok u =>
      rw [finishPlan]
      split <;> rfl

/-- **THE PLANNER ACCEPTS ITS FORMAT**, and nothing else. -/
theorem planLoad_ok_iff :
    (planLoad image imageSize region outPlan).1 = .ok () ↔ WellFormed image imageSize region := by
  rw [planLoad_eq]
  by_cases hsize : imageSize.toNat < EHDR_SIZE
  · rw [if_pos hsize]
    exact error_iff (fun h => absurd h.size (Nat.not_le.mpr hsize))
  rw [if_neg hsize]
  cases hhdr : validateHeader (ehdr image) imageSize region with
  | error e =>
      refine error_iff (fun h => ?_)
      rw [validateHeader_iff.mpr ⟨h.header, ⟨h.phentsize, h.phnum, h.table⟩, h.entry⟩] at hhdr
      cases hhdr
  | ok u =>
      obtain ⟨hheader, ⟨hent, hnum, htable⟩, hentry⟩ := validateHeader_iff.mp hhdr
      let plan₀ : Plan := { zeroPlan outPlan with entry := (ehdr image).eEntry }
      have hzero : plan₀.segmentCount.toNat = 0 := rfl
      -- the plan is empty before the loop, so only this image's segments count
      have hloop : (planHeaders imageSize region (phdrs image) plan₀).1 = .ok () ↔
          (loads image).length ≤ 8 ∧
          ∀ ph ∈ loads image, WellFormedSegment ph imageSize region := by
        rw [planHeaders_ok_iff _ _ (by omega), hzero, Nat.zero_add]
        rfl
      refine (finishPlan_ok_iff _).trans ?_
      constructor
      · rintro ⟨hok, hpos⟩
        obtain ⟨hfew, hall⟩ := hloop.mp hok
        rw [(planHeaders_zeroPlan hok).2, List.length_map] at hpos
        exact ⟨Nat.not_lt.mp hsize, hheader, hent, hnum, htable, hentry, hpos, hfew, hall⟩
      · intro h
        have hok := hloop.mpr ⟨h.few, h.segments⟩
        refine ⟨hok, ?_⟩
        rw [(planHeaders_zeroPlan hok).2, List.length_map]
        exact h.some

/-- An accepted plan is the entry and the loadable headers of the image. -/
theorem planLoad_plan (hok : (planLoad image imageSize region outPlan).1 = .ok ()) :
    (planLoad image imageSize region outPlan).2.entry = (ehdr image).eEntry ∧
      planned (planLoad image imageSize region outPlan).2 = (loads image).map segmentOf := by
  rw [planLoad_eq] at hok ⊢
  by_cases hsize : imageSize.toNat < EHDR_SIZE
  · rw [if_pos hsize] at hok
    cases hok
  rw [if_neg hsize] at hok ⊢
  cases hhdr : validateHeader (ehdr image) imageSize region with
  | error e =>
      rw [hhdr] at hok
      cases hok
  | ok u =>
      rw [hhdr] at hok
      obtain ⟨hloop, -⟩ := (finishPlan_ok_iff _).mp hok
      rw [finishPlan_snd]
      exact planHeaders_zeroPlan hloop

/-- Every planned segment was checked. -/
theorem planned_checked (hok : (planLoad image imageSize region outPlan).1 = .ok ())
    {seg : SegmentPlan} (hseg : seg ∈ planned (planLoad image imageSize region outPlan).2) :
    ∃ ph, seg = segmentOf ph ∧ WellFormedSegment ph imageSize region := by
  rw [(planLoad_plan hok).2] at hseg
  obtain ⟨ph, hph, rfl⟩ := List.mem_map.mp hseg
  exact ⟨ph, rfl, (planLoad_ok_iff.mp hok).segments ph hph⟩

/-- **THE ELF PLANNER**: it accepts exactly the well-formed images, its plan is
    what the image says, and it reads nothing behind the image. -/
theorem elf_plan_load_exact (image : Nat → U8) (imageSize : U64) (region : UserRegion)
    (outPlan : Plan) :
    ((planLoad image imageSize region outPlan).1 = .ok () ↔
        WellFormed image imageSize region) ∧
      ((planLoad image imageSize region outPlan).1 = .ok () →
        (planLoad image imageSize region outPlan).2.entry = (ehdr image).eEntry ∧
        planned (planLoad image imageSize region outPlan).2 = (loads image).map segmentOf) ∧
      ∀ i ∈ log image (m11Elf64PlanLoad imageSize region outPlan), i < imageSize.toNat :=
  ⟨planLoad_ok_iff, planLoad_plan, readsBelow_planLoad⟩

/-- The `k` low bytes of `v`, least significant first. -/
def leBytes : Nat → Nat → List U8
  | 0, _ => []
  | k + 1, v => BitVec.ofNat 8 v :: leBytes k (v / 256)

/-- An executable's header, with `phnum` program headers behind it. -/
def ehdrBytes (entry phnum : Nat) : List U8 :=
  [0x7f, 0x45, 0x4c, 0x46, 2, 1, 1] ++ leBytes 9 0 ++ leBytes 2 2 ++ leBytes 2 62 ++ leBytes 4 1 ++
    leBytes 8 entry ++ leBytes 8 64 ++ leBytes 12 0 ++ leBytes 2 64 ++ leBytes 2 56 ++
    leBytes 2 phnum ++ leBytes 6 0

/-- A loadable header for 16 bytes of the file. -/
def phdrBytes (flags vaddr memsz : Nat) : List U8 :=
  leBytes 4 1 ++ leBytes 4 flags ++ leBytes 8 0 ++ leBytes 8 vaddr ++ leBytes 8 0 ++ leBytes 8 16 ++
    leBytes 8 memsz ++ leBytes 8 4096

/-- A code page at `0x400000` and a data page at `data`. -/
def twoPages (data : Nat) : Nat → U8 := fun i =>
  (ehdrBytes 0x400000 2 ++ phdrBytes 5 0x400000 4096 ++ phdrBytes 6 data 4096).getD i 0

/-- A region for programs in the lower half. -/
def userRegion : UserRegion := ⟨0x400000, 0x8000000000⟩

/-- A plan before it is made. -/
def noPlan : Plan := ⟨0, 0, fun _ => ⟨0, 0, 0, 0, 0, 0⟩⟩

/-- The example image is accepted. -/
theorem twoPages_ok : (planLoad (twoPages 0x401000) 176 userRegion noPlan).1 = .ok () := by
  decide +kernel

/-- The two segments of the example's image. -/
theorem twoPages_loads : (loads (twoPages 0x401000)).map segmentOf =
    [⟨0, 0x400000, 16, 4096, 4096, 5⟩, ⟨0, 0x401000, 16, 4096, 4096, 6⟩] := by
  decide +kernel

/-- The plan of the example is its two segments, in order. -/
theorem elf_plan_load_exact_pages :
    (planLoad (twoPages 0x401000) 176 userRegion noPlan).1 = .ok () ∧
      planned (planLoad (twoPages 0x401000) 176 userRegion noPlan).2 =
        [⟨0, 0x400000, 16, 4096, 4096, 5⟩, ⟨0, 0x401000, 16, 4096, 4096, 6⟩] := by
  refine ⟨twoPages_ok, ?_⟩
  obtain ⟨-, hplan, -⟩ := elf_plan_load_exact (twoPages 0x401000) 176 userRegion noPlan
  rw [(hplan twoPages_ok).2, twoPages_loads]

/-! ## Writable and executable segments -/

/-- The segment may be written. -/
def Writable (seg : SegmentPlan) : Prop := seg.flags &&& M11_PF_W ≠ 0

/-- The segment may be executed. -/
def Executable (seg : SegmentPlan) : Prop := seg.flags &&& M11_PF_X ≠ 0

/-- `v` is one of the addresses of the segment. -/
def Covers (seg : SegmentPlan) (v : Nat) : Prop :=
  seg.vaddr.toNat ≤ v ∧ v < seg.vaddr.toNat + seg.memsz.toNat

/-- Two program headers of which one asks for memory that ends before that of the
    other starts. -/
def Clear (a b : Phdr) : Prop :=
  a.pVaddr.toNat + a.pMemsz.toNat ≤ b.pVaddr.toNat ∨
    b.pVaddr.toNat + b.pMemsz.toNat ≤ a.pVaddr.toNat

/-- No address is writable through one segment and executable through one. -/
def WriteXorExecute (segs : List SegmentPlan) : Prop :=
  ∀ v, ¬ ((∃ a ∈ segs, Writable a ∧ Covers a v) ∧ ∃ b ∈ segs, Executable b ∧ Covers b v)

/-- Segments that are not empty share an address unless one ends before the other. -/
theorem clear_iff {a b : Phdr} (ha : 0 < a.pMemsz.toNat) (hb : 0 < b.pMemsz.toNat) :
    Clear a b ↔ ∀ v, ¬ (Covers (segmentOf a) v ∧ Covers (segmentOf b) v) := by
  unfold Clear Covers segmentOf
  dsimp only
  constructor
  · rintro h v ⟨hav, hbv⟩
    omega
  · intro h
    -- the later of the two starts lies in both, if anything does
    have hstart := h (max a.pVaddr.toNat b.pVaddr.toNat)
    omega

/-- **WRITE XOR EXECUTE** holds within every planned segment; over the whole
    plan it holds exactly when the writable ones among the loadable headers of the
    image keep clear of the executable ones. -/
theorem elf_plan_write_xor_execute
    (hok : (planLoad image imageSize region outPlan).1 = .ok ()) :
    (∀ seg ∈ planned (planLoad image imageSize region outPlan).2,
        ¬ (Writable seg ∧ Executable seg)) ∧
      (WriteXorExecute (planned (planLoad image imageSize region outPlan).2) ↔
        ∀ a ∈ loads image, ∀ b ∈ loads image,
          a.pFlags &&& M11_PF_W ≠ 0 → b.pFlags &&& M11_PF_X ≠ 0 → Clear a b) := by
  have hwf : ∀ ph ∈ loads image, WellFormedSegment ph imageSize region :=
    (planLoad_ok_iff.mp hok).segments
  rw [(planLoad_plan hok).2]
  refine ⟨?_, ?_, ?_⟩
  · rw [List.forall_mem_map]
    rintro ph hph ⟨hw, hx⟩
    exact (hwf ph hph).notBoth ⟨(and_bit_ne_zero ph.pFlags 1 (by decide)).mp hw,
      (and_bit_ne_zero ph.pFlags 0 (by decide)).mp hx⟩
  · intro h a ha b hb hw hx
    refine (clear_iff (hwf a ha).memsz (hwf b hb).memsz).mpr (fun v hv => ?_)
    exact h v ⟨⟨_, List.mem_map_of_mem ha, hw, hv.1⟩, _, List.mem_map_of_mem hb, hx, hv.2⟩
  · rintro h v ⟨⟨sa, hsa, hw, hav⟩, sb, hsb, hx, hbv⟩
    obtain ⟨a, ha, rfl⟩ := List.mem_map.mp hsa
    obtain ⟨b, hb, rfl⟩ := List.mem_map.mp hsb
    exact (clear_iff (hwf a ha).memsz (hwf b hb).memsz).mp (h a ha b hb hw hx) v ⟨hav, hbv⟩

/-- Code and data on pages of their own. -/
theorem elf_plan_write_xor_execute_pages :
    WriteXorExecute (planned (planLoad (twoPages 0x401000) 176 userRegion noPlan).2) := by
  refine (elf_plan_write_xor_execute twoPages_ok).2.mpr ?_
  unfold Clear
  decide +kernel

/-- Code and data on the same page. -/
theorem elf_plan_shared_page :
    (planLoad (twoPages 0x400000) 176 userRegion noPlan).1 = .ok () ∧
      ¬ WriteXorExecute (planned (planLoad (twoPages 0x400000) 176 userRegion noPlan).2) := by
  have hok : (planLoad (twoPages 0x400000) 176 userRegion noPlan).1 = .ok () := by decide +kernel
  have hsegs : (loads (twoPages 0x400000)).map segmentOf =
      [⟨0, 0x400000, 16, 4096, 4096, 5⟩, ⟨0, 0x400000, 16, 4096, 4096, 6⟩] := by decide +kernel
  refine ⟨hok, fun h => ?_⟩
  rw [(planLoad_plan hok).2, hsegs] at h
  refine h 0x400000 ⟨⟨⟨0, 0x400000, 16, 4096, 4096, 6⟩, ?_, ?_⟩,
    ⟨0, 0x400000, 16, 4096, 4096, 5⟩, ?_, ?_⟩
  · simp
  · unfold Writable Covers
    decide
  · simp
  · unfold Executable Covers
    decide

end ElfPlan
