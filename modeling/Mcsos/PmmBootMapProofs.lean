import Mcsos.PmmInvariantProofs

/-! # Soundness and completeness of the boot map

    After `pmm_init_from_map` a free frame should lie inside one usable region
    and meet no other region, with the regions read as intervals of integers,
    and every such frame should be free.
    The rounding in `pmm.c` wraps: `align_up` of an end above `2^64 - 4096` is
    0, so `mark_range_used` drops such a region whole, and `align_up` of a base
    above `2^64 - 4096` is 0 too, so `mark_range_free` opens memory from
    address 0 on.  `bootMap_sound_iff` says exactly for which maps the first
    property holds nevertheless; the second holds for every map
    (`bootMap_complete`), since both wraps open too much and close too little. -/

namespace PmmBootMap

open Word PmmModel PmmFrame PmmRange PmmInvariant

/-- The frame lies wholly inside the region, over the integers. -/
def Inside (r : BootMemRegion) (n : Nat) : Prop :=
  r.base.toNat ≤ 4096 * n ∧ 4096 * n + 4096 ≤ r.base.toNat + r.length.toNat

/-- The frame shares a byte with the region, over the integers. -/
def Meets (r : BootMemRegion) (n : Nat) : Prop :=
  ∃ x, 4096 * n ≤ x ∧ x < 4096 * n + 4096 ∧
    r.base.toNat ≤ x ∧ x < r.base.toNat + r.length.toNat

/-- The region reaches into the last page of the 64-bit address space, or past
    its end. -/
def ReachesTop (r : BootMemRegion) : Prop :=
  2 ^ 64 - 4096 < r.base.toNat + r.length.toNat

/-- A non-empty usable region that starts behind the last page boundary: its
    base rounds up to 0. -/
def WrapsToZero (r : BootMemRegion) : Prop :=
  r.type = BOOT_MEM_USABLE ∧ r.length ≠ 0 ∧ 2 ^ 64 - 4096 < r.base.toNat ∧
    r.base.toNat + r.length.toNat < 2 ^ 64

/-- Every free frame is non-zero, inside a usable region, and meets no region
    of another type. -/
def BootMapSound (regions : List BootMemRegion) (s : PmmState) : Prop :=
  ∀ n, n < s.frameCount.toNat → Clear s n →
    n ≠ 0 ∧ (∃ r ∈ regions, r.type = BOOT_MEM_USABLE ∧ Inside r n) ∧
    ∀ r ∈ regions, r.type ≠ BOOT_MEM_USABLE → ¬ Meets r n

/-- The condition on the map: look at the non-zero frames below the limit that
    meet no non-usable region ending at or below the last page boundary.  Such
    a frame, when it lies inside a usable region that ends below `2^64`, meets
    no non-usable region that reaches the top; and when some usable region
    starts behind the last page boundary, it must moreover lie inside a usable
    region. -/
def BootMapSafe (regions : List BootMemRegion) (maxPhysBytes : U64) : Prop :=
  ∀ n, n ≠ 0 → n < maxPhysBytes.toNat / 4096 →
    (∀ r ∈ regions, r.type ≠ BOOT_MEM_USABLE → ¬ ReachesTop r → ¬ Meets r n) →
    ((∃ r ∈ regions, r.type = BOOT_MEM_USABLE ∧ Inside r n ∧
        r.base.toNat + r.length.toNat < 2 ^ 64) →
      ∀ r ∈ regions, r.type ≠ BOOT_MEM_USABLE → ReachesTop r → ¬ Meets r n) ∧
    ((∃ r ∈ regions, WrapsToZero r) →
      (∃ r ∈ regions, r.type = BOOT_MEM_USABLE ∧ Inside r n) ∧
      ∀ r ∈ regions, r.type ≠ BOOT_MEM_USABLE → ReachesTop r → ¬ Meets r n)

/-- What `mark_range_free` opens of a usable region, in terms of the region. -/
theorem freesFrame_iff {r : BootMemRegion} (hu : r.type = BOOT_MEM_USABLE) {n : Nat}
    (hn : 4096 * n + 4096 ≤ 2 ^ 64 - 4096) :
    FreesFrame r.base r.length n ↔
      (Inside r n ∧ r.base.toNat + r.length.toNat < 2 ^ 64) ∨ WrapsToZero r := by
  have hb := r.base.isLt
  rw [FreesFrame, Inside, WrapsToZero]
  have hlen : r.length ≠ 0 ↔ r.length.toNat ≠ 0 := BitVec.toNat_ne
  rw [hlen]
  by_cases hwrap : 2 ^ 64 - 4096 < r.base.toNat
  · -- the base rounds up to 0: everything below the end is opened
    have hlo : (r.base.toNat + 4095) % 2 ^ 64 / 4096 = 0 := by omega
    rw [hlo]
    constructor
    · rintro ⟨h1, h2, -, h4⟩
      exact Or.inr ⟨hu, h1, hwrap, h2⟩
    · rintro (⟨⟨h1, h2⟩, h3⟩ | ⟨-, h1, -, h2⟩)
      · omega
      · exact ⟨h1, h2, by omega, by omega⟩
  · have hlo : (r.base.toNat + 4095) % 2 ^ 64 / 4096 = (r.base.toNat + 4095) / 4096 := by
      rw [Nat.mod_eq_of_lt (by omega)]
    rw [hlo]
    constructor
    · rintro ⟨h1, h2, h3, h4⟩
      exact Or.inl ⟨⟨by omega, by omega⟩, h2⟩
    · rintro (⟨⟨h1, h2⟩, h3⟩ | ⟨-, -, h2, -⟩)
      · exact ⟨by omega, h3, by omega, by omega⟩
      · exact absurd h2 hwrap

/-- What `mark_range_used` closes of a region: all of it, unless the region
    reaches the top, and then nothing. -/
theorem reservesFrame_iff (r : BootMemRegion) (n : Nat) :
    ReservesFrame r.base r.length n ↔ Meets r n ∧ ¬ ReachesTop r := by
  have hb := r.base.isLt
  rw [ReservesFrame, Meets, ReachesTop]
  have hlen : r.length ≠ 0 ↔ r.length.toNat ≠ 0 := BitVec.toNat_ne
  rw [hlen]
  constructor
  · rintro ⟨h1, h2, h3, h4⟩
    have hlow : r.base.toNat + r.length.toNat ≤ 2 ^ 64 - 4096 := by
      by_contra htop
      have hhi : (r.base.toNat + r.length.toNat + 4095) % 2 ^ 64 / 4096 = 0 := by omega
      omega
    rw [Nat.mod_eq_of_lt (by omega)] at h4
    refine ⟨⟨max (4096 * n) r.base.toNat, ?_, ?_, ?_, ?_⟩, by omega⟩ <;> omega
  · rintro ⟨⟨x, h1, h2, h3, h4⟩, hlow⟩
    rw [Nat.mod_eq_of_lt (by omega)]
    refine ⟨?_, ?_, ?_, ?_⟩ <;> omega

/-- The frames the boot map opens, with both roundings spelled out. -/
theorem initFree_iff {regions : List BootMemRegion} {n : Nat}
    (hn : 4096 * n + 4096 ≤ 2 ^ 64 - 4096) :
    InitFree regions n ↔ n ≠ 0 ∧
      ((∃ r ∈ regions, r.type = BOOT_MEM_USABLE ∧ Inside r n ∧
          r.base.toNat + r.length.toNat < 2 ^ 64) ∨ ∃ r ∈ regions, WrapsToZero r) ∧
      ∀ r ∈ regions, r.type ≠ BOOT_MEM_USABLE → ¬ ReachesTop r → ¬ Meets r n := by
  rw [InitFree]
  refine and_congr_right (fun _ => and_congr ?_ ?_)
  · constructor
    · rintro ⟨r, hr, hu, hf⟩
      rcases (freesFrame_iff hu hn).mp hf with hin | hw
      · exact Or.inl ⟨r, hr, hu, hin⟩
      · exact Or.inr ⟨r, hr, hw⟩
    · rintro (⟨r, hr, hu, hin⟩ | ⟨r, hr, hw⟩)
      · exact ⟨r, hr, hu, (freesFrame_iff hu hn).mpr (Or.inl hin)⟩
      · exact ⟨r, hr, hw.1, (freesFrame_iff hw.1 hn).mpr (Or.inr hw)⟩
  · refine forall₂_congr (fun r _ => forall_congr' (fun _ => ?_))
    rw [reservesFrame_iff]
    exact ⟨fun hno ht hm => hno ⟨hm, ht⟩, fun hno hr => hno hr.2 hr.1⟩

/-- A non-usable region is either low or reaches the top. -/
theorem not_meets_of_low_high {regions : List BootMemRegion} {n : Nat}
    (hlow : ∀ r ∈ regions, r.type ≠ BOOT_MEM_USABLE → ¬ ReachesTop r → ¬ Meets r n)
    (hhigh : ∀ r ∈ regions, r.type ≠ BOOT_MEM_USABLE → ReachesTop r → ¬ Meets r n) :
    ∀ r ∈ regions, r.type ≠ BOOT_MEM_USABLE → ¬ Meets r n := by
  intro r hr hother
  by_cases ht : ReachesTop r
  · exact hhigh r hr hother ht
  · exact hlow r hr hother ht

/-- **BOOT MAP**: the free frames are sound exactly for the maps that satisfy
    `BootMapSafe`. -/
theorem bootMap_sound_iff {garbage s : PmmState} {regions : List BootMemRegion}
    {storage : Bitmap} {storageBytes maxPhysBytes : U64}
    (h : pmmInitFromMap garbage regions storage storageBytes maxPhysBytes = some s) :
    BootMapSound regions s ↔ BootMapSafe regions maxPhysBytes := by
  obtain ⟨hcore, -, hmax, -, -, hclear⟩ := pmmInitFromMap_spec h
  have hfc : s.frameCount.toNat = maxPhysBytes.toNat / 4096 := by
    have := hcore.frames
    rw [hmax] at this
    omega
  have hlim := s.maxPhys.isLt
  have htop : ∀ n, n < s.frameCount.toNat → 4096 * n + 4096 ≤ 2 ^ 64 - 4096 := by
    intro n hn
    have := hcore.frames
    omega
  -- below the top of the address space, rounding an end up does not wrap
  have hfree : ∀ n, n < s.frameCount.toNat → (Clear s n ↔ _) := fun n hn =>
    (hclear n hn).trans (initFree_iff (htop n hn))
  constructor
  · intro hsound n h0 hn hlow
    rw [← hfc] at hn
    constructor
    · intro hin r hr hother _ hm
      have hc := (hfree n hn).mpr ⟨h0, Or.inl hin, hlow⟩
      exact (hsound n hn hc).2.2 r hr hother hm
    · intro hwrap
      have hc := (hfree n hn).mpr ⟨h0, Or.inr hwrap, hlow⟩
      obtain ⟨-, hin, hout⟩ := hsound n hn hc
      exact ⟨hin, fun r hr hother _ => hout r hr hother⟩
  · intro hsafe n hn hc
    obtain ⟨h0, hopen, hlow⟩ := (hfree n hn).mp hc
    obtain ⟨hin, hwrap⟩ := hsafe n h0 (by rw [← hfc]; exact hn) hlow
    rcases hopen with hu | hw
    · have hhigh := hin hu
      obtain ⟨r, hr, hut, hi, -⟩ := hu
      exact ⟨h0, ⟨r, hr, hut, hi⟩, not_meets_of_low_high hlow hhigh⟩
    · obtain ⟨hi, hhigh⟩ := hwrap hw
      exact ⟨h0, hi, not_meets_of_low_high hlow hhigh⟩

/-- A map none of whose regions reaches the top satisfies the condition. -/
theorem bootMapSafe_of_low {regions : List BootMemRegion} (maxPhysBytes : U64)
    (h : ∀ r ∈ regions, ¬ ReachesTop r) : BootMapSafe regions maxPhysBytes := by
  intro n _ _ _
  constructor
  · intro _ r hr _ ht
    exact absurd ht (h r hr)
  · rintro ⟨r, hr, -, -, hb, -⟩
    refine absurd ?_ (h r hr)
    rw [ReachesTop]
    omega

/-- Four frames, of which the last is reserved. -/
theorem bootMap_sound_iff_small :
    BootMapSound [⟨0, 0x4000, 1⟩, ⟨0x3800, 0x100, 2⟩] smallState :=
  (bootMap_sound_iff (Option.some_get (x := smallBoot) (by decide)).symm).mpr
    (bootMapSafe_of_low _ (by simp only [ReachesTop]; decide))

/-- A usable region and a reserved one that runs from `0x2000` to the top of
    the address space. -/
def topReservedBoot : Option PmmState :=
  pmmInitFromMap ⟨fun _ => 0, 0, 0, 0, 0, 0, 0, 0, 0, false⟩
    [⟨0, 0x4000, 1⟩, ⟨0x2000, 0xffffffffffffdfff, 2⟩] (fun _ => 0) 1 0x4000

/-- Frame 2 lies in the reserved region and is free after init. -/
theorem bootMap_unsound :
    ∃ s, topReservedBoot = some s ∧
      ¬ BootMapSound [⟨0, 0x4000, 1⟩, ⟨0x2000, 0xffffffffffffdfff, 2⟩] s := by
  refine ⟨topReservedBoot.get (by decide), (Option.some_get _).symm, ?_⟩
  intro hsound
  obtain ⟨-, -, hout⟩ := hsound 2 (by decide) (by decide)
  refine hout ⟨0x2000, 0xffffffffffffdfff, 2⟩ (by simp) (by decide) ?_
  exact ⟨0x2000, by decide, by decide, by decide, by decide⟩

/-- **COMPLETENESS**: a non-zero frame below the limit that lies inside one usable
    region and meets no region of another type is free after init. -/
theorem bootMap_complete {garbage s : PmmState} {regions : List BootMemRegion}
    {storage : Bitmap} {storageBytes maxPhysBytes : U64}
    (h : pmmInitFromMap garbage regions storage storageBytes maxPhysBytes = some s) {n : Nat}
    (hn : n ≠ 0) (hbelow : 4096 * n + 4096 ≤ maxPhysBytes.toNat)
    (hin : ∃ r ∈ regions, r.type = BOOT_MEM_USABLE ∧ Inside r n ∧
      r.base.toNat + r.length.toNat ≤ 2 ^ 64 - 1)
    (hout : ∀ r ∈ regions, r.type ≠ BOOT_MEM_USABLE → ¬ Meets r n) : Clear s n := by
  obtain ⟨hcore, -, hmax, -, -, hclear⟩ := pmmInitFromMap_spec h
  have hframes := hcore.frames
  rw [hmax] at hframes
  have hlim := s.maxPhys.isLt
  rw [hmax] at hlim
  refine (hclear n (by omega)).mpr ((initFree_iff (by omega)).mpr ⟨hn, Or.inl ?_, ?_⟩)
  · obtain ⟨r, hr, hu, hi, hfits⟩ := hin
    exact ⟨r, hr, hu, hi, by omega⟩
  · exact fun r hr hother _ => hout r hr hother

/-- Frame 2 of the same map is free. -/
theorem bootMap_complete_small : Clear smallState 2 := by
  refine bootMap_complete (Option.some_get (x := smallBoot) (by decide)).symm (by decide)
    (by decide) ⟨⟨0, 0x4000, 1⟩, by simp, rfl, ⟨by decide, by decide⟩, by decide⟩ ?_
  intro r hr hother
  rcases List.mem_cons.mp hr with rfl | hr
  · exact absurd rfl hother
  · rw [List.mem_singleton.mp hr]
    rintro ⟨x, -, hx, hbase, -⟩
    have hx' : x < 0x3000 := hx
    have hbase' : 0x3800 ≤ x := hbase
    omega

end PmmBootMap
