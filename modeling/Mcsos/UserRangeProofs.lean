import Mcsos.ElfPlanProofs
import Mcsos.SyscallConfinementProofs

/-! # The loader and the system calls mean the same user ranges

    `m11_validate_user_range` looks at the end of a range, `mcsos_user_check_range`
    at its last byte, and each guards its own sum against wrapping.  Both are
    the same pair of inequalities over the naturals, so that the memory of a
    segment the loader accepted can be copied from and to in any part. -/

namespace UserRange

open Word ElfModel ElfFormat ElfPlan

variable {region : UserRegion} {addr len addr' len' : U64}

/-- The region of the loader, as the system calls are given it. -/
def syscallRegion (region : UserRegion) : SyscallModel.UserRegion := ⟨region.base, region.limit⟩

/-- The `len` bytes at `addr` are among the `len'` bytes at `addr'`. -/
structure SubRange (addr len addr' len' : U64) : Prop where
  above : addr'.toNat ≤ addr.toNat
  below : addr.toNat + len.toNat ≤ addr'.toNat + len'.toNat

/-- A part of a range in the region is in the region. -/
theorem SubRange.inRegion (h : SubRange addr len addr' len')
    (hin : InRegion region addr'.toNat len'.toNat) : InRegion region addr.toNat len.toNat :=
  ⟨Nat.le_trans hin.1 h.above, Nat.le_trans h.below hin.2⟩

theorem SubRange.pos (h : SubRange addr len addr' len') (hlen : 0 < len) : 0 < len' := by
  have habove := h.above
  have hbelow := h.below
  bv_omega

/-- The check of the loader. -/
theorem validateUserRange_inRegion (hlen : 0 < len) :
    m11ValidateUserRange region addr len = .ok () ↔ InRegion region addr.toNat len.toNat := by
  have hpos : 0 < len.toNat := by bv_omega
  rw [validateUserRange_iff, and_iff_right hpos]

/-- **LAST BYTE**: the check of the system calls. -/
theorem userCheckRange_inRegion (hbase : 0 < region.base) (hlen : 0 < len) :
    SyscallModel.mcsosUserCheckRange (syscallRegion region) addr len = true ↔
      InRegion region addr.toNat len.toNat := by
  have hne : len ≠ 0 := by bv_omega
  have hlimit := region.limit.isLt
  have haddr := addr.isLt
  rw [SyscallConfinement.userCheckRange_iff hne]
  constructor
  · rintro ⟨-, hlo, hwrap, hlast⟩
    -- without a wrap the last byte is one before the end
    have hlo' : region.base ≤ addr := hlo
    have hlast' : addr + len - 1 < region.limit := hlast
    exact ⟨hlo', by bv_omega⟩
  · rintro ⟨hlo, hhi⟩
    have hset : ¬ SyscallConfinement.Unset (syscallRegion region) := by
      show ¬ (region.base = 0 ∨ region.limit ≤ region.base)
      bv_omega
    have hlast : addr + len - 1 < region.limit := by bv_omega
    exact ⟨hset, hlo, by bv_omega, hlast⟩

/-- A range that is accepted can be copied from and to. -/
theorem copies_ok (hbase : 0 < region.base) (hlen : 0 < len)
    (hin : InRegion region addr.toNat len.toNat) (mem : ByteMemory.Mem) (buf : Nat → U8) :
    (∃ buf', SyscallModel.mcsosCopyFromUser (syscallRegion region) mem buf addr len = .ok buf') ∧
    (∃ mem', SyscallModel.mcsosCopyToUser (syscallRegion region) mem addr buf len
      = .ok mem') := by
  have hne : len ≠ 0 := by bv_omega
  have hlo := hin.1
  have haddr : addr ≠ 0 := by bv_omega
  have hcheck := (userCheckRange_inRegion hbase hlen).mpr hin
  rw [SyscallModel.mcsosCopyFromUser, SyscallModel.mcsosCopyToUser, if_neg hne, if_neg hne,
      if_neg haddr, if_neg haddr, hcheck, if_neg (by decide), if_neg (by decide)]
  exact ⟨⟨_, rfl⟩, _, rfl⟩

/-- **THE CHECKS AGREE**, with each other and with the integers; what the loader
    accepts the copies accept, in every part; and a part of an accepted range is
    accepted. -/
theorem user_range_checks_agree (region : UserRegion) (hbase : 0 < region.base) :
    (∀ addr len : U64, 0 < len →
      (m11ValidateUserRange region addr len = .ok () ↔
        SyscallModel.mcsosUserCheckRange (syscallRegion region) addr len = true) ∧
      (SyscallModel.mcsosUserCheckRange (syscallRegion region) addr len = true ↔
        region.base.toNat ≤ addr.toNat ∧ addr.toNat + len.toNat ≤ region.limit.toNat)) ∧
    (∀ image imageSize outPlan, (planLoad image imageSize region outPlan).1 = .ok () →
      ∀ seg ∈ planned (planLoad image imageSize region outPlan).2, ∀ addr len : U64, 0 < len →
        SubRange addr len seg.vaddr seg.memsz → ∀ mem buf,
          (∃ buf', SyscallModel.mcsosCopyFromUser (syscallRegion region) mem buf addr len
            = .ok buf') ∧
          ∃ mem', SyscallModel.mcsosCopyToUser (syscallRegion region) mem addr buf len
            = .ok mem') ∧
    (∀ ph imageSize, validateLoadSegment ph imageSize region = .ok () →
      ∀ addr len : U64, 0 < len → SubRange addr len ph.pVaddr ph.pMemsz → ∀ mem buf,
          (∃ buf', SyscallModel.mcsosCopyFromUser (syscallRegion region) mem buf addr len
            = .ok buf') ∧
          ∃ mem', SyscallModel.mcsosCopyToUser (syscallRegion region) mem addr buf len
            = .ok mem') ∧
    (∀ addr len addr' len' : U64, 0 < len → SubRange addr len addr' len' →
      (m11ValidateUserRange region addr' len' = .ok () →
        m11ValidateUserRange region addr len = .ok ()) ∧
      (SyscallModel.mcsosUserCheckRange (syscallRegion region) addr' len' = true →
        SyscallModel.mcsosUserCheckRange (syscallRegion region) addr len = true)) := by
  refine ⟨?_, ?_, ?_, ?_⟩
  · intro addr len hlen
    rw [validateUserRange_inRegion hlen, userCheckRange_inRegion hbase hlen]
    exact ⟨Iff.rfl, Iff.rfl⟩
  · intro image imageSize outPlan hok seg hseg addr len hlen hsub mem buf
    obtain ⟨ph, rfl, hwf⟩ := planned_checked hok hseg
    exact copies_ok hbase hlen (hsub.inRegion hwf.range) mem buf
  · intro ph imageSize hok addr len hlen hsub mem buf
    have hwf := validateLoadSegment_iff.mp hok
    exact copies_ok hbase hlen (hsub.inRegion hwf.range) mem buf
  · intro addr len addr' len' hlen hsub
    have hlen' := hsub.pos hlen
    rw [validateUserRange_inRegion hlen, validateUserRange_inRegion hlen',
        userCheckRange_inRegion hbase hlen, userCheckRange_inRegion hbase hlen']
    exact ⟨hsub.inRegion, hsub.inRegion⟩

/-- The second kilobyte of the data segment of an image with two pages. -/
theorem user_range_checks_agree_pages :
    ∃ mem', SyscallModel.mcsosCopyToUser (syscallRegion userRegion) (fun _ => 0) 0x401400
      (fun _ => 1) 0x400 = .ok mem' := by
  obtain ⟨-, hsegments, -, -⟩ := user_range_checks_agree userRegion (by decide)
  have hseg : (⟨0, 0x401000, 16, 4096, 4096, 6⟩ : SegmentPlan)
      ∈ planned (planLoad (twoPages 0x401000) 176 userRegion noPlan).2 := by
    rw [(planLoad_plan twoPages_ok).2, twoPages_loads]
    decide
  exact (hsegments _ _ _ twoPages_ok _ hseg 0x401400 0x400 (by decide)
    ⟨by decide, by decide⟩ (fun _ => 0) (fun _ => 1)).2

end UserRange
