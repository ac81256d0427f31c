import Mcsos.ElfModel
import Mathlib.Data.List.Basic

/-! # The format of an ELF image and the checks for it

    `WellFormed` is the format, stated on the fields of an image as numbers and
    without the planner's checks.  Each check of the planner then says exactly
    its part of the format: the additions are guarded, so that a range that
    would wrap is refused and all others are compared as numbers. -/

namespace ElfFormat

open Word ReadLog ElfModel

variable {imageSize : U64} {region : UserRegion} {eh : Ehdr} {ph : Phdr}

/-! ## The format -/

/-- The ELF header of an image. -/
def ehdr (image : Nat → U8) : Ehdr := value image readEhdr

/-- The `n` program headers from position `at_` on. -/
def phdrsFrom (image : Nat → U8) : Nat → Nat → List Phdr
  | 0, _ => []
  | n + 1, at_ => value image (readPhdr at_) :: phdrsFrom image n (at_ + PHDR_SIZE)

/-- The program header table of an image. -/
def phdrs (image : Nat → U8) : List Phdr :=
  phdrsFrom image (ehdr image).ePhnum.toNat (ehdr image).ePhoff.toNat

/-- The header asks for a segment to be loaded. -/
def isLoad (ph : Phdr) : Bool := ph.pType == M11_PT_LOAD

/-- The loadable program headers of an image. -/
def loads (image : Nat → U8) : List Phdr := (phdrs image).filter isLoad

/-- The `size` addresses from `addr` on are addresses of the region. -/
def InRegion (region : UserRegion) (addr size : Nat) : Prop :=
  region.base.toNat ≤ addr ∧ addr + size ≤ region.limit.toNat

/-- The header says that this is a 64-bit little-endian x86-64 program. -/
structure WellFormedHeader (eh : Ehdr) : Prop where
  magic : eh.mag0 = 0x7f ∧ eh.mag1 = 0x45 ∧ eh.mag2 = 0x4c ∧ eh.mag3 = 0x46
  elfClass : eh.identClass = 2
  endian : eh.identData = 1
  version : eh.identVersion = 1 ∧ eh.eVersion = 1
  type : eh.eType = 2 ∨ eh.eType = 3
  machine : eh.eMachine = 62
  ehsize : eh.eEhsize = 64

/-- A loadable segment that can be placed. -/
structure WellFormedSegment (ph : Phdr) (imageSize : U64) (region : UserRegion) : Prop where
  flags : ph.pFlags.toNat < 8
  notBoth : ¬ (ph.pFlags.getLsbD 1 = true ∧ ph.pFlags.getLsbD 0 = true)
  filesz : ph.pFilesz.toNat ≤ ph.pMemsz.toNat
  memsz : 0 < ph.pMemsz.toNat
  file : ph.pOffset.toNat + ph.pFilesz.toNat ≤ imageSize.toNat
  range : InRegion region ph.pVaddr.toNat ph.pMemsz.toNat
  align : ph.pAlign.toNat = 0 ∨ ph.pAlign.toNat = 1 ∨
    ((∃ k, ph.pAlign.toNat = 2 ^ k) ∧
      ph.pVaddr.toNat % ph.pAlign.toNat = ph.pOffset.toNat % ph.pAlign.toNat)

/-- **THE FORMAT** of an image for a user region. -/
structure WellFormed (image : Nat → U8) (imageSize : U64) (region : UserRegion) : Prop where
  size : 64 ≤ imageSize.toNat
  header : WellFormedHeader (ehdr image)
  phentsize : (ehdr image).ePhentsize = 56
  phnum : 0 < (ehdr image).ePhnum.toNat
  table : (ehdr image).ePhoff.toNat + 56 * (ehdr image).ePhnum.toNat ≤ imageSize.toNat
  entry : InRegion region (ehdr image).eEntry.toNat 1
  some : 0 < (loads image).length
  few : (loads image).length ≤ 8
  segments : ∀ ph ∈ loads image, WellFormedSegment ph imageSize region

/-! ## The checks -/

section Check

variable {ε : Type} {e : ε} {q : Prop}

/-- An error is right where the condition fails. -/
theorem error_iff (h : ¬ q) : (Except.error e : Except ε Unit) = .ok () ↔ q :=
  iff_of_false (fun h => by cases h) h

/-- One check in front of the others: it refuses nothing that is well formed. -/
theorem check_iff {c : Prop} [Decidable c] {rest : Except ε Unit} (hfail : c → ¬ q)
    (hpass : ¬ c → (rest = .ok () ↔ q)) : (if c then .error e else rest) = .ok () ↔ q := by
  by_cases h : c
  · rw [if_pos h]
    exact error_iff (hfail h)
  · rw [if_neg h]
    exact hpass h

end Check

/-- The checked sum is the sum, or there is none. -/
theorem addOverflow_cases (a b : U64) :
    (addOverflowU64 a b = none ∧ 2 ^ 64 ≤ a.toNat + b.toNat) ∨
      (addOverflowU64 a b = some (a + b) ∧ (a + b).toNat = a.toNat + b.toNat) := by
  rw [addOverflowU64]
  by_cases h : a + b < a
  · exact Or.inl ⟨if_pos h, by bv_omega⟩
  · exact Or.inr ⟨if_neg h, by bv_omega⟩

/-- The range check, in numbers: not empty and inside the region. -/
theorem validateUserRange_iff (base size : U64) :
    m11ValidateUserRange region base size = .ok () ↔
      0 < size.toNat ∧ InRegion region base.toNat size.toNat := by
  unfold m11ValidateUserRange InRegion
  refine check_iff (fun hregion => by bv_omega) (fun hregion => ?_)
  refine check_iff (fun hsize => by bv_omega) (fun hsize => ?_)
  rcases addOverflow_cases base size with ⟨heq, hsum⟩ | ⟨heq, hsum⟩
  · rw [heq]
    refine error_iff ?_
    bv_omega
  · rw [heq]
    refine check_iff (fun hout => by bv_omega) (fun hout => ?_)
    refine iff_of_true rfl ?_
    bv_omega

/-- The bit trick finds the powers of two. -/
theorem isPowerOfTwo_iff (v : U64) : isPowerOfTwoU64 v = true ↔ ∃ k, v.toNat = 2 ^ k := by
  rw [isPowerOfTwoU64, Bool.and_eq_true, decide_eq_true_iff, beq_iff_eq]
  by_cases hv : v = 0
  · refine iff_of_false (fun h => h.1 hv) ?_
    rintro ⟨k, hk⟩
    rw [hv] at hk
    exact absurd hk.symm (Nat.two_pow_pos k).ne'
  · have hne : v.toNat ≠ 0 := by bv_omega
    have hpred : (v - 1).toNat = v.toNat - 1 := by bv_omega
    rw [← BitVec.toNat_inj, BitVec.toNat_and, hpred]
    exact ⟨fun h => (Nat.and_sub_one_eq_zero_iff_isPowerOfTwo hne).mp h.2,
      fun h => ⟨hv, (Nat.and_sub_one_eq_zero_iff_isPowerOfTwo hne).mpr h⟩⟩

/-- Only the three lowest bits are known flags. -/
theorem flags_within_iff (f : U32) :
    f &&& ~~~(M11_PF_R ||| M11_PF_W ||| M11_PF_X) = 0 ↔ f.toNat < 8 := by
  have hmask := and_highMask_toNat f (M11_PF_R ||| M11_PF_W ||| M11_PF_X) 3 (by decide)
  rw [← BitVec.toNat_inj, hmask]
  show f.toNat / 2 ^ 3 * 2 ^ 3 = 0 ↔ f.toNat < 8
  omega

/-- The two alignment checks of a segment. -/
theorem align_iff :
    (¬ (ph.pAlign ≠ 0 ∧ ph.pAlign ≠ 1 ∧ (!isPowerOfTwoU64 ph.pAlign) = true) ∧
      ¬ (ph.pAlign ≠ 0 ∧ ph.pAlign ≠ 1 ∧ ph.pVaddr % ph.pAlign ≠ ph.pOffset % ph.pAlign)) ↔
    (ph.pAlign.toNat = 0 ∨ ph.pAlign.toNat = 1 ∨
      ((∃ k, ph.pAlign.toNat = 2 ^ k) ∧
        ph.pVaddr.toNat % ph.pAlign.toNat = ph.pOffset.toNat % ph.pAlign.toNat)) := by
  have h0 : ph.pAlign = 0 ↔ ph.pAlign.toNat = 0 := by rw [← BitVec.toNat_inj]; rfl
  have h1 : ph.pAlign = 1 ↔ ph.pAlign.toNat = 1 := by rw [← BitVec.toNat_inj]; rfl
  have hmod : ph.pVaddr % ph.pAlign = ph.pOffset % ph.pAlign ↔
      ph.pVaddr.toNat % ph.pAlign.toNat = ph.pOffset.toNat % ph.pAlign.toNat := by
    rw [← BitVec.toNat_inj, BitVec.toNat_umod, BitVec.toNat_umod]
  rw [← isPowerOfTwo_iff, ← hmod, ← h0, ← h1, Bool.not_eq_true']
  -- the alignments 0 and 1 ask for nothing
  by_cases hzero : ph.pAlign = 0
  · exact iff_of_true ⟨fun h => h.1 hzero, fun h => h.1 hzero⟩ (Or.inl hzero)
  by_cases hone : ph.pAlign = 1
  · exact iff_of_true ⟨fun h => h.2.1 hone, fun h => h.2.1 hone⟩ (Or.inr (Or.inl hone))
  constructor
  · rintro ⟨hpow, hcong⟩
    exact Or.inr (Or.inr ⟨Bool.of_not_eq_false (fun h => hpow ⟨hzero, hone, h⟩),
      not_not.mp (fun h => hcong ⟨hzero, hone, h⟩)⟩)
  · rintro (h | h | ⟨hpow, hcong⟩)
    · exact absurd h hzero
    · exact absurd h hone
    · exact ⟨fun h => Bool.noConfusion (hpow.symm.trans h.2.2), fun h => h.2.2 hcong⟩

/-- A segment passes exactly when it can be placed. -/
theorem validateLoadSegment_iff :
    validateLoadSegment ph imageSize region = .ok () ↔
      WellFormedSegment ph imageSize region := by
  have hw : ph.pFlags &&& M11_PF_W ≠ 0 ↔ ph.pFlags.getLsbD 1 = true :=
    and_bit_ne_zero ph.pFlags 1 (by decide)
  have hx : ph.pFlags &&& M11_PF_X ≠ 0 ↔ ph.pFlags.getLsbD 0 = true :=
    and_bit_ne_zero ph.pFlags 0 (by decide)
  rw [validateLoadSegment]
  refine check_iff (fun hflags h => hflags ((flags_within_iff _).mpr h.flags)) (fun hflags => ?_)
  refine check_iff (fun hboth h => h.notBoth ⟨hw.mp hboth.1, hx.mp hboth.2⟩) (fun hboth => ?_)
  refine check_iff (fun hsz h => ?_) (fun hsz => ?_)
  · have hle := h.filesz
    bv_omega
  refine check_iff (fun hpow h => (align_iff.mpr h.align).1 hpow) (fun hpow => ?_)
  refine check_iff (fun hcong h => (align_iff.mpr h.align).2 hcong) (fun hcong => ?_)
  rcases addOverflow_cases ph.pOffset ph.pFilesz with ⟨heq, hsum⟩ | ⟨heq, hsum⟩
  · rw [heq]
    refine error_iff (fun h => ?_)
    have hfile := h.file
    bv_omega
  rw [heq]
  refine check_iff (fun hfile h => ?_) (fun hfile => ?_)
  · have hle := h.file
    bv_omega
  -- all checks but the last have passed
  rw [validateUserRange_iff]
  constructor
  · rintro ⟨hmem, hrange⟩
    exact ⟨(flags_within_iff _).mp (not_not.mp hflags),
      fun h => hboth ⟨hw.mpr h.1, hx.mpr h.2⟩, by bv_omega, hmem, by bv_omega, hrange,
      align_iff.mp ⟨hpow, hcong⟩⟩
  · exact fun h => ⟨h.memsz, h.range⟩

/-- The table of 56-byte entries passes exactly when it lies in the image. -/
theorem validatePhdrBounds_iff :
    validatePhdrBounds eh imageSize = .ok () ↔ eh.ePhentsize = 56 ∧ 0 < eh.ePhnum.toNat ∧
      eh.ePhoff.toNat + 56 * eh.ePhnum.toNat ≤ imageSize.toNat := by
  rw [validatePhdrBounds]
  refine check_iff (fun hnum => ?_) (fun hnum => ?_)
  · rintro ⟨-, hpos, -⟩
    rw [hnum] at hpos
    exact absurd hpos (by decide)
  refine check_iff (fun hent => ?_) (fun hent => ?_)
  · rintro ⟨heq, -⟩
    rw [heq] at hent
    exact hent rfl
  have hent' : eh.ePhentsize = 56 := BitVec.eq_of_toNat_eq (not_not.mp hent)
  have hlt := eh.ePhnum.isLt
  have hpos : 0 < eh.ePhnum.toNat := by bv_omega
  have hnum64 : (eh.ePhnum.setWidth 64 : U64).toNat = eh.ePhnum.toNat := by
    rw [BitVec.toNat_setWidth]
    omega
  have hbytes : (eh.ePhentsize.setWidth 64 * eh.ePhnum.setWidth 64 : U64).toNat =
      56 * eh.ePhnum.toNat := by
    rw [hent', BitVec.toNat_mul, hnum64]
    show 56 * eh.ePhnum.toNat % 2 ^ 64 = _
    omega
  -- 56 times a 16-bit count does not wrap, so the division check never fails
  have hdiv : ¬ (eh.ePhnum ≠ 0 ∧ eh.ePhentsize.setWidth 64 * eh.ePhnum.setWidth 64 /
      eh.ePhnum.setWidth 64 ≠ (eh.ePhentsize.setWidth 64 : U64)) := by
    rintro ⟨-, hne⟩
    apply hne
    apply BitVec.eq_of_toNat_eq
    rw [BitVec.toNat_udiv, hbytes, hnum64, Nat.mul_div_cancel _ hpos, hent']
    rfl
  simp only [if_neg hdiv]
  rcases addOverflow_cases eh.ePhoff (eh.ePhentsize.setWidth 64 * eh.ePhnum.setWidth 64) with
    ⟨heq, hsum⟩ | ⟨heq, hsum⟩
  · rw [heq]
    refine error_iff ?_
    rintro ⟨-, -, hle⟩
    have := imageSize.isLt
    omega
  · rw [heq]
    have hcond : (imageSize < eh.ePhoff + eh.ePhentsize.setWidth 64 * eh.ePhnum.setWidth 64 ∨
        imageSize < eh.ePhoff) ↔ imageSize.toNat < eh.ePhoff.toNat + 56 * eh.ePhnum.toNat := by
      rw [BitVec.lt_def, BitVec.lt_def, hsum, hbytes]
      omega
    simp only [hcond]
    rw [and_iff_right hent', and_iff_right hpos]
    exact check_iff Nat.not_le.mpr (fun hle => iff_of_true rfl (Nat.not_lt.mp hle))

/-- The identification bytes and the two versions. -/
theorem validateIdent_iff :
    validateIdent eh = .ok () ↔
      (eh.mag0 = 0x7f ∧ eh.mag1 = 0x45 ∧ eh.mag2 = 0x4c ∧ eh.mag3 = 0x46) ∧
      eh.identClass = 2 ∧ eh.identData = 1 ∧ eh.identVersion = 1 ∧ eh.eVersion = 1 := by
  have hv8 : eh.identVersion.toNat = M11_EV_CURRENT ↔ eh.identVersion = 1 := by
    rw [← BitVec.toNat_inj]; rfl
  have hv32 : eh.eVersion.toNat = M11_EV_CURRENT ↔ eh.eVersion = 1 := by
    rw [← BitVec.toNat_inj]; rfl
  rw [validateIdent]
  refine check_iff ?_ (fun hmag => ?_)
  · rintro (h | h | h | h) ⟨⟨h0, h1, h2, h3⟩, -⟩
    · exact h h0
    · exact h h1
    · exact h h2
    · exact h h3
  refine check_iff (fun hclass h => hclass h.2.1) (fun hclass => ?_)
  refine check_iff (fun hdata h => hdata h.2.2.1) (fun hdata => ?_)
  refine check_iff ?_ (fun hversion => ?_)
  · rintro (h | h) ⟨-, -, -, h8, h32⟩
    · exact h (hv8.mpr h8)
    · exact h (hv32.mpr h32)
  simp only [not_or, not_not] at hmag hclass hdata hversion
  exact iff_of_true rfl ⟨hmag, hclass, hdata, hv8.mp hversion.1, hv32.mp hversion.2⟩

/-- **THE HEADER CHECKS** together. -/
theorem validateHeader_iff :
    validateHeader eh imageSize region = .ok () ↔ WellFormedHeader eh ∧
      (eh.ePhentsize = 56 ∧ 0 < eh.ePhnum.toNat ∧
        eh.ePhoff.toNat + 56 * eh.ePhnum.toNat ≤ imageSize.toNat) ∧
      InRegion region eh.eEntry.toNat 1 := by
  have hentry : m11ValidateUserRange region eh.eEntry 1 = .ok () ↔
      InRegion region eh.eEntry.toNat 1 := by
    rw [validateUserRange_iff]
    exact and_iff_right (by decide)
  have hehsize : eh.eEhsize.toNat = EHDR_SIZE ↔ eh.eEhsize = 64 := by
    rw [← BitVec.toNat_inj]; rfl
  rw [validateHeader]
  cases hident : validateIdent eh with
  | error e =>
      refine error_iff ?_
      rintro ⟨hh, -⟩
      rw [validateIdent_iff.mpr ⟨hh.magic, hh.elfClass, hh.endian, hh.version⟩] at hident
      cases hident
  | ok u =>
      obtain ⟨hmagic, hclass, hdata, hversion⟩ := validateIdent_iff.mp hident
      refine check_iff ?_ (fun htype => ?_)
      · rintro ⟨hexec, hdyn⟩ ⟨hh, -⟩
        rcases hh.type with h | h
        · exact hexec h
        · exact hdyn h
      refine check_iff (fun hmach h => hmach h.1.machine) (fun hmach => ?_)
      refine check_iff (fun heh h => heh (hehsize.mpr h.1.ehsize)) (fun heh => ?_)
      -- the fields are right, and the table and the entry point are left
      rw [← validatePhdrBounds_iff, ← hentry]
      have hheader : WellFormedHeader eh :=
        ⟨hmagic, hclass, hdata, hversion, or_iff_not_and_not.mpr htype, not_not.mp hmach,
          hehsize.mp (not_not.mp heh)⟩
      cases validatePhdrBounds eh imageSize with
      | error e => exact error_iff (fun h => by cases h.2.1)
      | ok u =>
          cases m11ValidateUserRange region eh.eEntry 1 with
          | error e => exact error_iff (fun h => by cases h.2.2)
          | ok u => exact iff_of_true rfl ⟨hheader, rfl, rfl⟩

end ElfFormat
