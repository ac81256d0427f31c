import Mcsos.ReadLogProofs

/-! # The ELF planner, as `kernel/user/m11_elf_loader.c` computes it

    An image is a byte string without an end: what lies behind `image_size`
    is somebody else's memory, and the planner could read it.  Reading is
    through `Reading`, which records every position.  The image and plan
    pointers are always there, so `M11_ERR_NULL` has no counterpart.

    A header is read as a record of the fields the planner looks at, at the
    offsets of the C structures. -/

namespace ElfModel

open Word ReadLog

/-- `uint16_t`. -/
abbrev U16 := BitVec 16

/-- The four bytes that an ELF image starts with. -/
def M11_ELFMAG0 : U8 := 0x7f
/-- `'E'`. -/
def M11_ELFMAG1 : U8 := 0x45
/-- `'L'`. -/
def M11_ELFMAG2 : U8 := 0x4c
/-- `'F'`. -/
def M11_ELFMAG3 : U8 := 0x46
/-- `ELFCLASS64`: only 64-bit images are taken. -/
def M11_ELFCLASS64 : U8 := 2
/-- `ELFDATA2LSB`: and only little-endian ones. -/
def M11_ELFDATA2LSB : U8 := 1
/-- The version that both version fields must have. -/
def M11_EV_CURRENT : Nat := 1
/-- The type of an image with fixed addresses. -/
def M11_ET_EXEC : U16 := 2
/-- The type of an image that can be moved. -/
def M11_ET_DYN : U16 := 3
/-- The machine the image must be for. -/
def M11_EM_X86_64 : U16 := 62
/-- The type of the program headers that are loaded. -/
def M11_PT_LOAD : U32 := 1
/-- The segment may be executed. -/
def M11_PF_X : U32 := 1
/-- The segment may be written. -/
def M11_PF_W : U32 := 2
/-- The segment may be read. -/
def M11_PF_R : U32 := 4
/-- The length of `segments` in a plan. -/
def M11_MAX_LOAD_SEGMENTS : Nat := 8
/-- `sizeof(struct m11_elf64_ehdr)`. -/
def EHDR_SIZE : Nat := 64
/-- `sizeof(struct m11_elf64_phdr)`. -/
def PHDR_SIZE : Nat := 56

/-- The failures; `M11_OK` is `Except.ok`. -/
inductive ElfErr where
  | size
  | magic
  | class64
  | endian
  | version
  | type
  | machine
  | ehsize
  | phentsize
  | phbounds
  | align
  | segbounds
  | segrange
  | segcount
  | entry
  | flags
deriving DecidableEq, Repr

/-- `m11_elf_error_t` of a check: 0 or an error. -/
abbrev ElfResult := Except ElfErr Unit

/-- `struct m11_elf64_ehdr`; of `e_ident` the first seven bytes. -/
structure Ehdr where
  mag0 : U8
  mag1 : U8
  mag2 : U8
  mag3 : U8
  identClass : U8
  identData : U8
  identVersion : U8
  eType : U16
  eMachine : U16
  eVersion : U32
  eEntry : U64
  ePhoff : U64
  eEhsize : U16
  ePhentsize : U16
  ePhnum : U16
deriving DecidableEq, Repr

/-- `struct m11_elf64_phdr`. -/
structure Phdr where
  pType : U32
  pFlags : U32
  pOffset : U64
  pVaddr : U64
  pFilesz : U64
  pMemsz : U64
  pAlign : U64
deriving DecidableEq, Repr

/-- `struct m11_user_region`. -/
structure UserRegion where
  base : U64
  limit : U64
deriving DecidableEq, Repr

/-- `struct m11_segment_plan`. -/
structure SegmentPlan where
  fileOffset : U64
  vaddr : U64
  filesz : U64
  memsz : U64
  align : U64
  flags : U32
deriving DecidableEq, Repr

/-- `struct m11_process_image_plan`; the array has the entries below `M11_MAX_LOAD_SEGMENTS`. -/
structure Plan where
  entry : U64
  segmentCount : U32
  segments : Nat → SegmentPlan

/-- `m11_zero_plan`. -/
def zeroPlan (plan : Plan) : Plan where
  entry := 0
  segmentCount := 0
  segments := fun i =>
    if i < M11_MAX_LOAD_SEGMENTS then ⟨0, 0, 0, 0, 0, 0⟩ else plan.segments i

/-- A field of `k` bytes at position `i`, as a word of `w` bits. -/
def field (w k i : Nat) : Reading (BitVec w) := do
  return BitVec.ofNat w (← word k i)

/-- Read the file header, field by field, at the offsets of `Elf64_Ehdr`. -/
def readEhdr : Reading Ehdr := do
  let mag0 ← field 8 1 0
  let mag1 ← field 8 1 1
  let mag2 ← field 8 1 2
  let mag3 ← field 8 1 3
  let identClass ← field 8 1 4
  let identData ← field 8 1 5
  let identVersion ← field 8 1 6
  let eType ← field 16 2 16
  let eMachine ← field 16 2 18
  let eVersion ← field 32 4 20
  let eEntry ← field 64 8 24
  let ePhoff ← field 64 8 32
  let eEhsize ← field 16 2 52
  let ePhentsize ← field 16 2 54
  let ePhnum ← field 16 2 56
  return { mag0, mag1, mag2, mag3, identClass, identData, identVersion, eType, eMachine, eVersion,
           eEntry, ePhoff, eEhsize, ePhentsize, ePhnum }

/-- The program header at position `at_`. -/
def readPhdr (at_ : Nat) : Reading Phdr := do
  let pType ← field 32 4 at_
  let pFlags ← field 32 4 (at_ + 4)
  let pOffset ← field 64 8 (at_ + 8)
  let pVaddr ← field 64 8 (at_ + 16)
  let pFilesz ← field 64 8 (at_ + 32)
  let pMemsz ← field 64 8 (at_ + 40)
  let pAlign ← field 64 8 (at_ + 48)
  return { pType, pFlags, pOffset, pVaddr, pFilesz, pMemsz, pAlign }

/-- `m11_add_overflow_u64`: the sum, or `none` if it wraps. -/
def addOverflowU64 (a b : U64) : Option U64 := if a + b < a then none else some (a + b)

/-- `is_power_of_two_u64`. -/
def isPowerOfTwoU64 (v : U64) : Bool := v ≠ 0 && (v &&& (v - 1)) == 0

/-- `m11_validate_user_range`: a range that is not empty, does not wrap and lies in the region. -/
def m11ValidateUserRange (region : UserRegion) (base size : U64) : ElfResult :=
  if region.limit ≤ region.base then .error .segrange
  else if size = 0 then .error .segrange
  else
    match addOverflowU64 base size with
    | none => .error .segrange
    | some fin =>
        if base < region.base ∨ region.limit < fin ∨ fin ≤ base then .error .segrange
        else .ok ()

/-- `validate_ident`: magic bytes, class, byte order and versions, in this order. -/
def validateIdent (eh : Ehdr) : ElfResult :=
  if eh.mag0 ≠ M11_ELFMAG0 ∨ eh.mag1 ≠ M11_ELFMAG1 ∨ eh.mag2 ≠ M11_ELFMAG2 ∨
      eh.mag3 ≠ M11_ELFMAG3 then .error .magic
  else if eh.identClass ≠ M11_ELFCLASS64 then .error .class64
  else if eh.identData ≠ M11_ELFDATA2LSB then .error .endian
  else if eh.identVersion.toNat ≠ M11_EV_CURRENT ∨ eh.eVersion.toNat ≠ M11_EV_CURRENT then
    .error .version
  else .ok ()

/-- `validate_phdr_bounds`: the table of program headers lies in the image. -/
def validatePhdrBounds (eh : Ehdr) (imageSize : U64) : ElfResult :=
  if eh.ePhnum = 0 then .error .phbounds
  else if eh.ePhentsize.toNat ≠ PHDR_SIZE then .error .phentsize
  else
    let phTableBytes : U64 := eh.ePhentsize.setWidth 64 * eh.ePhnum.setWidth 64
    if eh.ePhnum ≠ 0 ∧ phTableBytes / eh.ePhnum.setWidth 64 ≠ eh.ePhentsize.setWidth 64 then
      .error .phbounds
    else
      match addOverflowU64 eh.ePhoff phTableBytes with
      | none => .error .phbounds
      | some phEnd =>
          if imageSize < phEnd ∨ imageSize < eh.ePhoff then .error .phbounds else .ok ()

/-- `validate_load_segment`: flags, sizes, alignment, file range and address range, in this
    order. -/
def validateLoadSegment (ph : Phdr) (imageSize : U64) (region : UserRegion) : ElfResult :=
  if ph.pFlags &&& ~~~(M11_PF_R ||| M11_PF_W ||| M11_PF_X) ≠ 0 then .error .flags
  else if ph.pFlags &&& M11_PF_W ≠ 0 ∧ ph.pFlags &&& M11_PF_X ≠ 0 then .error .flags
  else if ph.pMemsz < ph.pFilesz then .error .segbounds
  else if ph.pAlign ≠ 0 ∧ ph.pAlign ≠ 1 ∧ !isPowerOfTwoU64 ph.pAlign then .error .align
  else if ph.pAlign ≠ 0 ∧ ph.pAlign ≠ 1 ∧ ph.pVaddr % ph.pAlign ≠ ph.pOffset % ph.pAlign then
    .error .align
  else
    match addOverflowU64 ph.pOffset ph.pFilesz with
    | none => .error .segbounds
    | some fileEnd =>
        if imageSize < fileEnd ∨ imageSize < ph.pOffset then .error .segbounds
        else m11ValidateUserRange region ph.pVaddr ph.pMemsz

/-- What the plan keeps of a program header. -/
def segmentOf (ph : Phdr) : SegmentPlan where
  fileOffset := ph.pOffset
  vaddr := ph.pVaddr
  filesz := ph.pFilesz
  memsz := ph.pMemsz
  align := ph.pAlign
  flags := ph.pFlags

/-- Write the next segment of the plan. -/
def addSegment (plan : Plan) (ph : Phdr) : Plan :=
  { plan with
    segments := fun i => if i = plan.segmentCount.toNat then segmentOf ph else plan.segments i
    segmentCount := plan.segmentCount + 1 }

/-- The body of the loop for one program header; an error ends it. -/
def planHeader (imageSize : U64) (region : UserRegion) (plan : Plan) (ph : Phdr) :
    ElfResult × Plan :=
  if ph.pType ≠ M11_PT_LOAD then (.ok (), plan)
  else if M11_MAX_LOAD_SEGMENTS ≤ plan.segmentCount.toNat then (.error .segcount, zeroPlan plan)
  else
    match validateLoadSegment ph imageSize region with
    | .error e => (.error e, zeroPlan plan)
    | .ok () => (.ok (), addSegment plan ph)

/-- `for (i = 0; i < e_phnum; ++i)` with `n` rounds to go, the next header at `at_`. -/
def planLoop (imageSize : U64) (region : UserRegion) : Nat → Nat → Plan →
    Reading (ElfResult × Plan)
  | 0, _, plan => pure (.ok (), plan)
  | n + 1, at_, plan => do
      let ph ← readPhdr at_
      match planHeader imageSize region plan ph with
      | (.error e, plan) => pure (.error e, plan)
      | (.ok (), plan) => planLoop imageSize region n (at_ + PHDR_SIZE) plan

/-- The checks between reading the header and looking at the program headers. -/
def validateHeader (eh : Ehdr) (imageSize : U64) (region : UserRegion) : ElfResult :=
  match validateIdent eh with
  | .error e => .error e
  | .ok () =>
      if eh.eType ≠ M11_ET_EXEC ∧ eh.eType ≠ M11_ET_DYN then .error .type
      else if eh.eMachine ≠ M11_EM_X86_64 then .error .machine
      else if eh.eEhsize.toNat ≠ EHDR_SIZE then .error .ehsize
      else
        match validatePhdrBounds eh imageSize with
        | .error e => .error e
        | .ok () =>
            match m11ValidateUserRange region eh.eEntry 1 with
            | .error _ => .error .entry
            | .ok () => .ok ()

/-- The end of `m11_elf64_plan_load`: a plan without segments is refused. -/
def finishPlan : ElfResult × Plan → ElfResult × Plan
  | (.error e, plan) => (.error e, plan)
  | (.ok (), plan) =>
      if plan.segmentCount = 0 then (.error .segcount, plan) else (.ok (), plan)

/-- `m11_elf64_plan_load`: the plan is cleared, filled as the headers are read, and cleared again
    at a header that is refused. -/
def m11Elf64PlanLoad (imageSize : U64) (region : UserRegion) (outPlan : Plan) :
    Reading (ElfResult × Plan) := do
  let plan := zeroPlan outPlan
  if imageSize.toNat < EHDR_SIZE then return (.error .size, plan)
  let eh ← readEhdr
  match validateHeader eh imageSize region with
  | .error e => return (.error e, plan)
  | .ok () =>
      let loaded ← planLoop imageSize region eh.ePhnum.toNat eh.ePhoff.toNat
        { plan with entry := eh.eEntry }
      return finishPlan loaded

end ElfModel
