import Mcsos.TrapModel

/-! # The descriptor table routes every vector

    The packed entry that `x86_64_idt_set_gate` fills in is read back by the
    processor bit for bit (`readGate_setGate`), so the table after `kmain` is known
    for each of the 256 vectors, whatever it held before. -/

namespace Idt

open Word Loop PicModel TrapModel

/-! ## One entry -/

section Entry

variable (e : IdtEntry)

/-- A field of the packed entry, in the bits of the descriptor. -/
theorem descriptor_offsetLow : e.descriptor.extractLsb' 0 16 = e.offsetLow :=
  BitVec.extractLsb'_append_eq_right

/-- Bits 16 to 31 are the selector. -/
theorem descriptor_selector : e.descriptor.extractLsb' 16 16 = e.selector := by
  refine (BitVec.extractLsb'_append_eq_of_le (Nat.le_refl 16)).trans ?_
  exact BitVec.extractLsb'_append_eq_right

/-- Bits 32 to 34 are the stack index. -/
theorem descriptor_ist : e.descriptor.extractLsb' 32 3 = e.ist.extractLsb' 0 3 := by
  refine (BitVec.extractLsb'_append_eq_of_le (by omega)).trans ?_
  refine (BitVec.extractLsb'_append_eq_of_le (Nat.le_refl 16)).trans ?_
  exact BitVec.extractLsb'_append_eq_of_add_le (by omega)

/-- The upper half of the descriptor's first eight bytes. -/
theorem descriptor_high {start len : Nat} (h : 40 ≤ start) :
    e.descriptor.extractLsb' start len
      = (e.zero ++ e.offsetHigh ++ e.offsetMid ++ e.typeAttr).extractLsb' (start - 40) len := by
  refine (BitVec.extractLsb'_append_eq_of_le (by omega)).trans ?_
  refine (BitVec.extractLsb'_append_eq_of_le (by omega)).trans ?_
  refine (BitVec.extractLsb'_append_eq_of_le (by omega)).trans ?_
  rw [Nat.sub_sub, Nat.sub_sub]

/-- The bits of `type_attr`. -/
theorem descriptor_typeAttr {start len : Nat} (h : 40 ≤ start) (hlen : start + len ≤ 48) :
    e.descriptor.extractLsb' start len = e.typeAttr.extractLsb' (start - 40) len := by
  rw [descriptor_high e h]
  exact BitVec.extractLsb'_append_eq_of_add_le (by omega)

/-- Bits 48 to 63 are the middle of the offset. -/
theorem descriptor_offsetMid : e.descriptor.extractLsb' 48 16 = e.offsetMid := by
  rw [descriptor_high e (by omega)]
  refine (BitVec.extractLsb'_append_eq_of_le (Nat.le_refl 8)).trans ?_
  exact BitVec.extractLsb'_append_eq_right

/-- Bits 64 to 95 are the upper half of the offset. -/
theorem descriptor_offsetHigh : e.descriptor.extractLsb' 64 32 = e.offsetHigh := by
  rw [descriptor_high e (by omega)]
  refine (BitVec.extractLsb'_append_eq_of_le (by omega)).trans ?_
  refine (BitVec.extractLsb'_append_eq_of_le (Nat.le_refl 16)).trans ?_
  exact BitVec.extractLsb'_append_eq_right

/-- Bit 47 says that the gate is present. -/
theorem descriptor_present : e.descriptor.getLsbD 47 = e.typeAttr.getLsbD 7 := by
  have hattr : e.descriptor.extractLsb' 47 1 = e.typeAttr.extractLsb' 7 1 :=
    descriptor_typeAttr e (by omega) (by omega)
  have hbit := congrArg (fun b => b.getLsbD 0) hattr
  simpa using hbit

end Entry

/-! ## One gate -/

/-- A part of an address, cut out with a shift, a mask and a conversion. -/
theorem part_eq_extract (h mask : U64) (k w : Nat) (hmask : mask.setWidth w = BitVec.allOnes w) :
    ((h >>> k) &&& mask).setWidth w = h.extractLsb' k w := by
  rw [BitVec.setWidth_and, hmask, BitVec.and_allOnes]
  ext i hi
  simp

/-- The three parts of an address, put together again. -/
theorem offset_parts (h : U64) :
    (((h >>> 32) &&& 0xFFFFFFFF).setWidth 32 ++ ((h >>> 16) &&& 0xFFFF).setWidth 16 ++
      (h &&& 0xFFFF).setWidth 16 : BitVec (32 + 16 + 16)) = h := by
  have hlow := part_eq_extract h 0xFFFF 0 16 rfl
  rw [BitVec.ushiftRight_zero] at hlow
  rw [part_eq_extract h 0xFFFFFFFF 32 32 rfl, part_eq_extract h 0xFFFF 16 16 rfl, hlow,
    BitVec.extractLsb'_append_extractLsb'_eq_extractLsb' (by rfl),
    BitVec.extractLsb'_append_extractLsb'_eq_extractLsb' (by rfl)]
  exact BitVec.extractLsb'_eq_self

/-- What the attributes make of a gate to `handler`. -/
def gateFor (cs : U16) (handler : U64) (typeAttr : U8) : Option Gate :=
  if typeAttr.getLsbD 7 = false then none
  else if typeAttr.extractLsb' 0 5 = 0x0E then
    some ⟨.interrupt, handler, cs, 0, typeAttr.extractLsb' 5 2⟩
  else if typeAttr.extractLsb' 0 5 = 0x0F then
    some ⟨.trap, handler, cs, 0, typeAttr.extractLsb' 5 2⟩
  else none

/-- **READ BACK**: the processor finds in the entry what the gate was set to. -/
theorem readGate_setGate (cs : U16) (idt : TrapModel.Idt) (v : U8) (handler : U64)
    (typeAttr : U8) :
    readGate (x86_64IdtSetGate cs idt v handler typeAttr v).descriptor
      = gateFor cs handler typeAttr := by
  have hkind (e : IdtEntry) : e.descriptor.extractLsb' 40 5 = e.typeAttr.extractLsb' 0 5 :=
    descriptor_typeAttr e (by omega) (by omega)
  have hdpl (e : IdtEntry) : e.descriptor.extractLsb' 45 2 = e.typeAttr.extractLsb' 5 2 :=
    descriptor_typeAttr e (by omega) (by omega)
  rw [x86_64IdtSetGate, Function.update_self, readGate, gateFor]
  simp only [descriptor_present, hkind, hdpl, descriptor_offsetLow, descriptor_selector,
    descriptor_ist, descriptor_offsetMid, descriptor_offsetHigh, offset_parts]
  rfl

/-- Setting one gate leaves the others alone. -/
theorem setGate_of_ne (cs : U16) (idt : TrapModel.Idt) {v w : U8} (handler : U64)
    (typeAttr : U8) (h : w ≠ v) : x86_64IdtSetGate cs idt v handler typeAttr w = idt w :=
  Function.update_of_ne h ..

/-! ## The table -/

/-- A loop that sets the gates of the vectors below `n`. -/
theorem forN_setGate (cs : U16) (handler : Nat → U64) (typeAttr : Nat → U8) {n : Nat}
    (hn : n ≤ 256) (idt : TrapModel.Idt) (v : U8) :
    readGate (forN (fun i idt =>
      x86_64IdtSetGate cs idt (BitVec.ofNat 8 i) (handler i) (typeAttr i)) n idt v).descriptor
      = if v.toNat < n then gateFor cs (handler v.toNat) (typeAttr v.toNat)
        else readGate (idt v).descriptor := by
  induction n with
  | zero => rw [if_neg (Nat.not_lt_zero _), forN]
  | succ n ih =>
      rw [forN]
      by_cases hv : v = BitVec.ofNat 8 n
      · have hval : v.toNat = n := by rw [hv, BitVec.toNat_ofNat]; omega
        rw [← hv, readGate_setGate, if_pos (by omega), hval]
      · have hval : v.toNat ≠ n := by bv_omega
        rw [setGate_of_ne _ _ _ _ hv, ih (by omega)]
        by_cases hlt : v.toNat < n
        · rw [if_pos hlt, if_pos (by omega)]
        · rw [if_neg hlt, if_neg (by omega)]

/-- The gate of a vector that has a stub: vector 3 is a trap gate for every ring. -/
def stubGate (image : Image) (cs : U16) (v : U8) : Gate where
  kind := if v = 3 then .trap else .interrupt
  offset := image.isrStubTable v.toNat
  selector := cs
  ist := 0
  dpl := if v = 3 then 3 else 0

/-- After `x86_64_idt_init` the first 48 gates lead to their stubs, and no other is present. -/
theorem idtInit_gate (cs : U16) (stubs : Nat → U64) (idt : TrapModel.Idt) (v : U8) :
    readGate (x86_64IdtInit cs stubs idt v).descriptor
      = if v.toNat < 48 then gateFor cs (stubs v.toNat)
          (if v.toNat = 3 then X86_64_IDT_GATE_TRAP else X86_64_IDT_GATE_INTERRUPT)
        else none := by
  -- the second loop writes the vectors with a stub, the first one all of them
  refine (forN_setGate cs stubs _ (by omega) _ v).trans ?_
  by_cases hv : v.toNat < 48
  · rw [if_pos hv, if_pos hv]
  · rw [if_neg hv, if_neg hv]
    refine (forN_setGate cs (fun _ => 0) (fun _ => 0) (Nat.le_refl 256) idt v).trans ?_
    rw [if_pos v.isLt]
    rfl

/-- The kernel's table, with the gate of the system calls. -/
theorem kernelIdt_gate (image : Image) (cs : U16) (idt : TrapModel.Idt) (v : U8) :
    readGate (kernelIdt image cs idt v).descriptor
      = if v.toNat < 48 then some (stubGate image cs v)
        else if v = 0x80 then some ⟨.interrupt, image.int80Stub, cs, 0, 0⟩
        else none := by
  rw [kernelIdt]
  by_cases h80 : v = 0x80
  · rw [h80, readGate_setGate]
    rfl
  · rw [setGate_of_ne _ _ _ _ h80, idtInit_gate, if_neg h80]
    by_cases hv : v.toNat < 48
    · rw [if_pos hv, if_pos hv, stubGate]
      by_cases h3 : v = 3
      · rw [h3]
        rfl
      · rw [if_neg (show v.toNat ≠ 3 from fun h => h3 (BitVec.eq_of_toNat_eq h)), if_neg h3,
          if_neg h3]
        rfl
    · rw [if_neg hv, if_neg hv]

/-- **ROUTES**: after `kmain` the vectors below 48 lead to their own stubs and vector 0x80
    leads to the system call stub, on the kernel's code segment and without an interrupt
    stack; every other vector is a fault, whatever the table held before.  Code in ring 3
    can raise vector 3 and no other: the gate of the system calls is not open to it. -/
theorem kernel_idt_routes (image : Image) (cs : U16) (idt : TrapModel.Idt) (v : U8) :
    (readGate (kernelIdt image cs idt v).descriptor
      = if v.toNat < 48 then some (stubGate image cs v)
        else if v = 0x80 then some ⟨.interrupt, image.int80Stub, cs, 0, 0⟩
        else none) ∧
    ((∃ gate, readGate (kernelIdt image cs idt v).descriptor = some gate ∧ gate.dpl = 3)
      ↔ v = 3) := by
  refine ⟨kernelIdt_gate image cs idt v, ?_⟩
  rw [kernelIdt_gate]
  constructor
  · rintro ⟨gate, hgate, hdpl⟩
    by_cases hv : v.toNat < 48
    · rw [if_pos hv] at hgate
      cases hgate
      -- every stub's gate but the breakpoint's is for ring 0
      by_contra h3
      have hring : (0 : BitVec 2) = 3 := (if_neg h3).symm.trans hdpl
      exact absurd hring (by decide)
    · rw [if_neg hv] at hgate
      by_cases h80 : v = 0x80
      · rw [if_pos h80] at hgate
        cases hgate
        have hring : (0 : BitVec 2) = 3 := hdpl
        exact absurd hring (by decide)
      · rw [if_neg h80] at hgate
        cases hgate
  · intro h3
    refine ⟨stubGate image cs v, ?_, if_pos h3⟩
    rw [h3]
    rfl

end Idt
