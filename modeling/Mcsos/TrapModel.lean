import Mcsos.LogModel
import Mcsos.StackProofs
import Mcsos.LoopProofs

/-! # Interrupts, from the gate to `iretq`

    `kernel/arch/x86_64/idt.c` fills the descriptor table, the stubs of `isr.S`
    build a frame on the stack and call `x86_64_trap_dispatch` of
    `kernel/core/trap.c`, and `syscall_entry.S` does the same for vector 0x80.

    The processor's part is modelled beside the code: how it reads a gate, what it
    pushes and what `iretq` pops.  The kernel runs in ring 0 only and no gate names
    an interrupt stack, so the frame is always built on the interrupted stack. -/

namespace TrapModel

open Word Loop ByteMemory Stack PicModel LogModel

/-! ## The descriptor table -/

/-- The length of the table. -/
def X86_64_IDT_VECTOR_COUNT : Nat := 256
/-- Present, from ring 0 only, interrupts off. -/
def X86_64_IDT_GATE_INTERRUPT : U8 := 0x8E
/-- Present, open to ring 3, interrupts stay on. -/
def X86_64_IDT_GATE_TRAP : U8 := 0xEF

/-- `struct x86_64_idt_entry_t`. -/
structure IdtEntry where
  offsetLow : U16
  selector : U16
  ist : U8
  typeAttr : U8
  offsetMid : U16
  offsetHigh : U32
  zero : U32
deriving DecidableEq, Repr, Inhabited

/-- The sixteen bytes of the packed entry. -/
def IdtEntry.descriptor (e : IdtEntry) : BitVec 128 :=
  e.zero ++ e.offsetHigh ++ e.offsetMid ++ e.typeAttr ++ e.ist ++ e.selector ++ e.offsetLow

/-- The table, by vector. -/
abbrev Idt := U8 → IdtEntry

/-- `cs` is what `x86_64_read_cs` gives. -/
def x86_64IdtSetGate (cs : U16) (idt : Idt) (vector : U8) (handler : U64) (typeAttr : U8) : Idt :=
  Function.update idt vector
    { offsetLow := (handler &&& 0xFFFF).setWidth 16
      selector := cs
      ist := 0
      typeAttr := typeAttr
      offsetMid := ((handler >>> 16) &&& 0xFFFF).setWidth 16
      offsetHigh := ((handler >>> 32) &&& 0xFFFFFFFF).setWidth 32
      zero := 0 }

/-- `x86_64_idt_init`: every gate is cleared, then the first 48 get their stubs. -/
def x86_64IdtInit (cs : U16) (isrStubTable : Nat → U64) (idt : Idt) : Idt :=
  let idt := forN (fun i idt => x86_64IdtSetGate cs idt (BitVec.ofNat 8 i) 0 0)
    X86_64_IDT_VECTOR_COUNT idt
  forN (fun vector idt =>
    let gateType := if vector = 3 then X86_64_IDT_GATE_TRAP else X86_64_IDT_GATE_INTERRUPT
    x86_64IdtSetGate cs idt (BitVec.ofNat 8 vector) (isrStubTable vector) gateType) 48 idt

/-- What the processor does with the interrupt flag. -/
inductive GateKind where
  | interrupt
  | trap
deriving DecidableEq, Repr

/-- What a present gate tells the processor. -/
structure Gate where
  kind : GateKind
  offset : U64
  selector : U16
  ist : BitVec 3
  dpl : BitVec 2
deriving DecidableEq, Repr

/-- The processor's reading of the sixteen bytes; anything but a present interrupt or
    trap gate is a fault. -/
def readGate (d : BitVec 128) : Option Gate :=
  let gate (kind : GateKind) : Gate :=
    { kind
      offset := d.extractLsb' 64 32 ++ d.extractLsb' 48 16 ++ d.extractLsb' 0 16
      selector := d.extractLsb' 16 16
      ist := d.extractLsb' 32 3
      dpl := d.extractLsb' 45 2 }
  if d.getLsbD 47 = false then none
  else if d.extractLsb' 40 5 = 0x0E then some (gate .interrupt)
  else if d.extractLsb' 40 5 = 0x0F then some (gate .trap)
  else none

/-! ## The handler -/

/-- `x86_64_trap_frame_t`. -/
structure TrapFrame where
  r15 : U64
  r14 : U64
  r13 : U64
  r12 : U64
  r11 : U64
  r10 : U64
  r9 : U64
  r8 : U64
  rsi : U64
  rdi : U64
  rbp : U64
  rdx : U64
  rcx : U64
  rbx : U64
  rax : U64
  vector : U64
  errorCode : U64
  rip : U64
  cs : U64
  rflags : U64
deriving DecidableEq, Repr

/-- `*frame`, for a frame at `p`. -/
def frameAt (m : Mem) (p : U64) : TrapFrame where
  r15 := load64 m (p + words 0)
  r14 := load64 m (p + words 1)
  r13 := load64 m (p + words 2)
  r12 := load64 m (p + words 3)
  r11 := load64 m (p + words 4)
  r10 := load64 m (p + words 5)
  r9 := load64 m (p + words 6)
  r8 := load64 m (p + words 7)
  rsi := load64 m (p + words 8)
  rdi := load64 m (p + words 9)
  rbp := load64 m (p + words 10)
  rdx := load64 m (p + words 11)
  rcx := load64 m (p + words 12)
  rbx := load64 m (p + words 13)
  rax := load64 m (p + words 14)
  vector := load64 m (p + words 15)
  errorCode := load64 m (p + words 16)
  rip := load64 m (p + words 17)
  cs := load64 m (p + words 18)
  rflags := load64 m (p + words 19)

/-- `exception_names`. -/
def exceptionNames : List String :=
  [ "#DE Divide Error", "#DB Debug", "NMI Interrupt", "#BP Breakpoint", "#OF Overflow",
    "#BR Bound Range Exceeded", "#UD Invalid Opcode", "#NM Device Not Available",
    "#DF Double Fault", "Coprocessor Segment Overrun", "#TS Invalid TSS",
    "#NP Segment Not Present", "#SS Stack Segment Fault", "#GP General Protection Fault",
    "#PF Page Fault", "Reserved", "#MF x87 Floating-Point Exception", "#AC Alignment Check",
    "#MC Machine Check", "#XM SIMD Floating-Point Exception", "#VE Virtualization Exception",
    "#CP Control Protection Exception", "Reserved", "Reserved", "Reserved", "Reserved",
    "Reserved", "Reserved", "#HV Hypervisor Injection Exception",
    "#VC VMM Communication Exception", "#SX Security Exception", "Reserved" ]

/-- `trap_name`. -/
def trapName (vector : U64) : String :=
  if vector < 32 then exceptionNames.getD vector.toNat ""
  else "external-or-user-defined-interrupt"

/-- `log_trap_frame`. -/
def logTrapFrame (frame : TrapFrame) : List U8 :=
  logKeyValueHex64 "trap_vector" frame.vector ++
  logKeyValueHex64 "trap_error" frame.errorCode ++
  logKeyValueHex64 "trap_rip" frame.rip ++
  logKeyValueHex64 "trap_cs" frame.cs ++
  logKeyValueHex64 "trap_rflags" frame.rflags ++
  logKeyValueHex64 "trap_rax" frame.rax ++
  logKeyValueHex64 "trap_rbx" frame.rbx ++
  logKeyValueHex64 "trap_rcx" frame.rcx ++
  logKeyValueHex64 "trap_rdx" frame.rdx

/-- A line of the decoded error code. -/
def pageFaultBit (errorCode : U64) (i : Nat) (name yes no : String) : List U8 :=
  logWrite (text name) ++
  logWrite (text (if errorCode &&& ((1 : U64) <<< i) ≠ 0 then yes else no)) ++ logPutc NEWLINE

/-- `ptr` is the address of the frame, which is 160 bytes long. -/
def pageFaultDump (cr2 ptr : U64) (frame : TrapFrame) : List U8 :=
  logWriteln (text "[M7] #PF page fault diagnostics:") ++
  logKeyValueHex64 "pf_cr2" cr2 ++
  logKeyValueHex64 "pf_error_code" frame.errorCode ++
  logKeyValueHex64 "pf_rip" frame.rip ++
  logKeyValueHex64 "pf_rsp_est" (ptr + 160) ++
  pageFaultBit frame.errorCode 0 "[M7] pf_present=" "1(protection)" "0(non-present)" ++
  pageFaultBit frame.errorCode 1 "[M7] pf_write=" "1(write)" "0(read)" ++
  pageFaultBit frame.errorCode 2 "[M7] pf_user=" "1(user)" "0(supervisor)" ++
  pageFaultBit frame.errorCode 3 "[M7] pf_rsvd=" "1(reserved-bit-set)" "0" ++
  pageFaultBit frame.errorCode 4 "[M7] pf_id=" "1(instruction-fetch)" "0(data-access)"

/-- `trap_count`, what has been logged, and the devices. -/
structure TrapState (σ : Type) where
  trapCount : U64
  log : List U8
  ports : σ

/-- Hand characters to the serial port. -/
def TrapState.say {σ : Type} (s : TrapState σ) (chars : List U8) : TrapState σ :=
  { s with log := s.log ++ chars }

/-- `kernel_panic_at` does not return. -/
inductive Outcome (σ : Type) where
  | returns (s : TrapState σ)
  | halts (s : TrapState σ)

/-- The handler, called with the frame at `ptr`; `cr2` and `rflags` are the registers it
    reads. -/
def x86_64TrapDispatch {σ : Type} (bus : Bus σ) (cr2 rflags ptr : U64) (frame : TrapFrame)
    (s : TrapState σ) : Outcome σ :=
  if ptr = 0 then
    .halts (s.say (kernelPanicAt "kernel/core/trap.c" 118
      "assertion failed: frame != (x86_64_trap_frame_t *)0" 0xA55E4710 rflags))
  else
    let s := { s with trapCount := s.trapCount + 1 }
    let s := s.say (logWrite (text "[M4] trap dispatch: ") ++
      logWriteln (text (trapName frame.vector)) ++ logTrapFrame frame)
    if frame.vector = 3 then
      .returns (s.say (logWriteln (text "[M4] breakpoint handled; returning with iretq")))
    else if frame.vector = 14 then
      .halts (s.say (pageFaultDump cr2 ptr frame ++ kernelPanicAt "kernel/core/trap.c" 132
        "unrecoverable page fault" frame.errorCode rflags))
    else if frame.vector ≥ 32 ∧ frame.vector ≤ 47 then
      .returns { s with
        ports := ((picSendEoi bus ((frame.vector - 32).setWidth 8)).run s.ports).2 }
    else
      .halts (s.say (kernelPanicAt "kernel/core/trap.c" 140
        "unrecoverable CPU exception" frame.vector rflags))

/-! ## The processor -/

/-- The general registers. -/
inductive Reg where
  | rax
  | rbx
  | rcx
  | rdx
  | rbp
  | rdi
  | rsi
  | rsp
  | r8
  | r9
  | r10
  | r11
  | r12
  | r13
  | r14
  | r15
deriving DecidableEq, Repr

/-- The processor and the memory, with the objects `K` of the C code. -/
structure Machine (K : Type) where
  core : Core Reg
  rip : U64
  cs : U16
  rflags : U64
  ss : U16
  cr2 : U64
  kernel : K

/-- The C functions that the stubs call. -/
inductive Callee where
  | x86_64TrapDispatch
  | mcsosSyscallDispatchFrame
deriving DecidableEq, Repr

/-- The instructions that the stubs are made of. -/
inductive Instr where
  | cld
  /-- `pushq $v` -/
  | pushImm (v : U64)
  | push (r : Reg)
  | pop (r : Reg)
  /-- `movq %src, %dst` -/
  | mov (src dst : Reg)
  /-- `movq %src, off(%rsp)` -/
  | store (src : Reg) (off : U64)
  /-- `movq $v, off(%rsp)` -/
  | storeImm (v off : U64)
  /-- `movq off(%rsp), %dst` -/
  | load (off : U64) (dst : Reg)
  /-- `addq $n, %rsp` -/
  | addSp (n : U64)
  /-- `subq $n, %rsp` -/
  | subSp (n : U64)
  | call (f : Callee)
  | iretq
deriving DecidableEq, Repr

/-- The direction flag. -/
def DF : U64 := 0x400

variable {K : Type}

/-- What the call instructions do, from before the call to behind it; `none` is a call
    that never comes back. -/
abbrev Calls (K : Type) := Callee → Machine K → Option (Machine K)

/-- One instruction.  The flags that `addq` and `subq` set are left out: every routine
    ends in `iretq`, which loads the flags. -/
def execInstr (calls : Calls K) (m : Machine K) : Instr → Option (Machine K)
  | .cld => some { m with rflags := m.rflags &&& ~~~DF }
  | .pushImm v => some { m with core := m.core.push .rsp v }
  | .push r => some { m with core := m.core.push .rsp (m.core.regs r) }
  | .pop r => some { m with core := m.core.popTo .rsp r }
  | .mov src dst => some { m with core := m.core.setReg dst (m.core.regs src) }
  | .store src off =>
      some { m with core := { m.core with
        mem := store64 m.core.mem (m.core.regs .rsp + off) (m.core.regs src) } }
  | .storeImm v off =>
      some { m with core := { m.core with
        mem := store64 m.core.mem (m.core.regs .rsp + off) v } }
  | .load off dst =>
      some { m with core := m.core.setReg dst (load64 m.core.mem (m.core.regs .rsp + off)) }
  | .addSp n => some { m with core := m.core.setReg .rsp (m.core.regs .rsp + n) }
  | .subSp n => some { m with core := m.core.setReg .rsp (m.core.regs .rsp - n) }
  | .call f => calls f m
  | .iretq =>
      let word (n : Nat) := load64 m.core.mem (m.core.regs .rsp + words n)
      some { m with
        rip := word 0
        cs := (word 1).setWidth 16
        rflags := word 2
        core := m.core.setReg .rsp (word 3)
        ss := (word 4).setWidth 16 }

/-- Run instructions one after another; a call that does not return ends the run. -/
def exec (calls : Calls K) : Machine K → List Instr → Option (Machine K)
  | m, [] => some m
  | m, i :: is => (execInstr calls m i).bind fun m => exec calls m is

/-! ## The stubs -/

/-- The registers `isr_common_stub` pushes, in its order. -/
def savedRegs : List Reg :=
  [.r15, .r14, .r13, .r12, .r11, .r10, .r9, .r8, .rsi, .rdi, .rbp, .rdx, .rcx, .rbx, .rax]

/-- The registers it pops. -/
def restoredRegs : List Reg :=
  [.rax, .rbx, .rcx, .rdx, .rbp, .rdi, .rsi, .r8, .r9, .r10, .r11, .r12, .r13, .r14, .r15]

/-- `isr_common_stub`: the registers are saved, the handler is called on the frame, and the
    registers are restored in reverse. -/
def isrCommonStub : List Instr :=
  [.cld] ++ savedRegs.map .push ++ [.mov .rsp .rdi, .call .x86_64TrapDispatch] ++
    restoredRegs.map .pop ++ [.addSp 16, .iretq]

/-- `ISR_NOERR n`, with the code it jumps to. -/
def isrNoerr (n : U64) : List Instr := [.pushImm 0, .pushImm n] ++ isrCommonStub

/-- `ISR_ERR n`, with the code it jumps to. -/
def isrErr (n : U64) : List Instr := [.pushImm n] ++ isrCommonStub

/-- `isr_stub_0` to `isr_stub_47`, the order of `isr_stub_table`. -/
def isrStubs : List (List Instr) :=
  [ isrNoerr 0, isrNoerr 1, isrNoerr 2, isrNoerr 3, isrNoerr 4, isrNoerr 5, isrNoerr 6,
    isrNoerr 7, isrErr 8, isrNoerr 9, isrErr 10, isrErr 11, isrErr 12, isrErr 13, isrErr 14,
    isrNoerr 15, isrNoerr 16, isrErr 17, isrNoerr 18, isrNoerr 19, isrNoerr 20, isrErr 21,
    isrNoerr 22, isrNoerr 23, isrNoerr 24, isrNoerr 25, isrNoerr 26, isrNoerr 27, isrNoerr 28,
    isrErr 29, isrErr 30, isrNoerr 31, isrNoerr 32, isrNoerr 33, isrNoerr 34, isrNoerr 35,
    isrNoerr 36, isrNoerr 37, isrNoerr 38, isrNoerr 39, isrNoerr 40, isrNoerr 41, isrNoerr 42,
    isrNoerr 43, isrNoerr 44, isrNoerr 45, isrNoerr 46, isrNoerr 47 ]

/-- `x86_64_syscall_int80_stub`: the call's registers are stored as the fields of a frame, and `ret`
    comes back in `rax`. -/
def x86_64SyscallInt80Stub : List Instr :=
  [ .cld, .subSp 64, .store .rax 0, .store .rdi 8, .store .rsi 16, .store .rdx 24,
    .store .r10 32, .store .r8 40, .store .r9 48, .storeImm 0 56, .mov .rsp .rdi,
    .call .mcsosSyscallDispatchFrame, .load 56 .rax, .addSp 64, .iretq ]

/-- Where the linker has put the stubs. -/
structure Image where
  isrStubTable : Nat → U64
  int80Stub : U64
  code : U64 → Option (List Instr)
  stub_code : ∀ v, v < 48 → code (isrStubTable v) = isrStubs[v]?
  int80_code : code int80Stub = some x86_64SyscallInt80Stub

/-- The table as `kmain` leaves it: `x86_64_idt_init`, and the gate that
    `kernel_m10_syscall_init` adds. -/
def kernelIdt (image : Image) (cs : U16) (idt : Idt) : Idt :=
  x86_64IdtSetGate cs (x86_64IdtInit cs image.isrStubTable idt) 0x80 image.int80Stub
    X86_64_IDT_GATE_INTERRUPT

/-! ## Delivery -/

/-- The vectors for which the processor pushes an error code. -/
def hasErrorCode (vector : U8) : Bool :=
  [8, 10, 11, 12, 13, 14, 17, 21, 29, 30].contains vector.toNat

/-- The flags a gate clears: single stepping, nested task, resume and virtual mode, and
    for an interrupt gate the interrupt flag. -/
def GateKind.cleared : GateKind → U64
  | .interrupt => 0x34300
  | .trap => 0x34100

/-- The words the processor pushes, the first one first. -/
def deliveredWords (vector : U8) (error : U64) (m : Machine K) : List U64 :=
  [m.ss.setWidth 64, m.core.regs .rsp, m.rflags, m.cs.setWidth 64, m.rip] ++
    if hasErrorCode vector then [error] else []

/-- The stack pointer the frame is built below: a multiple of sixteen. -/
def frameBase (m : Machine K) : U64 := m.core.regs .rsp &&& ~~~0xF

/-- What the processor does at an interrupt: it pushes its words and goes to the gate's stub. -/
def deliver (gate : Gate) (vector : U8) (error : U64) (m : Machine K) : Machine K :=
  { m with
    core := (m.core.setReg .rsp (frameBase m)).pushAll .rsp (deliveredWords vector error m)
    rip := gate.offset
    cs := gate.selector
    rflags := m.rflags &&& ~~~gate.kind.cleared }

/-- An interrupt, from its delivery until the stub has returned. -/
def interrupt (image : Image) (calls : Calls K) (idt : Idt) (vector : U8) (error : U64)
    (m : Machine K) : Option (Machine K) :=
  (readGate (idt vector).descriptor).bind fun gate =>
    let m := deliver gate vector error m
    (image.code m.rip).bind (exec calls m)

end TrapModel
