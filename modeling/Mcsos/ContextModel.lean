import Mcsos.SchedInvariantProofs

/-! # The switch of registers, as `kernel/arch/x86_64/context_switch.S` makes it

    The routine runs instruction by instruction on the register file and on the
    `context` objects of the threads.  An operand `off(%reg)` with a pointer to
    the context of a thread in `reg` is the field of `mcsos_context_t` at byte
    `off`; an offset at which no field starts is a fault.

    The running thread works between its calls: it may put anything in the
    registers and in memory.  When it calls `mcsos_sched_yield` or
    `mcsos_thread_block_current`, the registers of the state before the call are
    those at the `call mcsos_context_switch` in it, with `rip` already at the
    instruction behind. -/

namespace ContextModel

open Word ByteMemory SchedModel SchedInvariant

/-- The general registers the routine names. -/
inductive Reg where
  | rax
  | rbx
  | rbp
  | rsp
  | rsi
  | rdi
  | r12
  | r13
  | r14
  | r15
deriving DecidableEq, Repr

/-- The registers of the processor that the routine and the threads use. -/
structure Cpu where
  regs : Reg → U64
  rip : U64

/-- The registers the routine saves. -/
def Cpu.context (c : Cpu) : Context :=
  ⟨c.regs .rsp, c.regs .rbp, c.regs .rbx, c.regs .r12, c.regs .r13, c.regs .r14, c.regs .r15, c.rip⟩

/-- The processor, with the scheduler, the thread objects and the stacks. -/
structure Processor where
  sched : SchedState
  cpu : Cpu

/-- The thread that runs, `sched->current`. -/
def Processor.current (k : Processor) : U64 := k.sched.sched.current

/-- The saved registers of a thread. -/
def Processor.contextOf (k : Processor) (p : U64) : Context := (k.sched.threads p).context

/-- Write a general register. -/
def Processor.setReg (k : Processor) (r : Reg) (v : U64) : Processor :=
  { k with cpu := { k.cpu with regs := fun r' => if r' = r then v else k.cpu.regs r' } }

/-- Go on at another instruction. -/
def Processor.setRip (k : Processor) (v : U64) : Processor :=
  { k with cpu := { k.cpu with rip := v } }

/-- Write the `context` object of a thread. -/
def Processor.setContext (k : Processor) (p : U64) (c : Context) : Processor :=
  { k with sched := k.sched.setThread p { k.sched.threads p with context := c } }

/-- `offsetof(mcsos_thread_t, context)`: behind `magic`, `id`, `name` and the padded `state`. -/
def CONTEXT_OFFSET : U64 := 32

/-- `&thread->context`. -/
def contextPtr (p : U64) : U64 := p + CONTEXT_OFFSET

/-- The field of `mcsos_context_t` at a byte offset. -/
def fieldAt (c : Context) : Nat → Option U64
  | 0 => some c.rsp
  | 8 => some c.rbp
  | 16 => some c.rbx
  | 24 => some c.r12
  | 32 => some c.r13
  | 40 => some c.r14
  | 48 => some c.r15
  | 56 => some c.rip
  | _ => none

/-- Store to the field of `mcsos_context_t` at a byte offset. -/
def setFieldAt (c : Context) (v : U64) : Nat → Option Context
  | 0 => some { c with rsp := v }
  | 8 => some { c with rbp := v }
  | 16 => some { c with rbx := v }
  | 24 => some { c with r12 := v }
  | 32 => some { c with r13 := v }
  | 40 => some { c with r14 := v }
  | 48 => some { c with r15 := v }
  | 56 => some { c with rip := v }
  | _ => none

/-- The instructions that the routine is made of. -/
inductive Instr where
  /-- `leaq 1f(%rip), %dst` -/
  | lea (dst : Reg)
  /-- `movq %src, off(%base)` -/
  | store (src : Reg) (off : Nat) (base : Reg)
  /-- `movq off(%base), %dst` -/
  | load (off : Nat) (base dst : Reg)
  /-- `jmp *off(%base)` -/
  | jmp (off : Nat) (base : Reg)
  | ret
deriving DecidableEq, Repr

/-- One instruction; `label` is the address of `1:`. -/
def execInstr (label : U64) (k : Processor) : Instr → Option Processor
  | .lea dst => some (k.setReg dst label)
  | .store src off base =>
      let p := k.cpu.regs base - CONTEXT_OFFSET
      (setFieldAt (k.contextOf p) (k.cpu.regs src) off).map (k.setContext p)
  | .load off base dst =>
      (fieldAt (k.contextOf (k.cpu.regs base - CONTEXT_OFFSET)) off).map (k.setReg dst)
  | .jmp off base =>
      (fieldAt (k.contextOf (k.cpu.regs base - CONTEXT_OFFSET)) off).map k.setRip
  | .ret =>
      let rsp := k.cpu.regs .rsp
      some ((k.setRip (load64 k.sched.mem rsp)).setReg .rsp (rsp + 8))

/-- Run instructions one after another; a fault in one of them ends the run. -/
def execCode (label : U64) : Processor → List Instr → Option Processor
  | k, [] => some k
  | k, i :: is => (execInstr label k i).bind fun k => execCode label k is

/-- `mcsos_context_switch`, up to its jump. -/
def switchCode : List Instr :=
  [ .lea .rax,
    .store .rsp 0 .rdi,
    .store .rbp 8 .rdi,
    .store .rbx 16 .rdi,
    .store .r12 24 .rdi,
    .store .r13 32 .rdi,
    .store .r14 40 .rdi,
    .store .r15 48 .rdi,
    .store .rax 56 .rdi,
    .load 0 .rsi .rsp,
    .load 8 .rsi .rbp,
    .load 16 .rsi .rbx,
    .load 24 .rsi .r12,
    .load 32 .rsi .r13,
    .load 40 .rsi .r14,
    .load 48 .rsi .r15,
    .jmp 56 .rsi ]

/-- `mcsos_context_switch`, from its label `1:`. -/
def labelCode : List Instr := [.ret]

/-- `call mcsos_context_switch`: the arguments, and the return address on the stack. -/
def Processor.call (k : Processor) (oldContext newContext : U64) : Processor :=
  let rsp := k.cpu.regs .rsp - 8
  let k := { k with sched := { k.sched with mem := store64 k.sched.mem rsp k.cpu.rip } }
  ((k.setReg .rsp rsp).setReg .rdi oldContext).setReg .rsi newContext

/-- The call of `mcsos_context_switch` until control has left the routine: the jump
    leads to a thread's first instruction, or to the label and the `ret` there. -/
def mcsosContextSwitch (label : U64) (k : Processor) (old next : U64) : Option Processor :=
  (execCode label (k.call (contextPtr old) (contextPtr next)) switchCode).bind fun k =>
    if k.cpu.rip = label then execCode label k labelCode else some k

/-- Where the two routines lie; they are different places. -/
structure Layout where
  label : U64
  trampoline : U64
  apart : trampoline ≠ label

/-- What can happen between two looks at the processor. -/
inductive ProcessorOp where
  /-- A call of the scheduler by the running thread. -/
  | call (op : SchedOp)
  | prepare (p entry stackBase stackSize : U64)
  /-- What the running thread does between its calls. -/
  | work (cpu : Cpu) (mem : Mem)

/-- One step of the processor.  The registers are switched exactly when the call has
    made another thread current: `mcsos_sched_yield` calls the routine behind
    `sched->current = next`, which it reaches only with `next != old`. -/
def processorStep (L : Layout) (k : Processor) : ProcessorOp → Option Processor
  | .call op =>
      let k' := { k with sched := (schedStep k.sched op).2 }
      if k'.current = k.current then some k'
      else mcsosContextSwitch L.label k' k.current k'.current
  | .prepare p entry stackBase stackSize =>
      let result := mcsosThreadPrepare L.trampoline k.sched p entry stackBase stackSize
      some { k with sched := result.2 }
  | .work cpu mem => some { cpu, sched := { k.sched with mem } }

end ContextModel
