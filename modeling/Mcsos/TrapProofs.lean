import Mcsos.IdtProofs

/-! # Interrupts are transparent

    Between the gate and the call of `x86_64_trap_dispatch` nothing happens but
    pushes: the words of the processor, the two of the stub and the fifteen
    registers, always 22 words on the 16-aligned stack (`framed_pushed`).  The way
    back pops exactly those.  Whatever the compiled handler does with the
    registers and with the stack below, the interrupted code finds its own again. -/

namespace Trap

open Word ByteMemory Stack PicModel LogModel TrapModel Idt

variable {K : Type} {calls : Calls K} {m m' : Machine K} {v : U8} {error : U64}

/-! ## Code -/

theorem exec_append (calls : Calls K) (m : Machine K) (is js : List Instr) :
    exec calls m (is ++ js) = (exec calls m is).bind fun m => exec calls m js := by
  induction is generalizing m with
  | nil => rfl
  | cons i is ih =>
      rw [List.cons_append, exec, exec, Option.bind_assoc]
      exact congrArg _ (funext ih)

theorem exec_pushImm (calls : Calls K) (m : Machine K) (vs : List U64) :
    exec calls m (vs.map .pushImm) = some { m with core := m.core.pushAll .rsp vs } := by
  induction vs generalizing m with
  | nil => rfl
  | cons v vs ih => exact ih _

/-- Pushing registers one after the other. -/
theorem exec_push (calls : Calls K) (m : Machine K) (rs : List Reg) :
    exec calls m (rs.map .push) = some { m with core := m.core.saveAll .rsp rs } := by
  induction rs generalizing m with
  | nil => rfl
  | cons r rs ih => exact ih _

/-- Popping them again. -/
theorem exec_pop (calls : Calls K) (m : Machine K) (rs : List Reg) :
    exec calls m (rs.map .pop) = some { m with core := m.core.restoreAll .rsp rs } := by
  induction rs generalizing m with
  | nil => rfl
  | cons r rs ih => exact ih _

/-! ## The way in -/

/-- What the stub of a vector pushes: a zero where the processor pushed no error code. -/
def stubWords (v : U8) : List U64 :=
  if hasErrorCode v then [v.setWidth 64] else [0, v.setWidth 64]

/-- Every stub of the table is the one its vector needs. -/
theorem isrStubs_get (hv : v.toNat < 48) :
    isrStubs[v.toNat]? = some ((stubWords v).map .pushImm ++ isrCommonStub) := by
  have hall : ∀ n : Fin 48, isrStubs[n.val]?
      = some ((stubWords (BitVec.ofNat 8 n)).map .pushImm ++ isrCommonStub) := by
    decide +kernel
  have h := hall ⟨v.toNat, hv⟩
  rwa [BitVec.ofNat_toNat, BitVec.setWidth_eq] at h

/-- The seven words above the registers, in the order they are pushed. -/
def entryWords (v : U8) (error : U64) (m : Machine K) : List U64 :=
  [m.ss.setWidth 64, m.core.regs .rsp, m.rflags, m.cs.setWidth 64, m.rip,
    if hasErrorCode v then error else 0, v.setWidth 64]

/-- With or without an error code of the processor, the same words arrive. -/
theorem deliveredWords_append (v : U8) (error : U64) (m : Machine K) :
    deliveredWords v error m ++ stubWords v = entryWords v error m := by
  rw [deliveredWords, stubWords, entryWords]
  by_cases h : hasErrorCode v = true
  · rw [if_pos h, if_pos h, if_pos h]
    rfl
  · rw [if_neg h, if_neg h, if_neg h]
    rfl

theorem pushAll_append (c : Core Reg) (vs us : List U64) :
    c.pushAll .rsp (vs ++ us) = (c.pushAll .rsp vs).pushAll .rsp us := by
  induction vs generalizing c with
  | nil => rfl
  | cons v vs ih => exact ih _

/-- The code behind the call. -/
def epilogue : List Instr := restoredRegs.map .pop ++ [.addSp 16, .iretq]

/-- The registers saved, and their address in `rdi`. -/
def saved (m : Machine K) : Machine K :=
  { m with
    core := (m.core.saveAll .rsp savedRegs).setReg .rdi ((m.core.saveAll .rsp savedRegs).regs .rsp)
    rflags := m.rflags &&& ~~~DF }

/-- The common stub saves the registers, calls the dispatcher and restores them. -/
theorem exec_isrCommonStub (calls : Calls K) (m : Machine K) :
    exec calls m isrCommonStub
      = (calls .x86_64TrapDispatch (saved m)).bind fun m => exec calls m epilogue := by
  have hcode : isrCommonStub = .cld :: (savedRegs.map .push ++
      (.mov .rsp .rdi :: .call .x86_64TrapDispatch :: epilogue)) := rfl
  rw [hcode, exec, execInstr, Option.bind_some, exec_append, exec_push, Option.bind_some, exec,
    execInstr, Option.bind_some, exec, execInstr]
  rfl

/-- The registers and the memory with the whole frame built. -/
def framed (v : U8) (error : U64) (m : Machine K) : Core Reg :=
  ((m.core.setReg .rsp (frameBase m)).pushAll .rsp (entryWords v error m)).saveAll .rsp savedRegs

/-- The machine at the call of `x86_64_trap_dispatch`. -/
def atCall (gate : Gate) (v : U8) (error : U64) (m : Machine K) : Machine K :=
  { m with
    core := (framed v error m).setReg .rdi ((framed v error m).regs .rsp)
    rip := gate.offset
    cs := gate.selector
    rflags := m.rflags &&& ~~~gate.kind.cleared &&& ~~~DF }

/-- **ENTRY**: every stub calls the handler with the frame built, and goes on with the
    epilogue if the call comes back. -/
theorem interrupt_eq (image : Image) (calls : Calls K) (cs : U16) (idt : TrapModel.Idt)
    (m : Machine K) (error : U64) (hv : v.toNat < 48) :
    interrupt image calls (kernelIdt image cs idt) v error m
      = (calls .x86_64TrapDispatch (atCall (stubGate image cs v) v error m)).bind
          fun m => exec calls m epilogue := by
  have hcode : image.code (stubGate image cs v).offset
      = some ((stubWords v).map .pushImm ++ isrCommonStub) :=
    (image.stub_code v.toNat hv).trans (isrStubs_get hv)
  have hrip : (deliver (stubGate image cs v) v error m).rip = (stubGate image cs v).offset := rfl
  have hcall : saved { deliver (stubGate image cs v) v error m with
      core := (deliver (stubGate image cs v) v error m).core.pushAll .rsp (stubWords v) }
      = atCall (stubGate image cs v) v error m := by
    simp only [saved, deliver, atCall, framed, ← deliveredWords_append, pushAll_append]
  rw [interrupt, kernelIdt_gate, if_pos hv, Option.bind_some]
  dsimp only
  rw [hrip, hcode, Option.bind_some, exec_append, exec_pushImm, Option.bind_some,
    exec_isrCommonStub, hcall]

/-! ## The frame -/

/-- The frame lies on the stack, in the order in which it was pushed. -/
theorem framed_pushed (v : U8) (error : U64) (m : Machine K) :
    Pushed .rsp (m.core.setReg .rsp (frameBase m))
      (entryWords v error m ++ savedRegs.map m.core.regs) (framed v error m) := by
  have hsp : Reg.rsp ∉ savedRegs := by decide
  have hentry : Pushed .rsp (m.core.setReg .rsp (frameBase m)) (entryWords v error m) _ :=
    pushAll_pushed _ _
  have hsave := saveAll_pushed ((m.core.setReg .rsp (frameBase m)).pushAll .rsp
    (entryWords v error m)) hsp
  have hsame : savedRegs.map ((m.core.setReg .rsp (frameBase m)).pushAll .rsp
      (entryWords v error m)).regs = savedRegs.map m.core.regs := by
    refine List.map_congr_left (fun r hr => ?_)
    have hne : r ≠ .rsp := fun h => hsp (h ▸ hr)
    exact (hentry.others r hne).trans (regs_setReg_of_ne _ _ hne)
  rw [hsame] at hsave
  exact hentry.trans hsave

/-- The stack pointer at the call. -/
theorem framed_rsp (v : U8) (error : U64) (m : Machine K) :
    (framed v error m).regs .rsp = frameBase m - words 22 := by
  have h := (framed_pushed v error m).pointer
  rwa [regs_setReg_self] at h

/-- From the stack pointer up lie the registers, `rax` first, and the entry words. -/
theorem framed_holds (v : U8) (error : U64) (m : Machine K) :
    Holds (framed v error m).mem ((framed v error m).regs .rsp)
      (restoredRegs.map m.core.regs ++ (entryWords v error m).reverse) := by
  have hlen : (entryWords v error m ++ savedRegs.map m.core.regs).length = 22 := rfl
  have h := (framed_pushed v error m).holds [] trivial (by rw [hlen, List.length_nil]; omega)
  rwa [List.append_nil, List.reverse_append, ← List.map_reverse] at h

/-- Memory outside the frame is as before. -/
theorem framed_frame (v : U8) (error : U64) (m : Machine K) {x : U64}
    (hx : ¬ Below (frameBase m) 22 x) : (framed v error m).mem x = m.core.mem x := by
  refine (framed_pushed v error m).frame x (fun hb => hx ?_)
  rwa [regs_setReg_self] at hb

/-- The frame the handler reads.  `x86_64_trap_frame_t` lists the fifteen registers in the
    order they are pushed, which is the opposite of their order in memory: each field holds
    the register of the field on the other side of `r8`. -/
def arrived (v : U8) (error : U64) (m : Machine K) : TrapFrame where
  r15 := m.core.regs .rax
  r14 := m.core.regs .rbx
  r13 := m.core.regs .rcx
  r12 := m.core.regs .rdx
  r11 := m.core.regs .rbp
  r10 := m.core.regs .rdi
  r9 := m.core.regs .rsi
  r8 := m.core.regs .r8
  rsi := m.core.regs .r9
  rdi := m.core.regs .r10
  rbp := m.core.regs .r11
  rdx := m.core.regs .r12
  rcx := m.core.regs .r13
  rbx := m.core.regs .r14
  rax := m.core.regs .r15
  vector := v.setWidth 64
  errorCode := if hasErrorCode v then error else 0
  rip := m.rip
  cs := m.cs.setWidth 64
  rflags := m.rflags

/-- The handler reads `arrived` at the stack pointer. -/
theorem frameAt_framed (v : U8) (error : U64) (m : Machine K) :
    frameAt (framed v error m).mem ((framed v error m).regs .rsp) = arrived v error m := by
  have hload (i : Nat) (w : U64)
      (hw : (restoredRegs.map m.core.regs ++ (entryWords v error m).reverse)[i]? = some w) :
      load64 (framed v error m).mem ((framed v error m).regs .rsp + words i) = w :=
    (framed_holds v error m).load hw
  rw [frameAt, hload 0 _ rfl, hload 1 _ rfl, hload 2 _ rfl, hload 3 _ rfl, hload 4 _ rfl,
    hload 5 _ rfl, hload 6 _ rfl, hload 7 _ rfl, hload 8 _ rfl, hload 9 _ rfl, hload 10 _ rfl,
    hload 11 _ rfl, hload 12 _ rfl, hload 13 _ rfl, hload 14 _ rfl, hload 15 _ rfl,
    hload 16 _ rfl, hload 17 _ rfl, hload 18 _ rfl, hload 19 _ rfl]
  rfl

section AtCall

variable (gate : Gate) (v : U8) (error : U64) (m : Machine K)

/-- The dispatcher is given the frame's address. -/
theorem atCall_rdi : (atCall gate v error m).core.regs .rdi = frameBase m - words 22 := by
  rw [atCall, regs_setReg_self, framed_rsp]

theorem atCall_rsp : (atCall gate v error m).core.regs .rsp = frameBase m - words 22 := by
  rw [atCall, regs_setReg_of_ne _ _ (by decide), framed_rsp]

theorem atCall_mem : (atCall gate v error m).core.mem = (framed v error m).mem := rfl

theorem atCall_rflags :
    (atCall gate v error m).rflags = m.rflags &&& ~~~gate.kind.cleared &&& ~~~DF := rfl

/-- The dispatcher reads `arrived` there. -/
theorem frameAt_atCall :
    frameAt (atCall gate v error m).core.mem ((atCall gate v error m).core.regs .rdi)
      = arrived v error m := by
  rw [atCall_mem, atCall_rdi, ← framed_rsp v error m, frameAt_framed]

end AtCall

/-! ## The way out -/

/-- Every register but the stack pointer is restored. -/
theorem mem_restoredRegs {r : Reg} (h : r ≠ .rsp) : r ∈ restoredRegs := by
  cases r with
  | rsp => exact absurd rfl h
  | _ => decide

/-- The registers with the frame popped and the stack pointer loaded. -/
theorem restored_core {c : Core Reg} {f : Reg → U64} {ws : List U64} (a rsp : U64)
    (h : Holds c.mem (c.regs .rsp) (restoredRegs.map f ++ ws)) :
    ((c.restoreAll .rsp restoredRegs).setReg .rsp a).setReg .rsp rsp
      = ⟨Function.update f .rsp rsp, c.mem⟩ := by
  have hsp : Reg.rsp ∉ restoredRegs := by decide
  have hregs : (((c.restoreAll .rsp restoredRegs).setReg .rsp a).setReg .rsp rsp).regs
      = Function.update f .rsp rsp := by
    funext r
    by_cases hr : r = .rsp
    · rw [hr, regs_setReg_self, Function.update_self]
    · rw [regs_setReg_of_ne _ _ hr, regs_setReg_of_ne _ _ hr, restoreAll_regs hsp h, if_neg hr,
        if_pos (mem_restoredRegs hr), Function.update_of_ne hr]
  have hmem : (((c.restoreAll .rsp restoredRegs).setReg .rsp a).setReg .rsp rsp).mem = c.mem := by
    rw [mem_setReg, mem_setReg, restoreAll_mem]
  exact Core.ext hregs hmem

/-- The epilogue gives every register its word, and `iretq` the rest. -/
theorem exec_epilogue (calls : Calls K) {f : Reg → U64} {vector code rip cs rflags rsp ss : U64}
    (h : Holds m.core.mem (m.core.regs .rsp)
      (restoredRegs.map f ++ [vector, code, rip, cs, rflags, rsp, ss])) :
    exec calls m epilogue = some { m with
      core := ⟨Function.update f .rsp rsp, m.core.mem⟩
      rip := rip
      cs := cs.setWidth 16
      rflags := rflags
      ss := ss.setWidth 16 } := by
  have htop : (m.core.restoreAll .rsp restoredRegs).regs .rsp = m.core.regs .rsp + words 15 :=
    (restoreAll_regs (by decide) h .rsp).trans (if_pos rfl)
  -- the five words of the processor are the last ones of the list
  have hload (i : Nat) (w : U64) (hw : (restoredRegs.map f ++
      [vector, code, rip, cs, rflags, rsp, ss])[17 + i]? = some w) :
      load64 m.core.mem (m.core.regs .rsp + words 15 + 16 + words i) = w := by
    have hat : m.core.regs .rsp + words 15 + 16 + words i
        = m.core.regs .rsp + words (17 + i) := by
      rw [words, words, words]
      bv_omega
    rw [hat]
    exact h.load hw
  rw [epilogue, exec_append, exec_pop, Option.bind_some, exec, execInstr, Option.bind_some, exec,
    execInstr, Option.bind_some, exec]
  dsimp only
  rw [regs_setReg_self, mem_setReg, htop, restoreAll_mem, hload 0 _ rfl, hload 1 _ rfl,
    hload 2 _ rfl, hload 3 _ rfl, hload 4 _ rfl, restored_core _ _ h]

/-! ## The handler as compiled code -/

/-- The registers a C function keeps for its caller. -/
def calleeSaved : List Reg := [.rbx, .rbp, .rsp, .r12, .r13, .r14, .r15]

/-- A call of a C function has come back: the registers it must keep are kept, and it has
    written no memory of the caller but `room` words of stack below the caller's. -/
structure Returned (room : Nat) (m m' : Machine K) : Prop where
  regs : ∀ r, r ∈ calleeSaved → m'.core.regs r = m.core.regs r
  mem : ∀ x, ¬ Below (m.core.regs .rsp) room x → m'.core.mem x = m.core.mem x

variable {σ : Type} {bus : Bus σ} {room : Nat}

/-- What `x86_64_trap_dispatch` does when it is called in this state. -/
def dispatchAt (bus : Bus σ) (m : Machine (TrapState σ)) : Outcome σ :=
  x86_64TrapDispatch bus m.cr2 m.rflags (m.core.regs .rdi)
    (frameAt m.core.mem (m.core.regs .rdi)) m.kernel

/-- The call is one of `x86_64_trap_dispatch`, compiled for the System V ABI. -/
structure CompiledDispatch (bus : Bus σ) (room : Nat) (calls : Calls (TrapState σ)) : Prop where
  returns : ∀ m s, dispatchAt bus m = .returns s →
    ∃ m', calls .x86_64TrapDispatch m = some m' ∧ m'.kernel = s ∧ Returned room m m'
  halts : ∀ m s, dispatchAt bus m = .halts s → calls .x86_64TrapDispatch m = none

/-- The interrupted code goes on as if nothing had happened: only stack below its own has
    been written. -/
structure Resumed (room : Nat) (m m' : Machine K) : Prop where
  regs : m'.core.regs = m.core.regs
  rip : m'.rip = m.rip
  cs : m'.cs = m.cs
  rflags : m'.rflags = m.rflags
  ss : m'.ss = m.ss
  mem : ∀ x, ¬ Below (frameBase m) (22 + room) x → m'.core.mem x = m.core.mem x

/-- The sixteen lines of the interrupt controllers. -/
def IsIrq (v : U8) : Prop := 32 ≤ v.toNat ∧ v.toNat ≤ 47

instance (v : U8) : Decidable (IsIrq v) := inferInstanceAs (Decidable (_ ∧ _))

/-- The vectors whose handler returns: the breakpoint and the interrupt lines. -/
def Handled (v : U8) : Prop := v = 3 ∨ IsIrq v

instance (v : U8) : Decidable (Handled v) := inferInstanceAs (Decidable (_ ∨ _))

/-- The devices after the handler has run: only the lines of the controllers are
    acknowledged. -/
def afterEoi (bus : Bus σ) (v : U8) (ports : σ) : σ :=
  if v = 3 then ports else ((picSendEoi bus (v - 32)).run ports).2

section Dispatch

variable {cr2 rflags ptr : U64} {frame : TrapFrame} {s : TrapState σ}

/-- The breakpoint's vector. -/
theorem vector_eq_three (hvec : frame.vector = v.setWidth 64) : frame.vector = 3 ↔ v = 3 := by
  rw [hvec]
  constructor
  · intro h
    bv_omega
  · intro h
    rw [h]
    rfl

/-- The vectors of the interrupt requests. -/
theorem vector_irq (hvec : frame.vector = v.setWidth 64) :
    frame.vector ≥ 32 ∧ frame.vector ≤ 47 ↔ 32 ≤ v.toNat ∧ v.toNat ≤ 47 := by
  rw [hvec]
  constructor
  · intro h
    bv_omega
  · intro h
    bv_omega

/-- The dispatcher returns from a trap that is handled. -/
theorem dispatch_returns (hptr : ptr ≠ 0) (hvec : frame.vector = v.setWidth 64)
    (h : Handled v) : ∃ log, x86_64TrapDispatch bus cr2 rflags ptr frame s
      = .returns ⟨s.trapCount + 1, log, afterEoi bus v s.ports⟩ := by
  rw [x86_64TrapDispatch, if_neg hptr, afterEoi]
  dsimp only
  by_cases h3 : v = 3
  · rw [if_pos ((vector_eq_three hvec).mpr h3), if_pos h3]
    exact ⟨_, rfl⟩
  · obtain ⟨hlow, hhigh⟩ : IsIrq v := h.resolve_left h3
    have h14 : frame.vector ≠ 14 := by
      rw [hvec]
      bv_omega
    have hline : (frame.vector - 32).setWidth 8 = v - 32 := by
      rw [hvec]
      bv_omega
    rw [if_neg (fun h => h3 ((vector_eq_three hvec).mp h)), if_neg h14,
      if_pos ((vector_irq hvec).mpr ⟨hlow, hhigh⟩), if_neg h3, hline]
    exact ⟨_, rfl⟩

/-- The dispatcher halts at a trap that is not handled. -/
theorem dispatch_halts (hvec : frame.vector = v.setWidth 64) (h : ¬ Handled v) :
    ∃ s', x86_64TrapDispatch bus cr2 rflags ptr frame s = .halts s' := by
  rw [x86_64TrapDispatch]
  dsimp only
  by_cases hptr : ptr = 0
  · rw [if_pos hptr]
    exact ⟨_, rfl⟩
  · rw [if_neg hptr, if_neg (fun h3 => h (.inl ((vector_eq_three hvec).mp h3))),
      if_neg (fun hirq : _ ∧ _ => h (.inr ((vector_irq hvec).mp hirq)))]
    by_cases h14 : frame.vector = 14
    · rw [if_pos h14]
      exact ⟨_, rfl⟩
    · rw [if_neg h14]
      exact ⟨_, rfl⟩

end Dispatch

/-! ## Whole interrupts -/

/-- The handler is called with the frame that has arrived. -/
theorem dispatchAt_atCall (bus : Bus σ) (gate : Gate) (v : U8) (error : U64)
    (m : Machine (TrapState σ)) :
    dispatchAt bus (atCall gate v error m)
      = x86_64TrapDispatch bus m.cr2 (m.rflags &&& ~~~gate.kind.cleared &&& ~~~DF)
          (frameBase m - words 22) (arrived v error m) m.kernel := by
  rw [dispatchAt, frameAt_atCall, atCall_rdi, atCall_rflags]
  rfl

/-- At the frame that the stub made, the dispatcher returns from a trap that is handled. -/
theorem dispatchAt_returns (bus : Bus σ) (gate : Gate) (error : U64) {m : Machine (TrapState σ)}
    (hbase : frameBase m ≠ words 22) (h : Handled v) :
    ∃ log, dispatchAt bus (atCall gate v error m)
      = .returns ⟨m.kernel.trapCount + 1, log, afterEoi bus v m.kernel.ports⟩ := by
  have hptr : frameBase m - words 22 ≠ 0 := by
    rw [words] at hbase ⊢
    bv_omega
  rw [dispatchAt_atCall]
  exact dispatch_returns hptr rfl h

/-- At the frame that the stub made, the dispatcher halts at any other trap. -/
theorem dispatchAt_halts (bus : Bus σ) (gate : Gate) (error : U64) (m : Machine (TrapState σ))
    (h : ¬ Handled v) : ∃ s, dispatchAt bus (atCall gate v error m) = .halts s := by
  rw [dispatchAt_atCall]
  exact dispatch_halts rfl h

/-- A segment register, pushed and popped. -/
theorem segment_back (s : U16) : (s.setWidth 64).setWidth 16 = s := by
  rw [BitVec.setWidth_setWidth_of_le s (show 16 ≤ 64 by decide), BitVec.setWidth_eq]

/-- A call that comes back leads back to the interrupted code. -/
theorem resumed_of_returned {gate : Gate} {m m₁ : Machine K} (calls : Calls K)
    (hroom : 8 * (22 + room) ≤ 2 ^ 64) (h : Returned room (atCall gate v error m) m₁) :
    ∃ m', exec calls m₁ epilogue = some m' ∧ m'.kernel = m₁.kernel ∧ Resumed room m m' := by
  have hrsp : (atCall gate v error m).core.regs .rsp = (framed v error m).regs .rsp := by
    rw [atCall_rsp, framed_rsp]
  have hbelow : ∀ x, ¬ Below ((framed v error m).regs .rsp) room x →
      m₁.core.mem x = (framed v error m).mem x := by
    intro x hx
    exact h.mem x (by rwa [hrsp])
  -- the frame lies above what the call may write
  have hholds : Holds m₁.core.mem (m₁.core.regs .rsp)
      (restoredRegs.map m.core.regs ++ (entryWords v error m).reverse) := by
    have hlen : (restoredRegs.map m.core.regs ++ (entryWords v error m).reverse).length = 22 := rfl
    rw [h.regs .rsp (by decide), hrsp]
    refine (framed_holds v error m).congr (by rw [hlen]; omega) (fun x hx => hbelow x ?_)
    rw [hlen] at hx
    intro hb
    have hx' : (x - (framed v error m).regs .rsp).toNat < 8 * 22 := hx
    have hb' : (x - ((framed v error m).regs .rsp - words room)).toNat < 8 * room := hb
    rw [words] at hb'
    bv_omega
  refine ⟨_, exec_epilogue calls hholds, rfl, ?_, rfl, ?_, rfl, ?_, ?_⟩
  · exact Function.update_eq_self ..
  · exact segment_back m.cs
  · exact segment_back m.ss
  · intro x hx
    refine (hbelow x (fun hb => hx ?_)).trans (framed_frame v error m (fun hb => hx ?_))
    · rw [framed_rsp] at hb
      exact hb.shift
    · exact hb.mono (Nat.le_add_right 22 room)

section Whole

variable {calls : Calls (TrapState σ)} (image : Image) (cs : U16) (idt : TrapModel.Idt)

/-- An interrupt whose handler returns. -/
theorem interrupt_resumes (hcalls : CompiledDispatch bus room calls)
    (hroom : 8 * (22 + room) ≤ 2 ^ 64) {m : Machine (TrapState σ)} (error : U64)
    (hbase : frameBase m ≠ words 22) (h : Handled v) :
    ∃ m', interrupt image calls (kernelIdt image cs idt) v error m = some m' ∧
      Resumed room m m' ∧ m'.kernel.trapCount = m.kernel.trapCount + 1 ∧
      m'.kernel.ports = afterEoi bus v m.kernel.ports := by
  have hv : v.toNat < 48 := by
    rcases h with h3 | ⟨-, hlast⟩
    · rw [h3]
      decide
    · omega
  obtain ⟨log, hret⟩ := dispatchAt_returns bus (stubGate image cs v) error hbase h
  obtain ⟨m₁, hcall, hkernel, hback⟩ := hcalls.returns _ _ hret
  obtain ⟨m', hexec, hsame, hres⟩ := resumed_of_returned calls hroom hback
  refine ⟨m', ?_, hres, ?_, ?_⟩
  · rw [interrupt_eq image calls cs idt m error hv, hcall, Option.bind_some, hexec]
  · rw [hsame, hkernel]
  · rw [hsame, hkernel]

/-- An exception the kernel cannot handle. -/
theorem interrupt_stops (hcalls : CompiledDispatch bus room calls) (m : Machine (TrapState σ))
    (error : U64) (hv : v.toNat < 48) (h : ¬ Handled v) :
    interrupt image calls (kernelIdt image cs idt) v error m = none := by
  obtain ⟨s, hhalt⟩ := dispatchAt_halts bus (stubGate image cs v) error m h
  rw [interrupt_eq image calls cs idt m error hv, hcalls.halts _ _ hhalt, Option.bind_none]

/-- **TRANSPARENT**: a breakpoint or an interrupt of the controllers, arriving at any
    instruction with the frame not at address 0, is counted and acknowledged, and the
    interrupted code goes on with all its registers, its flags and its memory, except that
    stack below its own has been written.  After any other exception it never goes on. -/
theorem interrupt_transparent (hcalls : CompiledDispatch bus room calls)
    (hroom : 8 * (22 + room) ≤ 2 ^ 64) (m : Machine (TrapState σ)) (v : U8) (error : U64)
    (hv : v.toNat < 48) (hbase : frameBase m ≠ words 22) :
    (Handled v → ∃ m', interrupt image calls (kernelIdt image cs idt) v error m = some m' ∧
      Resumed room m m' ∧ m'.kernel.trapCount = m.kernel.trapCount + 1 ∧
      m'.kernel.ports = afterEoi bus v m.kernel.ports) ∧
    (¬ Handled v → interrupt image calls (kernelIdt image cs idt) v error m = none) :=
  ⟨interrupt_resumes image cs idt hcalls hroom error hbase,
    interrupt_stops image cs idt hcalls m error hv⟩

end Whole

/-- A machine code with the stubs at the addresses 0 to 47 and 128. -/
def flatImage : Image where
  isrStubTable := BitVec.ofNat 64
  int80Stub := 128
  code := fun a => if a = 128 then some x86_64SyscallInt80Stub else isrStubs[a.toNat]?
  stub_code := by
    intro v hv
    have hval : (BitVec.ofNat 64 v).toNat = v := by
      rw [BitVec.toNat_ofNat]
      omega
    rw [if_neg (by bv_omega), hval]
  int80_code := if_pos rfl

/-- The state behind a handler that returns. -/
def returned : Outcome σ → Option (TrapState σ)
  | .returns s => some s
  | .halts _ => none

/-- A compiled handler that changes no register and no stack. -/
def plainCalls (bus : Bus σ) : Calls (TrapState σ)
  | .x86_64TrapDispatch, m => (returned (dispatchAt bus m)).map fun s => { m with kernel := s }
  | .mcsosSyscallDispatchFrame, _ => none

/-- A dispatcher that uses no stack and clobbers nothing is one that a compiler may make. -/
theorem plainCalls_compiled (bus : Bus σ) : CompiledDispatch bus 0 (plainCalls bus) where
  returns := by
    intro m s h
    refine ⟨{ m with kernel := s }, ?_, rfl, fun _ _ => rfl, fun _ _ => rfl⟩
    rw [plainCalls, h]
    rfl
  halts := by
    intro m s h
    rw [plainCalls, h]
    rfl

/-- A machine somewhere in the kernel. -/
def someMachine {K : Type} (kernel : K) : Machine K :=
  ⟨⟨fun _ => 0x9000, fun _ => 0⟩, 0x1000, 0x28, 0x202, 0x30, 0, kernel⟩

/-- The timer interrupts it. -/
theorem interrupt_transparent_timer :
    ∃ m', interrupt flatImage (plainCalls picBus) (kernelIdt flatImage 0x28 fun _ => default)
        32 0 (someMachine ⟨0, [], default⟩) = some m' ∧
      Resumed 0 (someMachine ⟨0, [], default⟩) m' ∧ m'.kernel.trapCount = 0 + 1 ∧
      m'.kernel.ports = afterEoi picBus 32 default :=
  (interrupt_transparent flatImage 0x28 (fun _ => default) (plainCalls_compiled picBus)
    (by decide) (someMachine ⟨0, [], default⟩) 32 0 (by decide) (by decide)).1 (by decide)

/-- **FRAME**: the handler is called by the rules of the ABI, on a stack that is a multiple of
    sixteen whatever was interrupted and with the direction flag clear, and with interrupts
    off unless it is the breakpoint.  The frame it reads has the vector, the error code (0
    where there is none), the instruction pointer, the code segment and the flags in their
    fields; of the registers only `r8` is in its own. -/
theorem trap_frame_at_call (image : Image) (cs : U16) (idt : TrapModel.Idt) (m : Machine K)
    (v : U8) (error : U64) (hv : v.toNat < 48) :
    ∃ m₁, (∀ calls, interrupt image calls (kernelIdt image cs idt) v error m
        = (calls .x86_64TrapDispatch m₁).bind fun m => exec calls m epilogue) ∧
      (m₁.core.regs .rsp).toNat % 16 = 0 ∧ m₁.rflags &&& DF = 0 ∧
      (v ≠ 3 → m₁.rflags.getLsbD 9 = false) ∧
      frameAt m₁.core.mem (m₁.core.regs .rdi) = arrived v error m := by
  refine ⟨atCall (stubGate image cs v) v error m,
    fun calls => interrupt_eq image calls cs idt m error hv, ?_, ?_, ?_, ?_⟩
  · have hbase : (frameBase m).toNat = (m.core.regs .rsp).toNat / 2 ^ 4 * 2 ^ 4 :=
      and_highMask_toNat _ _ 4 rfl
    rw [atCall_rsp, words]
    bv_omega
  · rw [atCall_rflags, BitVec.and_assoc, BitVec.and_comm (~~~DF), BitVec.and_not_self]
    exact BitVec.and_zero
  · intro h3
    have hkind : (stubGate image cs v).kind = .interrupt := if_neg h3
    have hbit : (GateKind.cleared .interrupt).getLsbD 9 = true := by decide
    rw [atCall_rflags, hkind, BitVec.getLsbD_and, BitVec.getLsbD_and, BitVec.getLsbD_not, hbit]
    simp
  · exact frameAt_atCall _ v error m

/-- A machine with its own value in each of `rax`, `r8` and `r15`. -/
def markedMachine : Machine Unit :=
  let regs : Reg → U64 := fun r => if r = .rax then 1 else if r = .r8 then 8 else
    if r = .r15 then 15 else 0x9008
  ⟨⟨regs, fun _ => 0⟩, 0x1000, 0x28, 0x602, 0x30, 0, ()⟩

/-- A page fault on a stack that is 8 modulo 16, with the direction flag set: the handler finds
    its stack aligned and the flag clear, and `rax` and `r15` in each other's fields. -/
theorem trap_frame_at_page_fault :
    ∃ m₁, (∀ calls, interrupt flatImage calls (kernelIdt flatImage 0x28 fun _ => default) 14 2
          markedMachine = (calls .x86_64TrapDispatch m₁).bind fun m => exec calls m epilogue) ∧
      (m₁.core.regs .rsp).toNat % 16 = 0 ∧ m₁.rflags &&& DF = 0 ∧
      m₁.rflags.getLsbD 9 = false ∧
      let frame := frameAt m₁.core.mem (m₁.core.regs .rdi)
      frame = arrived 14 2 markedMachine ∧ frame.vector = 14 ∧ frame.errorCode = 2 ∧
        frame.rip = 0x1000 ∧ frame.r8 = 8 ∧ frame.rax = 15 ∧ frame.r15 = 1 := by
  obtain ⟨m₁, hcall, hrsp, hdf, hoff, hframe⟩ := trap_frame_at_call flatImage 0x28
    (fun _ => default) markedMachine 14 2 (by decide)
  refine ⟨m₁, hcall, hrsp, hdf, hoff (by decide), hframe, ?_⟩
  rw [hframe]
  decide +kernel

end Trap
