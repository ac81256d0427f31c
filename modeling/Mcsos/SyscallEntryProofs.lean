import Mcsos.SyscallEntryModel
import Mcsos.TrapProofs
import Mcsos.SyscallConfinementProofs

/-! # System calls by `int 0x80`

    The stub stores the registers as a frame, and the frame as the handler reads it
    is the call: number in `rax`, arguments in `rdi`, `rsi`, `rdx`, `r10`, `r8` and
    `r9`.  The caller gets the answer in `rax`, and keeps what a C function keeps
    for its caller.  The stub saves no other register. -/

namespace SyscallEntry

open Word ByteMemory Stack Splice PicModel VfsModel SyscallModel SyscallConfinement TrapModel
  SyscallEntryModel Idt Trap

variable {K W : Type}

/-! ## The way in -/

/-- The words the stub stores, from the stack pointer up. -/
def callWords (m : Machine K) : List U64 :=
  [m.core.regs .rax, m.core.regs .rdi, m.core.regs .rsi, m.core.regs .rdx, m.core.regs .r10,
    m.core.regs .r8, m.core.regs .r9, 0]

/-- The machine at the call of `mcsos_syscall_dispatch_frame`, from the one at the stub. -/
def framePushed (m : Machine K) : Machine K :=
  { m with
    core :=
      ((Core.mk m.core.regs
        (storeAll m.core.mem (m.core.regs .rsp - words 8) 0 (callWords m))).setReg
          .rsp (m.core.regs .rsp - words 8)).setReg .rdi (m.core.regs .rsp - words 8)
    rflags := m.rflags &&& ~~~DF }

theorem framePushed_rsp (m : Machine K) :
    (framePushed m).core.regs .rsp = m.core.regs .rsp - words 8 :=
  (regs_setReg_of_ne _ _ (by decide)).trans (regs_setReg_self _ _ _)

theorem framePushed_rdi (m : Machine K) :
    (framePushed m).core.regs .rdi = m.core.regs .rsp - words 8 :=
  regs_setReg_self _ _ _

theorem framePushed_regs (m : Machine K) {r : Reg} (hsp : r ≠ .rsp) (hdi : r ≠ .rdi) :
    (framePushed m).core.regs r = m.core.regs r :=
  (regs_setReg_of_ne _ _ hdi).trans (regs_setReg_of_ne _ _ hsp)

theorem framePushed_mem (m : Machine K) : (framePushed m).core.mem
    = storeAll m.core.mem (m.core.regs .rsp - words 8) 0 (callWords m) := rfl

/-- The code behind the call. -/
def int80Epilogue : List Instr := [.load 56 .rax, .addSp 64, .iretq]

/-- The stub pushes the frame, calls the dispatcher and returns. -/
theorem exec_int80 (calls : Calls K) (m : Machine K) :
    exec calls m x86_64SyscallInt80Stub
      = (calls .mcsosSyscallDispatchFrame (framePushed m)).bind
          fun m => exec calls m int80Epilogue := by
  have hcode : x86_64SyscallInt80Stub = [.cld, .subSp 64, .store .rax 0, .store .rdi 8,
      .store .rsi 16, .store .rdx 24, .store .r10 32, .store .r8 40, .store .r9 48,
      .storeImm 0 56, .mov .rsp .rdi] ++ .call .mcsosSyscallDispatchFrame :: int80Epilogue := rfl
  have hpushed : exec calls m [.cld, .subSp 64, .store .rax 0, .store .rdi 8, .store .rsi 16,
      .store .rdx 24, .store .r10 32, .store .r8 40, .store .r9 48, .storeImm 0 56,
      .mov .rsp .rdi] = some (framePushed m) := by
    simp only [exec, execInstr, Option.bind_some, Core.setReg, framePushed, callWords, storeAll,
      words]
    simp
  rw [hcode, exec_append, hpushed, Option.bind_some, exec, execInstr]

/-- The machine at the call, from the interrupted one. -/
def int80AtCall (gate : Gate) (error : U64) (m : Machine K) : Machine K :=
  framePushed (deliver gate 0x80 error m)

/-- The gate of vector 0x80. -/
def int80Gate (image : Image) (cs : U16) : Gate := ⟨.interrupt, image.int80Stub, cs, 0, 0⟩

/-- The gate leads to the stub. -/
theorem interrupt_int80 (image : Image) (calls : Calls K) (cs : U16) (idt : TrapModel.Idt)
    (error : U64) (m : Machine K) :
    interrupt image calls (kernelIdt image cs idt) 0x80 error m
      = (calls .mcsosSyscallDispatchFrame (int80AtCall (int80Gate image cs) error m)).bind
          fun m => exec calls m int80Epilogue := by
  have hrip : (deliver (int80Gate image cs) 0x80 error m).rip = image.int80Stub := rfl
  rw [interrupt, kernelIdt_gate, if_neg (by decide), if_pos rfl, Option.bind_some]
  show (image.code (deliver (int80Gate image cs) 0x80 error m).rip).bind _ = _
  rw [hrip, image.int80_code, Option.bind_some, exec_int80]
  rfl

section AtCall

variable (gate : Gate) (error : U64) (m : Machine K)

/-- The processor pushes five words. -/
theorem deliver_pushed : Pushed .rsp (m.core.setReg .rsp (frameBase m))
    [m.ss.setWidth 64, m.core.regs .rsp, m.rflags, m.cs.setWidth 64, m.rip]
    (deliver gate 0x80 error m).core :=
  pushAll_pushed _ _

/-- Five words lie on the stack when the stub starts. -/
theorem deliver_rsp : (deliver gate 0x80 error m).core.regs .rsp = frameBase m - words 5 := by
  have h := (deliver_pushed gate error m).pointer
  rwa [regs_setReg_self] at h

theorem deliver_regs {r : Reg} (h : r ≠ .rsp) :
    (deliver gate 0x80 error m).core.regs r = m.core.regs r :=
  ((deliver_pushed gate error m).others r h).trans (regs_setReg_of_ne _ _ h)

/-- The eight words of the frame are below those. -/
theorem deliver_rsp_sub :
    (deliver gate 0x80 error m).core.regs .rsp - words 8 = frameBase m - words 13 := by
  rw [deliver_rsp, words, words, words]
  bv_omega

/-- Thirteen words lie on the stack at the call. -/
theorem int80AtCall_rsp :
    (int80AtCall gate error m).core.regs .rsp = frameBase m - words 13 := by
  rw [int80AtCall, framePushed_rsp, deliver_rsp_sub]

/-- The dispatcher is given the frame's address. -/
theorem int80AtCall_rdi :
    (int80AtCall gate error m).core.regs .rdi = frameBase m - words 13 := by
  rw [int80AtCall, framePushed_rdi, deliver_rsp_sub]

theorem int80AtCall_regs {r : Reg} (hsp : r ≠ .rsp) (hdi : r ≠ .rdi) :
    (int80AtCall gate error m).core.regs r = m.core.regs r := by
  rw [int80AtCall, framePushed_regs _ hsp hdi, deliver_regs gate error m hsp]

/-- The processor leaves the arguments in their registers. -/
theorem callWords_deliver : callWords (deliver gate 0x80 error m) = callWords m := by
  have h (r : Reg) (hr : r ≠ .rsp) := deliver_regs gate error m hr
  rw [callWords, h .rax (by decide), h .rdi (by decide), h .rsi (by decide), h .rdx (by decide),
    h .r10 (by decide), h .r8 (by decide), h .r9 (by decide), callWords]

/-- The frame is stored below what the processor pushed. -/
theorem int80AtCall_mem :
    (int80AtCall gate error m).core.mem
      = storeAll (deliver gate 0x80 error m).core.mem (frameBase m - words 13) 0
          (callWords m) := by
  rw [int80AtCall, framePushed_mem, callWords_deliver, deliver_rsp_sub]

/-- From the stack pointer up lie the frame and the words of the processor. -/
theorem int80AtCall_holds :
    Holds (int80AtCall gate error m).core.mem (frameBase m - words 13)
      (callWords m ++ [m.rip, m.cs.setWidth 64, m.rflags, m.core.regs .rsp, m.ss.setWidth 64]) := by
  have hpushed := (deliver_pushed gate error m).holds [] trivial
    (show 8 * (5 + 0) ≤ 2 ^ 64 by decide)
  have hat : frameBase m - words 13 + words (0 + (callWords m).length) = frameBase m - words 5 := by
    have hlen : (callWords m).length = 8 := rfl
    rw [hlen, words, words, words]
    bv_omega
  rw [deliver_rsp, ← hat] at hpushed
  have hframe := storeAll_holds (show 8 * (0 + 8 + 5) ≤ 2 ^ 64 by decide) hpushed
  rw [words_zero, BitVec.add_zero] at hframe
  rw [int80AtCall_mem]
  exact hframe

end AtCall

/-- The call in the registers. -/
def callOf (m : Machine K) : SyscallFrame where
  nr := m.core.regs .rax
  arg0 := m.core.regs .rdi
  arg1 := m.core.regs .rsi
  arg2 := m.core.regs .rdx
  arg3 := m.core.regs .r10
  arg4 := m.core.regs .r8
  arg5 := m.core.regs .r9

/-- The frame the handler reads is the call in the registers. -/
theorem syscallFrameAt_int80 (gate : Gate) (error : U64) (m : Machine K) :
    syscallFrameAt (int80AtCall gate error m).core.mem (frameBase m - words 13) = callOf m := by
  have hload (i : Nat) (w : U64) (hw : (callWords m ++
      [m.rip, m.cs.setWidth 64, m.rflags, m.core.regs .rsp, m.ss.setWidth 64])[i]? = some w) :
      load64 (int80AtCall gate error m).core.mem (frameBase m - words 13 + words i) = w :=
    (int80AtCall_holds gate error m).load hw
  rw [syscallFrameAt, hload 0 _ rfl, hload 1 _ rfl, hload 2 _ rfl, hload 3 _ rfl, hload 4 _ rfl,
    hload 5 _ rfl, hload 6 _ rfl, callOf]

/-! ## The way out -/

section Memory

variable {cfg : SyscallConfig W} {s : SyscallState W}

end Memory

/-! ## Whole calls -/

section Whole

variable {cfg : SyscallConfig W} {room : Nat} {m : Machine (SyscallKernel W)}

/-- The stack that the stub and the handler use is no user memory. -/
def StackApart (cfg : SyscallConfig W) (room : Nat) (m : Machine (SyscallKernel W)) : Prop :=
  ∀ x, InRegion cfg.region x → ¬ Below (frameBase m) (13 + room) x

/-- The frame lies outside the user's region. -/
theorem StackApart.frame (h : StackApart cfg room m) {x : U64} (hx : Below (frameBase m) 13 x) :
    ¬ InRegion cfg.region x :=
  fun hin => h x hin (hx.mono (Nat.le_add_right 13 room))

end Whole

/-- **CALL STATE**: the frame that `mcsos_syscall_dispatch_frame` reads is the call in the
    registers, and `ret` starts as 0.  Unlike the trap stubs this one never meets the ABI's
    rule for the stack: whatever was interrupted, it is 8 modulo 16 at the call. -/
theorem int80_call_state (image : Image) (cs : U16) (idt : TrapModel.Idt) (m : Machine K)
    (error : U64) :
    ∃ m₁, (∀ calls, interrupt image calls (kernelIdt image cs idt) 0x80 error m
        = (calls .mcsosSyscallDispatchFrame m₁).bind fun m => exec calls m int80Epilogue) ∧
      syscallFrameAt m₁.core.mem (m₁.core.regs .rdi) = callOf m ∧
      load64 m₁.core.mem (m₁.core.regs .rdi + words 7) = 0 ∧
      (m₁.core.regs .rsp).toNat % 16 = 8 ∧
      ∀ r, r ≠ .rsp → r ≠ .rdi → m₁.core.regs r = m.core.regs r := by
  refine ⟨int80AtCall (int80Gate image cs) error m,
    fun calls => interrupt_int80 image calls cs idt error m, ?_, ?_, ?_,
    fun r hsp hdi => int80AtCall_regs _ _ _ hsp hdi⟩
  · rw [int80AtCall_rdi, syscallFrameAt_int80]
  · rw [int80AtCall_rdi, (int80AtCall_holds (int80Gate image cs) error m).load (w := 0) rfl]
  · have hbase : (frameBase m).toNat = (m.core.regs .rsp).toNat / 2 ^ 4 * 2 ^ 4 :=
      and_highMask_toNat _ _ 4 rfl
    rw [int80AtCall_rsp, words]
    bv_omega

end SyscallEntry
