import Mcsos.ContextModel

/-! # Every thread gets its registers back

    For each thread that is not running, what was last recorded of it is still
    held by its context object and its stack: the context it was prepared with,
    or the registers at its last call of `mcsos_context_switch`, the return
    address being the word the call left on the stack.  A switch reads exactly
    that back, so each thread continues behind its own call.

    Nothing is asked of the ready queue: the threads may be switched in any
    order, and any object may be enqueued, also twice. -/

namespace Context

open Word ByteMemory SchedModel SchedQueue SchedInvariant ContextModel

/-- What is on record of a thread: nothing, the context it was prepared with,
    or the registers at its last call of `mcsos_context_switch`. -/
inductive Life where
  | raw
  | prepared (c : SchedModel.Context)
  | ran (c : SchedModel.Context)
deriving DecidableEq

/-- The stacks of the threads: no byte belongs to two of them. -/
structure Stacks where
  Owns : U64 → U64 → Prop
  apart : ∀ {p q a : U64}, Owns p a → Owns q a → p = q

/-- The thread owns the word at `a`. -/
def Stacks.OwnsWord (S : Stacks) (p a : U64) : Prop :=
  ∀ i, i < 8 → S.Owns p (a + BitVec.ofNat 64 i)

/-- Stacks are not shared: a call pushes on the stack of its caller, a thread is
    prepared with its own stack, and the running thread leaves the others' alone. -/
def Respects (S : Stacks) (k : Processor) : ProcessorOp → Prop
  | .call _ => S.OwnsWord k.current (k.cpu.regs .rsp - 8)
  | .prepare p _ stackBase stackSize =>
      ∀ i, i < stackSize.toNat → S.Owns p (stackBase + BitVec.ofNat 64 i)
  | .work _ mem => ∀ p a, p ≠ k.current → S.Owns p a → mem a = k.sched.mem a

/-- Whether a call switches to another thread. -/
def Switches (k : Processor) (op : SchedOp) : Prop :=
  (schedStep k.sched op).2.sched.current ≠ k.current

instance (k : Processor) (op : SchedOp) : Decidable (Switches k op) :=
  inferInstanceAs (Decidable (_ ≠ _))

/-- Put something else on record of a thread. -/
def putLife (lives : U64 → Life) (p : U64) (l : Life) : U64 → Life :=
  fun q => if q = p then l else lives q

/-- The record after a step. -/
def record (L : Layout) (lives : U64 → Life) (k : Processor) : ProcessorOp → U64 → Life
  | .call op => if Switches k op then putLife lives k.current (.ran k.cpu.context) else lives
  | .prepare p entry stackBase stackSize =>
      match mcsosThreadPrepare L.trampoline k.sched p entry stackBase stackSize with
      | (.ok (), s) => putLife lives p (.prepared (s.threads p).context)
      | (.error _, _) => lives
  | .work _ _ => lives

/-- The states of runs, with the record of every thread. -/
inductive ProcessorReach (L : Layout) (S : Stacks) : (U64 → Life) → Processor → Prop where
  | init {s : SchedState} {boot : U64} {cpu : Cpu}
      (hok : (mcsosSchedulerInit s boot).1 = .ok ()) :
      ProcessorReach L S (fun _ => .raw) ⟨(mcsosSchedulerInit s boot).2, cpu⟩
  | step {lives : U64 → Life} {k k' : Processor} (h : ProcessorReach L S lives k)
      (op : ProcessorOp) (hop : Respects S k op) (hstep : processorStep L k op = some k') :
      ProcessorReach L S (record L lives k op) k'

variable {L : Layout} {S : Stacks} {lives : U64 → Life} {k k' : Processor} {op : SchedOp}
variable {label old next p q : U64} {s : SchedState} {l : Life}

/-! ## The routine -/

/-- The thread whose context a pointer leads to. -/
theorem contextPtr_owner (p : U64) : contextPtr p - CONTEXT_OFFSET = p := by
  rw [contextPtr]
  bv_omega

@[simp] theorem regs_setReg (k : Processor) (r r' : Reg) (v : U64) :
    (k.setReg r v).cpu.regs r' = if r' = r then v else k.cpu.regs r' := rfl

@[simp] theorem rip_setReg (k : Processor) (r : Reg) (v : U64) :
    (k.setReg r v).cpu.rip = k.cpu.rip := rfl

@[simp] theorem sched_setReg (k : Processor) (r : Reg) (v : U64) :
    (k.setReg r v).sched = k.sched := rfl

@[simp] theorem contextOf_setReg (k : Processor) (r : Reg) (v p : U64) :
    (k.setReg r v).contextOf p = k.contextOf p := rfl

@[simp] theorem regs_setRip (k : Processor) (v : U64) : (k.setRip v).cpu.regs = k.cpu.regs := rfl

@[simp] theorem rip_setRip (k : Processor) (v : U64) : (k.setRip v).cpu.rip = v := rfl

@[simp] theorem sched_setRip (k : Processor) (v : U64) : (k.setRip v).sched = k.sched := rfl

@[simp] theorem contextOf_setRip (k : Processor) (v p : U64) :
    (k.setRip v).contextOf p = k.contextOf p := rfl

@[simp] theorem cpu_setContext (k : Processor) (p : U64) (c : SchedModel.Context) :
    (k.setContext p c).cpu = k.cpu := rfl

theorem mem_setContext (k : Processor) (p : U64) (c : SchedModel.Context) :
    (k.setContext p c).sched.mem = k.sched.mem := rfl

theorem sched_setContext (k : Processor) (p : U64) (c : SchedModel.Context) :
    (k.setContext p c).sched.sched = k.sched.sched := rfl

/-- Only the thread that is named gets another context. -/
@[simp] theorem contextOf_setContext (k : Processor) (p q : U64) (c : SchedModel.Context) :
    (k.setContext p c).contextOf q = if q = p then c else k.contextOf q :=
  apply_ite Thread.context _ _ _

/-- Up to its jump the routine saves the registers in the context at `rdi`, with the
    label for `rip`, and loads those at `rsi`; it writes no other context. -/
theorem switchCode_spec (label : U64) (hdi : k.cpu.regs .rdi = contextPtr old)
    (hsi : k.cpu.regs .rsi = contextPtr next) (hne : next ≠ old) :
    ∃ k', execCode label k switchCode = some k' ∧
      k'.cpu.context = k.contextOf next ∧ k'.sched.mem = k.sched.mem ∧
      k'.current = k.current ∧
      ∀ p, k'.contextOf p =
        if p = old then { k.cpu.context with rip := label } else k.contextOf p := by
  refine ⟨_, rfl, ?_, ?_, ?_, fun p => ?_⟩
  · simp [Cpu.context, hdi, hsi, contextPtr_owner, hne]
  · simp only [sched_setRip, sched_setReg, mem_setContext]
  · simp only [Processor.current, sched_setRip, sched_setReg, sched_setContext]
  · by_cases hp : p = old
    · simp [Cpu.context, hdi, contextPtr_owner, hp]
    · simp [hdi, contextPtr_owner, hp]

/-- At its label the routine returns. -/
theorem labelCode_spec (label : U64) (k : Processor) :
    ∃ k', execCode label k labelCode = some k' ∧ k'.sched = k.sched ∧
      k'.cpu.context = { k.cpu.context with
        rsp := k.cpu.regs .rsp + 8, rip := load64 k.sched.mem (k.cpu.regs .rsp) } := by
  refine ⟨(k.setRip (load64 k.sched.mem (k.cpu.regs .rsp))).setReg .rsp (k.cpu.regs .rsp + 8),
    ?_, ?_, ?_⟩
  · simp only [execCode, labelCode, execInstr, Option.bind_some]
  · simp
  · simp [Cpu.context]

/-- The context that is left of a thread which called the routine with registers `c`. -/
def suspended (label : U64) (c : SchedModel.Context) : SchedModel.Context :=
  { c with rsp := c.rsp - 8, rip := label }

/-- What a switch from `old` to `next` does: the registers of the caller are saved, and
    control is where the context of `next` leads, which behind the label is the return
    address on its stack. -/
structure Switched (label : U64) (k : Processor) (old next : U64) (k' : Processor) : Prop where
  mem : k'.sched.mem = store64 k.sched.mem (k.cpu.regs .rsp - 8) k.cpu.rip
  saved : k'.contextOf old = suspended label k.cpu.context
  others : ∀ p, p ≠ old → k'.contextOf p = k.contextOf p
  first : (k.contextOf next).rip ≠ label → k'.cpu.context = k.contextOf next
  back : ∀ c, k.contextOf next = suspended label c → load64 k'.sched.mem (c.rsp - 8) = c.rip →
    k'.cpu.context = c

/-- Every call of the routine ends, and switches. -/
theorem mcsosContextSwitch_spec (k : Processor) (label : U64) (hne : next ≠ old) :
    ∃ k', mcsosContextSwitch label k old next = some k' ∧ k'.current = k.current ∧
      Switched label k old next k' := by
  obtain ⟨m, hrun, hctx, hmem, hcur, hall⟩ :=
    switchCode_spec (k := k.call (contextPtr old) (contextPtr next)) label rfl rfl hne
  have hsaved : m.contextOf old = suspended label k.cpu.context := (hall old).trans (if_pos rfl)
  have hothers : ∀ p, p ≠ old → m.contextOf p = k.contextOf p :=
    fun p hp => (hall p).trans (if_neg hp)
  have hctx : m.cpu.context = k.contextOf next := hctx
  have hrip : m.cpu.rip = (k.contextOf next).rip := congrArg SchedModel.Context.rip hctx
  rw [mcsosContextSwitch, hrun, Option.bind_some]
  -- the jump leads to the label, where the routine returns, or to where the thread starts
  by_cases hl : m.cpu.rip = label
  · obtain ⟨m', hret, hsched, hcpu⟩ := labelCode_spec label m
    rw [if_pos hl]
    refine ⟨m', hret, ?_, ?_, ?_, ?_, fun h => absurd (hrip.symm.trans hl) h, ?_⟩
    · rw [Processor.current, hsched]
      exact hcur
    · rw [hsched]
      exact hmem
    · rw [Processor.contextOf, hsched]
      exact hsaved
    · intro p hp
      rw [Processor.contextOf, hsched]
      exact hothers p hp
    · intro c hc hload
      have hsp : m.cpu.regs .rsp = c.rsp - 8 :=
        congrArg SchedModel.Context.rsp (hctx.trans hc)
      rw [hcpu, hctx, hc, hsp, ← hsched, hload, BitVec.sub_add_cancel]
      rfl
  · rw [if_neg hl]
    refine ⟨m, rfl, hcur, hmem, hsaved, hothers, fun _ => hctx, ?_⟩
    intro c hc _
    exact absurd (hrip.trans (congrArg SchedModel.Context.rip hc)) hl

/-! ## The record is kept -/

/-- What the objects of a thread that is not running hold of its record. -/
def Kept (L : Layout) (S : Stacks) (k : Processor) (p : U64) : Life → Prop
  | .raw => True
  | .prepared c => k.contextOf p = c ∧ c.rip = L.trampoline
  | .ran c => k.contextOf p = suspended L.label c ∧
      load64 k.sched.mem (c.rsp - 8) = c.rip ∧ S.OwnsWord p (c.rsp - 8)

/-- **THE RECORD** of every thread but the running one is kept. -/
def RecordKept (L : Layout) (S : Stacks) (lives : U64 → Life) (k : Processor) : Prop :=
  ∀ p, p ≠ k.current → Kept L S k p (lives p)

/-- A step that leaves a thread's context and stack alone keeps its record. -/
theorem Kept.frame (h : Kept L S k p l) (hctx : k'.contextOf p = k.contextOf p)
    (hmem : ∀ a, S.Owns p a → k'.sched.mem a = k.sched.mem a) : Kept L S k' p l := by
  cases l with
  | raw => trivial
  | prepared c => exact ⟨hctx.trans h.1, h.2⟩
  | ran c =>
      obtain ⟨hc, hload, howns⟩ := h
      refine ⟨hctx.trans hc, ?_, howns⟩
      rw [load64_congr (fun i hi => hmem _ (howns i hi))]
      exact hload

/-- Writing a word of one thread's stack leaves the others' stacks alone. -/
theorem store64_frame {m : Mem} {a v x : U64} (hown : S.OwnsWord q a) (hne : p ≠ q)
    (hx : S.Owns p x) : store64 m a v x = m x := by
  refine storeBytes_outside (fun hin => hne ?_)
  have hxq := hown _ hin
  rw [BitVec.ofNat_toNat, BitVec.setWidth_eq, BitVec.add_comm, BitVec.sub_add_cancel] at hxq
  exact S.apart hx hxq

/-- The saved registers and the stacks are the same. -/
structure SameContexts (s s' : SchedState) : Prop where
  mem : s'.mem = s.mem
  context : ∀ p, (s'.threads p).context = (s.threads p).context

theorem SameContexts.refl (s : SchedState) : SameContexts s s := ⟨rfl, fun _ => rfl⟩

theorem SameContexts.trans {s₁ s₂ s₃ : SchedState} (h : SameContexts s₁ s₂)
    (h' : SameContexts s₂ s₃) : SameContexts s₁ s₃ :=
  ⟨h'.mem.trans h.mem, fun p => (h'.context p).trans (h.context p)⟩

/-- An update of a thread object that keeps its context. -/
theorem setThread_same {t : Thread} (ht : t.context = (s.threads p).context) :
    SameContexts s (s.setThread p t) := by
  refine ⟨rfl, fun q => ?_⟩
  show (if q = p then t else s.threads q).context = (s.threads q).context
  by_cases hq : q = p
  · rw [if_pos hq, hq, ht]
  · rw [if_neg hq]

section Updates

variable {s₀ s₁ : SchedState}

/-- The state of a thread is not its context. -/
theorem SameContexts.setState (h : SameContexts s₀ s) (p : U64) (st : ThreadState) :
    SameContexts s₀ (s.setState p st) :=
  h.trans (setThread_same rfl)

/-- A thread's link in the queue is no part of its context. -/
theorem SameContexts.setNext (h : SameContexts s₀ s) (p q : U64) :
    SameContexts s₀ (s.setNext p q) :=
  h.trans (setThread_same rfl)

/-- A thread's count of switches is no part of its context. -/
theorem SameContexts.addSwitch (h : SameContexts s₀ s) (p : U64) :
    SameContexts s₀ (s.addSwitch p) :=
  h.trans (setThread_same rfl)

/-- A thread's count of ticks is no part of its context. -/
theorem SameContexts.addTick (h : SameContexts s₀ s) (p : U64) : SameContexts s₀ (s.addTick p) :=
  h.trans (setThread_same rfl)

/-- The scheduler's own record holds no context. -/
theorem SameContexts.setSched (h : SameContexts s₀ s) (c : Scheduler) :
    SameContexts s₀ { s with sched := c } :=
  ⟨h.mem, h.context⟩

/-- A branch between two changes of the bookkeeping. -/
theorem SameContexts.ite {c : Prop} [Decidable c] (h : SameContexts s₀ s)
    (h' : SameContexts s₀ s₁) : SameContexts s₀ (if c then s else s₁) := by
  split
  · exact h
  · exact h'

end Updates

/-- Queueing a thread touches no context. -/
theorem appendReady_same (s : SchedState) (p : U64) : SameContexts s (appendReady s p) := by
  have h := ((SameContexts.refl s).setState p .ready).setNext p 0
  exact ((h.setSched _).ite ((h.setNext _ p).setSched _)).setSched _

/-- `mcsos_sched_enqueue` touches no context, refused or not. -/
theorem enqueue_same (s : SchedState) (p : U64) : SameContexts s (mcsosSchedEnqueue s p).2 := by
  rw [mcsosSchedEnqueue]
  split
  · exact .refl s
  · split
    · exact appendReady_same s p
    · exact appendReady_same s p
    · exact appendReady_same s p
    · exact .refl s
    · exact .refl s

/-- Taking the head of the queue touches no context. -/
theorem popReady_same (s : SchedState) (t : U64) : SameContexts s (popReady s t) := by
  have hhead := (SameContexts.refl s).setSched { s.sched with readyHead := (s.threads t).next }
  have hempty := hhead.setSched { s.sched with readyHead := (s.threads t).next, readyTail := 0 }
  have h := (hempty.ite (c := (s.threads t).next = 0) hhead).setNext t 0
  exact (h.setSched _).ite h

/-- `mcsos_sched_pick_next` touches no context. -/
theorem pickNext_same (s : SchedState) : SameContexts s (mcsosSchedPickNext s).2 := by
  rw [mcsosSchedPickNext]
  split
  · exact .refl s
  · split
    · exact .refl s
    · exact popReady_same s _

/-- The bookkeeping of a switch comes before the registers change. -/
theorem switchTo_same (s : SchedState) (old next : U64) :
    SameContexts s (switchTo s old next) :=
  (((((SameContexts.refl s).setState next .running).setSched _).addSwitch old).addSwitch
    next).setSched _

/-- `mcsos_sched_yield` up to its switch of registers touches no context. -/
theorem yield_same (s : SchedState) : SameContexts s (mcsosSchedYield s).2 := by
  rw [mcsosSchedYield]
  split
  · exact .refl s
  · have hpick := pickNext_same s
    generalize mcsosSchedPickNext s = picked at hpick ⊢
    obtain ⟨next, s'⟩ := picked
    -- the outgoing thread may be put back in the list before the switch
    have hready := hpick.setState s.sched.current .ready
    have hrejoin := hready.trans (enqueue_same (s'.setState s.sched.current .ready) s.sched.current)
    dsimp only at hpick ⊢
    split
    · exact hpick
    · split
      · exact hpick.setState _ .running
      · split
        · generalize mcsosSchedEnqueue (s'.setState s.sched.current .ready) s.sched.current
            = joined at hrejoin ⊢
          obtain ⟨_ | _, s''⟩ := joined
          · exact hrejoin
          · exact hrejoin.trans (switchTo_same _ _ _)
        · exact hpick.trans (switchTo_same _ _ _)

/-- **NO CALL** of the scheduler changes saved registers or stacks. -/
theorem schedStep_same (s : SchedState) (op : SchedOp) : SameContexts s (schedStep s op).2 := by
  cases op with
  | enqueue p => exact enqueue_same s p
  | yield => exact yield_same s
  | tick =>
      show SameContexts s (mcsosSchedTick s).2
      rw [mcsosSchedTick]
      split
      · exact .refl s
      · exact ((SameContexts.refl s).setSched _).addTick _
  | blockCurrent =>
      show SameContexts s (mcsosThreadBlockCurrent s).2
      rw [mcsosThreadBlockCurrent]
      split
      · exact .refl s
      · split
        · exact .refl s
        · exact ((SameContexts.refl s).setState _ .blocked).trans (yield_same _)
  | markReady p =>
      show SameContexts s (mcsosThreadMarkReady s p).2
      rw [mcsosThreadMarkReady]
      split
      · exact .refl s
      · split
        · exact .refl s
        · exact enqueue_same s p

/-! ## One step -/

/-- The stack top a thread is prepared with lies in the memory it is given. -/
theorem prepare_owns {base size : U64} (hfits : StackFits base size)
    (hown : ∀ i, i < size.toNat → S.Owns p (base + BitVec.ofNat 64 i)) :
    S.OwnsWord p (alignDown (base + size) MCSOS_STACK_ALIGN - 8) := by
  have hle : (alignDown (base + size) MCSOS_STACK_ALIGN).toNat ≤ (base + size).toNat := by
    rw [alignDown, BitVec.toNat_and]
    exact Nat.and_le_left
  have hsize : 4096 ≤ size.toNat := BitVec.not_lt.mp hfits.size
  have hhigh := hfits.high
  have htop := hfits.top
  generalize alignDown (base + size) MCSOS_STACK_ALIGN = top at hle htop ⊢
  intro i hi
  have hplace : top - 8 + BitVec.ofNat 64 i
      = base + BitVec.ofNat 64 (top.toNat - 8 + i - base.toNat) := by bv_omega
  rw [hplace]
  exact hown _ (by bv_omega)

/-- A call that makes another thread current switches to it. -/
theorem call_switches (L : Layout) (hsw : Switches k op) :
    ∃ k', processorStep L k (.call op) = some k' ∧
      k'.current = (schedStep k.sched op).2.sched.current ∧
      Switched L.label k k.current (schedStep k.sched op).2.sched.current k' := by
  have hsame := schedStep_same k.sched op
  obtain ⟨k', hk', hcur, hspec⟩ :=
    mcsosContextSwitch_spec { k with sched := (schedStep k.sched op).2 } L.label hsw
  refine ⟨k', (if_neg hsw).trans hk', hcur, ?_, hspec.saved, ?_, ?_, ?_⟩
  · exact hspec.mem.trans (by rw [hsame.mem])
  · intro p hp
    exact (hspec.others p hp).trans (hsame.context p)
  · intro hrip
    rw [Processor.contextOf, ← hsame.context] at hrip ⊢
    exact hspec.first hrip
  · intro c hc
    rw [Processor.contextOf, ← hsame.context] at hc
    exact hspec.back c hc

/-- A call that makes no other thread current leaves registers, contexts and stacks alone. -/
theorem call_stays (L : Layout) (hsw : ¬ Switches k op) :
    processorStep L k (.call op) = some { k with sched := (schedStep k.sched op).2 } :=
  if_pos (not_not.mp hsw)

/-- **ONE STEP** keeps the record. -/
theorem processorStep_kept {op : ProcessorOp} (h : RecordKept L S lives k) (hop : Respects S k op)
    (hstep : processorStep L k op = some k') : RecordKept L S (record L lives k op) k' := by
  cases op with
  | call op =>
      by_cases hsw : Switches k op
      · obtain ⟨k₁, hk₁, hcur, hspec⟩ := call_switches L hsw
        obtain rfl : k₁ = k' := Option.some.inj (hk₁.symm.trans hstep)
        intro p hp
        show Kept L S k₁ p ((if Switches k op then putLife lives k.current _ else lives) p)
        rw [if_pos hsw]
        by_cases hpc : p = k.current
        · -- the thread that called: its return address is what the call pushed
          rw [putLife, if_pos hpc, hpc]
          refine ⟨hspec.saved, ?_, hop⟩
          rw [hspec.mem]
          exact load64_store64 _ _ _
        · rw [putLife, if_neg hpc]
          refine (h p hpc).frame (hspec.others p hpc) (fun a ha => ?_)
          rw [hspec.mem]
          exact store64_frame hop hpc ha
      · obtain rfl := Option.some.inj ((call_stays L hsw).symm.trans hstep)
        -- no switch: the call is bookkeeping, and the caller goes on
        have hsame := schedStep_same k.sched op
        intro p hp
        show Kept L S _ p ((if Switches k op then putLife lives k.current _ else lives) p)
        rw [if_neg hsw]
        have hpc : p ≠ k.current := fun hc => hp (hc.trans (not_not.mp hsw).symm)
        exact (h p hpc).frame (hsame.context p) (fun a _ => congrFun hsame.mem a)
  | prepare p entry base size =>
      have hk' := Option.some.inj hstep
      dsimp only [record]
      rcases prepare_cases L.trampoline k.sched p entry base size with
        ⟨e, heq⟩ | ⟨-, hfits, heq⟩
      · rw [heq] at hk' ⊢
        subst hk'
        exact h
      · -- the word that is cleared is on the stack the thread is given
        rw [heq] at hk' ⊢
        subst hk'
        intro q hq
        dsimp only [putLife]
        by_cases hqp : q = p
        · rw [if_pos hqp, hqp]
          exact ⟨rfl, congrArg (fun t : Thread => t.context.rip) (if_pos rfl)⟩
        · rw [if_neg hqp]
          exact (h q hq).frame (congrArg Thread.context (if_neg hqp))
            (fun a ha => store64_frame (prepare_owns hfits hop) hqp ha)
  | work cpu mem =>
      obtain rfl := Option.some.inj hstep
      intro p hp
      exact (h p hp).frame rfl (fun a ha => hop p a hp ha)

/-! ## Whole runs -/

/-- Every run keeps the record. -/
theorem reach_kept (h : ProcessorReach L S lives k) : RecordKept L S lives k := by
  induction h with
  | init hok =>
      intro p _
      trivial
  | step _ op hop hstep ih => exact processorStep_kept ih hop hstep

/-- **EVERY THREAD GETS ITS REGISTERS BACK**: a thread that ran before continues behind
    its own last call of the routine, one that runs for the first time starts with the
    context it was prepared with, and the saved context of no other thread changes. -/
theorem context_switch_resumes (h : ProcessorReach L S lives k) (hop : Respects S k (.call op))
    (hsw : Switches k op) :
    ∃ k', processorStep L k (.call op) = some k' ∧
      k'.current = (schedStep k.sched op).2.sched.current ∧
      (∀ c, lives k'.current = .ran c → k'.cpu.context = c) ∧
      (∀ c, lives k'.current = .prepared c → k'.cpu.context = c) ∧
      ∀ p, p ≠ k.current → k'.contextOf p = k.contextOf p := by
  obtain ⟨k', hk', hcur, hspec⟩ := call_switches L hsw
  have hne : k'.current ≠ k.current := hcur.trans_ne hsw
  have hkept := reach_kept h _ hne
  rw [← hcur] at hspec
  refine ⟨k', hk', hcur, ?_, ?_, hspec.others⟩
  · intro c hc
    rw [hc] at hkept
    obtain ⟨hctx, hload, howns⟩ := hkept
    refine hspec.back c hctx ?_
    -- the caller's push is on its own stack, so the return address is still there
    rw [hspec.mem, load64_congr (fun i hi => store64_frame hop hne (howns i hi))]
    exact hload
  · intro c hc
    rw [hc] at hkept
    obtain ⟨hctx, hrip⟩ := hkept
    rw [hspec.first (by rw [hctx, hrip]; exact L.apart), hctx]

/-- The two stacks of the example have no byte in common. -/
theorem stacks_apart {a : U64} (h : InRange 0x8000 0x1000 a) (h' : InRange 0x10000 0x1000 a) :
    False := by
  rw [InRange] at h h'
  bv_omega

/-- The boot thread at address 1 and a thread at 2, with their stacks. -/
def twoStacks : Stacks where
  Owns p a := (p = 1 ∧ InRange 0x8000 0x1000 a) ∨ (p = 2 ∧ InRange 0x10000 0x1000 a)
  apart := by
    rintro p q a (⟨rfl, h⟩ | ⟨rfl, h⟩) (⟨rfl, h'⟩ | ⟨rfl, h'⟩)
    · rfl
    · exact (stacks_apart h h').elim
    · exact (stacks_apart h' h).elim
    · rfl

/-- Where the two routines lie in the example. -/
def twoLayout : Layout := ⟨0x100, 0x10, by decide⟩

/-- The registers of the boot thread at its call. -/
def bootCpu : Cpu where
  regs := fun r => if r = .rsp then 0x9000 else if r = .rbx then 7 else 0
  rip := 0x400

/-- The registers of the other thread at its call. -/
def otherCpu : Cpu where
  regs := fun r => if r = .rsp then 0x10f00 else 9
  rip := 0x500

/-- A step that is known to be possible. -/
def twoStep (k : Processor) (op : ProcessorOp) : Processor := (processorStep twoLayout k op).getD k

/-- The other thread is prepared and enqueued, the boot thread yields to it, and it works. -/
def prepared : Processor :=
  twoStep ⟨(mcsosSchedulerInit blankState 1).2, bootCpu⟩ (.prepare 2 32 0x10000 0x1000)
/-- The other thread is in the queue. -/
def waiting : Processor := twoStep prepared (.call (.enqueue 2))
/-- The prepared thread runs. -/
def started : Processor := twoStep waiting (.call .yield)
/-- The prepared thread has used its registers and its stack. -/
def worked : Processor := twoStep started (.work otherCpu started.sched.mem)

/-- The step is the one of the machine. -/
theorem twoStep_eq {op : ProcessorOp} (h : (processorStep twoLayout k op).isSome = true) :
    processorStep twoLayout k op = some (twoStep k op) := by
  obtain ⟨k', hk'⟩ := Option.isSome_iff_exists.mp h
  rw [twoStep, hk', Option.getD_some]

/-- The boot thread's call is on its own stack. -/
theorem respects_bootStack (hcur : k.current = 1) (hsp : k.cpu.regs .rsp = 0x9000) :
    Respects twoStacks k (.call op) := by
  intro i hi
  refine Or.inl ⟨hcur, ?_⟩
  rw [hsp, InRange]
  bv_omega

/-- The other thread's call is on its own stack. -/
theorem respects_otherStack (hcur : k.current = 2) (hsp : k.cpu.regs .rsp = 0x10f00) :
    Respects twoStacks k (.call op) := by
  intro i hi
  refine Or.inr ⟨hcur, ?_⟩
  rw [hsp, InRange]
  bv_omega

/-- When the other thread yields back, the boot thread has the registers it had at its own call. -/
theorem context_switch_resumes_boot :
    ∃ k', processorStep twoLayout worked (.call .yield) = some k' ∧ k'.current = 1 ∧
      k'.cpu.context = bootCpu.context := by
  have h0 : ProcessorReach twoLayout twoStacks _ ⟨(mcsosSchedulerInit blankState 1).2, bootCpu⟩ :=
    .init (by decide +kernel)
  have hown : Respects twoStacks ⟨(mcsosSchedulerInit blankState 1).2, bootCpu⟩
      (.prepare 2 32 0x10000 0x1000) := by
    intro i hi
    have hi : i < 0x1000 := hi
    refine Or.inr ⟨rfl, ?_⟩
    rw [InRange]
    bv_omega
  -- prepare, enqueue, yield and work lead to the state before the last yield
  have h1 := h0.step _ hown (twoStep_eq (by decide +kernel))
  have h2 := h1.step (.call (.enqueue 2))
    (respects_bootStack (by decide +kernel) (by decide +kernel)) (twoStep_eq (by decide +kernel))
  have h3 := h2.step (.call .yield) (respects_bootStack (by decide +kernel) (by decide +kernel))
    (twoStep_eq (by decide +kernel))
  have h4 := h3.step (.work otherCpu started.sched.mem) (fun _ _ _ _ => rfl)
    (twoStep_eq (by decide +kernel))
  obtain ⟨k', hk', hcur, hback, -⟩ := context_switch_resumes h4
    (respects_otherStack (by decide +kernel) (by decide +kernel))
    (show Switches worked .yield by decide +kernel)
  have hboot : k'.current = 1 := hcur.trans (by decide +kernel)
  exact ⟨k', hk', hboot, hback _ (by rw [hboot]; decide +kernel)⟩

end Context
