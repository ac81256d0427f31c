import Mcsos.TrapProofs

/-! # The controllers and the handler together

    Between two interrupts nothing is in service (`Quiet`): the handler's end of
    interrupt takes out exactly the lines that the acknowledge put in, also for a
    line of the second controller and also when a request has vanished in the
    meantime.  So no request is ever held back by an earlier one, and every vector
    that the controllers can give has a handler that returns. -/

namespace PicDriver

open Word ByteMemory Stack PicModel LogModel TrapModel Trap

variable {d : PicPair}

/-! ## The ports -/

theorem run_bind {σ α β : Type} (x : StateM σ α) (f : α → StateM σ β) (s : σ) :
    (x >>= f).run s = (f (x.run s).1).run (x.run s).2 := rfl

/-- A byte written to a port goes to the controller behind it. -/
theorem outb_run (port : U16) (v : U8) (d : PicPair) :
    (picBus.outb port v).run d = ((),
      if port = PIC1_COMMAND then { d with master := d.master.command v }
      else if port = PIC1_DATA then { d with master := d.master.data v }
      else if port = PIC2_COMMAND then { d with slave := d.slave.command v }
      else if port = PIC2_DATA then { d with slave := d.slave.data v }
      else d) := rfl

/-- A read gives the mask of the controller behind the port. -/
theorem inb_run (port : U16) (d : PicPair) :
    (picBus.inb port).run d = (if port = PIC1_DATA then d.master.imr
      else if port = PIC2_DATA then d.slave.imr else 0xFF, d) := rfl

/-- The four initialisation words and the mask, in their order. -/
def initialised (p : Pic) (offset icw3 mask : U8) : Pic :=
  ((((p.command 0x11).data offset).data icw3).data 0x01).data mask

/-- The remapping sets the offsets and keeps the masks. -/
theorem picRemap_run (a b : U8) (d : PicPair) :
    ((picRemap picBus a b).run d).2
      = ⟨initialised d.master a 0x04 d.master.imr, initialised d.slave b 0x02 d.slave.imr⟩ := by
  -- the rewriting steps are kept in the proof: by computation alone it is checked slowly
  simp -implicitDefEqProofs [picRemap, ioWait, run_bind, outb_run, inb_run, initialised,
    PIC1_COMMAND, PIC1_DATA, PIC2_COMMAND, PIC2_DATA, -StateT.run_bind]

/-- A controller in any state is initialised. -/
theorem initialised_eq (p : Pic) (offset icw3 mask : U8) :
    initialised p offset icw3 mask = ⟨0, 0, mask, offset &&& 0xF8, .ready⟩ := by
  simp [initialised, Pic.command, Pic.data, Stage.last]

/-- Every line is masked. -/
theorem picMaskAll_run (d : PicPair) :
    ((picMaskAll picBus).run d).2 = ⟨d.master.data 0xFF, d.slave.data 0xFF⟩ := by
  simp [picMaskAll, outb_run, PIC1_COMMAND, PIC1_DATA, PIC2_COMMAND, PIC2_DATA]
  rfl

/-- The end of interrupt goes to the master, and to the slave for its own lines. -/
theorem picSendEoi_run (irq : U8) (d : PicPair) :
    ((picSendEoi picBus irq).run d).2 = ⟨d.master.command PIC_EOI,
      if irq ≥ 8 then d.slave.command PIC_EOI else d.slave⟩ := by
  by_cases h : irq ≥ 8
  · rw [picSendEoi, if_pos h, if_pos h]
    simp [outb_run, PIC1_COMMAND, PIC1_DATA, PIC2_COMMAND]
    rfl
  · rw [picSendEoi, if_neg h, if_neg h]
    simp [outb_run, PIC1_COMMAND]

/-- A line taken out of the mask. -/
def unmasked (p : Pic) (i : Nat) : Pic := p.data (p.imr &&& ~~~bit i)

/-- Unmasking clears one bit of one mask. -/
theorem picUnmaskIrq_run (irq : U8) (d : PicPair) :
    ((picUnmaskIrq picBus irq).run d).2 =
      if irq < 8 then { d with master := unmasked d.master irq.toNat }
      else { d with slave := unmasked d.slave (irq - 8).toNat } := by
  have hbit (k : Nat) : ((1 : U32) <<< k).setWidth 8 = bit k := by
    refine BitVec.eq_of_getLsbD_eq (fun i hi => ?_)
    rw [BitVec.getLsbD_setWidth, getLsbD_one_shiftLeft k i (by omega), bit,
      getLsbD_one_shiftLeft k i hi, decide_eq_true hi, Bool.true_and]
  by_cases h : irq < 8
  · simp only [picUnmaskIrq, if_pos h, hbit]
    simp [outb_run, inb_run, PIC1_COMMAND, PIC1_DATA]
    rfl
  · simp only [picUnmaskIrq, if_neg h, hbit]
    simp [outb_run, inb_run, PIC1_COMMAND, PIC1_DATA, PIC2_COMMAND, PIC2_DATA]
    rfl

/-! ## Between two interrupts -/

/-- The controllers are set up. -/
structure Ready (d : PicPair) : Prop where
  masterStage : d.master.stage = .ready
  slaveStage : d.slave.stage = .ready
  masterOffset : d.master.offset = 0x20
  slaveOffset : d.slave.offset = 0x28

/-- Set up, with nothing in service. -/
structure Quiet (d : PicPair) : Prop extends Ready d where
  masterIsr : d.master.isr = 0
  slaveIsr : d.slave.isr = 0

/-- What the setup leaves does not depend on the controllers before it. -/
theorem picSetup_run (d : PicPair) :
    ((picSetup picBus).run d).2
      = ⟨⟨0, 0, 0xFE, 0x20, .ready⟩, ⟨0, 0, 0xFF, 0x28, .ready⟩⟩ := by
  have hsetup : ((picSetup picBus).run d).2 = ((picUnmaskIrq picBus 0).run
    ((picMaskAll picBus).run
      ((picRemap picBus PIC_MASTER_OFFSET PIC_SLAVE_OFFSET).run d).2).2).2 := rfl
  rw [hsetup, picRemap_run, initialised_eq, initialised_eq, picMaskAll_run, picUnmaskIrq_run,
    if_pos (by decide)]
  show (⟨⟨0, 0, 0xFF &&& ~~~bit 0, PIC_MASTER_OFFSET &&& 0xF8, .ready⟩,
    ⟨0, 0, 0xFF, PIC_SLAVE_OFFSET &&& 0xF8, .ready⟩⟩ : PicPair) = _
  decide

/-- No interrupt is in service after the setup. -/
theorem picSetup_quiet (d : PicPair) : Quiet ((picSetup picBus).run d).2 := by
  rw [picSetup_run]
  exact ⟨⟨rfl, rfl, rfl, rfl⟩, rfl, rfl⟩

/-- Raising a line puts nothing in service. -/
theorem Quiet.raise (h : Quiet d) (irq : Fin 16) : Quiet (d.raise irq) := by
  rw [PicPair.raise]
  split
  · exact { h with }
  · exact { h with }

/-- Withdrawing a line puts nothing in service. -/
theorem Quiet.withdraw (h : Quiet d) (irq : Fin 16) : Quiet (d.withdraw irq) := by
  rw [PicPair.withdraw]
  split
  · exact { h with }
  · exact { h with }

/-- A controller that is set up takes the byte as its mask. -/
theorem unmasked_of_ready {p : Pic} (h : p.stage = .ready) (i : Nat) :
    unmasked p i = { p with imr := p.imr &&& ~~~bit i } := by
  rw [unmasked, Pic.data, h]

/-- Unmasking puts nothing in service. -/
theorem Quiet.unmask (h : Quiet d) (irq : U8) : Quiet ((picUnmaskIrq picBus irq).run d).2 := by
  rw [picUnmaskIrq_run, unmasked_of_ready h.masterStage, unmasked_of_ready h.slaveStage]
  split
  · exact { h with }
  · exact { h with }

/-! ## One interrupt -/

/-- A requested line is one of eight. -/
theorem request_lt {p : Pic} {irr : U8} {i : Nat} (h : p.request irr = some i) : i < 8 :=
  List.mem_range.mp (List.mem_of_find?_eq_some h)

/-- The command clears the lowest bit in service. -/
theorem command_eoi (p : Pic) : p.command PIC_EOI = { p with isr := p.isr &&& (p.isr - 1) } := by
  rw [Pic.command, if_neg (by decide), if_pos rfl]

/-- The end of interrupt takes out the one line that was in service. -/
theorem serve_eoi {p : Pic} {i : Nat} (h : p.isr = 0) (hi : i < 8) :
    ((p.serve i).command PIC_EOI).isr = 0 := by
  have hbit : ∀ i : Fin 8, bit i &&& (bit i - 1) = 0 := by decide
  have hisr : (p.serve i).isr = bit i := by
    rw [Pic.serve, h]
    exact BitVec.zero_or
  rw [command_eoi, hisr]
  exact hbit ⟨i, hi⟩

/-- An end of interrupt with nothing in service. -/
theorem quiet_eoi {p : Pic} (h : p.isr = 0) : p.command PIC_EOI = p := by
  have hisr : p.isr &&& (p.isr - 1) = p.isr := by
    rw [h]
    decide
  rw [command_eoi, hisr]

/-- The line an interrupt is for, and the controllers behind its acknowledge. -/
theorem acknowledge_cases (h : Quiet d) (gone : Bool) :
    d.acknowledge gone = (0x27, d) ∨
    (∃ i, i < 8 ∧ d.acknowledge gone
      = (0x20 + BitVec.ofNat 8 i, { d with master := d.master.serve i })) ∨
    d.acknowledge gone = (0x2F, { d with master := d.master.serve CASCADE }) ∨
    ∃ j, j < 8 ∧ d.acknowledge gone = (0x28 + BitVec.ofNat 8 j,
      ⟨d.master.serve CASCADE, d.slave.serve j⟩) := by
  rw [PicPair.acknowledge, h.masterOffset, h.slaveOffset]
  cases hreq : d.master.request d.masterIrr with
  | none => exact .inl rfl
  | some i =>
      dsimp only
      -- the cascade line hands the question to the slave
      by_cases hi : i = CASCADE
      · rw [if_pos hi, hi]
        cases hslave : (if gone then none else d.slave.request d.slave.irr) with
        | none => exact .inr (.inr (.inl rfl))
        | some j =>
            have hj : j < 8 := by
              cases gone with
              | false => exact request_lt hslave
              | true => cases hslave
            exact .inr (.inr (.inr ⟨j, hj, rfl⟩))
      · rw [if_neg hi]
        exact .inr (.inl ⟨i, request_lt hreq, rfl⟩)

/-- The handler of an interrupt request acknowledges it at the controllers its vector names. -/
theorem irq_afterEoi {v : U8} (h : IsIrq v) (d : PicPair) :
    afterEoi picBus v d = ⟨d.master.command PIC_EOI,
      if 40 ≤ v.toNat then d.slave.command PIC_EOI else d.slave⟩ := by
  have h3 : v ≠ 3 := by
    intro h3
    rw [h3] at h
    exact absurd h.1 (by decide)
  have hline : v - 32 ≥ 8 ↔ 40 ≤ v.toNat := by
    have := h.1
    have := h.2
    constructor
    · intro h8
      bv_omega
    · intro h40
      bv_omega
  rw [Trap.afterEoi, if_neg h3, picSendEoi_run]
  simp only [hline]

/-- The handler's end of interrupt. -/
theorem Ready.quiet_afterEoi {v : U8} (h : Ready d) (hv : IsIrq v)
    (hmaster : (d.master.command PIC_EOI).isr = 0)
    (hslave : (if 40 ≤ v.toNat then d.slave.command PIC_EOI else d.slave).isr = 0) :
    Quiet (afterEoi picBus v d) := by
  rw [irq_afterEoi hv]
  refine ⟨⟨?_, ?_, ?_, ?_⟩, hmaster, hslave⟩
  · rw [command_eoi]
    exact h.masterStage
  · rw [command_eoi]
    split
    · exact h.slaveStage
    · exact h.slaveStage
  · rw [command_eoi]
    exact h.masterOffset
  · rw [command_eoi]
    split
    · exact h.slaveOffset
    · exact h.slaveOffset

/-- **ONE INTERRUPT**: whatever line is acknowledged, and also when the request is gone, the
    vector has a handler that returns, and its end of interrupt leaves nothing in service. -/
theorem Quiet.interrupt (h : Quiet d) (gone : Bool) :
    IsIrq (d.acknowledge gone).1 ∧
      Quiet (afterEoi picBus (d.acknowledge gone).1 (d.acknowledge gone).2) := by
  -- a slave without anything in service may be acknowledged all the same
  have hslave : ∀ v : U8, (if 40 ≤ v.toNat then d.slave.command PIC_EOI else d.slave).isr = 0 := by
    intro v
    rw [quiet_eoi h.slaveIsr, ite_self]
    exact h.slaveIsr
  rcases acknowledge_cases h gone with hack | ⟨i, hi, hack⟩ | hack | ⟨j, hj, hack⟩
  · rw [hack]
    have hv : IsIrq 0x27 := by decide
    refine ⟨hv, h.toReady.quiet_afterEoi hv ?_ (hslave _)⟩
    rw [quiet_eoi h.masterIsr]
    exact h.masterIsr
  · rw [hack]
    have hv : IsIrq (0x20 + BitVec.ofNat 8 i) := by
      rw [IsIrq]
      bv_omega
    have hready : Ready { d with master := d.master.serve i } := { h with }
    exact ⟨hv, hready.quiet_afterEoi hv (serve_eoi h.masterIsr hi) (hslave _)⟩
  · rw [hack]
    have hv : IsIrq 0x2F := by decide
    have hready : Ready { d with master := d.master.serve CASCADE } := { h with }
    exact ⟨hv, hready.quiet_afterEoi hv (serve_eoi h.masterIsr (by decide)) (hslave _)⟩
  · rw [hack]
    have hv : IsIrq (0x28 + BitVec.ofNat 8 j) := by
      rw [IsIrq]
      bv_omega
    have hready : Ready ⟨d.master.serve CASCADE, d.slave.serve j⟩ := { h with }
    refine ⟨hv, hready.quiet_afterEoi hv (serve_eoi h.masterIsr (by decide)) ?_⟩
    have h40 : 40 ≤ (0x28 + BitVec.ofNat 8 j : U8).toNat := by bv_omega
    rw [if_pos h40]
    exact serve_eoi h.slaveIsr hj

/-- With nothing in service a request that is not masked is granted, or one of higher
    priority is. -/
theorem Quiet.granted (h : Quiet d) {irr : U8} {i : Nat} (hi : i < 8)
    (hreq : irr.getLsbD i = true) (hmask : d.master.imr.getLsbD i = false) :
    ∃ j, j ≤ i ∧ d.master.request irr = some j := by
  have hi' : (irr.getLsbD i && !d.master.imr.getLsbD i &&
      (List.range (i + 1)).all fun j => !d.master.isr.getLsbD j) = true := by
    rw [hreq, hmask, h.masterIsr]
    simp
  cases hfind : d.master.request irr with
  | none => exact absurd hi' (List.find?_eq_none.mp hfind i (List.mem_range.mpr hi))
  | some j =>
      refine ⟨j, Nat.le_of_not_lt (fun hlt => ?_), rfl⟩
      have hbefore := (List.find?_range_eq_some.mp hfind).2.2 i hlt
      rw [hi'] at hbefore
      cases hbefore

/-! ## Runs -/

/-- What can happen to a booted machine between two instructions of the interrupted code. -/
inductive IrqEvent where
  | raise (irq : Fin 16)
  | withdraw (irq : Fin 16)
  /-- A call of `pic_unmask_irq`. -/
  | unmask (irq : U8)
  /-- The interrupted code runs on. -/
  | work (core : Core Reg) (rip rflags : U64)
  /-- The processor takes an interrupt. -/
  | interrupt (gone : Bool)

/-- The machine, with the controllers behind its ports. -/
abbrev Booted := Machine (TrapState PicPair)

/-- The machine with other contents of the controllers. -/
def setPorts (m : Booted) (d : PicPair) : Booted :=
  { m with kernel := { m.kernel with ports := d } }

/-- One event; an interrupt goes through the gate of the vector that the controllers answer. -/
def irqStep (image : Image) (calls : Calls (TrapState PicPair)) (idt : TrapModel.Idt)
    (m : Booted) : IrqEvent → Option Booted
  | .raise irq => some (setPorts m (m.kernel.ports.raise irq))
  | .withdraw irq => some (setPorts m (m.kernel.ports.withdraw irq))
  | .unmask irq => some (setPorts m ((picUnmaskIrq picBus irq).run m.kernel.ports).2)
  | .work core rip rflags => some { m with core, rip, rflags }
  | .interrupt gone =>
      let r := m.kernel.ports.acknowledge gone
      TrapModel.interrupt image calls idt r.1 0 (setPorts m r.2)

/-- One event after another. -/
def irqRun (image : Image) (calls : Calls (TrapState PicPair)) (idt : TrapModel.Idt) :
    Booted → List IrqEvent → Option Booted
  | m, [] => some m
  | m, e :: es => (irqStep image calls idt m e).bind fun m => irqRun image calls idt m es

/-- What the interrupted code can see of its processor. -/
def codeView (m : Booted) : (Reg → U64) × U64 × U64 := (m.core.regs, m.rip, m.rflags)

/-- The view after an event, if interrupts are not there. -/
def IrqEvent.view (view : (Reg → U64) × U64 × U64) : IrqEvent → (Reg → U64) × U64 × U64
  | .work core rip rflags => (core.regs, rip, rflags)
  | _ => view

/-- The number of interrupts in an event. -/
def IrqEvent.taken : IrqEvent → Nat
  | .interrupt _ => 1
  | _ => 0

/-- The frame of an interrupt would not start at address 0. -/
def StackOk (regs : Reg → U64) : Prop := regs .rsp &&& ~~~0xF ≠ words 22

instance (regs : Reg → U64) : Decidable (StackOk regs) := inferInstanceAs (Decidable (_ ≠ _))

/-- The interrupted code keeps to such a stack. -/
def IrqEvent.Ok : IrqEvent → Prop
  | .work core _ _ => StackOk core.regs
  | _ => True

/-- What holds between two events. -/
structure Running (m : Booted) : Prop where
  quiet : Quiet m.kernel.ports
  stack : StackOk m.core.regs

section Run

variable {room : Nat} {calls : Calls (TrapState PicPair)} (image : Image) (cs : U16)
  (idt : TrapModel.Idt)

/-- **STEP**: no event stops the machine, and only an interrupt is counted. -/
theorem irqStep_running (hcalls : CompiledDispatch picBus room calls)
    (hroom : 8 * (22 + room) ≤ 2 ^ 64) {m : Booted} (h : Running m) {e : IrqEvent} (he : e.Ok) :
    ∃ m', irqStep image calls (kernelIdt image cs idt) m e = some m' ∧ Running m' ∧
      codeView m' = e.view (codeView m) ∧
      m'.kernel.trapCount = m.kernel.trapCount + BitVec.ofNat 64 e.taken := by
  have hzero : m.kernel.trapCount = m.kernel.trapCount + BitVec.ofNat 64 0 :=
    (BitVec.add_zero _).symm
  cases e with
  | raise irq => exact ⟨_, rfl, ⟨h.quiet.raise irq, h.stack⟩, rfl, hzero⟩
  | withdraw irq => exact ⟨_, rfl, ⟨h.quiet.withdraw irq, h.stack⟩, rfl, hzero⟩
  | unmask irq => exact ⟨_, rfl, ⟨h.quiet.unmask irq, h.stack⟩, rfl, hzero⟩
  | work core rip rflags => exact ⟨_, rfl, ⟨h.quiet, he⟩, rfl, hzero⟩
  | interrupt gone =>
      -- the vector is one of the sixteen, so the handler returns
      obtain ⟨hirq, hquiet⟩ := h.quiet.interrupt gone
      obtain ⟨m', hrun, hres, hcount, hports⟩ := interrupt_resumes image cs idt hcalls hroom 0
        (m := setPorts m (m.kernel.ports.acknowledge gone).2) h.stack (.inr hirq)
      refine ⟨m', hrun, ⟨?_, ?_⟩, ?_, hcount⟩
      · rw [hports]
        exact hquiet
      · rw [hres.regs]
        exact h.stack
      · rw [codeView, hres.regs, hres.rip, hres.rflags]
        rfl

/-- **RUN**: so does no run of events. -/
theorem irqRun_running (hcalls : CompiledDispatch picBus room calls)
    (hroom : 8 * (22 + room) ≤ 2 ^ 64) :
    ∀ (es : List IrqEvent) {m : Booted}, Running m → (∀ e, e ∈ es → e.Ok) →
      ∃ m', irqRun image calls (kernelIdt image cs idt) m es = some m' ∧ Running m' ∧
        codeView m' = es.foldl IrqEvent.view (codeView m) ∧
        m'.kernel.trapCount = m.kernel.trapCount + BitVec.ofNat 64 (es.map IrqEvent.taken).sum := by
  intro es
  induction es with
  | nil => exact fun h _ => ⟨_, rfl, h, rfl, (BitVec.add_zero _).symm⟩
  | cons e es ih =>
      intro m h hes
      obtain ⟨m₁, hstep, h₁, hview₁, hcount₁⟩ :=
        irqStep_running image cs idt hcalls hroom h (hes e List.mem_cons_self)
      obtain ⟨m', hrun, h', hview, hcount⟩ :=
        ih h₁ (fun e he => hes e (List.mem_cons_of_mem _ he))
      refine ⟨m', ?_, h', ?_, ?_⟩
      · rw [irqRun, hstep, Option.bind_some, hrun]
      · rw [hview, hview₁, List.foldl_cons]
      · rw [hcount, hcount₁, List.map_cons, List.sum_cons, BitVec.ofNat_add, BitVec.add_assoc]

/-- **INTERRUPTS**: after the setup by `kmain`, whatever the controllers did before, and over
    every run of requests, withdrawn requests, unmasked lines and interrupts, lost and
    spurious ones included, the machine never stops, every interrupt is counted, and the
    interrupted code, whose stack never puts a frame at address 0, sees the registers it would
    see without them.  Nothing is ever left in service, so a request that is not masked is
    granted unless one of higher priority is. -/
theorem irq_run_transparent (hcalls : CompiledDispatch picBus room calls)
    (hroom : 8 * (22 + room) ≤ 2 ^ 64) (m : Booted) (d : PicPair)
    (hports : m.kernel.ports = ((picSetup picBus).run d).2) (hstack : StackOk m.core.regs)
    (es : List IrqEvent) (hes : ∀ e, e ∈ es → e.Ok) :
    ∃ m', irqRun image calls (kernelIdt image cs idt) m es = some m' ∧
      codeView m' = es.foldl IrqEvent.view (codeView m) ∧
      m'.kernel.trapCount = m.kernel.trapCount + BitVec.ofNat 64 (es.map IrqEvent.taken).sum ∧
      m'.kernel.ports.master.isr = 0 ∧ m'.kernel.ports.slave.isr = 0 ∧
      ∀ i, i < 8 → m'.kernel.ports.masterIrr.getLsbD i = true →
        m'.kernel.ports.master.imr.getLsbD i = false →
        ∃ j, j ≤ i ∧ m'.kernel.ports.master.request m'.kernel.ports.masterIrr = some j := by
  have hrunning : Running m := by
    refine ⟨?_, hstack⟩
    rw [hports]
    exact picSetup_quiet d
  obtain ⟨m', hrun, h, hview, hcount⟩ :=
    irqRun_running image cs idt hcalls hroom es hrunning hes
  exact ⟨m', hrun, hview, hcount, h.quiet.masterIsr, h.quiet.slaveIsr,
    fun i hi hreq hmask => h.quiet.granted hi hreq hmask⟩

end Run

/-- The timer ticks twice, the second time after its request has been withdrawn. -/
theorem irq_run_transparent_timer :
    let m : Booted := someMachine ⟨0, [], ((picSetup picBus).run default).2⟩
    ∃ m', irqRun flatImage (plainCalls picBus) (kernelIdt flatImage 0x28 fun _ => default) m
        [.raise 0, .interrupt false, .raise 0, .withdraw 0, .interrupt false] = some m' ∧
      codeView m' = codeView m ∧ m'.kernel.trapCount = 0 + 2 := by
  intro m
  have hes : ∀ e, e ∈ [IrqEvent.raise 0, .interrupt false, .raise 0, .withdraw 0,
      .interrupt false] → e.Ok := by
    intro e he
    simp only [List.mem_cons, List.not_mem_nil, or_false] at he
    rcases he with h | h | h | h | h
    all_goals
      rw [h]
      trivial
  obtain ⟨m', hrun, hview, hcount, -⟩ := irq_run_transparent flatImage 0x28 (fun _ => default)
    (plainCalls_compiled picBus) (by decide) m default rfl (by decide) _ hes
  exact ⟨m', hrun, hview, hcount⟩

end PicDriver
