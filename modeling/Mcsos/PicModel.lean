import Mcsos.WordProofs

/-! # The interrupt controllers, as `kernel/core/pic.c` drives them

    The driver only knows ports: `Bus` says what `inb` and `outb` do to the
    devices behind them, and every function of the driver is written over an
    arbitrary bus.  The second half of the file is the hardware the driver is
    written for: two 8259A controllers, the second one on line 2 of the first. -/

namespace PicModel

open Word

/-- `uint16_t`, the number of a port. -/
abbrev U16 := BitVec 16

/-- What the port instructions do to the devices. -/
structure Bus (σ : Type) where
  outb : U16 → U8 → StateM σ Unit
  inb : U16 → StateM σ U8

/-- The ports of the first controller. -/
def PIC1_COMMAND : U16 := 0x20
/-- The master's mask, and the words of its initialization. -/
def PIC1_DATA : U16 := 0x21
/-- The ports of the second controller, whose requests come through line 2 of the first. -/
def PIC2_COMMAND : U16 := 0xA0
/-- The slave's mask, and the words of its initialization. -/
def PIC2_DATA : U16 := 0xA1
/-- The command that ends an interrupt. -/
def PIC_EOI : U8 := 0x20

/-- The vector of line 0. -/
def PIC_MASTER_OFFSET : U8 := 0x20
/-- The vector of line 8. -/
def PIC_SLAVE_OFFSET : U8 := 0x28

/-! ## The driver -/

section Driver

variable {σ : Type} (bus : Bus σ)

/-- `io_wait`: a write to a port that nothing listens to. -/
def ioWait : StateM σ Unit := bus.outb 0x80 0

/-- `pic_remap`: the four words of initialization for both controllers, which keep their masks. -/
def picRemap (masterOffset slaveOffset : U8) : StateM σ Unit := do
  let masterMask ← bus.inb PIC1_DATA
  let slaveMask ← bus.inb PIC2_DATA
  bus.outb PIC1_COMMAND 0x11
  ioWait bus
  bus.outb PIC2_COMMAND 0x11
  ioWait bus
  bus.outb PIC1_DATA masterOffset
  ioWait bus
  bus.outb PIC2_DATA slaveOffset
  ioWait bus
  bus.outb PIC1_DATA 0x04
  ioWait bus
  bus.outb PIC2_DATA 0x02
  ioWait bus
  bus.outb PIC1_DATA 0x01
  ioWait bus
  bus.outb PIC2_DATA 0x01
  ioWait bus
  bus.outb PIC1_DATA masterMask
  bus.outb PIC2_DATA slaveMask

/-- `pic_mask_all`. -/
def picMaskAll : StateM σ Unit := do
  bus.outb PIC1_DATA 0xFF
  bus.outb PIC2_DATA 0xFF

/-- The shift is one of an `unsigned`, whose low byte is kept. -/
def picUnmaskIrq (irq : U8) : StateM σ Unit := do
  let port := if irq < 8 then PIC1_DATA else PIC2_DATA
  let line := if irq < 8 then irq else irq - 8
  let mask ← bus.inb port
  bus.outb port (mask &&& ~~~((1 : U32) <<< line.toNat).setWidth 8)

/-- `pic_send_eoi`: a line of the second controller is ended at both. -/
def picSendEoi (irq : U8) : StateM σ Unit := do
  if irq ≥ 8 then
    bus.outb PIC2_COMMAND PIC_EOI
  bus.outb PIC1_COMMAND PIC_EOI

/-- What `kmain` does with the controllers. -/
def picSetup : StateM σ Unit := do
  picRemap bus PIC_MASTER_OFFSET PIC_SLAVE_OFFSET
  picMaskAll bus
  picUnmaskIrq bus 0

end Driver

/-! ## The hardware -/

/-- The word a controller expects next at its data port. -/
inductive Stage where
  | icw2 (single icw4 : Bool)
  | icw3 (icw4 : Bool)
  | icw4
  | ready
deriving DecidableEq, Repr, Inhabited

/-- The stage behind `ICW2`, or behind `ICW3` for a single controller. -/
def Stage.last (icw4 : Bool) : Stage := if icw4 then .icw4 else .ready

/-- One 8259A: the lines that request, those in service and those masked, and the
    vector of line 0. -/
structure Pic where
  irr : U8
  isr : U8
  imr : U8
  offset : U8
  stage : Stage
deriving DecidableEq, Repr, Inhabited

/-- The word with one bit set. -/
def bit (i : Nat) : U8 := (1 : U8) <<< i

/-- A write to the command port: `ICW1` starts the initialisation, and the end of
    interrupt takes the line of highest priority out of service.  The driver sends
    no other command. -/
def Pic.command (p : Pic) (v : U8) : Pic :=
  if v.getLsbD 4 then
    { p with irr := 0, isr := 0, imr := 0, stage := .icw2 (v.getLsbD 1) (v.getLsbD 0) }
  else if v = PIC_EOI then { p with isr := p.isr &&& (p.isr - 1) }
  else p

/-- A write to the data port. -/
def Pic.data (p : Pic) (v : U8) : Pic :=
  match p.stage with
  | .icw2 single icw4 =>
      { p with
        offset := v &&& 0xF8
        stage := if single then Stage.last icw4 else .icw3 icw4 }
  | .icw3 icw4 => { p with stage := Stage.last icw4 }
  | .icw4 => { p with stage := .ready }
  | .ready => { p with imr := v }

/-- The line a controller with the requests `irr` asks to have served: the lowest one
    that is not masked, if no line of that or of higher priority is in service. -/
def Pic.request (p : Pic) (irr : U8) : Option Nat :=
  (List.range 8).find? fun i =>
    irr.getLsbD i && !p.imr.getLsbD i && (List.range (i + 1)).all fun j => !p.isr.getLsbD j

/-- Take line `i` into service. -/
def Pic.serve (p : Pic) (i : Nat) : Pic :=
  { p with irr := p.irr &&& ~~~bit i, isr := p.isr ||| bit i }

/-- The two controllers. -/
structure PicPair where
  master : Pic
  slave : Pic
deriving DecidableEq, Repr, Inhabited

/-- The ports of the machine, with the two controllers behind them. -/
def picBus : Bus PicPair where
  outb port v := modify fun d =>
    if port = PIC1_COMMAND then { d with master := d.master.command v }
    else if port = PIC1_DATA then { d with master := d.master.data v }
    else if port = PIC2_COMMAND then { d with slave := d.slave.command v }
    else if port = PIC2_DATA then { d with slave := d.slave.data v }
    else d
  inb port := do
    let d ← get
    return if port = PIC1_DATA then d.master.imr
      else if port = PIC2_DATA then d.slave.imr
      else 0xFF

/-- The line of the master that the slave is wired to. -/
def CASCADE : Nat := 2

/-- The requests of the master: line 2 is the slave. -/
def PicPair.masterIrr (d : PicPair) : U8 :=
  if (d.slave.request d.slave.irr).isSome then d.master.irr ||| bit CASCADE
  else d.master.irr &&& ~~~bit CASCADE

/-- The processor acknowledges an interrupt: the vector it is given.  A controller
    whose request is gone by then answers with its line 7 and serves nothing; with
    `gone` this happens to the slave. -/
def PicPair.acknowledge (d : PicPair) (gone : Bool) : U8 × PicPair :=
  match d.master.request d.masterIrr with
  | none => (d.master.offset + 7, d)
  | some i =>
      let d' := { d with master := d.master.serve i }
      if i = CASCADE then
        match if gone then none else d.slave.request d.slave.irr with
        | none => (d.slave.offset + 7, d')
        | some j => (d.slave.offset + BitVec.ofNat 8 j, { d' with slave := d.slave.serve j })
      else (d.master.offset + BitVec.ofNat 8 i, d')

/-- A device raises its line. -/
def PicPair.raise (d : PicPair) (irq : Fin 16) : PicPair :=
  if irq.val < 8 then { d with master := { d.master with irr := d.master.irr ||| bit irq } }
  else { d with slave := { d.slave with irr := d.slave.irr ||| bit (irq - 8) } }

/-- A device takes its request back. -/
def PicPair.withdraw (d : PicPair) (irq : Fin 16) : PicPair :=
  if irq.val < 8 then { d with master := { d.master with irr := d.master.irr &&& ~~~bit irq } }
  else { d with slave := { d.slave with irr := d.slave.irr &&& ~~~bit (irq - 8) } }

end PicModel
