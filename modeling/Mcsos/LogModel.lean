import Mcsos.PicModel

/-! # The log, as `kernel/core/serial.c`, `log.c` and `panic.c` write it

    The functions of `log.c` and `panic.c` only hand characters on, one after the
    other, so each is modelled by the characters it hands to `log_putc`; a C string
    is the list of its bytes without the final NUL.  `emit` is what handing them on
    does: `log_putc` brings the serial port up once, and `serial_putc` waits for
    the transmitter. -/

namespace LogModel

open Word PicModel

/-- The bytes of a string literal. -/
def text (s : String) : List U8 := s.toList.map fun c => BitVec.ofNat 8 c.toNat

/-- `'\n'`. -/
def NEWLINE : U8 := 10
/-- `'\r'`. -/
def RETURN : U8 := 13

/-! ## Characters -/

/-- `log_putc`, as the characters handed on. -/
def logPutc (c : U8) : List U8 := [c]

/-- `log_write`. -/
def logWrite (s : List U8) : List U8 := s

/-- `log_writeln`. -/
def logWriteln (s : List U8) : List U8 := logWrite s ++ logPutc NEWLINE

/-- The digits of `log_hex64`. -/
def digits : List U8 := text "0123456789abcdef"

/-- The shifts are 60, 56, …, 0. -/
def logHex64 (value : U64) : List U8 :=
  logWrite (text "0x") ++ (List.range 16).flatMap fun i =>
    logPutc (digits.getD ((value >>> (60 - 4 * i)) &&& 0x0F).toNat 0)

/-- `log_key_value_hex64`. -/
def logKeyValueHex64 (key : String) (value : U64) : List U8 :=
  logWrite (text key) ++ logWrite (text "=") ++ logHex64 value ++ logPutc NEWLINE

/-- The digits `log_dec_u32` puts in its buffer, of which `room` bytes are left. -/
def decLoop : Nat → U32 → List U8
  | 0, _ => []
  | room + 1, value =>
      if value = 0 then [] else (48 + (value % 10).setWidth 8) :: decLoop room (value / 10)

/-- `log_dec_u32`: the digits are found from the last one on and sent in reverse. -/
def logDecU32 (value : U32) : List U8 :=
  if value = 0 then logPutc 48 else (decLoop 11 value).reverse

/-- `kernel_panic_at` up to the halt, with the flags it has read; no caller passes a null
    `file` or `reason`. -/
def kernelPanicAt (file : String) (line : U32) (reason : String) (code rflags : U64) : List U8 :=
  logWriteln [] ++
  logWriteln (text "================ MCSOS KERNEL PANIC ================") ++
  logWrite (text "system=") ++ logWrite (text "MCSOS") ++
  logWrite (text " version=") ++ logWrite (text "260502") ++
  logWrite (text " milestone=") ++ logWriteln (text "M3") ++
  logWrite (text "reason=") ++ logWriteln (text reason) ++
  logWrite (text "location=") ++ logWrite (text file) ++ logWrite (text ":") ++
  logDecU32 line ++ logPutc NEWLINE ++
  logKeyValueHex64 "panic_code" code ++
  logKeyValueHex64 "rflags_before_cli" rflags ++
  logWriteln (text "state=halted") ++
  logWriteln (text "====================================================")

/-! ## The serial port -/

/-- The first port of the serial interface. -/
def COM1_PORT : U16 := 0x3F8

section Port

variable {σ : Type} (bus : Bus σ)

/-- `serial_transmit_empty`: bit 5 of the line status. -/
def serialTransmitEmpty : StateM σ Bool := do
  let status ← bus.inb (COM1_PORT + 5)
  return status &&& 0x20 ≠ 0

/-- `serial_init`, port by port. -/
def serialInit : StateM σ Unit := do
  bus.outb (COM1_PORT + 1) 0x00
  bus.outb (COM1_PORT + 3) 0x80
  bus.outb (COM1_PORT + 0) 0x03
  bus.outb (COM1_PORT + 1) 0x00
  bus.outb (COM1_PORT + 3) 0x03
  bus.outb (COM1_PORT + 2) 0xC7
  bus.outb (COM1_PORT + 4) 0x0B

/-- `while (!serial_transmit_empty()) { }`, for at most `fuel` rounds. -/
def awaitEmpty : Nat → σ → Option σ
  | 0, _ => none
  | fuel + 1, s =>
      let r := (serialTransmitEmpty bus).run s
      if r.1 then some r.2 else awaitEmpty fuel r.2

/-- The loop and the write of one byte. -/
def transmit (fuel : Nat) (c : U8) (s : σ) : Option σ :=
  (awaitEmpty bus fuel s).map fun s => ((bus.outb COM1_PORT c).run s).2

/-- `none` if a wait takes more than `fuel` rounds. -/
def serialPutc (fuel : Nat) (c : U8) (s : σ) : Option σ :=
  if c = NEWLINE then (transmit bus fuel RETURN s).bind (transmit bus fuel c)
  else transmit bus fuel c s

/-- `g_log_ready`, with the devices. -/
structure LogState (σ : Type) where
  ready : Bool
  dev : σ

/-- Bring the port up before the first character. -/
def logReady (s : LogState σ) : LogState σ :=
  if s.ready then s else ⟨true, ((serialInit bus).run s.dev).2⟩

/-- Hand a character on. -/
def logPut (fuel : Nat) (c : U8) (s : LogState σ) : Option (LogState σ) :=
  let s := logReady bus s
  (serialPutc bus fuel c s.dev).map fun d => { s with dev := d }

/-- Hand characters on, the first one first. -/
def emit (fuel : Nat) : List U8 → LogState σ → Option (LogState σ)
  | [], s => some s
  | c :: cs, s => (logPut bus fuel c s).bind (emit fuel cs)

end Port

/-! ## The port itself

    A 16550, with the registers that `serial_init` and `serial_putc` reach.  How long it takes
    to send a byte is not known: `delays` says after how many looks at the line status each
    byte is gone.  A byte written before that is lost. -/

/-- The device: its registers, the line, and how long each byte takes. -/
structure Uart where
  lcr : U8
  dll : U8
  dlm : U8
  ier : U8
  fcr : U8
  mcr : U8
  /-- what has gone out on the line -/
  line : List U8
  /-- looks until the transmitter is empty -/
  busy : Nat
  lost : List U8
  delays : Nat → Nat

/-- The divisor latch is what the first two ports mean. -/
def Uart.dlab (u : Uart) : Bool := u.lcr &&& 0x80 ≠ 0

/-- A write to one of its ports; the first two are the divisor while `DLAB` is set, and a byte sent
    while the transmitter is busy is lost. -/
def Uart.write (u : Uart) (port : U16) (v : U8) : Uart :=
  if port = COM1_PORT then
    if u.dlab then { u with dll := v }
    else if u.busy = 0 then
      { u with line := u.line ++ [v], busy := u.delays u.line.length }
    else { u with lost := u.lost ++ [v] }
  else if port = COM1_PORT + 1 then
    if u.dlab then { u with dlm := v } else { u with ier := v }
  else if port = COM1_PORT + 2 then { u with fcr := v }
  else if port = COM1_PORT + 3 then { u with lcr := v }
  else if port = COM1_PORT + 4 then { u with mcr := v }
  else u

/-- The line status; looking at it takes time. -/
def Uart.read (u : Uart) (port : U16) : U8 × Uart :=
  if port = COM1_PORT + 5 then
    (if u.busy = 0 then 0x60 else 0, { u with busy := u.busy - 1 })
  else (0, u)

/-- The ports of the machine, with this device behind them. -/
def uartBus : Bus Uart where
  outb port v := fun u => ((), u.write port v)
  inb port := fun u => u.read port

end LogModel
