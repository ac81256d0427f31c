import Mcsos.LogProofs
import Mathlib.Data.Finset.Lattice.Fold

/-! # What is logged goes out on the line

    The driver polls: it looks at the line status until the transmitter is empty
    and then writes one byte.  However long the port takes for each byte, the
    loop ends and no byte is written too early; what goes out is the text
    with a carriage return before each newline, and the receiver gets the text
    back by leaving those out. -/

namespace Serial

open Word PicModel LogModel Log

variable {u : Uart}

/-! ## One byte -/

/-- One look at the port; it gets one round closer to being free. -/
theorem transmitEmpty_run (u : Uart) :
    (serialTransmitEmpty uartBus).run u = (decide (u.busy = 0), { u with busy := u.busy - 1 }) := by
  have hread : (serialTransmitEmpty uartBus).run u
      = (decide ((u.read (COM1_PORT + 5)).1 &&& 0x20 ≠ 0), (u.read (COM1_PORT + 5)).2) := rfl
  have hempty : decide ((0x60 : U8) &&& 0x20 ≠ 0) = true := by decide
  have hfull : decide ((0 : U8) &&& 0x20 ≠ 0) = false := by decide
  rw [hread, Uart.read, if_pos rfl]
  by_cases h : u.busy = 0
  · rw [if_pos h, hempty, decide_eq_true h]
  · rw [if_neg h, hfull, decide_eq_false h]

/-- **POLL**: the loop ends when the transmitter is empty. -/
theorem awaitEmpty_uart {fuel : Nat} (h : u.busy < fuel) :
    awaitEmpty uartBus fuel u = some { u with busy := 0 } := by
  induction fuel generalizing u with
  | zero => exact absurd h (Nat.not_lt_zero _)
  | succ fuel ih =>
      rw [awaitEmpty, transmitEmpty_run]
      dsimp only
      by_cases hbusy : u.busy = 0
      · rw [if_pos (decide_eq_true hbusy), hbusy]
      · rw [if_neg (by rw [decide_eq_false hbusy]; exact Bool.false_ne_true)]
        exact ih (u := { u with busy := u.busy - 1 }) (by show u.busy - 1 < fuel; omega)

/-- The port when a byte has gone out. -/
def sent (u : Uart) (c : U8) : Uart :=
  { u with line := u.line ++ [c], busy := u.delays u.line.length }

/-- A byte goes out after the port has become free. -/
theorem transmit_uart (hup : u.dlab = false) {fuel : Nat} (h : u.busy < fuel) (c : U8) :
    transmit uartBus fuel c u = some (sent u c) := by
  rw [transmit, awaitEmpty_uart h, Option.map_some]
  show some (Uart.write { u with busy := 0 } COM1_PORT c) = _
  have hdlab : Uart.dlab { u with busy := 0 } = false := hup
  rw [Uart.write, if_pos rfl, hdlab, if_neg Bool.false_ne_true, if_pos rfl]
  rfl

/-! ## Texts -/

/-- What `serial_putc` sends for a character. -/
def crlf (c : U8) : List U8 := if c = NEWLINE then [RETURN, NEWLINE] else [c]

/-- Enough rounds for what is being sent and for the next `n` bytes. -/
structure Patient (u : Uart) (n fuel : Nat) : Prop where
  busy : u.busy < fuel
  delays : ∀ i, i < u.line.length + n → u.delays i < fuel

/-- Enough rounds for the bytes that are left. -/
theorem Patient.sent {n fuel : Nat} (h : Patient u (n + 1) fuel) (c : U8) :
    Patient (sent u c) n fuel := by
  refine ⟨h.delays _ (by omega), fun i hi => h.delays i ?_⟩
  have hlen : (Serial.sent u c).line.length = u.line.length + 1 := by
    show (u.line ++ [c]).length = _
    rw [List.length_append, List.length_singleton]
  omega

/-- Bytes written one after the other. -/
def transmitAll (fuel : Nat) : List U8 → Uart → Option Uart
  | [], u => some u
  | c :: cs, u => (transmit uartBus fuel c u).bind (transmitAll fuel cs)

theorem transmitAll_append (fuel : Nat) (cs ds : List U8) (u : Uart) :
    transmitAll fuel (cs ++ ds) u = (transmitAll fuel cs u).bind (transmitAll fuel ds) := by
  induction cs generalizing u with
  | nil => rfl
  | cons c cs ih =>
      rw [List.cons_append, transmitAll, transmitAll, Option.bind_assoc]
      exact congrArg _ (funext ih)

/-- All of them go out, in order. -/
theorem transmitAll_uart {fuel : Nat} (cs : List U8) (hup : u.dlab = false)
    (h : Patient u cs.length fuel) : transmitAll fuel cs u = some (cs.foldl sent u) := by
  induction cs generalizing u with
  | nil => rfl
  | cons c cs ih =>
      rw [transmitAll, transmit_uart hup h.busy, Option.bind_some,
        ih (u := sent u c) hup (h.sent c)]
      rfl

/-- A line's end goes out as two bytes. -/
theorem serialPutc_eq (fuel : Nat) (c : U8) (u : Uart) :
    serialPutc uartBus fuel c u = transmitAll fuel (crlf c) u := by
  have hone : ∀ c v, transmitAll fuel [c] v = transmit uartBus fuel c v :=
    fun c v => Option.bind_fun_some (transmit uartBus fuel c v)
  rw [serialPutc, crlf]
  by_cases hc : c = NEWLINE
  · rw [if_pos hc, if_pos hc, hc, transmitAll]
    exact congrArg _ (funext fun v => (hone NEWLINE v).symm)
  · rw [if_neg hc, if_neg hc, hone]

/-- Bytes that have gone out one after the other. -/
theorem foldl_sent_line (cs : List U8) : (cs.foldl sent u).line = u.line ++ cs := by
  induction cs generalizing u with
  | nil => exact (List.append_nil _).symm
  | cons c cs ih =>
      rw [List.foldl_cons, ih]
      show u.line ++ [c] ++ cs = _
      rw [List.append_assoc]
      rfl

/-- Nothing but the line and the transmitter changes. -/
structure SameSettings (u v : Uart) : Prop where
  lcr : v.lcr = u.lcr
  dll : v.dll = u.dll
  dlm : v.dlm = u.dlm
  fcr : v.fcr = u.fcr
  mcr : v.mcr = u.mcr
  lost : v.lost = u.lost
  delays : v.delays = u.delays

/-- Sending keeps the port's settings. -/
theorem foldl_sent_settings (cs : List U8) : SameSettings u (cs.foldl sent u) := by
  induction cs generalizing u with
  | nil => exact ⟨rfl, rfl, rfl, rfl, rfl, rfl, rfl⟩
  | cons c cs ih =>
      have h := ih (u := sent u c)
      exact ⟨h.lcr, h.dll, h.dlm, h.fcr, h.mcr, h.lost, h.delays⟩

/-- However long the bytes take, there are rounds enough. -/
theorem patient_exists (u : Uart) (n : Nat) : ∃ N, ∀ fuel, N ≤ fuel → Patient u n fuel := by
  refine ⟨u.busy + (Finset.range (u.line.length + n)).sup u.delays + 1,
    fun fuel hfuel => ⟨by omega, fun i hi => ?_⟩⟩
  have hle := Finset.le_sup (f := u.delays) (Finset.mem_range.mpr hi)
  omega

/-! ## The log -/

/-- The port after `serial_init`: divisor 3, eight bits without parity. -/
def initialised (u : Uart) : Uart :=
  { u with
    lcr := 0x03, dll := 0x03, dlm := 0x00, fcr := 0xC7, mcr := 0x0B
    ier := if u.dlab then u.ier else 0x00 }

/-- The divisor latch is a bit of the line control. -/
theorem dlab_of_lcr {v : U8} (h : u.lcr = v) : u.dlab = decide (v &&& 0x80 ≠ 0) := by
  rw [Uart.dlab, h]

/-- The divisor latch is on for the two bytes of the divisor and off again behind them. -/
theorem write_divisor (u : Uart) :
    (((u.write (COM1_PORT + 3) 0x80).write (COM1_PORT + 0) 0x03).write (COM1_PORT + 1) 0x00).write
      (COM1_PORT + 3) 0x03 = { u with lcr := 0x03, dll := 0x03, dlm := 0x00 } := by
  have hlatch : u.write (COM1_PORT + 3) 0x80 = { u with lcr := 0x80 } := rfl
  have hon : decide ((0x80 : U8) &&& 0x80 ≠ 0) = true := by decide
  have hlow : Uart.write { u with lcr := 0x80 } (COM1_PORT + 0) 0x03
      = { u with lcr := 0x80, dll := 0x03 } := by
    rw [Uart.write, if_pos (by decide), dlab_of_lcr rfl, hon]
    rfl
  have hhigh : Uart.write { u with lcr := 0x80, dll := 0x03 } (COM1_PORT + 1) 0x00
      = { u with lcr := 0x80, dll := 0x03, dlm := 0x00 } := by
    rw [Uart.write, if_neg (by decide), if_pos rfl, dlab_of_lcr rfl, hon]
    rfl
  rw [hlatch, hlow, hhigh]
  rfl

/-- The port after its initialisation. -/
theorem serialInit_run (u : Uart) : ((serialInit uartBus).run u).2 = initialised u := by
  have hchain : ((serialInit uartBus).run u).2
      = ((((((u.write (COM1_PORT + 1) 0x00).write (COM1_PORT + 3) 0x80).write (COM1_PORT + 0)
          0x03).write (COM1_PORT + 1) 0x00).write (COM1_PORT + 3) 0x03).write (COM1_PORT + 2)
          0xC7).write (COM1_PORT + 4) 0x0B := rfl
  have hfirst : u.write (COM1_PORT + 1) 0x00
      = if u.dlab then { u with dlm := 0x00 } else { u with ier := 0x00 } := rfl
  rw [hchain, write_divisor, hfirst, initialised]
  cases u.dlab with
  | true => rfl
  | false => rfl

/-- The divisor latch is closed. -/
theorem initialised_dlab (u : Uart) : (initialised u).dlab = false := by
  have hlcr : (initialised u).lcr = 0x03 := rfl
  rw [dlab_of_lcr hlcr]
  decide

/-- A text over a port that is set up. -/
theorem emit_ready (fuel : Nat) (cs : List U8) (u : Uart) :
    emit uartBus fuel cs ⟨true, u⟩
      = (transmitAll fuel (cs.flatMap crlf) u).map fun v => ⟨true, v⟩ := by
  induction cs generalizing u with
  | nil => rfl
  | cons c cs ih =>
      have hput : logPut uartBus fuel c ⟨true, u⟩
          = (transmitAll fuel (crlf c) u).map fun v => ⟨true, v⟩ := by
        rw [← serialPutc_eq]
        rfl
      rw [emit, hput, List.flatMap_cons, transmitAll_append]
      cases transmitAll fuel (crlf c) u with
      | none => rfl
      | some v => exact ih v

/-- The first character brings the port up. -/
theorem emit_first (fuel : Nat) (c : U8) (cs : List U8) (u : Uart) :
    emit uartBus fuel (c :: cs) ⟨false, u⟩ = emit uartBus fuel (c :: cs) ⟨true, initialised u⟩ := by
  have hready : logReady uartBus ⟨false, u⟩ = ⟨true, initialised u⟩ := by
    rw [logReady, serialInit_run]
    rfl
  rw [emit, emit, logPut, logPut, hready]
  rfl

/-- What the receiver keeps of the bytes on the line. -/
def received (line : List U8) : List U8 := line.filter (· ≠ RETURN)

theorem received_append (cs ds : List U8) : received (cs ++ ds) = received cs ++ received ds :=
  List.filter_append cs ds

/-- Without the carriage returns the text is as it was. -/
theorem received_crlf {cs : List U8} (h : RETURN ∉ cs) : received (cs.flatMap crlf) = cs := by
  induction cs with
  | nil => rfl
  | cons c cs ih =>
      have hc : c ≠ RETURN := fun hc => h (hc ▸ List.mem_cons_self)
      have hone : received (crlf c) = [c] := by
        rw [received, crlf]
        by_cases hn : c = NEWLINE
        · rw [if_pos hn, hn]
          rfl
        · have hkeep : decide (c ≠ RETURN) = true := decide_eq_true hc
          rw [if_neg hn, List.filter_cons, if_pos hkeep, List.filter_nil]
      rw [List.flatMap_cons, received_append, hone, ih fun hmem => h (List.mem_cons_of_mem c hmem)]
      rfl

/-- What handing `cs` on has done. -/
structure Delivered (s : LogState Uart) (cs : List U8) (s' : LogState Uart) : Prop where
  line : s'.dev.line = s.dev.line ++ cs.flatMap crlf
  lost : s'.dev.lost = s.dev.lost
  ready : cs ≠ [] → s'.ready = true
  up : s'.ready = true → s'.dev.dlab = false
  /-- 38400 baud, eight bits, no parity, one stop bit -/
  settings : s.ready = false → cs ≠ [] →
    s'.dev.lcr = 0x03 ∧ s'.dev.dll = 0x03 ∧ s'.dev.dlm = 0x00

/-- A delivered text is received as it was. -/
theorem Delivered.received {s s' : LogState Uart} {cs : List U8} (h : Delivered s cs s')
    (hcs : RETURN ∉ cs) : received s'.dev.line = received s.dev.line ++ cs := by
  rw [h.line, received_append, received_crlf hcs]

/-- Over a port that is set up every text goes out, given enough rounds. -/
theorem emit_up (hup : u.dlab = false) (cs : List U8) :
    ∃ N, ∀ fuel, N ≤ fuel →
      emit uartBus fuel cs ⟨true, u⟩ = some ⟨true, (cs.flatMap crlf).foldl sent u⟩ := by
  obtain ⟨N, hN⟩ := patient_exists u (cs.flatMap crlf).length
  refine ⟨N, fun fuel hfuel => ?_⟩
  rw [emit_ready, transmitAll_uart _ hup (hN fuel hfuel), Option.map_some]

/-- **DELIVERED**: whatever state the port is in and however long it takes for each byte,
    handing a text on ends, every byte of it goes out in order behind what is on the line
    already, and none is written while the transmitter is busy. -/
theorem emit_delivered (s : LogState Uart) (hup : s.ready = true → s.dev.dlab = false)
    (cs : List U8) :
    ∃ N, ∀ fuel, N ≤ fuel → ∃ s', emit uartBus fuel cs s = some s' ∧ Delivered s cs s' := by
  obtain ⟨ready, u⟩ := s
  cases ready with
  | true =>
      obtain ⟨N, hN⟩ := emit_up (hup rfl) cs
      refine ⟨N, fun fuel hfuel => ⟨_, hN fuel hfuel, ?_⟩⟩
      have hset := foldl_sent_settings (u := u) (cs.flatMap crlf)
      have hline := foldl_sent_line (u := u) (cs.flatMap crlf)
      exact ⟨hline, hset.lost, fun _ => rfl, fun _ => (dlab_of_lcr hset.lcr).trans (hup rfl),
        fun h => absurd h.symm Bool.false_ne_true⟩
  | false =>
      cases cs with
      | nil =>
          refine ⟨0, fun fuel _ => ⟨_, rfl, ⟨(List.append_nil _).symm, rfl, fun h => absurd rfl h,
            hup, fun _ h => absurd rfl h⟩⟩⟩
      | cons c cs =>
          -- the first character sets the port up
          obtain ⟨N, hN⟩ := emit_up (initialised_dlab u) (c :: cs)
          refine ⟨N, fun fuel hfuel => ⟨_, (emit_first fuel c cs u).trans (hN fuel hfuel), ?_⟩⟩
          have hset := foldl_sent_settings (u := initialised u) ((c :: cs).flatMap crlf)
          have hline := foldl_sent_line (u := initialised u) ((c :: cs).flatMap crlf)
          exact ⟨hline, hset.lost, fun _ => rfl,
            fun _ => (dlab_of_lcr hset.lcr).trans (initialised_dlab u),
            fun _ _ => ⟨hset.lcr, hset.dll, hset.dlm⟩⟩

end Serial
