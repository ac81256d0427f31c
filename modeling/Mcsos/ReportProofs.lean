import Mcsos.SerialProofs
import Mcsos.TrapProofs

/-! # What the other end of the line learns of a stop

    A trap that the kernel does not handle ends in a report and a panic.  The
    processor pushes a frame, the stub saves the registers, the handler formats
    them, and the serial port sends the characters; here the whole way is followed
    to the reader at the other end.  The frame's own words arrive as they were.
    What the report calls `rax` to `rdx` are `r15` to `r12`, since the structure lists
    the registers in the order of the pushes, and the estimate of the stack pointer is
    never the interrupted one. -/

namespace Report

open Word Stack PicModel LogModel TrapModel Idt Log Serial Trap

/-! ## Panics -/

/-- The report of a panic has no carriage return of its own. -/
theorem return_kernelPanicAt {file reason : String} (hfile : Printable (text file))
    (hreason : Printable (text reason)) (line : U32) (code rflags : U64) :
    RETURN ∉ kernelPanicAt file line reason code rflags := by
  rw [kernelPanicAt_eq, List.mem_cons, not_or]
  exact ⟨by decide, return_ofLines (panicLines_readable hfile hreason line code rflags)⟩

/-- **PANIC RECEIVED**: whatever state the port is in, whatever has been sent before and however
    long each byte takes, the report of a panic goes out whole, and the reader at the other end
    has the reason, the place, the code and the flags from it. -/
theorem panic_received {file reason : String} (hfile : Printable (text file))
    (hreason : Printable (text reason)) (line : U32) (code rflags : U64) (s : LogState Uart)
    (hup : s.ready = true → s.dev.dlab = false) :
    ∃ N, ∀ fuel, N ≤ fuel → ∃ s',
      emit uartBus fuel (kernelPanicAt file line reason code rflags) s = some s' ∧
      s'.dev.lost = s.dev.lost ∧
      readPanic (received s'.dev.line)
        = some ⟨text reason, text file, line.toNat, code, rflags⟩ := by
  obtain ⟨N, hN⟩ := emit_delivered s hup (kernelPanicAt file line reason code rflags)
  refine ⟨N, fun fuel hfuel => ?_⟩
  obtain ⟨s', hemit, hdelivered⟩ := hN fuel hfuel
  refine ⟨s', hemit, hdelivered.lost, ?_⟩
  rw [hdelivered.received (return_kernelPanicAt hfile hreason line code rflags),
    readPanic_kernelPanicAt hfile hreason]

/-- A port the firmware left sending, with the divisor latch on. -/
def leftBusy : Uart :=
  { lcr := 0x80, dll := 0x01, dlm := 0x00, ier := 0x01, fcr := 0x00, mcr := 0x00
    line := text "boot", busy := 3, lost := [], delays := fun i => i % 5 }

/-- The panic of `kmain` without a memory map, over a port that is busy and not set up. -/
theorem panic_received_memmap :
    ∃ N, ∀ fuel, N ≤ fuel → ∃ s',
      emit uartBus fuel
        (kernelPanicAt "kernel/core/kmain.c" 112 "limine memmap response is NULL" 0 0x202)
        ⟨false, leftBusy⟩ = some s' ∧
      s'.dev.lost = [] ∧
      readPanic (received s'.dev.line)
        = some ⟨text "limine memmap response is NULL", text "kernel/core/kmain.c", 112, 0, 0x202⟩ :=
  panic_received (by decide +kernel) (by decide +kernel) 112 0 0x202 ⟨false, leftBusy⟩
    (fun h => absurd h (by decide))

/-! ## The lines of a trap -/

/-- The lines of a trap frame. -/
def trapLines (frame : TrapFrame) : List LogLine :=
  [ kvLine "trap_vector" frame.vector, kvLine "trap_error" frame.errorCode,
    kvLine "trap_rip" frame.rip, kvLine "trap_cs" frame.cs, kvLine "trap_rflags" frame.rflags,
    kvLine "trap_rax" frame.rax, kvLine "trap_rbx" frame.rbx, kvLine "trap_rcx" frame.rcx,
    kvLine "trap_rdx" frame.rdx ]

/-- The line of a bit of the error code. -/
def bitLine (errorCode : U64) (i : Nat) (key yes no : String) : LogLine :=
  (text key, some (text (if errorCode &&& ((1 : U64) <<< i) ≠ 0 then yes else no)))

/-- The lines of a page fault. -/
def pageFaultLines (cr2 ptr : U64) (frame : TrapFrame) : List LogLine :=
  [ (text "[M7] #PF page fault diagnostics:", none), kvLine "pf_cr2" cr2,
    kvLine "pf_error_code" frame.errorCode, kvLine "pf_rip" frame.rip,
    kvLine "pf_rsp_est" (ptr + 160),
    bitLine frame.errorCode 0 "[M7] pf_present" "1(protection)" "0(non-present)",
    bitLine frame.errorCode 1 "[M7] pf_write" "1(write)" "0(read)",
    bitLine frame.errorCode 2 "[M7] pf_user" "1(user)" "0(supervisor)",
    bitLine frame.errorCode 3 "[M7] pf_rsvd" "1(reserved-bit-set)" "0",
    bitLine frame.errorCode 4 "[M7] pf_id" "1(instruction-fetch)" "0(data-access)" ]

theorem ofLines_append (ls ms : List LogLine) :
    ofLines ((ls ++ ms).map render) = ofLines (ls.map render) ++ ofLines (ms.map render) := by
  rw [List.map_append, ofLines, List.flatMap_append]
  rfl

/-- A trap frame is logged line by line. -/
theorem logTrapFrame_eq (frame : TrapFrame) :
    logTrapFrame frame = ofLines ((trapLines frame).map render) := by
  rw [logTrapFrame, trapLines]
  simp only [logKeyValueHex64_eq, List.map_cons, List.map_nil, ofLines_cons, ofLines_nil,
    List.append_assoc, List.cons_append, List.nil_append]

/-- A bit of the error code is logged as one line. -/
theorem pageFaultBit_eq {name key : String} (hname : text name = text key ++ [EQUALS])
    (errorCode : U64) (i : Nat) (yes no : String) :
    pageFaultBit errorCode i name yes no
      = render (bitLine errorCode i key yes no) ++ [NEWLINE] := by
  rw [pageFaultBit, bitLine, render_value, logWrite, logWrite, logPutc, hname]
  simp only [List.append_assoc, List.cons_append, List.nil_append]

/-- Each text ends in the equals sign behind its key. -/
theorem pageFault_texts :
    text "[M7] pf_present=" = text "[M7] pf_present" ++ [EQUALS] ∧
      text "[M7] pf_write=" = text "[M7] pf_write" ++ [EQUALS] ∧
      text "[M7] pf_user=" = text "[M7] pf_user" ++ [EQUALS] ∧
      text "[M7] pf_rsvd=" = text "[M7] pf_rsvd" ++ [EQUALS] ∧
      text "[M7] pf_id=" = text "[M7] pf_id" ++ [EQUALS] := by
  decide +kernel

/-- A page fault is logged line by line. -/
theorem pageFaultDump_eq (cr2 ptr : U64) (frame : TrapFrame) :
    pageFaultDump cr2 ptr frame = ofLines ((pageFaultLines cr2 ptr frame).map render) := by
  obtain ⟨hpresent, hwrite, huser, hrsvd, hid⟩ := pageFault_texts
  have htitle (words : List U8) : render (words, none) = words := rfl
  rw [pageFaultDump, pageFaultLines, pageFaultBit_eq hpresent, pageFaultBit_eq hwrite,
    pageFaultBit_eq huser, pageFaultBit_eq hrsvd, pageFaultBit_eq hid]
  simp only [logKeyValueHex64_eq, logWriteln, logWrite, logPutc, htitle, List.map_cons,
    List.map_nil, ofLines_cons, ofLines_nil, List.append_assoc, List.cons_append, List.nil_append]

/-- The line of `trap.c`, the reason and the code of the panic that ends the report. -/
def stopReason (frame : TrapFrame) : U32 × String × U64 :=
  if frame.vector = 14 then (132, "unrecoverable page fault", frame.errorCode)
  else (140, "unrecoverable CPU exception", frame.vector)

/-- The lines of the panic behind a trap that is not survived. -/
def stopPanic (rflags : U64) (frame : TrapFrame) : List LogLine :=
  panicLines "kernel/core/trap.c" (stopReason frame).1 (stopReason frame).2.1
    (stopReason frame).2.2 rflags

/-- The lines before that panic. -/
def stopLines (cr2 ptr : U64) (frame : TrapFrame) : List LogLine :=
  trapLines frame ++ if frame.vector = 14 then pageFaultLines cr2 ptr frame else []

/-- What the handler logs of a trap that it does not handle. -/
def stopReport (cr2 rflags ptr : U64) (frame : TrapFrame) : List U8 :=
  text "[M4] trap dispatch: " ++ text (trapName frame.vector) ++ NEWLINE ::
    ofLines ((stopLines cr2 ptr frame ++ ([], none) :: stopPanic rflags frame).map render)

/-- The panic behind a trap, line by line. -/
theorem stopPanic_eq (rflags : U64) (frame : TrapFrame) :
    kernelPanicAt "kernel/core/trap.c" (stopReason frame).1 (stopReason frame).2.1
        (stopReason frame).2.2 rflags
      = ofLines ((([], none) :: stopPanic rflags frame).map render) := by
  rw [kernelPanicAt_eq, List.map_cons, ofLines_cons]
  rfl

/-- **STOP**: a trap that is not handled is logged, and then the machine stands still. -/
theorem dispatch_stops {σ : Type} (bus : Bus σ) {cr2 rflags ptr : U64} {frame : TrapFrame}
    (hptr : ptr ≠ 0) (h3 : frame.vector ≠ 3) (hirq : ¬ (frame.vector ≥ 32 ∧ frame.vector ≤ 47))
    (s : TrapState σ) :
    x86_64TrapDispatch bus cr2 rflags ptr frame s
      = .halts ⟨s.trapCount + 1, s.log ++ stopReport cr2 rflags ptr frame, s.ports⟩ := by
  rw [x86_64TrapDispatch, if_neg hptr, stopReport, ofLines_append, ← stopPanic_eq, stopLines,
    ofLines_append, ← logTrapFrame_eq, stopReason]
  dsimp only
  rw [if_neg h3]
  by_cases h14 : frame.vector = 14
  · rw [if_pos h14, if_pos h14, if_pos h14, ← pageFaultDump_eq]
    simp only [TrapState.say, logWrite, logWriteln, logPutc, List.append_assoc, List.cons_append,
      List.nil_append]
  · rw [if_neg h14, if_neg h14, if_neg h14, if_neg hirq]
    simp only [TrapState.say, logWrite, logWriteln, logPutc, List.append_assoc, List.cons_append,
      List.nil_append, List.map_nil, ofLines_nil]

/-! ## Reading it -/

/-- The keys of a trap frame. -/
def trapKeys : List (List U8) :=
  [ text "trap_vector", text "trap_error", text "trap_rip", text "trap_cs", text "trap_rflags",
    text "trap_rax", text "trap_rbx", text "trap_rcx", text "trap_rdx" ]

/-- The keys of a page fault. -/
def pageFaultKeys : List (List U8) :=
  [ text "[M7] #PF page fault diagnostics:", text "pf_cr2", text "pf_error_code", text "pf_rip",
    text "pf_rsp_est", text "[M7] pf_present", text "[M7] pf_write", text "[M7] pf_user",
    text "[M7] pf_rsvd", text "[M7] pf_id" ]

/-- The keys of a panic. -/
def panicKeys : List (List U8) :=
  [ [], [], text "system", text "reason", text "location", text "panic_code",
    text "rflags_before_cli", text "state", [] ]

/-- No key comes twice, none is a key of the panic, and each can be read. -/
theorem reported_keys : (trapKeys ++ pageFaultKeys).Nodup ∧
    ∀ key ∈ trapKeys ++ pageFaultKeys, key ∉ panicKeys ∧ Printable key ∧ EQUALS ∉ key := by
  decide +kernel

/-- The other fixed texts of the report. -/
def trapWords : List String :=
  [ "[M4] trap dispatch: ", "1(protection)", "0(non-present)", "1(write)", "0(read)", "1(user)",
    "0(supervisor)", "1(reserved-bit-set)", "0", "1(instruction-fetch)", "0(data-access)",
    "unrecoverable page fault", "unrecoverable CPU exception", "kernel/core/trap.c" ]

/-- All fixed texts can be printed. -/
theorem trapWords_printable : ∀ word ∈ trapWords ++ exceptionNames, Printable (text word) := by
  decide +kernel

/-- The panic behind the report does not repeat a key. -/
theorem keys_last : ∀ key ∈ trapKeys ++ pageFaultKeys, key ∉ panicKeys :=
  fun key hkey => (reported_keys.2 key hkey).1

/-- A fixed text can be printed. -/
theorem word_printable {word : String} (h : word ∈ trapWords) : Printable (text word) :=
  trapWords_printable word (List.mem_append_left _ h)

/-- The name of an exception can be printed. -/
theorem trapName_printable {vector : U64} (h : vector < 32) :
    Printable (text (trapName vector)) := by
  have hlt : vector.toNat < exceptionNames.length := by
    show vector.toNat < 32
    exact h
  rw [trapName, if_pos h, List.getD_eq_getElem _ _ hlt]
  exact trapWords_printable _ (List.mem_append_right _ (List.getElem_mem hlt))

/-- A line with a number can be read. -/
theorem kvLine_reported {key : String} (h : text key ∈ trapKeys ++ pageFaultKeys) (v : U64) :
    Readable (kvLine key v) :=
  kvLine_readable (reported_keys.2 _ h).2.1 (reported_keys.2 _ h).2.2 v

/-- A line with a bit can be read. -/
theorem bitLine_reported {key yes no : String} (h : text key ∈ trapKeys ++ pageFaultKeys)
    (hyes : yes ∈ trapWords) (hno : no ∈ trapWords) (errorCode : U64) (i : Nat) :
    Readable (bitLine errorCode i key yes no) := by
  refine readable_value (reported_keys.2 _ h).2.1 (reported_keys.2 _ h).2.2 ?_
  by_cases hbit : errorCode &&& ((1 : U64) <<< i) ≠ 0
  · rw [if_pos hbit]
    exact word_printable hyes
  · rw [if_neg hbit]
    exact word_printable hno

/-- All lines of a trap frame can be read. -/
theorem trapLines_readable (frame : TrapFrame) : ∀ l ∈ trapLines frame, Readable l := by
  simp only [trapLines, List.forall_mem_cons]
  refine ⟨kvLine_reported ?_ _, kvLine_reported ?_ _, kvLine_reported ?_ _, kvLine_reported ?_ _,
    kvLine_reported ?_ _, kvLine_reported ?_ _, kvLine_reported ?_ _, kvLine_reported ?_ _,
    kvLine_reported ?_ _, fun _ hl => absurd hl List.not_mem_nil⟩
  all_goals simp [trapKeys]

/-- All lines of a page fault can be read. -/
theorem pageFaultLines_readable (cr2 ptr : U64) (frame : TrapFrame) :
    ∀ l ∈ pageFaultLines cr2 ptr frame, Readable l := by
  have htitle := reported_keys.2 (text "[M7] #PF page fault diagnostics:") (by simp [pageFaultKeys])
  simp only [pageFaultLines, List.forall_mem_cons]
  refine ⟨⟨htitle.2.1, htitle.2.2⟩, kvLine_reported ?_ _, kvLine_reported ?_ _,
    kvLine_reported ?_ _, kvLine_reported ?_ _, bitLine_reported ?_ ?_ ?_ _ _,
    bitLine_reported ?_ ?_ ?_ _ _, bitLine_reported ?_ ?_ ?_ _ _, bitLine_reported ?_ ?_ ?_ _ _,
    bitLine_reported ?_ ?_ ?_ _ _, fun _ hl => absurd hl List.not_mem_nil⟩
  all_goals simp [pageFaultKeys, trapWords]

/-- The reason for the panic can be printed. -/
theorem stopReason_printable (frame : TrapFrame) :
    Printable (text (stopReason frame).2.1) := by
  rw [stopReason]
  by_cases h14 : frame.vector = 14
  · rw [if_pos h14]
    exact word_printable (by simp [trapWords])
  · rw [if_neg h14]
    exact word_printable (by simp [trapWords])

/-- The panic's lines can be read. -/
theorem stopPanic_readable (rflags : U64) (frame : TrapFrame) :
    ∀ l ∈ stopPanic rflags frame, Readable l :=
  panicLines_readable (word_printable (by simp [trapWords])) (stopReason_printable frame) _ _ rflags

/-- The lines of the trap, and those of the panic behind them. -/
theorem stop_block (cr2 rflags ptr : U64) (frame : TrapFrame) :
    Block (stopLines cr2 ptr frame) (([], none) :: stopPanic rflags frame) := by
  have hempty : Readable ([], none) := ⟨by decide, by decide⟩
  have hpanic := List.forall_mem_cons.mpr ⟨hempty, stopPanic_readable rflags frame⟩
  -- the keys do not depend on the frame
  have hkeys : (([], none) :: stopPanic rflags frame).map Prod.fst = panicKeys := rfl
  have htrap : (trapLines frame).map Prod.fst = trapKeys := rfl
  have hfault : (pageFaultLines cr2 ptr frame).map Prod.fst = pageFaultKeys := rfl
  rw [stopLines]
  by_cases h14 : frame.vector = 14
  · rw [if_pos h14]
    refine ⟨?_, ?_, ?_⟩
    · rw [List.forall_mem_append, List.forall_mem_append]
      exact ⟨⟨trapLines_readable frame, pageFaultLines_readable cr2 ptr frame⟩, hpanic⟩
    · rw [List.map_append, htrap, hfault]
      exact reported_keys.1
    · rw [List.map_append, htrap, hfault, hkeys]
      exact keys_last
  · rw [if_neg h14, List.append_nil]
    refine ⟨?_, ?_, ?_⟩
    · rw [List.forall_mem_append]
      exact ⟨trapLines_readable frame, hpanic⟩
    · rw [htrap]
      exact reported_keys.1.of_append_left
    · rw [htrap, hkeys]
      exact fun key hkey => keys_last key (List.mem_append_left _ hkey)

/-- The report of an exception has no carriage return of its own. -/
theorem return_stopReport (cr2 rflags ptr : U64) {frame : TrapFrame} (h : frame.vector < 32) :
    RETURN ∉ stopReport cr2 rflags ptr frame := by
  have htitle : RETURN ∉ text "[M4] trap dispatch: " :=
    fun hc => absurd (word_printable (by simp [trapWords]) _ hc) (by decide)
  have hname : RETURN ∉ text (trapName frame.vector) :=
    fun hc => absurd (trapName_printable h _ hc) (by decide)
  have hlines := return_ofLines (stop_block cr2 rflags ptr frame).readable
  rw [stopReport, List.mem_append, List.mem_append, List.mem_cons, not_or, not_or, not_or]
  exact ⟨⟨htitle, hname⟩, by decide, hlines⟩

/-- What can be read about the trap. -/
structure TrapReport where
  vector : U64
  error : U64
  rip : U64
  cs : U64
  rflags : U64
  rax : U64
  rbx : U64
  rcx : U64
  rdx : U64
deriving DecidableEq, Repr

/-- The last trap in a log. -/
def readTrap (log : List U8) : Option TrapReport := do
  let vector ← lastHex "trap_vector" log
  let error ← lastHex "trap_error" log
  let rip ← lastHex "trap_rip" log
  let cs ← lastHex "trap_cs" log
  let rflags ← lastHex "trap_rflags" log
  let rax ← lastHex "trap_rax" log
  let rbx ← lastHex "trap_rbx" log
  let rcx ← lastHex "trap_rcx" log
  let rdx ← lastHex "trap_rdx" log
  return ⟨vector, error, rip, cs, rflags, rax, rbx, rcx, rdx⟩

/-- What can be read about a page fault. -/
structure PageFaultReport where
  cr2 : U64
  error : U64
  rip : U64
  rspEst : U64
  present : Bool
  write : Bool
  user : Bool
  rsvd : Bool
  fetch : Bool
deriving DecidableEq, Repr

/-- The digit before the words in brackets. -/
def lastBit (key : String) (log : List U8) : Option Bool :=
  (lastField (text key) log).map fun value => value.head? == some 49

/-- The last page fault in a log. -/
def readPageFault (log : List U8) : Option PageFaultReport := do
  let cr2 ← lastHex "pf_cr2" log
  let error ← lastHex "pf_error_code" log
  let rip ← lastHex "pf_rip" log
  let rspEst ← lastHex "pf_rsp_est" log
  let present ← lastBit "[M7] pf_present" log
  let write ← lastBit "[M7] pf_write" log
  let user ← lastBit "[M7] pf_user" log
  let rsvd ← lastBit "[M7] pf_rsvd" log
  let fetch ← lastBit "[M7] pf_id" log
  return ⟨cr2, error, rip, rspEst, present, write, user, rsvd, fetch⟩

/-- The trap frame is read back from its report. -/
theorem readTrap_stopReport (before : List U8) (cr2 rflags ptr : U64) (frame : TrapFrame) :
    readTrap (before ++ stopReport cr2 rflags ptr frame)
      = some ⟨frame.vector, frame.errorCode, frame.rip, frame.cs, frame.rflags, frame.rax,
          frame.rbx, frame.rcx, frame.rdx⟩ := by
  have hhex {key : String} {v : U64} (hmem : kvLine key v ∈ trapLines frame) :
      lastHex key (before ++ stopReport cr2 rflags ptr frame) = some v := by
    rw [stopReport, ← List.append_assoc]
    exact (stop_block cr2 rflags ptr frame).lastHex (List.mem_append_left _ hmem) _
  rw [readTrap, hhex (v := frame.vector) (by simp [trapLines]),
    hhex (v := frame.errorCode) (by simp [trapLines]), hhex (v := frame.rip) (by simp [trapLines]),
    hhex (v := frame.cs) (by simp [trapLines]), hhex (v := frame.rflags) (by simp [trapLines]),
    hhex (v := frame.rax) (by simp [trapLines]), hhex (v := frame.rbx) (by simp [trapLines]),
    hhex (v := frame.rcx) (by simp [trapLines]), hhex (v := frame.rdx) (by simp [trapLines])]
  rfl

/-- A line of the decoded error code shows its bit. -/
theorem lastBit_line {ls ms : List LogLine} (h : Block ls ms) {errorCode : U64} {i : Nat}
    (hi : i < 64) {key yes no : String} (hmem : bitLine errorCode i key yes no ∈ ls)
    (hyes : (text yes).head? = some 49) (hno : (text no).head? = some 48) (before : List U8) :
    lastBit key (before ++ NEWLINE :: ofLines ((ls ++ ms).map render))
      = some (errorCode.getLsbD i) := by
  rw [lastBit, h.lastField hmem, Option.map_some]
  by_cases hbit : errorCode &&& ((1 : U64) <<< i) ≠ 0
  · rw [if_pos hbit, hyes, (Word.and_bit_ne_zero errorCode i hi).mp hbit]
    rfl
  · have hoff : errorCode.getLsbD i = false :=
      Bool.eq_false_iff.mpr fun hon => hbit ((Word.and_bit_ne_zero errorCode i hi).mpr hon)
    rw [if_neg hbit, hno, hoff]
    rfl

/-- The fault's address, its error code and the bits of it are read back. -/
theorem readPageFault_stopReport (before : List U8) (cr2 rflags ptr : U64) {frame : TrapFrame}
    (h14 : frame.vector = 14) :
    readPageFault (before ++ stopReport cr2 rflags ptr frame)
      = some ⟨cr2, frame.errorCode, frame.rip, ptr + 160, frame.errorCode.getLsbD 0,
          frame.errorCode.getLsbD 1, frame.errorCode.getLsbD 2, frame.errorCode.getLsbD 3,
          frame.errorCode.getLsbD 4⟩ := by
  have hmem {l : LogLine} (hl : l ∈ pageFaultLines cr2 ptr frame) :
      l ∈ stopLines cr2 ptr frame := by
    rw [stopLines, if_pos h14]
    exact List.mem_append_right _ hl
  -- numbers and bits are looked up alike, each by its own key
  have hhex {key : String} {v : U64} (hl : kvLine key v ∈ pageFaultLines cr2 ptr frame) :
      lastHex key (before ++ stopReport cr2 rflags ptr frame) = some v := by
    rw [stopReport, ← List.append_assoc]
    exact (stop_block cr2 rflags ptr frame).lastHex (hmem hl) _
  have hbit (i : Nat) (key yes no : String) (hi : i < 64)
      (hl : bitLine frame.errorCode i key yes no ∈ pageFaultLines cr2 ptr frame)
      (hyes : (text yes).head? = some 49) (hno : (text no).head? = some 48) :
      lastBit key (before ++ stopReport cr2 rflags ptr frame)
        = some (frame.errorCode.getLsbD i) := by
    rw [stopReport, ← List.append_assoc]
    exact lastBit_line (stop_block cr2 rflags ptr frame) hi (hmem hl) hyes hno _
  rw [readPageFault, hhex (v := cr2) (by simp [pageFaultLines]),
    hhex (v := frame.errorCode) (by simp [pageFaultLines]),
    hhex (v := frame.rip) (by simp [pageFaultLines]),
    hhex (v := ptr + 160) (by simp [pageFaultLines]),
    hbit 0 _ "1(protection)" "0(non-present)" (by decide) (by simp [pageFaultLines]) rfl rfl,
    hbit 1 _ "1(write)" "0(read)" (by decide) (by simp [pageFaultLines]) rfl rfl,
    hbit 2 _ "1(user)" "0(supervisor)" (by decide) (by simp [pageFaultLines]) rfl rfl,
    hbit 3 _ "1(reserved-bit-set)" "0" (by decide) (by simp [pageFaultLines]) rfl rfl,
    hbit 4 _ "1(instruction-fetch)" "0(data-access)" (by decide) (by simp [pageFaultLines]) rfl rfl]
  rfl

/-- The panic is read back from the end of the report. -/
theorem readPanic_stopReport (before : List U8) (cr2 rflags ptr : U64) (frame : TrapFrame) :
    readPanic (before ++ stopReport cr2 rflags ptr frame)
      = some ⟨text (stopReason frame).2.1, text "kernel/core/trap.c", (stopReason frame).1.toNat,
          (stopReason frame).2.2, rflags⟩ := by
  have hsplit : ∃ b, before ++ stopReport cr2 rflags ptr frame
      = b ++ kernelPanicAt "kernel/core/trap.c" (stopReason frame).1 (stopReason frame).2.1
          (stopReason frame).2.2 rflags := by
    rw [stopReport, ofLines_append, ← stopPanic_eq, ← List.cons_append, ← List.append_assoc,
      ← List.append_assoc]
    exact ⟨_, rfl⟩
  obtain ⟨b, hb⟩ := hsplit
  have hfile : Printable (text "kernel/core/trap.c") := word_printable (by simp [trapWords])
  rw [hb, readPanic_kernelPanicAt hfile (stopReason_printable frame)]

/-! ## From the trap to the reader -/

variable {K : Type}

/-- What the other end reads of the frame. -/
def trapReport (v : U8) (error : U64) (m : Machine K) : TrapReport where
  vector := v.setWidth 64
  error := if hasErrorCode v then error else 0
  rip := m.rip
  cs := m.cs.setWidth 64
  rflags := m.rflags
  rax := m.core.regs .r15
  rbx := m.core.regs .r14
  rcx := m.core.regs .r13
  rdx := m.core.regs .r12

/-- What the other end reads of a page fault. -/
def pageFaultReport (error : U64) (m : Machine K) : PageFaultReport where
  cr2 := m.cr2
  error := error
  rip := m.rip
  rspEst := frameBase m - 16
  present := error.getLsbD 0
  write := error.getLsbD 1
  user := error.getLsbD 2
  rsvd := error.getLsbD 3
  fetch := error.getLsbD 4

/-- What the other end reads of the panic. -/
def panicReport (v : U8) (error rflags : U64) : PanicReport :=
  if v = 14 then
    ⟨text "unrecoverable page fault", text "kernel/core/trap.c", 132, error, rflags⟩
  else
    ⟨text "unrecoverable CPU exception", text "kernel/core/trap.c", 140, v.setWidth 64, rflags⟩

/-- The reported stack pointer is never the one of the interrupted code. -/
theorem rspEst_ne (error : U64) (m : Machine K) :
    (pageFaultReport error m).rspEst ≠ m.core.regs .rsp := by
  have hbase : (frameBase m).toNat = (m.core.regs .rsp).toNat / 2 ^ 4 * 2 ^ 4 :=
    and_highMask_toNat _ _ 4 rfl
  show frameBase m - 16 ≠ m.core.regs .rsp
  bv_omega

/-- The panic names the trap that arrived. -/
theorem stopReason_arrived (v : U8) (error rflags : U64) (m : Machine K) :
    (⟨text (stopReason (arrived v error m)).2.1, text "kernel/core/trap.c",
        (stopReason (arrived v error m)).1.toNat, (stopReason (arrived v error m)).2.2, rflags⟩
      : PanicReport) = panicReport v error rflags := by
  have hvec : (arrived v error m).vector = v.setWidth 64 := rfl
  rw [stopReason, panicReport, hvec]
  by_cases h14 : v = 14
  · subst h14
    rfl
  · have hne : v.setWidth 64 ≠ (14 : U64) := fun h => h14 (by bv_omega)
    rw [if_neg hne, if_neg h14]
    rfl

/-- The receiver's text tells of the trap. -/
structure Tells (v : U8) (error rflags : U64) (m : Machine K) (got : List U8) : Prop where
  trap : readTrap got = some (trapReport v error m)
  panic : readPanic got = some (panicReport v error rflags)
  pageFault : v = 14 → readPageFault got = some (pageFaultReport error m)

/-- The report tells all of it. -/
theorem tells_stopReport {v : U8} (before : List U8) (error rflags : U64) (m : Machine K) :
    Tells v error rflags m
      (before ++ stopReport m.cr2 rflags (frameBase m - words 22) (arrived v error m)) := by
  refine ⟨readTrap_stopReport before _ _ _ _, ?_, ?_⟩
  · rw [readPanic_stopReport, stopReason_arrived]
  · rintro rfl
    have hest : frameBase m - words 22 + 160 = frameBase m - 16 := by
      rw [words]
      bv_omega
    rw [readPageFault_stopReport before _ _ _ rfl, hest]
    rfl

/-- **TRAP RECEIVED**: a trap the kernel does not handle, from any state of the machine that
    does not put the frame at address 0 and any state of the port: the handler is called and
    stops, its report goes out whole, and the reader at the other end has the frame, the fault
    and the panic from it, with `r15` to `r12` under the names of `rax` to `rdx` and a stack
    pointer that is not the interrupted one. -/
theorem trap_received {σ : Type} (image : Image) (cs : U16) (idt : TrapModel.Idt)
    (m : Machine (TrapState σ)) {v : U8} (error : U64) (hv : v.toNat < 48) (hstop : ¬ Handled v)
    (hframe : frameBase m ≠ words 22) (port : LogState Uart)
    (hup : port.ready = true → port.dev.dlab = false) :
    ∃ m₁, (∀ calls, interrupt image calls (kernelIdt image cs idt) v error m
        = (calls .x86_64TrapDispatch m₁).bind fun m => exec calls m epilogue) ∧
      ∀ bus rflags, ∃ report,
        x86_64TrapDispatch bus m₁.cr2 rflags (m₁.core.regs .rdi)
            (frameAt m₁.core.mem (m₁.core.regs .rdi)) m₁.kernel
          = .halts ⟨m.kernel.trapCount + 1, m.kernel.log ++ report, m.kernel.ports⟩ ∧
        ∃ N, ∀ fuel, N ≤ fuel → ∃ port', emit uartBus fuel report port = some port' ∧
          port'.dev.lost = port.dev.lost ∧ Tells v error rflags m (received port'.dev.line) ∧
          (pageFaultReport error m).rspEst ≠ m.core.regs .rsp := by
  refine ⟨atCall (stubGate image cs v) v error m,
    fun calls => interrupt_eq image calls cs idt m error hv, fun bus rflags => ?_⟩
  have hvec : (arrived v error m).vector = v.setWidth 64 := rfl
  have hptr : frameBase m - words 22 ≠ 0 := by
    rw [words] at hframe ⊢
    bv_omega
  have h3 : (arrived v error m).vector ≠ 3 :=
    fun h => hstop (.inl ((vector_eq_three hvec).mp h))
  have hirq : ¬ ((arrived v error m).vector ≥ 32 ∧ (arrived v error m).vector ≤ 47) :=
    fun h => hstop (.inr ((vector_irq hvec).mp h))
  -- an interrupt request would have been survived
  have hexception : (arrived v error m).vector < 32 := by
    have hlow : v.toNat < 32 := Nat.lt_of_not_le fun h => hstop (.inr ⟨h, by omega⟩)
    rw [hvec]
    bv_omega
  refine ⟨stopReport m.cr2 rflags (frameBase m - words 22) (arrived v error m), ?_, ?_⟩
  · rw [frameAt_atCall, atCall_rdi]
    exact dispatch_stops bus hptr h3 hirq m.kernel
  · obtain ⟨N, hN⟩ := emit_delivered port hup
      (stopReport m.cr2 rflags (frameBase m - words 22) (arrived v error m))
    refine ⟨N, fun fuel hfuel => ?_⟩
    obtain ⟨port', hemit, hdelivered⟩ := hN fuel hfuel
    refine ⟨port', hemit, hdelivered.lost, ?_, rspEst_ne error m⟩
    rw [hdelivered.received (return_stopReport _ _ _ hexception)]
    exact tells_stopReport _ error rflags m

/-- A page fault, with the port as the firmware left it. -/
theorem trap_received_page_fault :
    ∃ report N, ∀ fuel, N ≤ fuel → ∃ port',
      emit uartBus fuel report ⟨false, leftBusy⟩ = some port' ∧
      Tells 14 2 0x46 (someMachine ()) (received port'.dev.line) := by
  obtain ⟨m₁, -, h⟩ := trap_received flatImage 0x28 (fun _ => default)
    (someMachine (⟨0, [], ()⟩ : TrapState Unit)) (v := 14) 2 (by decide) (by decide)
    (by decide +kernel) ⟨false, leftBusy⟩ (fun h => absurd h (by decide))
  obtain ⟨report, -, N, hN⟩ := h ⟨fun _ _ => pure (), fun _ => pure 0⟩ 0x46
  refine ⟨report, N, fun fuel hfuel => ?_⟩
  obtain ⟨port', hemit, -, htells, -⟩ := hN fuel hfuel
  exact ⟨port', hemit, htells.trap, htells.panic, htells.pageFault⟩

end Report
