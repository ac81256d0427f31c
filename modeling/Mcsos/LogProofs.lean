import Mcsos.LogModel
import Mathlib.Data.Nat.Digits.Lemmas

/-! # The log can be read back

    What the kernel logs is text, and what a reader of the text can tell is a
    round trip: numbers come back from their digits, and a value comes back from
    the last line with its key, whatever was logged before.

    `log_dec_u32` fills a buffer of eleven bytes and stops when it is full.  Ten
    digits are enough for a word of 32 bits, so no number is cut. -/

namespace Log

open Word LogModel

/-! ## Numbers -/

/-- The number with the given digits, the first one highest. -/
def ofDigits (b : Nat) (ds : List Nat) : Nat := ds.foldl (fun n d => n * b + d) 0

/-- One digit more. -/
theorem ofDigits_concat (b : Nat) (ds : List Nat) (d : Nat) :
    ofDigits b (ds ++ [d]) = ofDigits b ds * b + d := by
  rw [ofDigits, List.foldl_append]
  rfl

/-- The digits of the lower `n` places. -/
theorem ofDigits_places (b n v : Nat) :
    ofDigits b ((List.range n).map fun i => v / b ^ (n - 1 - i) % b) = v % b ^ n := by
  induction n generalizing v with
  | zero => rw [Nat.pow_zero, Nat.mod_one]; rfl
  | succ n ih =>
      have hhigh : ((List.range n).map fun i => v / b ^ (n + 1 - 1 - i) % b)
          = (List.range n).map fun i => v / b / b ^ (n - 1 - i) % b := by
        refine List.map_congr_left (fun i hi => ?_)
        have hi := List.mem_range.mp hi
        rw [Nat.div_div_eq_div_mul, ← Nat.pow_succ', show n + 1 - 1 - i = (n - 1 - i) + 1 by omega]
      rw [List.range_succ, List.map_append, hhigh, List.map_singleton, ofDigits_concat, ih,
        show n + 1 - 1 - n = 0 by omega, Nat.pow_zero, Nat.div_one, Nat.pow_succ',
        Nat.mod_mul, Nat.add_comm, Nat.mul_comm]

/-- Least significant digit first, as Mathlib has them. -/
theorem ofDigits_reverse (b : Nat) (ds : List Nat) :
    ofDigits b ds.reverse = Nat.ofDigits b ds := by
  induction ds with
  | nil => rfl
  | cons d ds ih =>
      rw [List.reverse_cons, ofDigits_concat, ih, Nat.ofDigits_cons, Nat.add_comm, Nat.mul_comm]

/-- The value of a digit of `log_hex64`. -/
def hexValue (c : U8) : Option Nat := if c ∈ digits then some (digits.idxOf c) else none

/-- A number as `log_hex64` writes it. -/
def readHex64 (cs : List U8) : Option U64 :=
  if cs.take 2 = text "0x" then
    ((cs.drop 2).mapM hexValue).map fun ds => BitVec.ofNat 64 (ofDigits 16 ds)
  else none

/-- The digits of both bases, as characters. -/
theorem digits_values : (∀ d : Fin 16, hexValue (digits.getD d.val 0) = some d.val) ∧
    (∀ d : Fin 10, (48 : U8) + BitVec.ofNat 8 d.val ∈ digits) ∧
    ∀ c ∈ text "0x" ++ digits, 32 ≤ c ∧ c ≠ 58 := by
  decide +kernel

/-- A digit is read as its value. -/
theorem hexValue_digit {d : Nat} (hd : d < 16) : hexValue (digits.getD d 0) = some d :=
  digits_values.1 ⟨d, hd⟩

/-- If every character is read back, the text is. -/
theorem mapM_values {α β : Type} {f : β → Option α} {g : α → β} {xs : List α}
    (h : ∀ x ∈ xs, f (g x) = some x) : (xs.map g).mapM f = some xs := by
  induction xs with
  | nil => rfl
  | cons x xs ih =>
      rw [List.map_cons, List.mapM_cons, h x List.mem_cons_self,
        ih fun y hy => h y (List.mem_cons_of_mem x hy)]
      rfl

/-- **HEX**: sixteen digits give the word back. -/
theorem readHex64_logHex64 (v : U64) : readHex64 (logHex64 v) = some v := by
  have hdigit : ∀ i, i < 16 →
      ((v >>> (60 - 4 * i)) &&& 0x0F).toNat = v.toNat / 16 ^ (16 - 1 - i) % 16 := by
    intro i hi
    have hpow : 60 - 4 * i = 4 * (16 - 1 - i) := by omega
    rw [BitVec.toNat_and, BitVec.toNat_ushiftRight, hpow, Nat.shiftRight_eq_div_pow, Nat.pow_mul]
    exact Nat.and_two_pow_sub_one_eq_mod _ 4
  -- the shifts and masks give the sixteen digits in base 16
  have hchars : (List.range 16).flatMap (fun i =>
      logPutc (digits.getD ((v >>> (60 - 4 * i)) &&& 0x0F).toNat 0))
      = ((List.range 16).map fun i => v.toNat / 16 ^ (16 - 1 - i) % 16).map
          fun d => digits.getD d 0 := by
    rw [List.map_map, ← List.flatMap_singleton' ((List.range 16).map _), List.flatMap_map]
    refine List.flatMap_congr fun i hi => ?_
    rw [hdigit i (List.mem_range.mp hi)]
    rfl
  have hvalues : (((List.range 16).map fun i => v.toNat / 16 ^ (16 - 1 - i) % 16).map
      fun d => digits.getD d 0).mapM hexValue
      = some ((List.range 16).map fun i => v.toNat / 16 ^ (16 - 1 - i) % 16) := by
    refine mapM_values fun d hd => hexValue_digit ?_
    obtain ⟨i, -, rfl⟩ := List.mem_map.mp hd
    exact Nat.mod_lt _ (by decide)
  have hprefix : (logHex64 v).take 2 = text "0x" := rfl
  have hrest : (logHex64 v).drop 2 = (List.range 16).flatMap fun i =>
      logPutc (digits.getD ((v >>> (60 - 4 * i)) &&& 0x0F).toNat 0) := rfl
  rw [readHex64, if_pos hprefix, hrest, hchars, hvalues, Option.map_some,
    ofDigits_places]
  congr 1
  bv_omega

/-- The value of a digit of `log_dec_u32`. -/
def decValue (c : U8) : Option Nat :=
  if 48 ≤ c.toNat ∧ c.toNat < 58 then some (c.toNat - 48) else none

/-- A decimal number in the log. -/
def readDec (cs : List U8) : Option Nat := (cs.mapM decValue).map (ofDigits 10)

/-- A digit is read as its value. -/
theorem decValue_digit {d : Nat} (hd : d < 10) : decValue (48 + BitVec.ofNat 8 d) = some d := by
  have hall : ∀ d : Fin 10, decValue (48 + BitVec.ofNat 8 d.val) = some d.val := by decide
  exact hall ⟨d, hd⟩

/-- With room for all digits the buffer has the decimal digits of the number. -/
theorem decLoop_eq {room : Nat} {v : U32} (h : v.toNat < 10 ^ room) :
    decLoop room v = (Nat.digits 10 v.toNat).map fun d => 48 + BitVec.ofNat 8 d := by
  induction room generalizing v with
  | zero =>
      have hv : v.toNat = 0 := by omega
      rw [hv, Nat.digits_zero]
      rfl
  | succ room ih =>
      rw [decLoop]
      by_cases hv : v = 0
      · rw [if_pos hv, hv]
        rfl
      · -- one round of the loop is one digit of the number
        have hdiv : (v / 10).toNat = v.toNat / 10 := BitVec.toNat_udiv
        have hdigit : (v % 10).setWidth 8 = BitVec.ofNat 8 (v.toNat % 10) := by
          rw [← BitVec.ofNat_toNat, BitVec.toNat_umod]
          rfl
        rw [if_neg hv, Nat.digits_def' (by decide) (by bv_omega), List.map_cons, hdigit,
          ih (by rw [hdiv]; omega), hdiv]

/-- **DECIMAL**: the digits give the number back, and none was left out. -/
theorem readDec_logDecU32 (v : U32) : readDec (logDecU32 v) = some v.toNat := by
  rw [logDecU32]
  by_cases hv : v = 0
  · rw [if_pos hv, hv]
    rfl
  · have hroom : v.toNat < 10 ^ 11 := by
      have := v.isLt
      omega
    have hvalues : (((Nat.digits 10 v.toNat).reverse).map
        fun d => (48 : U8) + BitVec.ofNat 8 d).mapM decValue
        = some (Nat.digits 10 v.toNat).reverse := by
      refine mapM_values fun d hd => decValue_digit ?_
      exact Nat.digits_lt_base (by decide) (List.mem_reverse.mp hd)
    rw [if_neg hv, decLoop_eq hroom, ← List.map_reverse, readDec, hvalues, Option.map_some,
      ofDigits_reverse, Nat.ofDigits_digits]

/-! ## Lines -/

/-- `'='`. -/
def EQUALS : U8 := 61

/-- Lines, each with its newline. -/
def ofLines (ls : List (List U8)) : List U8 := ls.flatMap fun l => l ++ [NEWLINE]

theorem ofLines_nil : ofLines [] = [] := rfl

/-- One line more. -/
theorem ofLines_cons (l : List U8) (ls : List (List U8)) :
    ofLines (l :: ls) = l ++ NEWLINE :: ofLines ls := by
  rw [ofLines, List.flatMap_cons, List.append_assoc]
  rfl

/-- What stands between the newlines. -/
def linesOf (log : List U8) : List (List U8) := log.splitOnP (· == NEWLINE)

/-- A log is cut at a line's end. -/
theorem linesOf_cons (log rest : List U8) :
    linesOf (log ++ NEWLINE :: rest) = linesOf log ++ linesOf rest :=
  List.splitOnP_append_cons log rest rfl

/-- A line without a line's end in it is read as one. -/
theorem linesOf_line {l : List U8} (hl : NEWLINE ∉ l) (rest : List U8) :
    linesOf (l ++ NEWLINE :: rest) = l :: linesOf rest := by
  refine List.splitOnP_append_cons_of_forall_mem (fun c hc => ?_) NEWLINE rfl rest
  rw [beq_eq_false_iff_ne]
  rintro rfl
  exact hl hc

/-- Lines that are written are read back, with nothing behind the last. -/
theorem linesOf_ofLines {ls : List (List U8)} (h : ∀ l ∈ ls, NEWLINE ∉ l) :
    linesOf (ofLines ls) = ls ++ [[]] := by
  induction ls with
  | nil => rfl
  | cons l ls ih =>
      rw [ofLines_cons, linesOf_line (h l List.mem_cons_self),
        ih fun m hm => h m (List.mem_cons_of_mem l hm), List.cons_append]

/-- What follows `key=` on a line. -/
def fieldOf (key line : List U8) : Option (List U8) :=
  if (key ++ [EQUALS]).isPrefixOf line then some (line.drop (key.length + 1)) else none

/-- What follows `key=` on the last line that starts so. -/
def lastField (key log : List U8) : Option (List U8) :=
  (linesOf log).reverse.findSome? (fieldOf key)

/-- The first sign ends the key. -/
theorem key_unique {key k v : List U8} (hkey : EQUALS ∉ key) (hk : EQUALS ∉ k)
    (h : key ++ [EQUALS] <+: k ++ EQUALS :: v) : key = k := by
  induction key generalizing k with
  | nil =>
      cases k with
      | nil => rfl
      | cons c k =>
          obtain ⟨rfl, -⟩ := List.cons_prefix_cons.mp h
          exact absurd List.mem_cons_self hk
  | cons c key ih =>
      cases k with
      | nil =>
          obtain ⟨rfl, -⟩ := List.cons_prefix_cons.mp h
          exact absurd List.mem_cons_self hkey
      | cons c' k =>
          obtain ⟨rfl, hrest⟩ := List.cons_prefix_cons.mp h
          rw [ih (fun hc => hkey (List.mem_cons_of_mem c hc))
            (fun hc => hk (List.mem_cons_of_mem c hc)) hrest]

/-- A line `k=v` has the key `k` and no other. -/
theorem fieldOf_line {key k : List U8} (hkey : EQUALS ∉ key) (hk : EQUALS ∉ k) (v : List U8) :
    fieldOf key (k ++ EQUALS :: v) = if key = k then some v else none := by
  rw [fieldOf]
  by_cases heq : key = k
  · have hprefix : k ++ [EQUALS] <+: k ++ EQUALS :: v := ⟨v, by rw [List.append_assoc]; rfl⟩
    have hdrop : (k ++ EQUALS :: v).drop (k.length + 1) = v := by
      rw [← List.drop_drop, List.drop_left]
      rfl
    rw [if_pos heq, heq, if_pos (List.isPrefixOf_iff_prefix.mpr hprefix), hdrop]
  · rw [if_neg heq, if_neg]
    exact fun hprefix => heq (key_unique hkey hk (List.isPrefixOf_iff_prefix.mp hprefix))

/-- A line without an equals sign has no field. -/
theorem fieldOf_none {key line : List U8} (h : EQUALS ∉ line) : fieldOf key line = none := by
  refine if_neg fun hprefix => h ?_
  obtain ⟨t, rfl⟩ := List.isPrefixOf_iff_prefix.mp hprefix
  exact List.mem_append_left _ (List.mem_append_right _ (List.mem_singleton.mpr rfl))

/-- A line of a report: a key and its value, or words without a sign between them. -/
abbrev LogLine := List U8 × Option (List U8)

/-- A line as it is written. -/
def render : LogLine → List U8
  | (key, some value) => key ++ EQUALS :: value
  | (words, none) => words

theorem render_value (key value : List U8) :
    render (key, some value) = key ++ EQUALS :: value := rfl

/-- The value that a line gives to a key. -/
def valueFor (key : List U8) (l : LogLine) : Option (List U8) := if key = l.1 then l.2 else none

/-- No control characters. -/
def Printable (cs : List U8) : Prop := ∀ c ∈ cs, 32 ≤ c

/-- The check, as a property. -/
theorem printable_iff {cs : List U8} : (cs.all fun c => 32 ≤ c) = true ↔ Printable cs := by
  rw [List.all_eq_true]
  exact forall₂_congr fun c _ => decide_eq_true_iff

instance : DecidablePred Printable := fun _ => decidable_of_iff _ printable_iff

theorem printable_append {cs ds : List U8} :
    Printable (cs ++ ds) ↔ Printable cs ∧ Printable ds := List.forall_mem_append

theorem printable_cons {c : U8} {cs : List U8} :
    Printable (c :: cs) ↔ 32 ≤ c ∧ Printable cs := List.forall_mem_cons

/-- A line can be read: nothing in it ends it, and no sign is in the key. -/
structure Readable (l : LogLine) : Prop where
  line : Printable (render l)
  key : EQUALS ∉ l.1

/-- A readable line does not end early. -/
theorem Readable.newline {l : LogLine} (h : Readable l) : NEWLINE ∉ render l :=
  fun hc => absurd (h.line _ hc) (by decide)

/-- A report has no carriage returns. -/
theorem return_ofLines {ls : List LogLine} (h : ∀ l ∈ ls, Readable l) :
    RETURN ∉ ofLines (ls.map render) := by
  intro hc
  obtain ⟨_, hmem, hc⟩ := List.mem_flatMap.mp hc
  obtain ⟨l, hl, rfl⟩ := List.mem_map.mp hmem
  rcases List.mem_append.mp hc with hc | hc
  · exact absurd ((h l hl).line _ hc) (by decide)
  · exact absurd (List.mem_singleton.mp hc) (by decide)

/-- A field is read back from its line. -/
theorem fieldOf_render {key : List U8} (hkey : EQUALS ∉ key) {l : LogLine} (hl : Readable l) :
    fieldOf key (render l) = valueFor key l := by
  obtain ⟨k, v⟩ := l
  cases v with
  | none =>
      rw [valueFor, ite_self]
      exact fieldOf_none hl.key
  | some v => exact fieldOf_line hkey hl.key v

/-- A field is read back from the first of several lines that has it. -/
theorem firstField_render {key : List U8} (hkey : EQUALS ∉ key) {ls : List LogLine}
    (hls : ∀ l ∈ ls, Readable l) :
    (ls.map render).findSome? (fieldOf key) = ls.findSome? (valueFor key) := by
  induction ls with
  | nil => rfl
  | cons l ls ih =>
      rw [List.map_cons, List.findSome?_cons, List.findSome?_cons,
        fieldOf_render hkey (hls l List.mem_cons_self),
        ih fun m hm => hls m (List.mem_cons_of_mem l hm)]

/-- **LAST REPORT**: a report that starts on a line of its own is read first, whatever was
    logged before it. -/
theorem lastField_report {ls : List LogLine} (hls : ∀ l ∈ ls, Readable l) {key : List U8}
    (hkey : EQUALS ∉ key) (before : List U8) :
    lastField key (before ++ NEWLINE :: ofLines (ls.map render))
      = (ls.reverse.findSome? (valueFor key)).or (lastField key before) := by
  have hlines : ∀ l ∈ ls.map render, NEWLINE ∉ l := by
    intro l hl
    obtain ⟨m, hm, rfl⟩ := List.mem_map.mp hl
    exact (hls m hm).newline
  have hempty : [([] : List U8)].reverse.findSome? (fieldOf key) = none := by
    rw [List.reverse_singleton, List.findSome?_cons, fieldOf_none List.not_mem_nil]
    rfl
  have hreverse : ∀ l ∈ ls.reverse, Readable l := fun l hl => hls l (List.mem_reverse.mp hl)
  have hfields := firstField_render hkey hreverse
  rw [lastField, linesOf_cons, linesOf_ofLines hlines, List.reverse_append, List.reverse_append,
    List.findSome?_append, List.findSome?_append, hempty, ← List.map_reverse, hfields]
  rfl

/-- With every key on one line only, a key gives the value of its line. -/
theorem findValue_nodup {ls : List LogLine} (hnodup : (ls.map Prod.fst).Nodup)
    {key value : List U8} (hmem : (key, some value) ∈ ls) :
    ls.findSome? (valueFor key) = some value := by
  induction ls with
  | nil => exact absurd hmem List.not_mem_nil
  | cons l ls ih =>
      obtain ⟨hnew, hnodup⟩ := List.nodup_cons.mp hnodup
      rw [List.findSome?_cons]
      rcases List.mem_cons.mp hmem with rfl | hmem
      · rw [valueFor, if_pos rfl]
      · have hne : key ≠ l.1 := by
          intro heq
          exact hnew (heq ▸ List.mem_map.mpr ⟨_, hmem, rfl⟩)
        rw [valueFor, if_neg hne]
        exact ih hnodup hmem

/-- A block of lines with different keys, none of which comes again behind the block. -/
structure Block (ls ms : List LogLine) : Prop where
  readable : ∀ l ∈ ls ++ ms, Readable l
  nodup : (ls.map Prod.fst).Nodup
  last : ∀ key ∈ ls.map Prod.fst, key ∉ ms.map Prod.fst

/-- A field of the last block is found, whatever was logged before it. -/
theorem Block.lastField {ls ms : List LogLine} (h : Block ls ms) {key value : List U8}
    (hmem : (key, some value) ∈ ls) (before : List U8) :
    Log.lastField key (before ++ NEWLINE :: ofLines ((ls ++ ms).map render)) = some value := by
  have hkey : EQUALS ∉ key := (h.readable _ (List.mem_append_left ms hmem)).key
  have hlater : ms.reverse.findSome? (valueFor key) = none := by
    refine List.findSome?_eq_none_iff.mpr fun l hl => if_neg fun heq => ?_
    exact h.last key (List.mem_map.mpr ⟨_, hmem, rfl⟩)
      (List.mem_map.mpr ⟨l, List.mem_reverse.mp hl, heq.symm⟩)
  have hblock : ls.reverse.findSome? (valueFor key) = some value := by
    refine findValue_nodup ?_ (List.mem_reverse.mpr hmem)
    rw [List.map_reverse, List.nodup_reverse]
    exact h.nodup
  rw [lastField_report h.readable hkey, List.reverse_append, List.findSome?_append, hlater, hblock]
  rfl

/-! ## Values -/

/-- The line of `log_key_value_hex64`. -/
def kvLine (key : String) (v : U64) : LogLine := (text key, some (logHex64 v))

/-- `log_key_value_hex64` writes one line. -/
theorem logKeyValueHex64_eq (key : String) (v : U64) :
    logKeyValueHex64 key v = render (kvLine key v) ++ [NEWLINE] := by
  rw [logKeyValueHex64, kvLine, render, List.append_assoc, List.append_assoc, List.append_assoc]
  rfl

/-- The characters of a hexadecimal number. -/
theorem mem_logHex64 {v : U64} {c : U8} (h : c ∈ logHex64 v) : c ∈ text "0x" ++ digits := by
  rcases List.mem_append.mp h with h | h
  · exact List.mem_append_left _ h
  · obtain ⟨i, -, hc⟩ := List.mem_flatMap.mp h
    have hlt : ((v >>> (60 - 4 * i)) &&& 0x0F).toNat < digits.length := by
      show ((v >>> (60 - 4 * i)) &&& 0x0F).toNat < 16
      rw [BitVec.toNat_and]
      exact Nat.lt_of_le_of_lt Nat.and_le_right (by decide)
    rw [List.mem_singleton.mp hc, List.getD_eq_getElem _ _ hlt]
    exact List.mem_append_right _ (List.getElem_mem hlt)

/-- The characters of a decimal number. -/
theorem mem_logDecU32 {v : U32} {c : U8} (h : c ∈ logDecU32 v) : c ∈ digits := by
  rw [logDecU32] at h
  by_cases hv : v = 0
  · rw [if_pos hv] at h
    rw [List.mem_singleton.mp h]
    decide
  · have hroom : v.toNat < 10 ^ 11 := by
      have := v.isLt
      omega
    rw [if_neg hv, decLoop_eq hroom, List.mem_reverse] at h
    obtain ⟨d, hd, rfl⟩ := List.mem_map.mp h
    exact digits_values.2.1 ⟨d, Nat.digits_lt_base (by decide) hd⟩

/-- A hexadecimal number is printable. -/
theorem printable_logHex64 (v : U64) : Printable (logHex64 v) :=
  fun c hc => (digits_values.2.2 c (mem_logHex64 hc)).1

/-- A decimal number is printable. -/
theorem printable_logDecU32 (v : U32) : Printable (logDecU32 v) :=
  fun c hc => (digits_values.2.2 c (List.mem_append_right _ (mem_logDecU32 hc))).1

/-- A printable key without an equals sign and a printable value make a readable line. -/
theorem readable_value {key value : List U8} (hkey : Printable key) (hsign : EQUALS ∉ key)
    (hvalue : Printable value) : Readable (key, some value) :=
  ⟨printable_append.mpr ⟨hkey, printable_cons.mpr ⟨by decide, hvalue⟩⟩, hsign⟩

/-- A line of a key and a hexadecimal number is readable. -/
theorem kvLine_readable {key : String} (hkey : Printable (text key)) (hsign : EQUALS ∉ text key)
    (v : U64) : Readable (kvLine key v) :=
  readable_value hkey hsign (printable_logHex64 v)

/-- The word on the last line with the key. -/
def lastHex (key : String) (log : List U8) : Option U64 :=
  (lastField (text key) log).bind readHex64

/-- A number of the last block is read back. -/
theorem Block.lastHex {ls ms : List LogLine} (h : Block ls ms) {key : String} {v : U64}
    (hmem : kvLine key v ∈ ls) (before : List U8) :
    Log.lastHex key (before ++ NEWLINE :: ofLines ((ls ++ ms).map render)) = some v := by
  rw [Log.lastHex, h.lastField hmem, Option.bind_some, readHex64_logHex64]

/-! ## The report of a panic -/

/-- `':'`. -/
def COLON : U8 := 58

/-- `file:line`, which the last colon divides. -/
def readLocation (v : List U8) : Option (List U8 × Nat) :=
  (readDec (v.reverse.takeWhile (· ≠ COLON)).reverse).map
    fun line => (((v.reverse.dropWhile (· ≠ COLON)).drop 1).reverse, line)

/-- The last colon is between the file and the line. -/
theorem readLocation_eq (file : List U8) {ds : List U8} (h : COLON ∉ ds) :
    readLocation (file ++ COLON :: ds) = (readDec ds).map fun line => (file, line) := by
  have hds : ∀ c ∈ ds.reverse, decide (c ≠ COLON) = true := by
    intro c hc
    refine decide_eq_true ?_
    rintro rfl
    exact h (List.mem_reverse.mp hc)
  have hback : (file ++ COLON :: ds).reverse = ds.reverse ++ COLON :: file.reverse := by
    rw [List.reverse_append, List.reverse_cons, List.append_assoc]
    rfl
  rw [readLocation, hback, List.takeWhile_append_of_pos hds, List.dropWhile_append_of_pos hds]
  rw [List.takeWhile_cons_of_neg (by decide), List.dropWhile_cons_of_neg (by decide),
    List.append_nil, List.reverse_reverse, List.drop_one, List.tail_cons, List.reverse_reverse]

/-- The lines of `kernel_panic_at` behind the empty one. -/
def panicLines (file : String) (line : U32) (reason : String) (code rflags : U64) :
    List LogLine :=
  [([], some (text "=============== MCSOS KERNEL PANIC ================")),
    (text "system", some (text "MCSOS version=260502 milestone=M3")),
    (text "reason", some (text reason)),
    (text "location", some (text file ++ COLON :: logDecU32 line)),
    kvLine "panic_code" code, kvLine "rflags_before_cli" rflags,
    (text "state", some (text "halted")),
    ([], some (text "==================================================="))]

/-- How the fixed texts of the report are put together. -/
theorem panic_texts :
    text "================ MCSOS KERNEL PANIC ================"
        = EQUALS :: text "=============== MCSOS KERNEL PANIC ================" ∧
      text "===================================================="
        = EQUALS :: text "===================================================" ∧
      text "MCSOS version=260502 milestone=M3" = text "MCSOS" ++ text " version="
        ++ text "260502" ++ text " milestone=" ++ text "M3" ∧
      text "system=" = text "system" ++ [EQUALS] ∧ text "reason=" = text "reason" ++ [EQUALS] ∧
      text "location=" = text "location" ++ [EQUALS] ∧
      text "state=halted" = text "state" ++ EQUALS :: text "halted" ∧ text ":" = [COLON] := by
  decide +kernel

/-- A text that may stand as a key. -/
def KeyText (s : String) : Prop := Printable (text s) ∧ EQUALS ∉ text s

instance : DecidablePred KeyText := fun _ => inferInstanceAs (Decidable (_ ∧ _))

/-- What stands on the lines of the report, besides its numbers and arguments. -/
theorem panic_words :
    (∀ key ∈ ["system", "reason", "location", "panic_code", "rflags_before_cli", "state"],
      KeyText key) ∧
    ∀ value ∈ ["=============== MCSOS KERNEL PANIC ================", "halted",
      "MCSOS version=260502 milestone=M3", "==================================================="],
      Printable (text value) := by
  decide +kernel

/-- The report of a panic, line by line. -/
theorem kernelPanicAt_eq (file : String) (line : U32) (reason : String) (code rflags : U64) :
    kernelPanicAt file line reason code rflags
      = NEWLINE :: ofLines ((panicLines file line reason code rflags).map render) := by
  obtain ⟨htitle, hend, hversion, hsystem, hreason, hlocation, hstate, hcolon⟩ := panic_texts
  unfold kernelPanicAt
  rw [panicLines, logKeyValueHex64_eq, logKeyValueHex64_eq, htitle, hend, hversion, hsystem,
    hreason, hlocation, hstate, hcolon]
  simp only [ofLines_cons, ofLines_nil, render_value, logWriteln, logWrite, logPutc,
    List.map_cons, List.map_nil, List.append_assoc, List.cons_append, List.nil_append]

/-- Each of its lines is readable. -/
theorem panicLines_readable {file reason : String} (hfile : Printable (text file))
    (hreason : Printable (text reason)) (line : U32) (code rflags : U64) :
    ∀ l ∈ panicLines file line reason code rflags, Readable l := by
  have hlocation : Printable (text file ++ COLON :: logDecU32 line) :=
    printable_append.mpr ⟨hfile, printable_cons.mpr ⟨by decide, printable_logDecU32 line⟩⟩
  obtain ⟨hkeys, hvalues⟩ := panic_words
  simp only [List.forall_mem_cons] at hkeys hvalues
  obtain ⟨hsystem, hcause, hplace, hcode, hflags, hstate, -⟩ := hkeys
  obtain ⟨htitle, hhalted, hversion, hend, -⟩ := hvalues
  simp only [panicLines, List.forall_mem_cons]
  have hempty : Printable [] ∧ EQUALS ∉ ([] : List U8) := by decide
  exact ⟨readable_value hempty.1 hempty.2 htitle, readable_value hsystem.1 hsystem.2 hversion,
    readable_value hcause.1 hcause.2 hreason, readable_value hplace.1 hplace.2 hlocation,
    kvLine_readable hcode.1 hcode.2 code, kvLine_readable hflags.1 hflags.2 rflags,
    readable_value hstate.1 hstate.2 hhalted, readable_value hempty.1 hempty.2 hend,
    fun _ hl => absurd hl List.not_mem_nil⟩

/-- What a panic tells. -/
structure PanicReport where
  reason : List U8
  file : List U8
  line : Nat
  code : U64
  rflags : U64
deriving DecidableEq, Repr

/-- The last panic in a log. -/
def readPanic (log : List U8) : Option PanicReport := do
  let reason ← lastField (text "reason") log
  let location ← (lastField (text "location") log).bind readLocation
  let code ← lastHex "panic_code" log
  let rflags ← lastHex "rflags_before_cli" log
  return ⟨reason, location.1, location.2, code, rflags⟩

/-- **PANIC REPORT**: whatever was logged before, the log after a panic tells the reason, the
    place, the code and the flags, exactly. -/
theorem readPanic_kernelPanicAt {file reason : String} (hfile : Printable (text file))
    (hreason : Printable (text reason)) (before : List U8) (line : U32) (code rflags : U64) :
    readPanic (before ++ kernelPanicAt file line reason code rflags)
      = some ⟨text reason, text file, line.toNat, code, rflags⟩ := by
  have hfield (key : List U8) (hkey : EQUALS ∉ key) :=
    lastField_report (panicLines_readable hfile hreason line code rflags) hkey before
  have hcolon : COLON ∉ logDecU32 line := fun hc =>
    (digits_values.2.2 COLON (List.mem_append_right _ (mem_logDecU32 hc))).2 rfl
  have hkeys := panic_words.1
  simp only [List.forall_mem_cons] at hkeys
  obtain ⟨-, hcause, hspot, hnumber, hword, -⟩ := hkeys
  -- the number has no colon, so the last one is the separator
  have hlocation : readLocation (text file ++ COLON :: logDecU32 line)
      = some (text file, line.toNat) := by
    rw [readLocation_eq _ hcolon, readDec_logDecU32, Option.map_some]
  have hwords : lastField (text "reason") (before ++ kernelPanicAt file line reason code rflags)
      = some (text reason) := by
    rw [kernelPanicAt_eq, hfield _ hcause.2]
    rfl
  have hplace : lastField (text "location") (before ++ kernelPanicAt file line reason code rflags)
      = some (text file ++ COLON :: logDecU32 line) := by
    rw [kernelPanicAt_eq, hfield _ hspot.2]
    rfl
  have hcode : lastHex "panic_code" (before ++ kernelPanicAt file line reason code rflags)
      = some code := by
    rw [lastHex, kernelPanicAt_eq, hfield _ hnumber.2]
    exact readHex64_logHex64 code
  have hflags : lastHex "rflags_before_cli"
      (before ++ kernelPanicAt file line reason code rflags) = some rflags := by
    rw [lastHex, kernelPanicAt_eq, hfield _ hword.2]
    exact readHex64_logHex64 rflags
  rw [readPanic, hwords, hplace, hcode, hflags]
  simp only [Option.bind_eq_bind, Option.bind_some, hlocation]
  rfl

end Log
