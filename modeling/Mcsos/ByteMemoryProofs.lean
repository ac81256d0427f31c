import Mcsos.WordProofs
import Mathlib.Tactic.Ring

/-! # Byte-addressed memory with little-endian words

    Memory is a function from 64-bit addresses to bytes.  Words of `n` bytes
    are read and written least significant byte first, at any address, with
    the address wrapping like the machine's.  Two laws are all that programs
    over such a memory need: a word just written reads back
    (`loadBytes_storeBytes`), and a read sees nothing of a write to bytes that
    lie apart from it (`loadBytes_congr` with `storeBytes_outside`). -/

namespace ByteMemory

open Word

/-- Memory, byte by byte. -/
abbrev Mem := U64 → U8

/-- Byte `x` is one of the `n` bytes from `a` on. -/
def InRange (a : U64) (n : Nat) (x : U64) : Prop := (x - a).toNat < n

instance (a : U64) (n : Nat) (x : U64) : Decidable (InRange a n x) :=
  inferInstanceAs (Decidable (_ < _))

/-- The little-endian value of the `n` bytes from `a` on. -/
def loadBytes (m : Mem) : U64 → Nat → Nat
  | _, 0 => 0
  | a, n + 1 => (m a).toNat + 256 * loadBytes m (a + 1) n

/-- Write the low `n` bytes of `v` from `a` on, least significant first. -/
def storeBytes (m : Mem) (a : U64) (n v : Nat) : Mem :=
  fun x => if InRange a n x then BitVec.ofNat 8 (v / 256 ^ (x - a).toNat) else m x

/-- Write the byte `b` to the `n` addresses from `a` on, one after the other. -/
def fillBytes (m : Mem) : U64 → Nat → U8 → Mem
  | _, 0, _ => m
  | a, n + 1, b => fillBytes (fun x => if x = a then b else m x) (a + 1) n b

/-- A `uint64_t` in memory, little-endian. -/
def load64 (m : Mem) (a : U64) : U64 := BitVec.ofNat 64 (loadBytes m a 8)
/-- Write a `uint64_t`. -/
def store64 (m : Mem) (a v : U64) : Mem := storeBytes m a 8 v.toNat
/-- A `uint32_t` in memory, little-endian. -/
def load32 (m : Mem) (a : U64) : U32 := BitVec.ofNat 32 (loadBytes m a 4)
/-- Write a `uint32_t`. -/
def store32 (m : Mem) (a : U64) (v : U32) : Mem := storeBytes m a 4 v.toNat

/-- The `n` bytes from `a` and the `k` bytes from `b` are disjoint, and the
    upper of the two blocks does not wrap. -/
def Apart (a : U64) (n : Nat) (b : U64) (k : Nat) : Prop :=
  (a.toNat + n ≤ b.toNat ∧ b.toNat + k ≤ 2 ^ 64) ∨
  (b.toNat + k ≤ a.toNat ∧ a.toNat + n ≤ 2 ^ 64)

instance (a : U64) (n : Nat) (b : U64) (k : Nat) : Decidable (Apart a n b k) :=
  inferInstanceAs (Decidable (_ ∨ _))

/-- Being apart is symmetric. -/
theorem Apart.symm {a b : U64} {n k : Nat} (h : Apart a n b k) : Apart b k a n := Or.symm h

/-- A byte of one of two disjoint blocks is no byte of the other. -/
theorem Apart.not_inRange {a b : U64} {n k i : Nat} (h : Apart a n b k) (hi : i < k) :
    ¬ InRange a n (b + BitVec.ofNat 64 i) := by
  intro hin
  have hin' : (b + BitVec.ofNat 64 i - a).toNat < n := hin
  rcases h with ⟨h1, h2⟩ | ⟨h1, h2⟩ <;> bv_omega

/-- Inside a block that does not wrap, `InRange` is an interval. -/
theorem inRange_iff {a : U64} {n : Nat} (h : a.toNat + n ≤ 2 ^ 64) (x : U64) :
    InRange a n x ↔ a.toNat ≤ x.toNat ∧ x.toNat < a.toNat + n := by
  show (x - a).toNat < n ↔ _
  constructor
  · intro hlt
    bv_omega
  · intro hlt
    bv_omega

/-! ## Reading -/

/-- The next address, counted from either end. -/
private theorem addr_succ (a : U64) (i : Nat) :
    a + BitVec.ofNat 64 (i + 1) = a + 1 + BitVec.ofNat 64 i := by
  bv_omega

/-- A read depends on its own bytes only. -/
theorem loadBytes_congr {m m' : Mem} {n : Nat} {a : U64}
    (h : ∀ i, i < n → m (a + BitVec.ofNat 64 i) = m' (a + BitVec.ofNat 64 i)) :
    loadBytes m a n = loadBytes m' a n := by
  induction n generalizing a with
  | zero => rfl
  | succ n ih =>
      have h0 : m a = m' a := by
        have := h 0 (Nat.zero_lt_succ n)
        rwa [BitVec.add_zero] at this
      have htail : loadBytes m (a + 1) n = loadBytes m' (a + 1) n := by
        refine ih (fun i hi => ?_)
        have := h (i + 1) (by omega)
        rwa [addr_succ] at this
      show (m a).toNat + 256 * loadBytes m (a + 1) n
        = (m' a).toNat + 256 * loadBytes m' (a + 1) n
      rw [h0, htail]

/-- What `n` bytes hold is below `256 ^ n`. -/
theorem loadBytes_lt (m : Mem) (a : U64) (n : Nat) : loadBytes m a n < 256 ^ n := by
  induction n generalizing a with
  | zero => exact Nat.one_pos
  | succ n ih =>
      have hb : (m a).toNat < 256 := (m a).isLt
      have ht := ih (a + 1)
      show (m a).toNat + 256 * loadBytes m (a + 1) n < 256 ^ (n + 1)
      rw [Nat.pow_succ]
      omega

/-- The word is what its eight bytes hold. -/
theorem load64_toNat (m : Mem) (a : U64) : (load64 m a).toNat = loadBytes m a 8 := by
  have h := loadBytes_lt m a 8
  rw [load64, BitVec.toNat_ofNat, Nat.mod_eq_of_lt (by omega)]

/-- The word is what its four bytes hold. -/
theorem load32_toNat (m : Mem) (a : U64) : (load32 m a).toNat = loadBytes m a 4 := by
  have h := loadBytes_lt m a 4
  rw [load32, BitVec.toNat_ofNat, Nat.mod_eq_of_lt (by omega)]

/-! ## Writing -/

/-- A write leaves the other bytes alone. -/
theorem storeBytes_outside {m : Mem} {a x : U64} {n v : Nat} (h : ¬ InRange a n x) :
    storeBytes m a n v x = m x := if_neg h

/-- The value made of the bytes of `v`, read from any place that holds them. -/
private theorem loadBytes_digits {m : Mem} {n v : Nat} {a : U64}
    (h : ∀ i, i < n → m (a + BitVec.ofNat 64 i) = BitVec.ofNat 8 (v / 256 ^ i)) :
    loadBytes m a n = v % 256 ^ n := by
  induction n generalizing a v with
  | zero => exact (Nat.mod_one v).symm
  | succ n ih =>
      have h0 : (m a).toNat = v % 256 := by
        have := h 0 (Nat.zero_lt_succ n)
        rw [BitVec.add_zero, Nat.pow_zero, Nat.div_one] at this
        rw [this]
        exact BitVec.toNat_ofNat v 8
      have htail : loadBytes m (a + 1) n = v / 256 % 256 ^ n := by
        refine ih (fun i hi => ?_)
        have := h (i + 1) (by omega)
        rwa [addr_succ, Nat.pow_succ, Nat.mul_comm, ← Nat.div_div_eq_div_mul] at this
      show (m a).toNat + 256 * loadBytes m (a + 1) n = v % 256 ^ (n + 1)
      rw [h0, htail, Nat.pow_succ, Nat.mul_comm (256 ^ n) 256, Nat.mod_mul]

/-- **READ BACK**: a word just written reads back, cut to its width. -/
theorem loadBytes_storeBytes (m : Mem) (a : U64) {n : Nat} (v : Nat) (hn : n ≤ 2 ^ 64) :
    loadBytes (storeBytes m a n v) a n = v % 256 ^ n := by
  refine loadBytes_digits (fun i hi => ?_)
  have hoff : (a + BitVec.ofNat 64 i - a).toNat = i := by bv_omega
  rw [storeBytes, if_pos (show InRange a n _ from by rw [InRange, hoff]; exact hi), hoff]

/-- **FRAME**: a write leaves every read of bytes apart from it alone. -/
theorem loadBytes_storeBytes_apart {m : Mem} {a b : U64} {n k v : Nat}
    (h : Apart a n b k) : loadBytes (storeBytes m a n v) b k = loadBytes m b k :=
  loadBytes_congr (fun _ hi => storeBytes_outside (h.not_inRange hi))

/-- A load gets what was stored. -/
theorem load64_store64 (m : Mem) (a v : U64) : load64 (store64 m a v) a = v := by
  have h := v.isLt
  rw [load64, store64, loadBytes_storeBytes m a v.toNat (by omega),
      Nat.mod_eq_of_lt (by omega), BitVec.ofNat_toNat, BitVec.setWidth_eq]

/-- A load gets what was stored. -/
theorem load32_store32 (m : Mem) (a : U64) (v : U32) : load32 (store32 m a v) a = v := by
  have h := v.isLt
  rw [load32, store32, loadBytes_storeBytes m a v.toNat (by omega),
      Nat.mod_eq_of_lt (by omega), BitVec.ofNat_toNat, BitVec.setWidth_eq]

/-- A load depends on its eight bytes only. -/
theorem load64_congr {m m' : Mem} {a : U64}
    (h : ∀ i, i < 8 → m (a + BitVec.ofNat 64 i) = m' (a + BitVec.ofNat 64 i)) :
    load64 m a = load64 m' a := by
  rw [load64, load64, loadBytes_congr h]

/-- A load depends on its four bytes only. -/
theorem load32_congr {m m' : Mem} {a : U64}
    (h : ∀ i, i < 4 → m (a + BitVec.ofNat 64 i) = m' (a + BitVec.ofNat 64 i)) :
    load32 m a = load32 m' a := by
  rw [load32, load32, loadBytes_congr h]

/-- A store elsewhere does not change a word. -/
theorem load64_store64_apart {m : Mem} {a b v : U64} (h : Apart a 8 b 8) :
    load64 (store64 m a v) b = load64 m b := by
  rw [load64, store64, loadBytes_storeBytes_apart h, load64]

/-- Filling writes its range and nothing else. -/
theorem fillBytes_apply (m : Mem) (a : U64) {n : Nat} (b : U8) (hn : a.toNat + n ≤ 2 ^ 64)
    (x : U64) : fillBytes m a n b x = if InRange a n x then b else m x := by
  induction n generalizing m a with
  | zero =>
      rw [if_neg (show ¬ InRange a 0 x from Nat.not_lt_zero _)]
      rfl
  | succ n ih =>
      rw [fillBytes]
      -- the last byte is apart, since the address behind it may be 0
      by_cases hlast : n = 0
      · subst hlast
        show (if x = a then b else m x) = _
        by_cases hxa : x = a
        · rw [if_pos hxa, if_pos ((inRange_iff hn x).mpr (by bv_omega))]
        · rw [if_neg hxa, if_neg (fun h => hxa (by
            have := (inRange_iff hn x).mp h
            bv_omega))]
      · have hnext : (a + 1).toNat = a.toNat + 1 := by bv_omega
        rw [ih _ (a + 1) (by omega)]
        by_cases hin : InRange (a + 1) n x
        · have h1 := (inRange_iff (by omega) x).mp hin
          rw [if_pos hin, if_pos ((inRange_iff hn x).mpr (by omega))]
        · rw [if_neg hin]
          by_cases hxa : x = a
          · rw [if_pos hxa, if_pos ((inRange_iff hn x).mpr (by bv_omega))]
          · rw [if_neg hxa, if_neg (fun h => hin ((inRange_iff (by omega) x).mpr (by
              have := (inRange_iff hn x).mp h
              bv_omega)))]

end ByteMemory
