import Mathlib.Data.Nat.Bitwise

/-! # Machine words and masks

    Fixed-width unsigned words are `BitVec`s, so wrap-around is part of every
    operation.  The code under verification reads words through masks: low
    masks `2^k - 1` (an index inside a table, an alignment test), their
    complements (rounding down) and single bits (flags).  This file says what
    each of the three masks means as arithmetic on `toNat`; everything above
    it then goes through `omega`. -/

namespace Word

/-- A byte. -/
abbrev U8 := BitVec 8
/-- A 32-bit word. -/
abbrev U32 := BitVec 32
/-- A 64-bit word. -/
abbrev U64 := BitVec 64

variable {w : Nat}

/-- A low mask keeps the remainder. -/
theorem and_lowMask_toNat (x m : BitVec w) (k : Nat) (hm : m.toNat = 2 ^ k - 1) :
    (x &&& m).toNat = x.toNat % 2 ^ k := by
  rw [BitVec.toNat_and, hm, Nat.and_two_pow_sub_one_eq_mod]

/-- An alignment test. -/
theorem and_lowMask_eq_zero_iff (x m : BitVec w) (k : Nat) (hm : m.toNat = 2 ^ k - 1) :
    x &&& m = 0 ↔ x.toNat % 2 ^ k = 0 := by
  rw [← BitVec.toNat_inj, and_lowMask_toNat x m k hm]
  rfl

/-- A word is the sum of the part a mask keeps and the part it drops. -/
theorem and_not_add_and_toNat (x m : BitVec w) :
    (x &&& ~~~m).toNat + (x &&& m).toNat = x.toNat := by
  have hdisj : (x &&& ~~~m) &&& (x &&& m) = 0#w := by
    ext i hi
    simp only [BitVec.getElem_and, BitVec.getElem_not, BitVec.getElem_zero]
    cases x[i] <;> cases m[i] <;> rfl
  have hjoin : (x &&& ~~~m) ||| (x &&& m) = x := by
    ext i hi
    simp only [BitVec.getElem_or, BitVec.getElem_and, BitVec.getElem_not]
    cases x[i] <;> simp
  rw [← BitVec.toNat_add_of_and_eq_zero hdisj,
      BitVec.add_eq_or_of_and_eq_zero _ _ hdisj, hjoin]

/-- A complemented low mask rounds down to a multiple of `2^k`. -/
theorem and_highMask_toNat (x m : BitVec w) (k : Nat) (hm : m.toNat = 2 ^ k - 1) :
    (x &&& ~~~m).toNat = x.toNat / 2 ^ k * 2 ^ k := by
  have hsum := and_not_add_and_toNat x m
  rw [and_lowMask_toNat x m k hm] at hsum
  have hdiv := Nat.div_add_mod' x.toNat (2 ^ k)
  omega

/-- Bits of the one-bit word `1 << k`. -/
theorem getLsbD_one_shiftLeft (k i : Nat) (hi : i < w) :
    ((1 : BitVec w) <<< k).getLsbD i = decide (i = k) := by
  rw [BitVec.getLsbD_shiftLeft]
  by_cases hik : i = k
  · subst hik
    have h0 : 0 < w := by omega
    simp [hi, h0]
  · by_cases hlt : i < k
    · simp [hlt, hik]
    · have h1 : i - k ≠ 0 := by omega
      simp [hi, hlt, hik, BitVec.getLsbD_one, h1]

/-- `x & (1 << k)` is non-zero exactly when bit `k` is set. -/
theorem and_bit_ne_zero (x : BitVec w) (k : Nat) (hk : k < w) :
    (x &&& ((1 : BitVec w) <<< k)) ≠ 0 ↔ x.getLsbD k = true := by
  constructor
  · intro hne
    by_contra hx
    refine hne ?_
    apply BitVec.eq_of_getLsbD_eq
    intro i hi
    rw [BitVec.getLsbD_and, getLsbD_one_shiftLeft k i hi]
    by_cases hik : i = k
    · subst hik
      simp [hx]
    · simp [hik]
  · intro hx heq
    have hbit := congrArg (fun y => BitVec.getLsbD y k) heq
    simp only [BitVec.getLsbD_and, getLsbD_one_shiftLeft k k hk, hx] at hbit
    simp at hbit

end Word
