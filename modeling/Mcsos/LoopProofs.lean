import Mcsos.WordProofs
import Mathlib.Data.Nat.Count
import Mathlib.Algebra.Order.BigOperators.Group.Finset

/-! # Counted loops over a word

    `for (i = start; i < stop; i += step)` over a 64-bit counter, in the two
    shapes the sources use: a loop that runs its body to the end (`forUpTo`)
    and a scan that leaves at the first hit (`findUpTo`).  The counter wraps
    like the machine's.  The recursion is structural on a bound that no
    terminating run exceeds, so both evaluate.

    The rules: `forUpTo_induct` carries an invariant indexed by the counter,
    and `findUpTo_none` / `findUpTo_some` say what a scan has ruled out. -/

namespace Loop

open Word

variable {σ : Type}

/-- The loop body applied from counter `i` on, at most `fuel` times. -/
def forLoop (stop step : U64) (body : U64 → σ → σ) : Nat → U64 → σ → σ
  | 0, _, s => s
  | fuel + 1, i, s =>
      if i < stop then forLoop stop step body fuel (i + step) (body i s) else s

/-- `for (i = start; i < stop; i += step) body`. -/
def forUpTo (start stop step : U64) (body : U64 → σ → σ) (s : σ) : σ :=
  forLoop stop step body (stop - start).toNat start s

/-- The first counter value from `i` on that satisfies `p`. -/
def findLoop (stop : U64) (p : U64 → Bool) : Nat → U64 → Option U64
  | 0, _ => none
  | fuel + 1, i =>
      if i < stop then
        if p i then some i else findLoop stop p fuel (i + 1)
      else none

/-- `for (i = start; i < stop; i++) if (p(i)) return i;`. -/
def findUpTo (start stop : U64) (p : U64 → Bool) : Option U64 :=
  findLoop stop p (stop - start).toNat start

/-- The step of the induction rule: with enough fuel and a stride that divides
    the distance, the invariant is carried to `stop`. -/
private theorem forLoop_induct (stop step : U64) (body : U64 → σ → σ)
    (P : Nat → σ → Prop) (hstep : 0 < step.toNat)
    (hbody : ∀ i s, i < stop → P i.toNat s → P (i.toNat + step.toNat) (body i s)) :
    ∀ (fuel : Nat) (i : U64) (s : σ), i ≤ stop →
      step.toNat ∣ stop.toNat - i.toNat →
      stop.toNat - i.toNat ≤ fuel → P i.toNat s →
      P stop.toNat (forLoop stop step body fuel i s) := by
  intro fuel
  induction fuel with
  | zero =>
      intro i s hi _ hfuel hP
      have heq : i.toNat = stop.toNat := by bv_omega
      rw [← heq]
      exact hP
  | succ fuel ih =>
      intro i s hi hdvd hfuel hP
      show P stop.toNat (if i < stop then
        forLoop stop step body fuel (i + step) (body i s) else s)
      by_cases hlt : i < stop
      · rw [if_pos hlt]
        -- the steps hit the end exactly, so the index does not pass it
        have hle : step.toNat ≤ stop.toNat - i.toNat :=
          Nat.le_of_dvd (by bv_omega) hdvd
        have hnext : (i + step).toNat = i.toNat + step.toNat := by bv_omega
        refine ih (i + step) (body i s) (by bv_omega) ?_ (by omega) ?_
        · rw [hnext, show stop.toNat - (i.toNat + step.toNat)
            = stop.toNat - i.toNat - step.toNat from by omega]
          exact Nat.dvd_sub hdvd (Nat.dvd_refl _)
        · rw [hnext]
          exact hbody i s hlt hP
      · rw [if_neg hlt]
        have heq : i.toNat = stop.toNat := by bv_omega
        rw [← heq]
        exact hP

/-- **LOOP RULE**: an invariant indexed by the counter holds at `stop` when the
    loop ends, provided the stride divides the distance (so the counter never
    jumps over `stop`, and never wraps). -/
theorem forUpTo_induct {start stop step : U64} {body : U64 → σ → σ} {s : σ}
    (P : Nat → σ → Prop) (hle : start ≤ stop) (hstep : 0 < step.toNat)
    (hdvd : step.toNat ∣ stop.toNat - start.toNat) (h0 : P start.toNat s)
    (hbody : ∀ i s, start ≤ i → i < stop → step.toNat ∣ i.toNat - start.toNat →
      P i.toNat s → P (i.toNat + step.toNat) (body i s)) :
    P stop.toNat (forUpTo start stop step body s) := by
  -- the counter's own history rides along in the invariant
  have h := forLoop_induct stop step body
    (fun n s => start.toNat ≤ n ∧ step.toNat ∣ n - start.toNat ∧ P n s) hstep
    (by
      intro i s hi hP
      obtain ⟨hge, hd, hPi⟩ := hP
      refine ⟨by omega, ?_, hbody i s (by bv_omega) hi hd hPi⟩
      rw [show i.toNat + step.toNat - start.toNat
        = i.toNat - start.toNat + step.toNat from by omega]
      exact Nat.dvd_add hd (Nat.dvd_refl _))
    (stop - start).toNat start s hle hdvd (by bv_omega)
    ⟨Nat.le_refl _, by simp, h0⟩
  exact h.2.2

/-- A property that the body keeps, whatever the counter. -/
theorem forUpTo_inv {start stop step : U64} {body : U64 → σ → σ} {P : σ → Prop}
    (hbody : ∀ i s, P s → P (body i s)) {s : σ} (h : P s) :
    P (forUpTo start stop step body s) := by
  rw [forUpTo]
  generalize (stop - start).toNat = fuel
  induction fuel generalizing start s with
  | zero => exact h
  | succ fuel ih =>
      rw [forLoop]
      split
      · exact ih (hbody start s h)
      · exact h

/-- A search that finds nothing has seen every index. -/
private theorem findLoop_none {stop : U64} {p : U64 → Bool} :
    ∀ (fuel : Nat) (i : U64), stop.toNat - i.toNat ≤ fuel →
      findLoop stop p fuel i = none →
      ∀ j, i ≤ j → j < stop → p j = false := by
  intro fuel
  induction fuel with
  | zero =>
      intro i hfuel _ j hij hj
      exact absurd hj (by bv_omega)
  | succ fuel ih =>
      intro i hfuel h j hij hj
      have hlt : i < stop := by bv_omega
      rw [findLoop, if_pos hlt] at h
      by_cases hp : p i = true
      · rw [if_pos hp] at h
        exact nomatch h
      · rw [if_neg hp] at h
        by_cases heq : j = i
        · rw [heq]
          exact Bool.eq_false_iff.mpr hp
        · exact ih (i + 1) (by bv_omega) h j (by bv_omega) hj

/-- A search that finds an index has seen every one before it. -/
private theorem findLoop_some {stop k : U64} {p : U64 → Bool} :
    ∀ (fuel : Nat) (i : U64), findLoop stop p fuel i = some k →
      i ≤ k ∧ k < stop ∧ p k = true ∧ ∀ j, i ≤ j → j < k → p j = false := by
  intro fuel
  induction fuel with
  | zero => intro i h; exact nomatch h
  | succ fuel ih =>
      intro i h
      rw [findLoop] at h
      by_cases hlt : i < stop
      · rw [if_pos hlt] at h
        by_cases hp : p i = true
        · rw [if_pos hp] at h
          have hk : i = k := Option.some.inj h
          subst hk
          exact ⟨by bv_omega, hlt, hp, fun j h1 h2 => absurd h2 (by bv_omega)⟩
        · rw [if_neg hp] at h
          obtain ⟨h1, h2, h3, h4⟩ := ih (i + 1) h
          refine ⟨by bv_omega, h2, h3, ?_⟩
          intro j hij hjk
          by_cases heq : j = i
          · rw [heq]
            exact Bool.eq_false_iff.mpr hp
          · exact h4 j (by bv_omega) hjk
      · rw [if_neg hlt] at h
        exact nomatch h

/-- A scan that finds nothing has ruled out its whole range. -/
theorem findUpTo_none {start stop : U64} {p : U64 → Bool}
    (h : findUpTo start stop p = none) :
    ∀ j, start ≤ j → j < stop → p j = false := by
  intro j hj hjs
  exact findLoop_none (stop - start).toNat start (by bv_omega) h j hj hjs

/-- A scan that finds `k` has ruled out everything before `k`. -/
theorem findUpTo_some {start stop k : U64} {p : U64 → Bool}
    (h : findUpTo start stop p = some k) :
    start ≤ k ∧ k < stop ∧ p k = true ∧ ∀ j, start ≤ j → j < k → p j = false :=
  findLoop_some (stop - start).toNat start h

/-- A scan over a range without hits finds nothing. -/
theorem findUpTo_eq_none {start stop : U64} {p : U64 → Bool}
    (h : ∀ j, start ≤ j → j < stop → p j = false) :
    findUpTo start stop p = none := by
  cases hf : findUpTo start stop p with
  | none => rfl
  | some k =>
      obtain ⟨h1, h2, h3, -⟩ := findUpTo_some hf
      rw [h k h1 h2] at h3
      exact nomatch h3

/-! ## Counting below a bound -/

/-- Removing one counted point lowers the count by one. -/
theorem count_remove {p q : Nat → Prop} [DecidablePred p] [DecidablePred q]
    {k n : Nat} (hk : k < n) (hp : p k) (hq : ∀ i, i < n → (q i ↔ p i ∧ i ≠ k)) :
    Nat.count q n + 1 = Nat.count p n := by
  rw [Nat.count_eq_card_filter_range, Nat.count_eq_card_filter_range]
  have herase : (Finset.range n).filter q
      = ((Finset.range n).filter p).erase k := by
    ext i
    simp only [Finset.mem_filter, Finset.mem_range, Finset.mem_erase]
    constructor
    · rintro ⟨hi, hqi⟩
      obtain ⟨hpi, hne⟩ := (hq i hi).mp hqi
      exact ⟨hne, hi, hpi⟩
    · rintro ⟨hne, hi, hpi⟩
      exact ⟨hi, (hq i hi).mpr ⟨hpi, hne⟩⟩
  rw [herase]
  exact Finset.card_erase_add_one (by simp [hk, hp])

/-! ## Counting loops -/

/-- `body 0`, `body 1`, …, `body (n - 1)` in turn. -/
def forN (body : Nat → σ → σ) : Nat → σ → σ
  | 0, s => s
  | n + 1, s => body n (forN body n s)

/-- A loop only uses the rounds it makes. -/
theorem forN_congr {f g : Nat → σ → σ} {n : Nat} (h : ∀ i, i < n → f i = g i) (s : σ) :
    forN f n s = forN g n s := by
  induction n with
  | zero => rfl
  | succ n ih =>
      show f n (forN f n s) = g n (forN g n s)
      rw [h n (Nat.lt_succ_self n), ih (fun i hi => h i (Nat.lt_succ_of_lt hi))]

/-- **ARRAY LOOP**: a loop that rewrites the cells `off`, …, `off + n - 1` of an
    array from their old contents touches each of them once and no other. -/
theorem forN_update {α : Type} (off : Nat) (f : Nat → α → α) (n : Nat) (a : Nat → α) (k : Nat) :
    forN (fun i a => Function.update a (off + i) (f i (a (off + i)))) n a k
      = if off ≤ k ∧ k < off + n then f (k - off) (a k) else a k := by
  induction n generalizing k with
  | zero => rw [if_neg (by omega), forN]
  | succ n ih =>
      show Function.update _ (off + n) _ k = _
      by_cases hk : k = off + n
      · rw [hk, Function.update_self, ih, if_neg (by omega), if_pos (by omega),
            Nat.add_sub_cancel_left]
      · rw [Function.update_of_ne hk, ih]
        by_cases hin : off ≤ k ∧ k < off + n
        · rw [if_pos hin, if_pos (by omega)]
        · rw [if_neg hin, if_neg (by omega)]

/-- **STORE LOOP**: a loop that stores at distinct places stores each value once and changes
    nothing else. -/
theorem forN_store {ι α : Type} [DecidableEq ι] {a : Nat → ι} {n : Nat}
    (hinj : ∀ i j, i < n → j < n → a i = a j → i = j) (v : Nat → α) (m : ι → α) :
    (∀ i, i < n → forN (fun i m => Function.update m (a i) (v i)) n m (a i) = v i) ∧
    ∀ x, (∀ i, i < n → x ≠ a i) →
      forN (fun i m => Function.update m (a i) (v i)) n m x = m x := by
  induction n with
  | zero => exact ⟨fun i hi => absurd hi (Nat.not_lt_zero i), fun _ _ => rfl⟩
  | succ n ih =>
      obtain ⟨hin, hout⟩ := ih fun i j hi hj =>
        hinj i j (Nat.lt_succ_of_lt hi) (Nat.lt_succ_of_lt hj)
      -- the last store is the one that counts for its target
      have hlast : ∀ x, forN (fun i m => Function.update m (a i) (v i)) (n + 1) m x
          = if x = a n then v n else forN (fun i m => Function.update m (a i) (v i)) n m x :=
        fun x => Function.update_apply ..
      refine ⟨fun i hi => ?_, fun x hx => ?_⟩
      · rw [hlast]
        by_cases heq : i = n
        · rw [if_pos (by rw [heq]), heq]
        · rw [if_neg fun h => heq (hinj i n hi (Nat.lt_succ_self n) h)]
          exact hin i (by omega)
      · rw [hlast, if_neg (hx n (Nat.lt_succ_self n))]
        exact hout x fun i hi => hx i (Nat.lt_succ_of_lt hi)

end Loop
