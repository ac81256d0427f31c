import Mcsos.LoopProofs

/-! # Arrays with something behind them

    `splice p f g` holds `f` on the indices `p` and `g` elsewhere: an array
    within its bounds, with the memory around it.  A program that stays in
    bounds takes `splice p f g` to `splice p f' g`, with `f'` and every answer
    independent of `g`; that equation is at once that nothing outside is
    written and that nothing outside is read. -/

namespace Splice

open Loop

variable {ι α : Type} (p : ι → Prop) [DecidablePred p]

/-- `f` where `p` holds, and `g` elsewhere. -/
def splice (f g : ι → α) : ι → α := fun i => if p i then f i else g i

variable {p}

theorem splice_of {i : ι} (h : p i) (f g : ι → α) : splice p f g i = f i := if_pos h

theorem splice_of_not {i : ι} (h : ¬ p i) (f g : ι → α) : splice p f g i = g i := if_neg h

@[simp] theorem splice_self (f : ι → α) : splice p f f = f := by
  funext i
  exact ite_self (f i)

/-- Two memories that agree inside differ by their outside only. -/
theorem splice_eq_right {f g : ι → α} (h : ∀ i, p i → f i = g i) : splice p f g = g := by
  funext i
  by_cases hi : p i
  · rw [splice_of hi, h i hi]
  · rw [splice_of_not hi]

/-- A store inside stays inside. -/
theorem update_splice [DecidableEq ι] {i : ι} (h : p i) (f g : ι → α) (v : α) :
    Function.update (splice p f g) i v = splice p (Function.update f i v) g := by
  funext j
  by_cases hj : j = i
  · subst hj
    rw [Function.update_self, splice_of h, Function.update_self]
  · rw [Function.update_of_ne hj]
    by_cases hp : p j
    · rw [splice_of hp, splice_of hp, Function.update_of_ne hj]
    · rw [splice_of_not hp, splice_of_not hp]

/-- **COPY LOOP**: so does a loop of stores inside. -/
theorem forN_splice [DecidableEq ι] {n : Nat} {a : Nat → ι} (h : ∀ i, i < n → p (a i))
    (v : Nat → α) (f g : ι → α) :
    forN (fun i m => Function.update m (a i) (v i)) n (splice p f g)
      = splice p (forN (fun i m => Function.update m (a i) (v i)) n f) g := by
  induction n with
  | zero => rfl
  | succ n ih =>
      have hn := ih (fun i hi => h i (Nat.lt_succ_of_lt hi))
      show Function.update (forN _ n (splice p f g)) (a n) (v n) = _
      rw [hn, update_splice (h n (Nat.lt_succ_self n))]
      rfl

/-- A test on what both runs have, before results that are related by `f`. -/
theorem ite_image {β : Type} (f : α → β) {c : Prop} [Decidable c] {x y : α} {x' y' : β}
    (hx : x' = f x) (hy : ¬ c → y' = f y) : (if c then x' else y') = f (if c then x else y) := by
  rw [apply_ite f]
  exact ite_congr rfl (fun _ => hx) hy

end Splice
