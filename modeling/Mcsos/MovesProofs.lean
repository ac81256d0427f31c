import Mathlib.Data.List.Basic
import Mathlib.Logic.Function.Basic

/-! # Assignments in turn and at once

    A copy loop makes the assignments `m d := m s` of a list of pairs `(d, s)`
    in turn, and is meant to make them at once: every target gets what its
    source held before the loop.  The two agree if the order of the list is
    right, that is, if no assignment writes what a later one reads or writes
    (`Serial`). -/

namespace Moves

variable {ι α : Type} [DecidableEq ι]

/-- The assignments `m d := m s` for the pairs `(d, s)`, in turn. -/
def assign : List (ι × ι) → (ι → α) → ι → α
  | [], m => m
  | (d, s) :: l, m => assign l (Function.update m d (m s))

/-- No assignment writes what a later one reads or writes. -/
def Serial (l : List (ι × ι)) : Prop := l.Pairwise (fun p q => p.1 ≠ q.1 ∧ p.1 ≠ q.2)

/-- **FRAME**: what is no target stays. -/
theorem assign_outside {l : List (ι × ι)} {x : ι} (h : ∀ p ∈ l, p.1 ≠ x) (m : ι → α) :
    assign l m x = m x := by
  induction l generalizing m with
  | nil => rfl
  | cons p l ih =>
      obtain ⟨d, s⟩ := p
      have hd : x ≠ d := (h (d, s) (List.mem_cons_self ..)).symm
      show assign l (Function.update m d (m s)) x = m x
      rw [ih (fun q hq => h q (List.mem_cons_of_mem _ hq)), Function.update_of_ne hd]

/-- **AT ONCE**: in a serial order every target gets what its source held. -/
theorem assign_target {l : List (ι × ι)} (h : Serial l) {d s : ι} (hmem : (d, s) ∈ l)
    (m : ι → α) : assign l m d = m s := by
  induction l generalizing m with
  | nil => cases hmem
  | cons p l ih =>
      obtain ⟨d₀, s₀⟩ := p
      obtain ⟨hfirst, hrest⟩ := List.pairwise_cons.mp h
      show assign l (Function.update m d₀ (m s₀)) d = m s
      rcases List.mem_cons.mp hmem with heq | hlater
      · -- nothing behind the first assignment writes its target again
        obtain ⟨rfl, rfl⟩ := Prod.mk.inj heq
        rw [assign_outside (fun q hq => (hfirst q hq).1.symm), Function.update_self]
      · -- the first assignment has left the source of a later one alone
        have hsource : s ≠ d₀ := (hfirst (d, s) hlater).2.symm
        rw [ih hrest hlater, Function.update_of_ne hsource]

end Moves
