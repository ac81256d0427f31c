import Mathlib.Data.List.Basic

/-! # Runs of a deterministic machine

    A component with an explicit state and one function per call is a machine
    `step : S → Op → Out × S`.  A run is a list of calls; `exec` is the state
    it ends in and `outputs` what the calls answered.  Points of a run are
    written by splitting its list of calls, so "later" and "in between" are
    list appends and need no indices.

    Five rules carry every whole-run result above: an invariant kept by each
    step holds in every reached state (`exec_inv`), one that relates the state
    to the calls made and their answers holds at the history of the run
    (`exec_history_inv`), two machines whose steps agree along a relation answer
    alike for ever (`outputs_bisim`) and stay related (`exec_bisim`), and a
    property that appears during a run appears at one call (`exec_flip`). -/

namespace Machine

variable {S T Op Out : Type} (step : S → Op → Out × S)

/-- The state after a list of calls. -/
def exec : S → List Op → S
  | s, [] => s
  | s, op :: ops => exec (step s op).2 ops

/-- The answers to a list of calls. -/
def outputs : S → List Op → List Out
  | _, [] => []
  | s, op :: ops => (step s op).1 :: outputs (step s op).2 ops

/-- The calls of a list, each with its answer. -/
def history : S → List Op → List (Op × Out)
  | _, [] => []
  | s, op :: ops => (op, (step s op).1) :: history (step s op).2 ops

@[simp] theorem exec_nil (s : S) : exec step s [] = s := rfl

@[simp] theorem exec_cons (s : S) (op : Op) (ops : List Op) :
    exec step s (op :: ops) = exec step (step s op).2 ops := rfl

/-- A run in two parts. -/
theorem exec_append (s : S) (ops ops' : List Op) :
    exec step s (ops ++ ops') = exec step (exec step s ops) ops' := by
  induction ops generalizing s with
  | nil => rfl
  | cons op ops ih =>
      rw [List.cons_append, exec_cons, exec_cons]
      exact ih _

/-- **INVARIANT RULE**: what every call keeps, every run keeps. -/
theorem exec_inv {I : S → Prop} (hstep : ∀ s op, I s → I (step s op).2) :
    ∀ (ops : List Op) (s : S), I s → I (exec step s ops) := by
  intro ops
  induction ops with
  | nil => intro s h; exact h
  | cons op ops ih => intro s h; exact ih _ (hstep s op h)

/-- **HISTORY RULE**: a relation between state and history that every call and
    its answer keep holds after every run. -/
theorem exec_history_inv {I : S → List (Op × Out) → Prop}
    (hstep : ∀ s h op, I s h → I (step s op).2 (h ++ [(op, (step s op).1)])) :
    ∀ (ops : List Op) (s : S) (h : List (Op × Out)), I s h →
      I (exec step s ops) (h ++ history step s ops) := by
  intro ops
  induction ops with
  | nil =>
      intro s h hI
      rw [history, List.append_nil]
      exact hI
  | cons op ops ih =>
      intro s h hI
      have hnext := ih _ _ (hstep s h op hI)
      rw [List.append_assoc] at hnext
      exact hnext

/-- **BISIMULATION RULE**: related states that answer every call alike and stay
    related give the same answers to every further run. -/
theorem outputs_bisim (step' : T → Op → Out × T) {R : S → T → Prop}
    (hR : ∀ s t op, R s t →
      (step s op).1 = (step' t op).1 ∧ R (step s op).2 (step' t op).2) :
    ∀ (ops : List Op) (s : S) (t : T), R s t →
      outputs step s ops = outputs step' t ops := by
  intro ops
  induction ops with
  | nil => intro s t _; rfl
  | cons op ops ih =>
      intro s t h
      obtain ⟨hout, hnext⟩ := hR s t op h
      show (step s op).1 :: outputs step (step s op).2 ops
        = (step' t op).1 :: outputs step' (step' t op).2 ops
      rw [hout, ih _ _ hnext]

/-- Related states whose steps stay related end in related states. -/
theorem exec_bisim (step' : T → Op → Out × T) {R : S → T → Prop}
    (hR : ∀ s t op, R s t → R (step s op).2 (step' t op).2) :
    ∀ (ops : List Op) (s : S) (t : T), R s t → R (exec step s ops) (exec step' t ops) := by
  intro ops
  induction ops with
  | nil => intro s t h; exact h
  | cons op ops ih => intro s t h; exact ih _ _ (hR s t op h)

/-- **FLIP RULE**: a property that holds at the end of a run and not at its
    start is established by one of the calls. -/
theorem exec_flip {P : S → Prop} :
    ∀ (ops : List Op) (s : S), ¬ P s → P (exec step s ops) →
      ∃ before op after, ops = before ++ op :: after ∧
        ¬ P (exec step s before) ∧ P (step (exec step s before) op).2 := by
  intro ops
  induction ops with
  | nil => intro s h0 h1; exact absurd h1 h0
  | cons op ops ih =>
      intro s h0 h1
      by_cases hnext : P (step s op).2
      · exact ⟨[], op, ops, rfl, h0, hnext⟩
      · obtain ⟨before, op', after, hsplit, hb, ha⟩ := ih _ hnext h1
        refine ⟨op :: before, op', after, ?_, hb, ha⟩
        rw [hsplit, List.cons_append]

end Machine
