import Mcsos.WordProofs

/-! # Computations that say what they read

    A reader of a byte string is a tree: it is done, or it asks for the byte
    at a position and goes on with the answer.  It has no other access to the
    string, so the positions along its path (`log`) are all that it reads.

    `ReadsBelow` bounds those positions; it goes through a sequence of readers
    (`readsBelow_bind`) with the value read so far at hand. -/

namespace ReadLog

open Word

/-- A reader: it is done, or it asks for a byte and goes on with the answer. -/
inductive Reading (α : Type) where
  | done (a : α)
  | byte (i : Nat) (k : U8 → Reading α)

variable {α β : Type}

/-- One reader after another. -/
def Reading.bind : Reading α → (α → Reading β) → Reading β
  | .done a, f => f a
  | .byte i k, f => .byte i (fun b => (k b).bind f)

instance : Monad Reading where
  pure := .done
  bind := .bind

/-- The result on the byte string `s`. -/
def value (s : Nat → U8) : Reading α → α
  | .done a => a
  | .byte i k => value s (k (s i))

/-- The positions read on the byte string `s`, in order. -/
def log (s : Nat → U8) : Reading α → List Nat
  | .done _ => []
  | .byte i k => i :: log s (k (s i))

variable {s : Nat → U8} {n : Nat}

@[simp] theorem value_pure (a : α) : value s (pure a : Reading α) = a := rfl

/-- The second reader goes on with the value of the first. -/
@[simp] theorem value_bind (m : Reading α) (f : α → Reading β) :
    value s (m >>= f) = value s (f (value s m)) := by
  induction m with
  | done a => rfl
  | byte i k ih => exact ih (s i)

/-- The positions of the first come before those of the second. -/
@[simp] theorem log_bind (m : Reading α) (f : α → Reading β) :
    log s (m >>= f) = log s m ++ log s (f (value s m)) := by
  induction m with
  | done a => rfl
  | byte i k ih => exact congrArg (i :: ·) (ih (s i))

/-- All positions read lie below `n`. -/
def ReadsBelow (n : Nat) (s : Nat → U8) (m : Reading α) : Prop := ∀ i ∈ log s m, i < n

/-- A reader that is done reads nothing. -/
theorem readsBelow_pure (a : α) : ReadsBelow n s (pure a : Reading α) := by
  intro i hi
  cases hi

/-- Two readers below a bound, one after the other. -/
theorem readsBelow_bind {m : Reading α} {f : α → Reading β} (hm : ReadsBelow n s m)
    (hf : ReadsBelow n s (f (value s m))) : ReadsBelow n s (m >>= f) := by
  intro i hi
  rw [log_bind] at hi
  rcases List.mem_append.mp hi with hi | hi
  · exact hm i hi
  · exact hf i hi

/-- The little-endian value of the `k` bytes from position `i` on. -/
def word : Nat → Nat → Reading Nat
  | 0, _ => .done 0
  | k + 1, i => .byte i (fun b => do return b.toNat + 256 * (← word k (i + 1)))

/-- A word is read below its end. -/
theorem readsBelow_word (k i : Nat) (h : i + k ≤ n) : ReadsBelow n s (word k i) := by
  induction k generalizing i with
  | zero => exact readsBelow_pure 0
  | succ k ih =>
      intro j hj
      rcases List.mem_cons.mp hj with rfl | hj
      · omega
      · refine readsBelow_bind (ih (i + 1) (by omega)) ?_ j hj
        exact readsBelow_pure _

end ReadLog
