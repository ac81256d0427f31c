import Mathlib.Data.List.Nodup
import Mathlib.Logic.Function.Basic

/-! # Singly linked lists in a store

    A list in a store is a chain of pointers that ends in a null pointer.
    `Linked next null p l` says that following `next` from `p` passes through
    exactly the pointers of `l`.  The pointers are then distinct
    (`linked_nodup`), because a chain that came back to a pointer would not
    end.

    The two operations of a queue are edits of `l`: dropping the first pointer
    (`linked_tail`) and hanging a fresh pointer behind the last one
    (`linked_concat`). -/

namespace LinkedChain

variable {P : Type}

/-- The chain from `p` is `l`. -/
def Linked (next : P → P) (null : P) : P → List P → Prop
  | p, [] => p = null
  | p, x :: l => p = x ∧ x ≠ null ∧ Linked next null (next x) l

variable {next next' : P → P} {null p q x : P} {l l' : List P}

/-- No element of a chain is null. -/
theorem linked_ne_null (h : Linked next null p l) (hx : x ∈ l) : x ≠ null := by
  induction l generalizing p with
  | nil => cases hx
  | cons y l ih =>
      obtain ⟨-, hy, hrest⟩ := h
      rcases List.mem_cons.mp hx with rfl | hmem
      · exact hy
      · exact ih hrest hmem

/-- A pointer has one chain. -/
theorem linked_unique (h : Linked next null p l) (h' : Linked next null p l') : l = l' := by
  induction l generalizing p l' with
  | nil =>
      cases l' with
      | nil => rfl
      | cons y l' => exact absurd (h'.1.symm.trans h) h'.2.1
  | cons x l ih =>
      obtain ⟨rfl, hx, hrest⟩ := h
      cases l' with
      | nil => exact absurd h' hx
      | cons y l' =>
          obtain ⟨rfl, -, hrest'⟩ := h'
          rw [ih hrest hrest']

/-- The chain from a pointer of the list is a part of the list. -/
theorem linked_suffix (h : Linked next null p l) (hx : x ∈ l) :
    ∃ r, Linked next null (next x) r ∧ r.length < l.length := by
  induction l generalizing p with
  | nil => cases hx
  | cons y l ih =>
      obtain ⟨-, -, hrest⟩ := h
      rcases List.mem_cons.mp hx with rfl | hmem
      · exact ⟨l, hrest, Nat.lt_succ_self _⟩
      · obtain ⟨r, hr, hlen⟩ := ih hrest hmem
        exact ⟨r, hr, Nat.lt_succ_of_lt hlen⟩

/-- **NO CYCLE**: the pointers of a chain are distinct. -/
theorem linked_nodup (h : Linked next null p l) : l.Nodup := by
  induction l generalizing p with
  | nil => exact List.nodup_nil
  | cons x l ih =>
      obtain ⟨-, -, hrest⟩ := h
      refine List.nodup_cons.mpr ⟨?_, ih hrest⟩
      -- coming back to `x` would make its chain shorter than itself
      intro hx
      obtain ⟨r, hr, hlen⟩ := linked_suffix hrest hx
      rw [linked_unique hr hrest] at hlen
      exact Nat.lt_irrefl _ hlen

/-- Only the links of its own pointers matter to a chain. -/
theorem linked_congr (h : Linked next null p l) (heq : ∀ y ∈ l, next' y = next y) :
    Linked next' null p l := by
  induction l generalizing p with
  | nil => exact h
  | cons x l ih =>
      obtain ⟨hp, hx, hrest⟩ := h
      refine ⟨hp, hx, ?_⟩
      rw [heq x (List.mem_cons_self ..)]
      exact ih hrest (fun y hy => heq y (List.mem_cons_of_mem x hy))

/-- Drop the first pointer. -/
theorem linked_tail (h : Linked next null p (x :: l)) (heq : ∀ y, y ≠ x → next' y = next y) :
    Linked next' null (next x) l := by
  obtain ⟨hx, -⟩ := List.nodup_cons.mp (linked_nodup h)
  refine linked_congr h.2.2 (fun y hy => heq y ?_)
  rintro rfl
  exact hx hy

/-- Hang `x` behind the last pointer. -/
theorem linked_concat (h : Linked next null p l) (hx : x ≠ null) (hfresh : x ∉ l)
    (hend : next' x = null) (hlast : ∀ y, l.getLast? = some y → next' y = x)
    (heq : ∀ y ∈ l, l.getLast? ≠ some y → next' y = next y) :
    Linked next' null (if l = [] then x else p) (l ++ [x]) := by
  induction l generalizing p with
  | nil => exact ⟨rfl, hx, hend⟩
  | cons y l ih =>
      obtain ⟨rfl, hy, hrest⟩ := h
      have hxl : x ∉ l := fun hmem => hfresh (List.mem_cons_of_mem _ hmem)
      rw [if_neg (List.cons_ne_nil _ _)]
      refine ⟨rfl, hy, ?_⟩
      cases hl : l with
      | nil =>
          -- the old last node is the one whose link changes
          have hlink : next' p = x := hlast p (by rw [hl]; rfl)
          rw [hlink]
          exact ⟨rfl, hx, hend⟩
      | cons z m =>
          have hnot := (List.nodup_cons.mp (linked_nodup ⟨rfl, hy, hrest⟩)).1
          have htail : (p :: l).getLast? = l.getLast? := by rw [hl]; rfl
          have hstep : next' p = next p := by
            refine heq p (List.mem_cons_self ..) ?_
            rw [htail]
            intro hp
            exact hnot (List.mem_of_getLast? hp)
          have hrec := ih hrest hxl (fun w hw => hlast w (by rw [htail]; exact hw))
            (fun w hw hne => heq w (List.mem_cons_of_mem p hw) (by rw [htail]; exact hne))
          rw [hl, if_neg (List.cons_ne_nil _ _)] at hrec
          rw [hstep]
          exact hrec

end LinkedChain
