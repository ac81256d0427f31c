import Mcsos.SyncModel

/-! # The lockdep stack

    A thread's lockdep state is a stack of lock classes.  The stack is
    increasing; `mcs_lockdep_before_acquire` pushes a class that is above all
    of it or leaves it as it is, and `mcs_lockdep_after_release` takes the top
    off or leaves it as it is.  The check before a push compares with the top
    only, which in an increasing stack is enough. -/

namespace Lockdep

open Word Function SyncModel

variable {d : Lockdep} {c x : U32}

/-- The classes on the stack increase. -/
def Increasing (d : Lockdep) : Prop :=
  ∀ i j, i < j → j < d.depth.toNat → d.heldClass i < d.heldClass j

/-- The class `c` is on the stack. -/
def OnStack (d : Lockdep) (c : U32) : Prop := ∃ i, i < d.depth.toNat ∧ d.heldClass i = c

/-- The loop looks for a class among the first entries. -/
theorem classAmong_iff {n : Nat} : classAmong d n c = true ↔ ∃ i, i < n ∧ d.heldClass i = c := by
  simp [classAmong]

/-- An empty stack is increasing. -/
theorem increasing_init : Increasing mcsLockdepInit := by
  intro i j _ hj
  exact absurd hj (Nat.not_lt_zero j)

/-- Same stack; the violation count may differ. -/
structure SameStack (d d' : Lockdep) : Prop where
  heldClass : d'.heldClass = d.heldClass
  depth : d'.depth = d.depth

/-- What a refused call leaves: the violation is counted, unless the class is no
    class at all. -/
def refused (d : Lockdep) (c : U32) : Lockdep := if c = 0 then d else d.violation

/-- A refusal counts at most a violation. -/
theorem sameStack_refused (d : Lockdep) (c : U32) : SameStack d (refused d c) := by
  rw [refused]
  split
  · exact ⟨rfl, rfl⟩
  · exact ⟨rfl, rfl⟩

/-- The order of the stack does not depend on the count. -/
theorem SameStack.increasing {d' : Lockdep} (h : SameStack d d') (hd : Increasing d) :
    Increasing d' := by
  rw [Increasing, h.heldClass, h.depth]
  exact hd

/-- What is on the stack does not depend on the count. -/
theorem SameStack.onStack {d' : Lockdep} (h : SameStack d d') (hc : OnStack d c) :
    OnStack d' c := by
  rw [OnStack, h.heldClass, h.depth]
  exact hc

/-! ## Pushing -/

/-- The stack with `c` on top. -/
def push (d : Lockdep) (c : U32) : Lockdep :=
  { d with heldClass := update d.heldClass d.depth.toNat c, depth := d.depth + 1 }

/-- What `mcs_lockdep_before_acquire` can do. -/
theorem beforeAcquire_cases (d : Lockdep) (c : U32) :
    ((mcsLockdepBeforeAcquire d c).1 ≠ .ok () ∧ (mcsLockdepBeforeAcquire d c).2 = refused d c) ∨
      (mcsLockdepBeforeAcquire d c = (.ok (), push d c) ∧ c ≠ 0 ∧ d.depth.toNat < 16 ∧
        ¬ OnStack d c ∧ ¬ (0 < d.depth ∧ c < d.heldClass (d.depth - 1).toNat)) := by
  rw [mcsLockdepBeforeAcquire, refused]
  split
  · exact Or.inl ⟨(fun h => by cases h), rfl⟩
  split <;> rename_i hzero hdepth
  · exact Or.inl ⟨(fun h => by cases h), rfl⟩
  split <;> rename_i hamong
  · exact Or.inl ⟨(fun h => by cases h), rfl⟩
  split <;> rename_i htop
  · exact Or.inl ⟨(fun h => by cases h), rfl⟩
  · exact Or.inr ⟨rfl, hzero, Nat.lt_of_not_le hdepth, fun h => hamong (classAmong_iff.mpr h), htop⟩

/-- A class that passes is above the whole stack. -/
theorem onStack_lt (hd : Increasing d) (hnew : ¬ OnStack d c)
    (htop : ¬ (0 < d.depth ∧ c < d.heldClass (d.depth - 1).toNat)) (hx : OnStack d x) :
    x < c := by
  obtain ⟨i, hi, rfl⟩ := hx
  have hpos : 0 < d.depth := by bv_omega
  have hlast : (d.depth - 1).toNat = d.depth.toNat - 1 := by bv_omega
  have hle : ¬ c < d.heldClass (d.depth - 1).toNat := fun h => htop ⟨hpos, h⟩
  have hne : d.heldClass (d.depth - 1).toNat ≠ c := fun h => hnew ⟨_, by omega, h⟩
  have htopc : d.heldClass (d.depth - 1).toNat < c := by bv_omega
  by_cases hil : i = d.depth.toNat - 1
  · rw [hil, ← hlast]
    exact htopc
  · have hlt := hd i (d.depth - 1).toNat (by omega) (by omega)
    bv_omega

/-- The stack is one higher. -/
theorem push_depth (hroom : d.depth.toNat < 16) :
    (push d c).depth.toNat = d.depth.toNat + 1 := by
  show (d.depth + 1).toNat = _
  bv_omega

/-- The class is on top. -/
theorem push_heldClass {i : Nat} :
    (push d c).heldClass i = if i = d.depth.toNat then c else d.heldClass i := by
  simp only [push, update_apply]

/-- The class pushed comes to the others. -/
theorem push_onStack (hroom : d.depth.toNat < 16) :
    OnStack (push d c) x ↔ x = c ∨ OnStack d x := by
  constructor
  · rintro ⟨i, hi, rfl⟩
    rw [push_depth hroom] at hi
    rw [push_heldClass]
    by_cases hid : i = d.depth.toNat
    · exact Or.inl (if_pos hid)
    · exact Or.inr ⟨i, by omega, (if_neg hid).symm⟩
  · rintro (rfl | ⟨i, hi, rfl⟩)
    · refine ⟨d.depth.toNat, ?_, ?_⟩
      · rw [push_depth hroom]
        exact Nat.lt_succ_self _
      · rw [push_heldClass, if_pos rfl]
    · refine ⟨i, ?_, ?_⟩
      · rw [push_depth hroom]
        omega
      · rw [push_heldClass, if_neg hi.ne]

/-- A class above all others keeps the order. -/
theorem push_increasing (hroom : d.depth.toNat < 16) (hd : Increasing d)
    (habove : ∀ x, OnStack d x → x < c) : Increasing (push d c) := by
  intro i j hij hj
  rw [push_depth hroom] at hj
  have hi : i ≠ d.depth.toNat := by omega
  rw [push_heldClass, push_heldClass, if_neg hi]
  by_cases hjd : j = d.depth.toNat
  · rw [if_pos hjd]
    exact habove _ ⟨i, by omega, rfl⟩
  · rw [if_neg hjd]
    exact hd i j hij (by omega)

/-! ## Popping -/

/-- The stack without its top. -/
def pop (d : Lockdep) : Lockdep :=
  { d with heldClass := update d.heldClass (d.depth.toNat - 1) 0, depth := d.depth - 1 }

/-- What `mcs_lockdep_after_release` can do. -/
theorem afterRelease_cases (d : Lockdep) (c : U32) :
    ((mcsLockdepAfterRelease d c).1 ≠ .ok () ∧ (mcsLockdepAfterRelease d c).2 = refused d c) ∨
      (mcsLockdepAfterRelease d c = (.ok (), pop d) ∧ 0 < d.depth.toNat ∧
        d.heldClass (d.depth.toNat - 1) = c) := by
  rw [mcsLockdepAfterRelease, refused]
  split
  · exact Or.inl ⟨(fun h => by cases h), rfl⟩
  split <;> rename_i hempty
  · exact Or.inl ⟨(fun h => by cases h), rfl⟩
  have hlast : (d.depth - 1).toNat = d.depth.toNat - 1 := by bv_omega
  simp only [hlast]
  split <;> rename_i htop
  · exact Or.inl ⟨(fun h => by cases h), rfl⟩
  · exact Or.inr ⟨rfl, by bv_omega, not_not.mp htop⟩

/-- The stack is one lower. -/
theorem pop_depth (hpos : 0 < d.depth.toNat) : (pop d).depth.toNat = d.depth.toNat - 1 := by
  show (d.depth - 1).toNat = _
  bv_omega

/-- The entry on top is cleared. -/
theorem pop_heldClass {i : Nat} :
    (pop d).heldClass i = if i = d.depth.toNat - 1 then 0 else d.heldClass i := by
  simp only [pop, update_apply]

/-- A stack without its top is still in order. -/
theorem pop_increasing (hpos : 0 < d.depth.toNat) (hd : Increasing d) : Increasing (pop d) := by
  intro i j hij hj
  rw [pop_depth hpos] at hj
  rw [pop_heldClass, pop_heldClass, if_neg (by omega), if_neg hj.ne]
  exact hd i j hij (by omega)

/-- The classes below the top are the ones that differ from it. -/
theorem pop_onStack (hpos : 0 < d.depth.toNat) (hd : Increasing d) :
    OnStack (pop d) x ↔ OnStack d x ∧ x ≠ d.heldClass (d.depth.toNat - 1) := by
  constructor
  · rintro ⟨i, hi, rfl⟩
    rw [pop_depth hpos] at hi
    rw [pop_heldClass, if_neg hi.ne]
    have hlt := hd i (d.depth.toNat - 1) hi (by omega)
    exact ⟨⟨i, by omega, rfl⟩, by bv_omega⟩
  · rintro ⟨⟨i, hi, rfl⟩, hne⟩
    have hi' : i ≠ d.depth.toNat - 1 := by
      rintro rfl
      exact hne rfl
    refine ⟨i, ?_, ?_⟩
    · rw [pop_depth hpos]
      omega
    · rw [pop_heldClass, if_neg hi']

end Lockdep
