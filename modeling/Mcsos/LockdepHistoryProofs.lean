import Mcsos.LockdepProofs
import Mcsos.MachineProofs

/-! # The lockdep stack and the history of its calls

    What the checker holds is a function of the answers it gave: a class is on
    the stack exactly if it was acquired and, since then, not released.  The
    check before a push looks for the class in the whole stack and compares it
    with the top only; that the stack increases makes the two enough, and that
    it increases makes the class at the top the only one of its kind, so that a
    release takes away what it names and nothing else. -/

namespace LockdepHistory

open Word SyncModel Lockdep

/-- The calls that change the state. -/
inductive LockdepCall where
  | acquire (c : U32)
  | release (c : U32)
deriving DecidableEq, Repr

/-- The class a call is about. -/
def LockdepCall.classId : LockdepCall → U32
  | acquire c => c
  | release c => c

/-- A call and its answer. -/
def lockdepCall (d : SyncModel.Lockdep) : LockdepCall → SyncResult × SyncModel.Lockdep
  | .acquire c => mcsLockdepBeforeAcquire d c
  | .release c => mcsLockdepAfterRelease d c

/-- The calls with their answers, the first call first. -/
abbrev History := List (LockdepCall × SyncResult)

/-- The state after some calls, from `mcs_lockdep_init` on. -/
def after (calls : List LockdepCall) : SyncModel.Lockdep :=
  Machine.exec lockdepCall mcsLockdepInit calls

/-- The history of those calls. -/
def answered (calls : List LockdepCall) : History :=
  Machine.history lockdepCall mcsLockdepInit calls

/-- Acquired with success, and not released with success since. -/
def HeldSince (c : U32) (h : History) : Prop :=
  ∃ earlier later, h = earlier ++ (.acquire c, .ok ()) :: later ∧ (.release c, .ok ()) ∉ later

/-- A call with a class that was refused. -/
def rejected : LockdepCall × SyncResult → Bool
  | (call, .error _) => call.classId ≠ 0
  | (_, .ok _) => false

variable {d : SyncModel.Lockdep} {c x : U32} {h : History} {call : LockdepCall} {r : SyncResult}

/-! ## What the last call does to the history -/

/-- Nothing is held before the first call. -/
theorem heldSince_nil : ¬ HeldSince c [] := by
  rintro ⟨earlier, later, heq, -⟩
  exact absurd heq.symm (List.append_ne_nil_of_right_ne_nil _ (List.cons_ne_nil _ _))

/-- **LAST CALL**: it makes the class held, or ends that, or has no part in it. -/
theorem heldSince_concat :
    HeldSince c (h ++ [(call, r)]) ↔
      (call = .acquire c ∧ r = .ok ()) ∨ (HeldSince c h ∧ ¬ (call = .release c ∧ r = .ok ())) := by
  constructor
  · rintro ⟨earlier, later, heq, hno⟩
    -- either the acquisition is the last call, or the last call comes after it
    rcases List.eq_nil_or_concat' later with rfl | ⟨later, last, rfl⟩
    · obtain ⟨-, hlast⟩ := List.append_inj' heq rfl
      exact Or.inl (Prod.mk.inj (List.cons.inj hlast).1)
    · rw [← List.cons_append, ← List.append_assoc] at heq
      obtain ⟨hfront, hlast⟩ := List.append_inj' heq rfl
      obtain rfl := (List.cons.inj hlast).1
      rw [List.mem_append, not_or] at hno
      refine Or.inr ⟨⟨earlier, later, hfront, hno.1⟩, ?_⟩
      rintro ⟨rfl, rfl⟩
      exact hno.2 (List.mem_singleton_self _)
  · rintro (⟨rfl, rfl⟩ | ⟨⟨earlier, later, rfl, hno⟩, hlast⟩)
    · exact ⟨h, [], rfl, List.not_mem_nil⟩
    · refine ⟨earlier, later ++ [(call, r)], by rw [List.append_assoc]; rfl, ?_⟩
      rw [List.mem_append, not_or]
      refine ⟨hno, fun hmem => hlast ?_⟩
      have heq := Prod.mk.inj (List.mem_singleton.mp hmem)
      exact ⟨heq.1.symm, heq.2.symm⟩

/-- A refused call changes nothing about what is held. -/
theorem heldSince_refused (hr : r ≠ .ok ()) : HeldSince c (h ++ [(call, r)]) ↔ HeldSince c h := by
  rw [heldSince_concat, or_iff_right (fun hc => hr hc.2), and_iff_left (fun hc => hr hc.2)]

/-- An accepted acquire adds its class. -/
theorem heldSince_acquire :
    HeldSince x (h ++ [(.acquire c, .ok ())]) ↔ x = c ∨ HeldSince x h := by
  rw [heldSince_concat, and_iff_left (fun hc => by cases hc.1), and_iff_left rfl]
  refine or_congr ?_ Iff.rfl
  rw [LockdepCall.acquire.injEq]
  exact eq_comm

/-- An accepted release takes its class away. -/
theorem heldSince_release :
    HeldSince x (h ++ [(.release c, .ok ())]) ↔ HeldSince x h ∧ x ≠ c := by
  rw [heldSince_concat, or_iff_right (fun hc => by cases hc.1), and_iff_left rfl]
  refine and_congr Iff.rfl (not_congr ?_)
  rw [LockdepCall.release.injEq]
  exact eq_comm

/-- A refused call counts unless it was about the class 0. -/
theorem rejected_of_refused (hr : r ≠ .ok ()) :
    rejected (call, r) = decide (call.classId ≠ 0) := by
  cases r with
  | error e => rfl
  | ok u => exact absurd rfl hr

/-! ## The invariant -/

/-- **THE STACK INVARIANT**, which ties the state to its history. -/
structure StackInv (d : SyncModel.Lockdep) (h : History) : Prop where
  depth_le : d.depth.toNat ≤ MCS_LOCKDEP_MAX_HELD
  increasing : Increasing d
  ne_zero : ¬ OnStack d 0
  clear : ∀ i, d.depth.toNat ≤ i → d.heldClass i = 0
  held : ∀ c, OnStack d c ↔ HeldSince c h
  violations : d.violationCount = BitVec.ofNat 32 (h.countP rejected)

/-- The invariant holds before the first call. -/
theorem stackInv_init : StackInv mcsLockdepInit [] := by
  have hnone : ∀ c, ¬ OnStack mcsLockdepInit c := by
    rintro c ⟨i, hi, -⟩
    exact absurd hi (Nat.not_lt_zero i)
  exact ⟨Nat.zero_le _, increasing_init, hnone 0, fun _ _ => rfl,
    fun c => iff_of_false (hnone c) heldSince_nil, rfl⟩

/-- A refused call keeps it. -/
theorem StackInv.refused (hinv : StackInv d h) (call : LockdepCall) (hr : r ≠ .ok ()) :
    StackInv (Lockdep.refused d call.classId) (h ++ [(call, r)]) := by
  have hsame := sameStack_refused d call.classId
  have honStack : ∀ c, OnStack (Lockdep.refused d call.classId) c ↔ OnStack d c := by
    intro c
    rw [OnStack, hsame.heldClass, hsame.depth, OnStack]
  refine ⟨hsame.depth ▸ hinv.depth_le, hsame.increasing hinv.increasing,
    fun hc => hinv.ne_zero ((honStack 0).mp hc), ?_, ?_, ?_⟩
  · rw [hsame.heldClass, hsame.depth]
    exact hinv.clear
  · intro c
    rw [honStack, hinv.held, heldSince_refused hr]
  · rw [List.countP_append, List.countP_singleton, rejected_of_refused hr, Lockdep.refused]
    by_cases hzero : call.classId = 0
    · rw [if_pos hzero, if_neg (by simpa using hzero)]
      exact hinv.violations
    · rw [if_neg hzero, if_pos (by simpa using hzero)]
      show d.violationCount + 1 = _
      rw [hinv.violations, BitVec.ofNat_add]
      rfl

/-- An accepted acquire keeps it. -/
theorem StackInv.push (hinv : StackInv d h) (hc : c ≠ 0) (hroom : d.depth.toNat < 16)
    (habove : ∀ x, OnStack d x → x < c) :
    StackInv (Lockdep.push d c) (h ++ [(.acquire c, .ok ())]) := by
  refine ⟨?_, push_increasing hroom hinv.increasing habove, ?_, ?_, ?_, ?_⟩
  · rw [push_depth hroom]
    exact hroom
  · rw [push_onStack hroom]
    exact not_or.mpr ⟨hc.symm, hinv.ne_zero⟩
  · intro i hi
    rw [push_depth hroom] at hi
    rw [push_heldClass, if_neg (by omega)]
    exact hinv.clear i (by omega)
  · intro x
    rw [push_onStack hroom, hinv.held, heldSince_acquire]
  · rw [List.countP_append]
    exact hinv.violations

/-- An accepted release keeps it. -/
theorem StackInv.pop (hinv : StackInv d h) (hpos : 0 < d.depth.toNat) :
    StackInv (Lockdep.pop d)
      (h ++ [(.release (d.heldClass (d.depth.toNat - 1)), .ok ())]) := by
  have hle := hinv.depth_le
  refine ⟨?_, pop_increasing hpos hinv.increasing, ?_, ?_, ?_, ?_⟩
  · rw [pop_depth hpos]
    omega
  · rw [pop_onStack hpos hinv.increasing]
    exact fun hzero => hinv.ne_zero hzero.1
  · intro i hi
    rw [pop_depth hpos] at hi
    rw [pop_heldClass]
    split
    · rfl
    · exact hinv.clear i (by omega)
  · intro x
    rw [pop_onStack hpos hinv.increasing, hinv.held, heldSince_release]
  · rw [List.countP_append]
    exact hinv.violations

/-- **STEP**: a call and its answer keep the invariant. -/
theorem StackInv.step (hinv : StackInv d h) (call : LockdepCall) :
    StackInv (lockdepCall d call).2 (h ++ [(call, (lockdepCall d call).1)]) := by
  cases call with
  | acquire c =>
      show StackInv (mcsLockdepBeforeAcquire d c).2 (h ++ [(_, (mcsLockdepBeforeAcquire d c).1)])
      rcases beforeAcquire_cases d c with ⟨hr, heq⟩ | ⟨heq, hc, hroom, hnew, htop⟩
      · rw [heq]
        exact hinv.refused (.acquire c) hr
      · rw [heq]
        exact hinv.push hc hroom (fun x hx => onStack_lt hinv.increasing hnew htop hx)
  | release c =>
      show StackInv (mcsLockdepAfterRelease d c).2 (h ++ [(_, (mcsLockdepAfterRelease d c).1)])
      rcases afterRelease_cases d c with ⟨hr, heq⟩ | ⟨heq, hpos, rfl⟩
      · rw [heq]
        exact hinv.refused (.release c) hr
      · rw [heq]
        exact hinv.pop hpos

/-- **RUN**: it holds after any calls. -/
theorem stackInv_run (calls : List LockdepCall) :
    StackInv (after calls) (answered calls) :=
  Machine.exec_history_inv lockdepCall (fun _ _ call hinv => hinv.step call) calls _ []
    stackInv_init

/-! ## What a caller sees -/

/-- The query agrees with the stack. -/
theorem mcsLockdepIsHeld_iff (hinv : StackInv d h) (c : U32) :
    mcsLockdepIsHeld d c = true ↔ OnStack d c := by
  have hbound : min d.depth.toNat MCS_LOCKDEP_MAX_HELD = d.depth.toNat :=
    Nat.min_eq_left hinv.depth_le
  rw [mcsLockdepIsHeld, hbound, Bool.and_eq_true, classAmong_iff, decide_eq_true_iff]
  refine and_iff_right_of_imp ?_
  rintro honStack rfl
  exact hinv.ne_zero honStack

/-- A call that is refused leaves the stack as it was. -/
theorem sameStack_of_refused (d : SyncModel.Lockdep) (call : LockdepCall)
    (hr : (lockdepCall d call).1 ≠ .ok ()) : SameStack d (lockdepCall d call).2 := by
  cases call with
  | acquire c =>
      rcases beforeAcquire_cases d c with ⟨-, heq⟩ | ⟨heq, -⟩
      · exact heq ▸ sameStack_refused d c
      · exact absurd (congrArg Prod.fst heq) hr
  | release c =>
      rcases afterRelease_cases d c with ⟨-, heq⟩ | ⟨heq, -⟩
      · exact heq ▸ sameStack_refused d c
      · exact absurd (congrArg Prod.fst heq) hr

/-- **LOCKDEP**: after any calls the stack is bounded, increasing, without the
    class zero and clear above its top; the query answers from the history; a
    call that is refused leaves the stack; and the violations are counted. -/
theorem lockdep_stack_follows_history (calls : List LockdepCall) :
    (after calls).depth.toNat ≤ MCS_LOCKDEP_MAX_HELD ∧
    Increasing (after calls) ∧
    (∀ i, i < (after calls).depth.toNat → (after calls).heldClass i ≠ 0) ∧
    (∀ i, (after calls).depth.toNat ≤ i → i < MCS_LOCKDEP_MAX_HELD →
      (after calls).heldClass i = 0) ∧
    (∀ c, mcsLockdepIsHeld (after calls) c = true ↔ HeldSince c (answered calls)) ∧
    (∀ call, (lockdepCall (after calls) call).1 ≠ .ok () →
      SameStack (after calls) (lockdepCall (after calls) call).2) ∧
    (after calls).violationCount.toNat = (answered calls).countP rejected % 2 ^ 32 := by
  have hinv := stackInv_run calls
  refine ⟨hinv.depth_le, hinv.increasing, ?_, fun i hi _ => hinv.clear i hi, ?_,
    sameStack_of_refused _, ?_⟩
  · intro i hi hzero
    exact hinv.ne_zero ⟨i, hi, hzero⟩
  · intro c
    rw [mcsLockdepIsHeld_iff hinv, hinv.held]
  · rw [hinv.violations]
    exact BitVec.toNat_ofNat _ _

end LockdepHistory
