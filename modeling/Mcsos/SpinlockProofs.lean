import Mcsos.MachineProofs
import Mcsos.SyncModel
import Mathlib.Data.Nat.Cast.Defs

/-! # No lost update under the spinlock

    Any number of workers add 1 to a counter, each round between
    `mcs_spin_lock` and `mcs_spin_unlock`.  A run is any list of workers; each
    entry lets one worker do its next atomic operation.

    The exchange of the lock also writes when it fails, but it then writes the
    1 that is there.  So the word is 1 exactly while a worker is inside, and
    what the counter owes is settled by the place that worker is at.  The
    counter may be a number or a machine word: it is compared with the number
    of rounds in its own type. -/

namespace Spinlock

open Word Function SyncModel

variable {T α : Type} {s s' : Workers T α} {t u : T} {p : WorkerPc α}

theorem goto_pc [DecidableEq T] : (s.goto t p).pc u = if u = t then p else s.pc u := by
  simp only [Workers.goto, update_apply]

variable [AddMonoidWithOne α]

/-- Places between the lock and the unlock. -/
def Inside : WorkerPc α → Prop
  | .outside | .exchange | .spin => False
  | .readCounter | .writeCounter _ | .unlock => True

/-- What the counter is while a worker is at a place. -/
def Owes (s : Workers T α) : WorkerPc α → Prop
  | .outside | .exchange | .spin => True
  | .readCounter => s.counter = s.rounds
  | .writeCounter v => s.counter = s.rounds ∧ v = s.counter
  | .unlock => s.counter = s.rounds + 1

/-- The counter may be anything for a worker that is outside. -/
theorem owes_of_outside (h : ¬ Inside p) : Owes s p := by
  cases p with
  | outside => trivial
  | exchange => trivial
  | spin => trivial
  | readCounter => exact absurd trivial h
  | writeCounter v => exact absurd trivial h
  | unlock => exact absurd trivial h

/-- **THE SPINLOCK INVARIANT**: at most one thread is inside, the word is 1 while one is, and
    the counter has every completed round once nobody is. -/
structure SpinInv (s : Workers T α) : Prop where
  one : ∀ t u, Inside (s.pc t) → Inside (s.pc u) → t = u
  word : ∀ t, Inside (s.pc t) → s.locked = 1
  free : (∀ t, ¬ Inside (s.pc t)) → s.locked = 0 ∧ s.counter = s.rounds
  owes : ∀ t, Owes s (s.pc t)

/-- Everybody is outside, and nothing has been counted. -/
theorem spinInv_init : SpinInv (workersInit T α) where
  one := by
    intro t u ht
    cases ht
  word := by
    intro t ht
    cases ht
  free := fun _ => ⟨rfl, Nat.cast_zero.symm⟩
  owes := fun _ => trivial

/-- Nobody is inside a lock whose word is 0. -/
theorem SpinInv.none_inside (h : SpinInv s) (hfree : s.locked = 0) : ∀ u, ¬ Inside (s.pc u) := by
  intro u hu
  rw [h.word u hu] at hfree
  cases hfree

variable [DecidableEq T]

/-- What one operation can do. -/
inductive Move (s : Workers T α) (t : T) : Workers T α → Prop where
  | call (hpc : s.pc t = .outside) : Move s t (s.goto t .exchange)
  | take (hpc : s.pc t = .exchange) (hfree : s.locked = 0) :
      Move s t ({ s with locked := 1 }.goto t .readCounter)
  | fail (hpc : s.pc t = .exchange) (hheld : s.locked ≠ 0) :
      Move s t ({ s with locked := 1 }.goto t .spin)
  | wait (hpc : s.pc t = .spin) : Move s t (s.goto t .spin)
  | retry (hpc : s.pc t = .spin) : Move s t (s.goto t .exchange)
  | read (hpc : s.pc t = .readCounter) : Move s t (s.goto t (.writeCounter s.counter))
  | write (v : α) (hpc : s.pc t = .writeCounter v) :
      Move s t ({ s with counter := v + 1 }.goto t .unlock)
  | release (hpc : s.pc t = .unlock) :
      Move s t ({ s with locked := 0, rounds := s.rounds + 1 }.goto t .outside)

/-- Every step of a worker is one of the moves. -/
theorem workerStep_move (s : Workers T α) (t : T) : Move s t (workerStep s t).2 := by
  rw [workerStep]
  cases hpc : s.pc t with
  | outside => exact .call hpc
  | exchange =>
      by_cases hfree : s.locked = 0
      · rw [mcsSpinTryLock_free hfree]
        exact .take hpc hfree
      · rw [mcsSpinTryLock_held hfree]
        exact .fail hpc hfree
  | spin =>
      simp only
      split
      · exact .wait hpc
      · exact .retry hpc
  | readCounter => exact .read hpc
  | writeCounter v => exact .write v hpc
  | unlock => exact .release hpc

/-! ## One operation -/

/-- A worker that is outside may move about outside. -/
theorem SpinInv.goto_outside (h : SpinInv s) (hfrom : ¬ Inside (s.pc t)) (hto : ¬ Inside p) :
    SpinInv (s.goto t p) := by
  -- nobody enters and nobody leaves
  have hin : ∀ u, Inside ((s.goto t p).pc u) ↔ Inside (s.pc u) := by
    intro u
    rw [goto_pc]
    split <;> rename_i hut
    · rw [hut]
      exact iff_of_false hto hfrom
    · exact Iff.rfl
  constructor
  · intro u v hu hv
    exact h.one u v ((hin u).mp hu) ((hin v).mp hv)
  · intro u hu
    exact h.word u ((hin u).mp hu)
  · intro hall
    exact h.free (fun u hu => hall u ((hin u).mpr hu))
  · intro u
    by_cases hut : u = t
    · rw [goto_pc, if_pos hut]
      exact owes_of_outside hto
    · rw [goto_pc, if_neg hut]
      exact h.owes u

/-- The worker inside does its next operation there: nobody else is, so only
    the counter has to be right. -/
theorem SpinInv.goto_inside (h : SpinInv s) (hfrom : Inside (s.pc t)) (hto : Inside p) (c : α)
    (howes : Owes { s with counter := c } p) : SpinInv ({ s with counter := c }.goto t p) := by
  -- the worker is the only one inside
  have hin : ∀ u, Inside (({ s with counter := c }.goto t p).pc u) → u = t := by
    intro u hu
    by_contra hut
    rw [goto_pc, if_neg hut] at hu
    exact hut (h.one u t hu hfrom)
  constructor
  · intro u v hu hv
    exact (hin u hu).trans (hin v hv).symm
  · intro _ _
    exact h.word t hfrom
  · intro hall
    refine absurd ?_ (hall t)
    rw [goto_pc, if_pos rfl]
    exact hto
  · intro u
    by_cases hut : u = t
    · rw [goto_pc, if_pos hut]
      exact howes
    · rw [goto_pc, if_neg hut]
      exact owes_of_outside (fun hu => hut (h.one u t hu hfrom))

/-- A worker takes the free lock. -/
theorem SpinInv.take (h : SpinInv s) (hfree : s.locked = 0) :
    SpinInv ({ s with locked := 1 }.goto t .readCounter) := by
  -- the lock is free, so nobody was inside
  have hnone := h.none_inside hfree
  have hin : ∀ u, Inside (({ s with locked := 1 }.goto t .readCounter).pc u) → u = t := by
    intro u hu
    by_contra hut
    rw [goto_pc, if_neg hut] at hu
    exact hnone u hu
  constructor
  · intro u v hu hv
    exact (hin u hu).trans (hin v hv).symm
  · intro _ _
    rfl
  · intro hall
    refine absurd ?_ (hall t)
    rw [goto_pc, if_pos rfl]
    trivial
  · intro u
    by_cases hut : u = t
    · rw [goto_pc, if_pos hut]
      exact (h.free hnone).2
    · rw [goto_pc, if_neg hut]
      exact h.owes u

/-- A worker gives the lock back, one round later. -/
theorem SpinInv.release (h : SpinInv s) (hpc : s.pc t = .unlock) :
    SpinInv ({ s with locked := 0, rounds := s.rounds + 1 }.goto t .outside) := by
  have hin : Inside (s.pc t) := by rw [hpc]; trivial
  have hnone : ∀ u, ¬ Inside
      (({ s with locked := 0, rounds := s.rounds + 1 }.goto t .outside).pc u) := by
    intro u hu
    by_cases hut : u = t
    · rw [goto_pc, if_pos hut] at hu
      exact hu
    · rw [goto_pc, if_neg hut] at hu
      exact hut (h.one u t hu hin)
  constructor
  · intro u v hu
    exact absurd hu (hnone u)
  · intro u hu
    exact absurd hu (hnone u)
  · intro _
    refine ⟨rfl, ?_⟩
    -- what the worker has added is what the round counts
    have howes := h.owes t
    rw [hpc] at howes
    exact howes.trans (Nat.cast_succ s.rounds).symm
  · exact fun u => owes_of_outside (hnone u)

/-- **ONE OPERATION** of one worker keeps the invariant. -/
theorem spinInv_step (h : SpinInv s) (hmove : Move s t s') : SpinInv s' := by
  have howes := h.owes t
  cases hmove with
  | call hpc => exact h.goto_outside (by rw [hpc]; exact id) id
  | take hpc hfree => exact h.take hfree
  | fail hpc hheld =>
      -- the lock is held, so the exchange has written the 1 that was there
      have hone : s.locked = 1 := by
        by_contra hne
        refine hheld (h.free (fun u hu => hne (h.word u hu))).1
      have hsame : { s with locked := 1 } = s := by rw [← hone]
      rw [hsame]
      exact h.goto_outside (by rw [hpc]; exact id) id
  | wait hpc => exact h.goto_outside (by rw [hpc]; exact id) id
  | retry hpc => exact h.goto_outside (by rw [hpc]; exact id) id
  | read hpc =>
      rw [hpc] at howes
      exact h.goto_inside (p := .writeCounter s.counter) (by rw [hpc]; trivial) trivial s.counter
        ⟨howes, rfl⟩
  | write v hpc =>
      rw [hpc] at howes
      refine h.goto_inside (p := .unlock) (by rw [hpc]; trivial) trivial (v + 1) ?_
      show v + 1 = (s.rounds : α) + 1
      rw [howes.2, howes.1]
  | release hpc => exact h.release hpc

/-- The workers after an interleaving of their operations. -/
def runWorkers (T α : Type) [DecidableEq T] [AddMonoidWithOne α] (run : List T) : Workers T α :=
  Machine.exec workerStep (workersInit T α) run

/-- The invariant holds after every interleaving. -/
theorem spinInv_run (run : List T) : SpinInv (runWorkers T α run) := by
  refine Machine.exec_inv workerStep (I := SpinInv) ?_ run _ spinInv_init
  intro s t hs
  exact spinInv_step hs (workerStep_move s t)

/-- **NO LOST UPDATE**: in every interleaving at most one worker is inside, and
    whenever none is, the counter is the number of completed rounds and the
    lock is free. -/
theorem spinlock_no_lost_update (run : List T) :
    (∀ t u, Inside ((runWorkers T α run).pc t) → Inside ((runWorkers T α run).pc u) → t = u) ∧
      ((∀ t, ¬ Inside ((runWorkers T α run).pc t)) →
        (runWorkers T α run).counter = (runWorkers T α run).rounds ∧
        mcsSpinIsLocked (runWorkers T α run).locked = false) := by
  have h : SpinInv (runWorkers T α run) := spinInv_run run
  refine ⟨h.one, fun hnone => ⟨(h.free hnone).2, ?_⟩⟩
  rw [(h.free hnone).1]
  rfl

end Spinlock
