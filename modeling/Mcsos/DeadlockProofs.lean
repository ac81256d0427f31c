import Mcsos.LockdepProofs
import Mathlib.Logic.Relation

/-! # Lock ordering rules out deadlock

    Any number of threads, each with a lockdep state of its own, and any number
    of spinlocks, each of a class.  Before it waits for a lock a thread calls
    `mcs_lockdep_before_acquire` for the class of that lock, and waits only if
    the answer is `MCS_SYNC_OK`; it then tries the lock until it gets it.

    The stack of a thread covers the classes of the locks it holds, also after
    releases that lockdep refused.  So a thread waits only for a lock whose
    class is above those of all locks it holds, and along a chain of waiting
    threads the classes rise: the chain does not close.

    That the wait follows its own call directly is needed.  With `LooseStep` a
    thread collects the answers first and waits later, which lockdep cannot see,
    and two threads can then close a cycle. -/

namespace Deadlock

open Word Function SyncModel Lockdep

variable {T L : Type}

/-- The threads and the locks.  `holds` is no part of the code: a thread holds
    a lock from the exchange that took it to its unlock. -/
structure LockSys (T L : Type) where
  dep : T → Lockdep
  locked : L → U32
  holds : T → L → Bool
  waiting : T → Option L

/-- Nothing is held, and nobody waits. -/
def lockInit (T L : Type) : LockSys T L where
  dep := fun _ => mcsLockdepInit
  locked := fun _ => mcsSpinInit
  holds := fun _ _ => false
  waiting := fun _ => none

/-- One step of one thread; `cls` is the class of a lock. -/
inductive LockStep [DecidableEq T] [DecidableEq L] (cls : L → U32) (s : LockSys T L) :
    LockSys T L → Prop where
  /-- `mcs_lockdep_before_acquire` answers OK and the thread starts to wait. -/
  | acquire (t : T) (l : L) (hrun : s.waiting t = none)
      (hok : (mcsLockdepBeforeAcquire (s.dep t) (cls l)).1 = .ok ()) :
      LockStep cls s { s with
        dep := update s.dep t (mcsLockdepBeforeAcquire (s.dep t) (cls l)).2
        waiting := update s.waiting t (some l) }
  /-- The thread asks lockdep about a class and does not wait, whatever the answer. -/
  | announce (t : T) (c : U32) (hrun : s.waiting t = none) :
      LockStep cls s { s with dep := update s.dep t (mcsLockdepBeforeAcquire (s.dep t) c).2 }
  /-- The exchange finds the lock free. -/
  | take (t : T) (l : L) (hwait : s.waiting t = some l)
      (hfree : (mcsSpinTryLock (s.locked l)).1 = true) :
      LockStep cls s { s with
        locked := update s.locked l (mcsSpinTryLock (s.locked l)).2
        holds := update s.holds t (update (s.holds t) l true)
        waiting := update s.waiting t none }
  /-- The exchange finds the lock taken, and the thread goes on spinning. -/
  | spin (t : T) (l : L) (hwait : s.waiting t = some l)
      (hheld : (mcsSpinTryLock (s.locked l)).1 = false) :
      LockStep cls s { s with locked := update s.locked l (mcsSpinTryLock (s.locked l)).2 }
  | unlock (t : T) (l : L) (hrun : s.waiting t = none) (hheld : s.holds t l = true) :
      LockStep cls s { s with
        locked := update s.locked l mcsSpinUnlock
        holds := update s.holds t (update (s.holds t) l false) }
  /-- `mcs_lockdep_after_release`, once the locks of the class are unlocked. -/
  | release (t : T) (c : U32) (hrun : s.waiting t = none)
      (hunlocked : ∀ l, s.holds t l = true → cls l ≠ c) :
      LockStep cls s { s with dep := update s.dep t (mcsLockdepAfterRelease (s.dep t) c).2 }

/-- Thread `t` waits for a lock that `u` holds. -/
def WaitsFor (s : LockSys T L) (t u : T) : Prop :=
  ∃ l, s.waiting t = some l ∧ s.holds u l = true

variable {cls : L → U32} {s s' : LockSys T L} {t u : T} {l : L}

/-- **THE THREAD INVARIANT**, about one thread's own state. -/
structure ThreadInv (cls : L → U32) (d : SyncModel.Lockdep) (holds : L → Bool)
    (waiting : Option L) : Prop where
  increasing : Increasing d
  covered : ∀ l, holds l = true → OnStack d (cls l)
  announced : ∀ l, waiting = some l → OnStack d (cls l)
  above : ∀ l, waiting = some l → ∀ k, holds k = true → cls k < cls l

/-- Every thread's stack of classes covers what it holds and waits for. -/
def LockInv (cls : L → U32) (s : LockSys T L) : Prop :=
  ∀ t, ThreadInv cls (s.dep t) (s.holds t) (s.waiting t)

/-- The invariant holds at the start. -/
theorem lockInv_init : LockInv cls (lockInit T L) := by
  intro t
  refine ⟨increasing_init, ?_, ?_, ?_⟩
  · intro l hl
    cases hl
  · intro l hl
    cases hl
  · intro l hl
    cases hl

/-! ## Wait-for chains -/

/-- The class a waiting thread waits for. -/
def awaited (cls : L → U32) (s : LockSys T L) (t : T) : U32 := ((s.waiting t).map cls).getD 0

/-- A thread that waits for a waiting thread waits for a lower class. -/
theorem awaited_lt (h : LockInv cls s) {v : T} (htu : WaitsFor s t u) (huv : WaitsFor s u v) :
    awaited cls s t < awaited cls s u := by
  obtain ⟨l, hwait, hheld⟩ := htu
  obtain ⟨k, hwait', -⟩ := huv
  unfold awaited
  rw [hwait, hwait']
  exact (h u).above k hwait' l hheld

/-- The awaited classes rise along a chain whose last thread waits too. -/
theorem awaited_lt_of_chain (h : LockInv cls s) (hchain : Relation.TransGen (WaitsFor s) t u) :
    ∀ {v}, WaitsFor s u v → awaited cls s t < awaited cls s u := by
  induction hchain with
  | single htu => exact fun huv => awaited_lt h htu huv
  | tail _ hstep ih => exact fun huv => BitVec.lt_trans (ih hstep) (awaited_lt h hstep huv)

/-! ## One thread's steps -/

section Thread

variable {d : SyncModel.Lockdep} {holds : L → Bool} {c : U32}

/-- An accepted call pushes the class of the lock the thread then waits for. -/
theorem ThreadInv.acquire (h : ThreadInv cls d holds none)
    (hok : (mcsLockdepBeforeAcquire d (cls l)).1 = .ok ()) :
    ThreadInv cls (mcsLockdepBeforeAcquire d (cls l)).2 holds (some l) := by
  rcases beforeAcquire_cases d (cls l) with ⟨hno, -⟩ | ⟨heq, -, hroom, hnew, htop⟩
  · exact absurd hok hno
  have habove : ∀ x, OnStack d x → x < cls l := fun x hx => onStack_lt h.increasing hnew htop hx
  rw [heq]
  refine ⟨push_increasing hroom h.increasing habove, ?_, ?_, ?_⟩
  · exact fun k hk => (push_onStack hroom).mpr (Or.inr (h.covered k hk))
  · intro k hk
    cases hk
    exact (push_onStack hroom).mpr (Or.inl rfl)
  · intro k hk m hm
    cases hk
    exact habove _ (h.covered m hm)

/-- A refused call leaves the stack as it is. -/
theorem ThreadInv.refused (h : ThreadInv cls d holds none) (c : U32) :
    ThreadInv cls (Lockdep.refused d c) holds none :=
  ⟨(sameStack_refused d c).increasing h.increasing,
    fun k hk => (sameStack_refused d c).onStack (h.covered k hk),
    (fun k hk => by cases hk), (fun k hk => by cases hk)⟩

/-- A call without a lock pushes a class or is refused. -/
theorem ThreadInv.announce (h : ThreadInv cls d holds none) :
    ThreadInv cls (mcsLockdepBeforeAcquire d c).2 holds none := by
  rcases beforeAcquire_cases d c with ⟨-, heq⟩ | ⟨heq, -, hroom, hnew, htop⟩
  · rw [heq]
    exact h.refused c
  · rw [heq]
    exact ⟨push_increasing hroom h.increasing (fun x hx => onStack_lt h.increasing hnew htop hx),
      fun k hk => (push_onStack hroom).mpr (Or.inr (h.covered k hk)), (fun k hk => by cases hk),
      (fun k hk => by cases hk)⟩

/-- A class is popped when no lock of it is held any more. -/
theorem ThreadInv.release (h : ThreadInv cls d holds none)
    (hunlocked : ∀ l, holds l = true → cls l ≠ c) :
    ThreadInv cls (mcsLockdepAfterRelease d c).2 holds none := by
  rcases afterRelease_cases d c with ⟨-, heq⟩ | ⟨heq, hpos, htop⟩
  · rw [heq]
    exact h.refused c
  · rw [heq]
    refine ⟨pop_increasing hpos h.increasing, ?_, (fun k hk => by cases hk),
      (fun k hk => by cases hk)⟩
    intro k hk
    rw [pop_onStack hpos h.increasing, htop]
    exact ⟨h.covered k hk, hunlocked k hk⟩

variable [DecidableEq L]

/-- The lock that was waited for is held, with the same class on the stack. -/
theorem ThreadInv.take (h : ThreadInv cls d holds (some l)) :
    ThreadInv cls d (update holds l true) none := by
  refine ⟨h.increasing, ?_, (fun k hk => by cases hk), (fun k hk => by cases hk)⟩
  intro k hk
  by_cases hkl : k = l
  · rw [hkl]
    exact h.announced l rfl
  · rw [update_of_ne hkl] at hk
    exact h.covered k hk

/-- A lock that is given up leaves its class on the stack until it is released. -/
theorem ThreadInv.unlock (h : ThreadInv cls d holds none) :
    ThreadInv cls d (update holds l false) none := by
  refine ⟨h.increasing, ?_, (fun k hk => by cases hk), (fun k hk => by cases hk)⟩
  intro k hk
  by_cases hkl : k = l
  · rw [hkl, update_self] at hk
    cases hk
  · rw [update_of_ne hkl] at hk
    exact h.covered k hk

end Thread

/-! ## Steps of the system -/

variable [DecidableEq T]

/-- A step of `t` has to be checked for `t` alone. -/
theorem lockInv_of_thread {dep : T → SyncModel.Lockdep} {holds : T → L → Bool}
    {waiting : T → Option L} {locked : L → U32} (h : LockInv cls s) (t : T)
    (hself : ThreadInv cls (dep t) (holds t) (waiting t))
    (hdep : ∀ u, u ≠ t → dep u = s.dep u) (hholds : ∀ u, u ≠ t → holds u = s.holds u)
    (hwaiting : ∀ u, u ≠ t → waiting u = s.waiting u) :
    LockInv cls { dep := dep, locked := locked, holds := holds, waiting := waiting } := by
  intro u
  by_cases hut : u = t
  · rw [hut]
    exact hself
  · show ThreadInv cls (dep u) (holds u) (waiting u)
    rw [hdep u hut, hholds u hut, hwaiting u hut]
    exact h u

variable [DecidableEq L]

/-- **ONE STEP** of one thread keeps the invariant of all. -/
theorem lockInv_step (h : LockInv cls s) (hstep : LockStep cls s s') : LockInv cls s' := by
  cases hstep with
  | acquire t l hrun hok =>
      have ht := h t
      rw [hrun] at ht
      refine lockInv_of_thread h t ?_ (fun u hu => update_of_ne hu _ _) (fun _ _ => rfl)
        (fun u hu => update_of_ne hu _ _)
      rw [update_self, update_self]
      exact ht.acquire hok
  | announce t c hrun =>
      have ht := h t
      rw [hrun] at ht
      refine lockInv_of_thread h t ?_ (fun u hu => update_of_ne hu _ _) (fun _ _ => rfl)
        (fun _ _ => rfl)
      rw [update_self, hrun]
      exact ht.announce
  | take t l hwait hfree =>
      have ht := h t
      rw [hwait] at ht
      refine lockInv_of_thread h t ?_ (fun _ _ => rfl) (fun u hu => update_of_ne hu _ _)
        (fun u hu => update_of_ne hu _ _)
      rw [update_self, update_self]
      exact ht.take
  | spin t l hwait hheld =>
      exact lockInv_of_thread h t (h t) (fun _ _ => rfl) (fun _ _ => rfl) (fun _ _ => rfl)
  | unlock t l hrun hheld =>
      have ht := h t
      rw [hrun] at ht
      refine lockInv_of_thread h t ?_ (fun _ _ => rfl) (fun u hu => update_of_ne hu _ _)
        (fun _ _ => rfl)
      rw [update_self, hrun]
      exact ht.unlock
  | release t c hrun hunlocked =>
      have ht := h t
      rw [hrun] at ht
      refine lockInv_of_thread h t ?_ (fun u hu => update_of_ne hu _ _) (fun _ _ => rfl)
        (fun _ _ => rfl)
      rw [update_self, hrun]
      exact ht.release hunlocked

/-- The invariant holds in every state that threads of this discipline can reach. -/
theorem lockInv_reach (h : Relation.ReflTransGen (LockStep cls) (lockInit T L) s) :
    LockInv cls s := by
  induction h with
  | refl => exact lockInv_init
  | tail _ hstep ih => exact lockInv_step ih hstep

/-- **NO DEADLOCK**: no reachable state has a cycle of threads, of any length,
    each waiting for a lock that the next one holds. -/
theorem lockdep_no_deadlock (cls : L → U32)
    (h : Relation.ReflTransGen (LockStep cls) (lockInit T L) s) (t : T) :
    ¬ Relation.TransGen (WaitsFor s) t t := by
  intro hcycle
  obtain ⟨v, hwaits, -⟩ := Relation.TransGen.head'_iff.mp hcycle
  exact BitVec.lt_irrefl _ (awaited_lt_of_chain (lockInv_reach h) hcycle hwaits)

/-- One thread takes the only lock, and another waits for it. -/
theorem lockdep_no_deadlock_waiting :
    ∃ s : LockSys Bool Unit, Relation.ReflTransGen (LockStep (fun _ => 1)) (lockInit Bool Unit) s ∧
      WaitsFor s false true ∧ ∀ t, ¬ Relation.TransGen (WaitsFor s) t t := by
  have h0 : Relation.ReflTransGen (LockStep (fun _ => 1)) (lockInit Bool Unit)
      (lockInit Bool Unit) := .refl
  have h1 := h0.tail (.acquire true () rfl (by decide))
  have h2 := h1.tail (.take true () (by decide) (by decide))
  have h3 := h2.tail (.acquire false () (by decide) (by decide))
  exact ⟨_, h3, ⟨(), by decide, by decide⟩, lockdep_no_deadlock (fun _ => 1) h3⟩

/-! ## Waits that rest on an earlier answer -/

/-- The system, and for which classes each thread has an `MCS_SYNC_OK` that it
    has not used yet. -/
structure LooseSys (T L : Type) where
  sys : LockSys T L
  granted : T → U32 → Bool

/-- No call has been accepted yet. -/
def looseInit (T L : Type) : LooseSys T L := ⟨lockInit T L, fun _ _ => false⟩

/-- A thread may do all of the above; and it may call `mcs_lockdep_before_acquire`
    now, and start the one wait that an answer of OK stands for at any later time. -/
inductive LooseStep (cls : L → U32) (s : LooseSys T L) : LooseSys T L → Prop where
  | ask (t : T) (c : U32) (hrun : s.sys.waiting t = none)
      (hok : (mcsLockdepBeforeAcquire (s.sys.dep t) c).1 = .ok ()) :
      LooseStep cls s ⟨{ s.sys with
          dep := update s.sys.dep t (mcsLockdepBeforeAcquire (s.sys.dep t) c).2 },
        update s.granted t (update (s.granted t) c true)⟩
  | wait (t : T) (l : L) (hrun : s.sys.waiting t = none) (hgranted : s.granted t (cls l) = true) :
      LooseStep cls s ⟨{ s.sys with waiting := update s.sys.waiting t (some l) },
        update s.granted t (update (s.granted t) (cls l) false)⟩
  | lock {s' : LockSys T L} (h : LockStep cls s.sys s') : LooseStep cls s ⟨s', s.granted⟩

/-- Two locks, the one of class 10 and the one of class 20. -/
def twoClasses (l : Bool) : U32 := if l then 20 else 10

/-- **DEADLOCK**: thread `true` asks for both classes and takes the lock of class 20;
    thread `false` takes the lock of class 10, in order, and asks for class 20.  Now each
    waits for the lock that the other holds.  Every wait has an answer of OK of its own,
    and lockdep has counted no violation. -/
theorem lockdep_early_answers_deadlock :
    ∃ s : LooseSys Bool Bool,
      Relation.ReflTransGen (LooseStep twoClasses) (looseInit Bool Bool) s ∧
      Relation.TransGen (WaitsFor s.sys) true true ∧
      ∀ t, (s.sys.dep t).violationCount = 0 := by
  have h₀ : Relation.ReflTransGen (LooseStep twoClasses) (looseInit Bool Bool)
      (looseInit Bool Bool) := .refl
  have h₁ := h₀.tail (.ask true 10 rfl (by decide))
  have h₂ := h₁.tail (.ask true 20 (by decide) (by decide))
  have h₃ := h₂.tail (.wait true true (by decide) (by decide))
  have h₄ := h₃.tail (.lock (.take true true (by decide) (by decide)))
  have h₅ := h₄.tail (.lock (.acquire false false (by decide) (by decide)))
  have h₆ := h₅.tail (.lock (.take false false (by decide) (by decide)))
  have h₇ := h₆.tail (.ask false 20 (by decide) (by decide))
  -- the answer for class 10 is from before thread `true` held anything
  have h₈ := h₇.tail (.wait true false (by decide) (by decide))
  have h₉ := h₈.tail (.wait false true (by decide) (by decide))
  refine ⟨_, h₉, Relation.TransGen.tail (b := false) (.single ?_) ?_, ?_⟩
  · exact ⟨false, by decide, by decide⟩
  · exact ⟨true, by decide, by decide⟩
  · intro t
    cases t with
    | false => decide
    | true => decide

end Deadlock
