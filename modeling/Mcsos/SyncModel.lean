import Mcsos.WordProofs
import Mathlib.Logic.Function.Basic

/-! # Locks, as `kernel/sync/spinlock.c`, `mutex.c` and `lockdep.c` compute them

    The atomic operations on a lock word are functions on the word.  A call
    that takes several of them is a walk through places (`MutexPc`, `WorkerPc`),
    one atomic operation from each place to the next, so that any number of
    threads may be interleaved between any two of them.  Operations are
    sequentially consistent.  Lock names are never read and are left out; the
    lock and state pointers are always there. -/

namespace SyncModel

open Word Function

/-- The failures of the sync calls; `MCS_SYNC_OK` is `Except.ok`. -/
inductive SyncErr where
  | einval
  | ebusy
  | eperm
  | edeadlk
  | eoverflow
deriving DecidableEq, Repr

/-- 0 or an error code. -/
abbrev SyncResult := Except SyncErr Unit

variable {T : Type} [DecidableEq T]

/-! ## Lockdep -/

/-- The length of `held_class`. -/
def MCS_LOCKDEP_MAX_HELD : Nat := 16

/-- `mcs_lockdep_state_t`; the array has the entries below `MCS_LOCKDEP_MAX_HELD`. -/
structure Lockdep where
  heldClass : Nat → U32
  depth : U32
  violationCount : U32

/-- `mcs_lockdep_init`. -/
def mcsLockdepInit : Lockdep := ⟨fun _ => 0, 0, 0⟩

/-- `held_class[i] == class_id` for some `i < bound`. -/
def classAmong (d : Lockdep) (bound : Nat) (c : U32) : Bool :=
  (List.range bound).any (fun i => d.heldClass i == c)

/-- `mcs_lockdep_is_held`, which looks at no entry behind the array. -/
def mcsLockdepIsHeld (d : Lockdep) (c : U32) : Bool :=
  c ≠ 0 && classAmong d (min d.depth.toNat MCS_LOCKDEP_MAX_HELD) c

/-- Count a violation. -/
def Lockdep.violation (d : Lockdep) : Lockdep :=
  { d with violationCount := d.violationCount + 1 }

/-- `mcs_lockdep_before_acquire`: a class that is above the last one held is pushed; anything else
    but the class 0 is counted as a violation. -/
def mcsLockdepBeforeAcquire (d : Lockdep) (c : U32) : SyncResult × Lockdep :=
  if c = 0 then (.error .einval, d)
  else if MCS_LOCKDEP_MAX_HELD ≤ d.depth.toNat then (.error .eoverflow, d.violation)
  else if classAmong d d.depth.toNat c then (.error .edeadlk, d.violation)
  else if 0 < d.depth ∧ c < d.heldClass (d.depth - 1).toNat then (.error .edeadlk, d.violation)
  else
    (.ok (), { d with
      heldClass := update d.heldClass d.depth.toNat c
      depth := d.depth + 1 })

/-- `mcs_lockdep_after_release`: only the class held last can be released. -/
def mcsLockdepAfterRelease (d : Lockdep) (c : U32) : SyncResult × Lockdep :=
  if c = 0 then (.error .einval, d)
  else if d.depth = 0 then (.error .eperm, d.violation)
  else
    let index := d.depth - 1
    if d.heldClass index.toNat ≠ c then (.error .edeadlk, d.violation)
    else
      (.ok (), { d with
        heldClass := update d.heldClass index.toNat 0
        depth := d.depth - 1 })

/-! ## Spinlock -/

/-- `mcs_spin_init`. -/
def mcsSpinInit : U32 := 0

/-- The exchange of `mcs_spin_try_lock`: whether the lock was free, and the word it leaves. -/
def mcsSpinTryLock (locked : U32) : Bool × U32 := (locked == 0, 1)

/-- A free lock is taken. -/
theorem mcsSpinTryLock_free {locked : U32} (h : locked = 0) :
    mcsSpinTryLock locked = (true, 1) := by
  rw [mcsSpinTryLock, beq_iff_eq.mpr h]

/-- A lock that is held is written all the same, with the value it has. -/
theorem mcsSpinTryLock_held {locked : U32} (h : locked ≠ 0) :
    mcsSpinTryLock locked = (false, 1) := by
  rw [mcsSpinTryLock, beq_eq_false_iff_ne.mpr h]

/-- `mcs_spin_unlock`. -/
def mcsSpinUnlock : U32 := 0

/-- `mcs_spin_is_locked`. -/
def mcsSpinIsLocked (locked : U32) : Bool := locked != 0

/-- Where a worker is: outside, in `mcs_spin_lock`, at its accesses to the
    counter, or at the store of `mcs_spin_unlock`. -/
inductive WorkerPc (α : Type) where
  | outside
  | exchange
  | spin
  | readCounter
  | writeCounter (v : α)
  | unlock
deriving DecidableEq, Repr

/-- Workers that add to a counter under a spinlock, with the rounds they completed. -/
structure Workers (T α : Type) where
  locked : U32
  counter : α
  rounds : Nat
  pc : T → WorkerPc α

/-- Let a worker go on at another place. -/
def Workers.goto {α : Type} (s : Workers T α) (t : T) (p : WorkerPc α) : Workers T α :=
  { s with pc := update s.pc t p }

/-- Every worker is outside, and nothing has been counted. -/
def workersInit (T α : Type) [Zero α] : Workers T α where
  locked := mcsSpinInit
  counter := 0
  rounds := 0
  pc := fun _ => .outside

/-- The next atomic operation of worker `t`. -/
def workerStep {α : Type} [Add α] [One α] (s : Workers T α) (t : T) : Unit × Workers T α :=
  ((), match s.pc t with
    | .outside => s.goto t .exchange
    | .exchange =>
        let (free, locked) := mcsSpinTryLock s.locked
        { s with locked := locked }.goto t (if free then .readCounter else .spin)
    -- the inner loop of `mcs_spin_lock` only reads
    | .spin => s.goto t (if mcsSpinIsLocked s.locked then .spin else .exchange)
    | .readCounter => s.goto t (.writeCounter s.counter)
    | .writeCounter v => { s with counter := v + 1 }.goto t .unlock
    | .unlock => { s with locked := mcsSpinUnlock, rounds := s.rounds + 1 }.goto t .outside)

/-! ## Mutex -/

/-- The calls that a thread can make on the mutex. -/
inductive MutexCall where
  | tryLock
  | unlock
deriving DecidableEq, Repr

/-- Where a thread is: outside, before the compare-exchange, the load and the
    store of `owner` in `mcs_mutex_try_lock`, or before the load of `owner` and
    the two stores of `mcs_mutex_unlock`. -/
inductive MutexPc where
  | outside
  | compareExchange
  | loadOwner
  | storeOwner
  | checkOwner
  | clearOwner
  | clearLocked
deriving DecidableEq, Repr

/-- One mutex and its threads.  `holds` is no part of the code: a thread holds
    the mutex from the compare-exchange that took it to the store that frees it. -/
structure MutexSys (T : Type) where
  locked : U32
  owner : U64
  pc : T → MutexPc
  holds : T → Bool

/-- Let a thread go on at another place. -/
def MutexSys.goto (s : MutexSys T) (t : T) (p : MutexPc) : MutexSys T :=
  { s with pc := update s.pc t p }

/-- `mcs_mutex_init`, before any thread has called. -/
def mutexInit (T : Type) : MutexSys T where
  locked := 0
  owner := 0
  pc := fun _ => .outside
  holds := fun _ => false

/-- The next atomic operation of thread `t`, whose next call is `call` if it is
    outside; the answer, if the operation ends a call. -/
def mutexStep (id : T → U64) (s : MutexSys T) :
    T × MutexCall → Option (MutexCall × SyncResult) × MutexSys T
  | (t, call) =>
      match s.pc t with
      | .outside =>
          if id t = 0 then (some (call, .error .einval), s)
          else
            match call with
            | .tryLock => (none, s.goto t .compareExchange)
            | .unlock => (none, s.goto t .checkOwner)
      | .compareExchange =>
          if s.locked = 0 then
            (none, { s with locked := 1, holds := update s.holds t true }.goto t .storeOwner)
          else (none, s.goto t .loadOwner)
      | .loadOwner =>
          if s.owner = id t then (some (.tryLock, .error .edeadlk), s.goto t .outside)
          else (some (.tryLock, .error .ebusy), s.goto t .outside)
      | .storeOwner => (some (.tryLock, .ok ()), { s with owner := id t }.goto t .outside)
      | .checkOwner =>
          if s.owner ≠ id t then (some (.unlock, .error .eperm), s.goto t .outside)
          else (none, s.goto t .clearOwner)
      | .clearOwner => (none, { s with owner := 0 }.goto t .clearLocked)
      | .clearLocked =>
          (some (.unlock, .ok ()),
            { s with locked := 0, holds := update s.holds t false }.goto t .outside)

end SyncModel
