import Mcsos.ByteMemoryProofs

/-! # The scheduler, as `kernel/mcsos_thread.c` computes it

    One scheduler object and the thread objects in memory, each found by its
    address; the null pointer is address 0.  The scheduler pointer is always
    there, so the guards against its being null have no counterpart.

    A function that may fail returns its status together with the state it
    leaves.  `mcsos_sched_yield` is the bookkeeping it does before it calls
    `mcsos_context_switch`: a switch of registers follows exactly when the
    current thread has changed. -/

namespace SchedModel

open Word ByteMemory

/-- The tag of a thread object. -/
def MCSOS_THREAD_MAGIC : U64 := 0x4d43534f53544852
/-- A new stack starts at a multiple of 16. -/
def MCSOS_STACK_ALIGN : U64 := 16
/-- The smallest stack that a thread may be given. -/
def MCSOS_MIN_KERNEL_STACK : U64 := 4096

/-- `mcsos_thread_state_t`. -/
inductive ThreadState where
  | new
  | ready
  | running
  | blocked
  | zombie
deriving DecidableEq, Repr

/-- The failures of `mcsos_sched_result_t`; `MCSOS_SCHED_OK` is `Except.ok`. -/
inductive SchedErr where
  | einval
  | estate
  | estack
  | ecorrupt
deriving DecidableEq, Repr

/-- `mcsos_context_t`. -/
structure Context where
  rsp : U64
  rbp : U64
  rbx : U64
  r12 : U64
  r13 : U64
  r14 : U64
  r15 : U64
  rip : U64
deriving DecidableEq, Repr

/-- The context of a thread that has not been prepared. -/
def zeroContext : Context := ⟨0, 0, 0, 0, 0, 0, 0, 0⟩

/-- `mcsos_thread_t`: the fields the scheduler reads or counts in, and the saved registers. -/
structure Thread where
  magic : U64
  state : ThreadState
  context : Context
  next : U64
  switches : U64
  ticks : U64
deriving DecidableEq, Repr

/-- `mcsos_scheduler_t`. -/
structure Scheduler where
  current : U64
  idle : U64
  readyHead : U64
  readyTail : U64
  runnableCount : U64
  contextSwitches : U64
  ticks : U64
  initialized : Bool
deriving DecidableEq, Repr

/-- The scheduler, the thread objects by address, and the memory the stacks lie in. -/
structure SchedState where
  sched : Scheduler
  threads : U64 → Thread
  mem : Mem

/-- 0 or an error code. -/
abbrev SchedResult := Except SchedErr Unit

/-- Store a thread object. -/
def SchedState.setThread (s : SchedState) (p : U64) (t : Thread) : SchedState :=
  { s with threads := fun q => if q = p then t else s.threads q }

/-- Assign `thread->state`. -/
def SchedState.setState (s : SchedState) (p : U64) (st : ThreadState) : SchedState :=
  s.setThread p { s.threads p with state := st }

/-- Assign `thread->next`. -/
def SchedState.setNext (s : SchedState) (p q : U64) : SchedState :=
  s.setThread p { s.threads p with next := q }

/-- Count a switch of a thread. -/
def SchedState.addSwitch (s : SchedState) (p : U64) : SchedState :=
  s.setThread p { s.threads p with switches := (s.threads p).switches + 1 }

/-- Count a tick of a thread. -/
def SchedState.addTick (s : SchedState) (p : U64) : SchedState :=
  s.setThread p { s.threads p with ticks := (s.threads p).ticks + 1 }

/-- `align_down`. -/
def alignDown (value alignment : U64) : U64 := value &&& ~~~(alignment - 1)

/-- `valid_thread_object`: a pointer that is not null, to an object with the tag. -/
def validThreadObject (s : SchedState) (p : U64) : Bool :=
  p ≠ 0 && (s.threads p).magic == MCSOS_THREAD_MAGIC

/-- `sched->initialized` and a valid current thread, which most calls ask for. -/
def ready (s : SchedState) : Bool :=
  s.sched.initialized && validThreadObject s s.sched.current

/-- `mcsos_scheduler_init`: the boot thread runs, and is the idle thread. -/
def mcsosSchedulerInit (s : SchedState) (boot : U64) : SchedResult × SchedState :=
  if boot = 0 then (.error .einval, s)
  else
    (.ok (),
      { s.setThread boot
          { magic := MCSOS_THREAD_MAGIC, state := .running, context := zeroContext,
            next := 0, switches := 0, ticks := 0 } with
        sched :=
          { current := boot, idle := boot, readyHead := 0, readyTail := 0,
            runnableCount := 0, contextSwitches := 0, ticks := 0, initialized := true } })

/-- `mcsos_thread_prepare`; `trampoline` is the address of `mcsos_thread_trampoline`. -/
def mcsosThreadPrepare (trampoline : U64) (s : SchedState) (p entry stackBase stackSize : U64) :
    SchedResult × SchedState :=
  if p = 0 ∨ entry = 0 ∨ stackBase = 0 then (.error .einval, s)
  else if stackSize < MCSOS_MIN_KERNEL_STACK then (.error .estack, s)
  else
    let high := stackBase + stackSize
    if high ≤ stackBase then (.error .estack, s)
    else
      let top := alignDown high MCSOS_STACK_ALIGN
      if top ≤ stackBase + 128 then (.error .estack, s)
      else
        (.ok (),
          { s.setThread p
              { magic := MCSOS_THREAD_MAGIC, state := .new,
                context := { zeroContext with rsp := top - 8, rip := trampoline },
                next := 0, switches := 0, ticks := 0 } with
            mem := store64 s.mem (top - 8) 0 })

/-- The linking part of `mcsos_sched_enqueue`, after its two checks. -/
def appendReady (s : SchedState) (p : U64) : SchedState :=
  let s := (s.setState p .ready).setNext p 0
  let s :=
    if s.sched.readyTail = 0 then
      { s with sched := { s.sched with readyHead := p, readyTail := p } }
    else
      let s := s.setNext s.sched.readyTail p
      { s with sched := { s.sched with readyTail := p } }
  { s with sched := { s.sched with runnableCount := s.sched.runnableCount + 1 } }

/-- `mcsos_sched_enqueue`; a thread that is already queued is taken once more. -/
def mcsosSchedEnqueue (s : SchedState) (p : U64) : SchedResult × SchedState :=
  if !s.sched.initialized || !validThreadObject s p then (.error .einval, s)
  else
    match (s.threads p).state with
    | .new | .ready | .blocked => (.ok (), appendReady s p)
    | .running | .zombie => (.error .estate, s)

/-- Take the head `t` out of a ready list that is not empty. -/
def popReady (s : SchedState) (t : U64) : SchedState :=
  let head := (s.threads t).next
  let s := { s with sched := { s.sched with readyHead := head } }
  let s := if head = 0 then { s with sched := { s.sched with readyTail := 0 } } else s
  let s := s.setNext t 0
  if 0 < s.sched.runnableCount then
    { s with sched := { s.sched with runnableCount := s.sched.runnableCount - 1 } }
  else s

/-- `mcsos_sched_pick_next`: the head of the queue, or the idle thread. -/
def mcsosSchedPickNext (s : SchedState) : U64 × SchedState :=
  if !s.sched.initialized then (0, s)
  else if s.sched.readyHead = 0 then (s.sched.idle, s)
  else (s.sched.readyHead, popReady s s.sched.readyHead)

/-- The end of `mcsos_sched_yield`: `next` becomes current. -/
def switchTo (s : SchedState) (old next : U64) : SchedState :=
  let s := s.setState next .running
  let s := { s with sched := { s.sched with current := next } }
  let s := (s.addSwitch old).addSwitch next
  { s with sched := { s.sched with contextSwitches := s.sched.contextSwitches + 1 } }

/-- `mcsos_sched_yield`: the thread that runs is queued unless it is idle or has blocked. -/
def mcsosSchedYield (s : SchedState) : SchedResult × SchedState :=
  if !ready s then (.error .einval, s)
  else
    let old := s.sched.current
    let (next, s) := mcsosSchedPickNext s
    if !validThreadObject s next then (.error .ecorrupt, s)
    else if next = old then (.ok (), s.setState old .running)
    else if (s.threads old).state = .running ∧ old ≠ s.sched.idle then
      match mcsosSchedEnqueue (s.setState old .ready) old with
      | (.ok (), s) => (.ok (), switchTo s old next)
      | (.error e, s) => (.error e, s)
    else (.ok (), switchTo s old next)

/-- `mcsos_sched_tick`, which only counts. -/
def mcsosSchedTick (s : SchedState) : SchedResult × SchedState :=
  if !ready s then (.error .einval, s)
  else
    let s := { s with sched := { s.sched with ticks := s.sched.ticks + 1 } }
    (.ok (), s.addTick s.sched.current)

/-- `mcsos_thread_block_current`; the idle thread does not block. -/
def mcsosThreadBlockCurrent (s : SchedState) : SchedResult × SchedState :=
  if !ready s then (.error .einval, s)
  else if s.sched.current = s.sched.idle then (.error .estate, s)
  else mcsosSchedYield (s.setState s.sched.current .blocked)

/-- `mcsos_thread_mark_ready`, for blocked threads only. -/
def mcsosThreadMarkReady (s : SchedState) (p : U64) : SchedResult × SchedState :=
  if !validThreadObject s p then (.error .einval, s)
  else if (s.threads p).state ≠ .blocked then (.error .estate, s)
  else mcsosSchedEnqueue s p

/-- Rounds that outlast every chain of distinct addresses: a walk that needs
    more goes round in a cycle and never ends. -/
def SCHED_ROUNDS : Nat := 2 ^ 64

/-- The `while` of `mcsos_sched_ready_count`; `none` when the rounds run out. -/
def countLoop (s : SchedState) : Nat → U64 → U64 → Option U64
  | 0, _, _ => none
  | rounds + 1, c, n => if c = 0 then some n else countLoop s rounds (s.threads c).next (n + 1)

/-- `mcsos_sched_ready_count`; `none` is a walk that does not end. -/
def mcsosSchedReadyCount (s : SchedState) : Option U64 :=
  if !s.sched.initialized then some 0 else countLoop s SCHED_ROUNDS s.sched.readyHead 0

/-- The `while` of `mcsos_sched_validate` and the two checks behind it; `none`
    when the rounds run out. -/
def validateLoop (s : SchedState) : Nat → U64 → U64 → U64 → Option SchedResult
  | 0, _, _, _ => none
  | rounds + 1, cursor, last, count =>
      if cursor = 0 then
        if last ≠ s.sched.readyTail then some (.error .ecorrupt)
        else if count ≠ s.sched.runnableCount then some (.error .ecorrupt)
        else some (.ok ())
      else if !validThreadObject s cursor ∨ (s.threads cursor).state ≠ .ready then
        some (.error .ecorrupt)
      else if cursor = s.sched.current then some (.error .ecorrupt)
      else if s.sched.runnableCount + 1 < count + 1 then some (.error .ecorrupt)
      else validateLoop s rounds (s.threads cursor).next cursor (count + 1)

/-- `mcsos_sched_validate`; `none` is a walk that does not end. -/
def mcsosSchedValidate (s : SchedState) : Option SchedResult :=
  if !ready s then some (.error .einval)
  else validateLoop s SCHED_ROUNDS s.sched.readyHead 0 0

end SchedModel
