import Mcsos.SchedQueueProofs

/-! # What the scheduler checker decides

    `mcsos_sched_validate` follows the links of the ready list in whatever
    thread objects there are, with the counter of the scheduler as its only
    bound.  If it answers OK, then the chain it followed ends, and is what the
    scheduler says it is; on such a chain it does answer OK.

    The walk stops once it is longer than `runnable_count + 1`.  That bound is
    one that a count can exceed unless it is the largest word, so there is one
    value of the counter, `2^64 - 2`, with which a cycle is followed for ever. -/

namespace SchedChecker

open Word SchedModel SchedQueue LinkedChain

variable {s : SchedState} {c last count x : U64} {rounds : Nat}

/-- What an element of the ready list has to be. -/
def Waiting (s : SchedState) (x : U64) : Prop :=
  validThreadObject s x = true ∧ (s.threads x).state = .ready ∧ x ≠ s.sched.current

/-- What the checker is to decide: an initialised scheduler with a valid current
    thread, and a finite chain with the count and the tail it has. -/
structure WellFormed (s : SchedState) : Prop where
  initialized : s.sched.initialized = true
  current : validThreadObject s s.sched.current = true
  chain : ∃ l, Linked (fun p => (s.threads p).next) 0 s.sched.readyHead l ∧
    l.length = s.sched.runnableCount.toNat ∧ (∀ x ∈ l, Waiting s x) ∧
    l.getLast?.getD 0 = s.sched.readyTail

/-! ## A round of the walk -/

/-- The end of the chain: what was counted is compared. -/
theorem validateLoop_zero :
    validateLoop s (rounds + 1) 0 last count = some (.ok ()) ↔
      last = s.sched.readyTail ∧ count = s.sched.runnableCount := by
  rw [validateLoop, if_pos rfl]
  by_cases htail : last = s.sched.readyTail
  · rw [if_neg (not_not.mpr htail)]
    by_cases hcount : count = s.sched.runnableCount
    · rw [if_neg (not_not.mpr hcount)]
      exact iff_of_true rfl ⟨htail, hcount⟩
    · rw [if_pos hcount]
      exact iff_of_false (fun h => by cases h) (fun h => hcount h.2)
  · rw [if_pos htail]
    exact iff_of_false (fun h => by cases h) (fun h => htail h.1)

/-- **ROUND**: an element is refused, or the walk goes on behind it. -/
theorem validateLoop_cases (hc : c ≠ 0) :
    validateLoop s (rounds + 1) c last count = some (.error .ecorrupt) ∨
    (Waiting s c ∧ ¬ s.sched.runnableCount + 1 < count + 1 ∧
      validateLoop s (rounds + 1) c last count
        = validateLoop s rounds (s.threads c).next c (count + 1)) := by
  rw [validateLoop, if_neg hc]
  by_cases hobject : validThreadObject s c = true ∧ (s.threads c).state = .ready
  · rw [if_neg (by simp [hobject.1, hobject.2])]
    by_cases hcurrent : c = s.sched.current
    · exact Or.inl (if_pos hcurrent)
    · rw [if_neg hcurrent]
      by_cases hbound : s.sched.runnableCount + 1 < count + 1
      · exact Or.inl (if_pos hbound)
      · exact Or.inr ⟨⟨hobject.1, hobject.2, hcurrent⟩, hbound, if_neg hbound⟩
  · refine Or.inl (if_pos ?_)
    rcases not_and_or.mp hobject with h | h
    · exact Or.inl (by simpa using h)
    · exact Or.inr h

/-! ## Soundness -/

/-- **SOUND**: a walk that answers OK has followed a chain to its end. -/
theorem validateLoop_sound (h : validateLoop s rounds c last count = some (.ok ())) :
    ∃ l, Linked (fun p => (s.threads p).next) 0 c l ∧ (∀ x ∈ l, Waiting s x) ∧
      l.getLast?.getD last = s.sched.readyTail ∧
      s.sched.runnableCount = count + BitVec.ofNat 64 l.length := by
  -- the list is collected while the rounds run down
  induction rounds generalizing c last count with
  | zero => cases h
  | succ rounds ih =>
      by_cases hc : c = 0
      · subst hc
        obtain ⟨htail, hcount⟩ := validateLoop_zero.mp h
        exact ⟨[], rfl, fun x hx => absurd hx List.not_mem_nil, htail, by simp [hcount]⟩
      · rcases validateLoop_cases (s := s) hc with hbad | ⟨hwait, -, hgo⟩
        · rw [hbad] at h
          cases h
        · rw [hgo] at h
          obtain ⟨l, hlink, hall, htail, hcount⟩ := ih h
          refine ⟨c :: l, ⟨rfl, hc, hlink⟩, ?_, ?_, ?_⟩
          · intro x hx
            rcases List.mem_cons.mp hx with rfl | hmem
            · exact hwait
            · exact hall x hmem
          · rw [← htail, List.getLast?_cons]
            rfl
          · rw [hcount, List.length_cons]
            bv_omega

/-- **OK MEANS WELL FORMED**, whatever the counter is. -/
theorem mcsosSchedValidate_ok_iff : mcsosSchedValidate s = some (.ok ()) ↔ WellFormed s := by
  constructor
  · intro h
    rw [mcsosSchedValidate] at h
    cases hready : ready s with
    | false =>
        rw [hready, if_pos (by decide)] at h
        cases h
    | true =>
        rw [hready, if_neg (by decide)] at h
        obtain ⟨hinit, hcurrent⟩ := ready_iff.mp hready
        obtain ⟨l, hlink, hall, htail, hcount⟩ := validateLoop_sound h
        -- the chain is too short for the counter to have wrapped
        have hlen : l.length < 2 ^ 64 := by
          refine length_lt_of_nodup (linked_nodup hlink) (fun hz => ?_)
          exact linked_ne_null hlink hz rfl
        refine ⟨hinit, hcurrent, l, hlink, ?_, hall, htail⟩
        have hcount' : s.sched.runnableCount = BitVec.ofNat 64 l.length := by bv_omega
        rw [hcount', BitVec.toNat_ofNat, Nat.mod_eq_of_lt hlen]
  · rintro ⟨hinit, hcurrent, l, hlink, hcount, hall, htail⟩
    have hlist : ReadyList s l := ⟨hlink, htail.symm, hcount.symm⟩
    exact hlist.validate (ready_iff.mpr ⟨hinit, hcurrent⟩) hall

/-! ## Termination -/

/-- **BOUNDED**: the counter stops the walk, if its bound can be exceeded. -/
theorem validateLoop_ends (hbound : (s.sched.runnableCount + 1).toNat + 1 < 2 ^ 64)
    (hcount : count ≤ s.sched.runnableCount + 1)
    (hr : (s.sched.runnableCount + 1).toNat < count.toNat + rounds) :
    ∃ r, validateLoop s rounds c last count = some r := by
  induction rounds generalizing c last count with
  | zero => bv_omega
  | succ rounds ih =>
      by_cases hc : c = 0
      · rw [validateLoop, if_pos hc]
        split
        · exact ⟨_, rfl⟩
        · split <;> exact ⟨_, rfl⟩
      · rcases validateLoop_cases (s := s) hc with hbad | ⟨-, hgo, heq⟩
        · exact ⟨_, hbad⟩
        · have hnext : (count + 1).toNat = count.toNat + 1 := by bv_omega
          rw [heq]
          exact ih (by bv_omega) (by omega)

/-- The check ends unless its bound is the largest counter, which no count can pass. -/
theorem mcsosSchedValidate_ends (h : s.sched.runnableCount ≠ 0xfffffffffffffffe) :
    ∃ r, mcsosSchedValidate s = some r := by
  rw [mcsosSchedValidate]
  split
  · exact ⟨_, rfl⟩
  · have hbound : (s.sched.runnableCount + 1).toNat + 1 < 2 ^ 64 := by bv_omega
    have hzero : (0 : U64).toNat = 0 := rfl
    refine validateLoop_ends hbound (by bv_omega) ?_
    show (s.sched.runnableCount + 1).toNat < (0 : U64).toNat + 2 ^ 64
    omega

/-- **THE CHECKER DECIDES**: with any other counter it answers, and its answer
    is OK exactly on a well-formed scheduler. -/
theorem sched_validate_decides (s : SchedState)
    (h : s.sched.runnableCount ≠ 0xfffffffffffffffe) :
    ∃ r, mcsosSchedValidate s = some r ∧ (r = .ok () ↔ WellFormed s) := by
  obtain ⟨r, hr⟩ := mcsosSchedValidate_ends h
  refine ⟨r, hr, ?_⟩
  rw [← mcsosSchedValidate_ok_iff, hr]
  exact ⟨fun heq => by rw [heq], fun heq => Option.some.inj heq⟩

/-! ## Two schedulers -/

/-- A thread that is its own successor. -/
def selfLoop : Thread := ⟨MCSOS_THREAD_MAGIC, .ready, zeroContext, 0x2000, 0, 0⟩

/-- The current thread at `0x1000`, and a ready list that goes round in one
    thread. -/
def cyclic (count : U64) : SchedState where
  sched :=
    { current := 0x1000, idle := 0x1000, readyHead := 0x2000, readyTail := 0x2000,
      runnableCount := count, contextSwitches := 0, ticks := 0, initialized := true }
  threads := fun _ => selfLoop
  mem := fun _ => 0

/-- With the count of a cycle at one, the walk is over after three rounds. -/
theorem sched_validate_decides_cycle :
    mcsosSchedValidate (cyclic 1) = some (.error .ecorrupt) ∧ ¬ WellFormed (cyclic 1) := by
  obtain ⟨r, hr, hiff⟩ := sched_validate_decides (cyclic 1) (by decide)
  have hrun : mcsosSchedValidate (cyclic 1) = some (.error .ecorrupt) := by decide +kernel
  obtain rfl := Option.some.inj (hrun.symm.trans hr)
  exact ⟨hrun, fun hwf => by cases hiff.mpr hwf⟩

/-- **FOR EVER**: with the count at `2^64 - 2` no number of rounds is enough. -/
theorem sched_validate_endless :
    (cyclic 0xfffffffffffffffe).sched.runnableCount.toNat < 2 ^ 64 - 1 ∧
    ready (cyclic 0xfffffffffffffffe) = true ∧
    mcsosSchedValidate (cyclic 0xfffffffffffffffe) = none ∧
    ∀ rounds, validateLoop (cyclic 0xfffffffffffffffe) rounds 0x2000 0 0 = none := by
  have hloop : ∀ rounds last count,
      validateLoop (cyclic 0xfffffffffffffffe) rounds 0x2000 last count = none := by
    intro rounds
    induction rounds with
    | zero => exact fun _ _ => rfl
    | succ rounds ih =>
        intro last count
        have hno : ¬ (cyclic 0xfffffffffffffffe).sched.runnableCount + 1 < count + 1 := by
          show ¬ (0xfffffffffffffffe : U64) + 1 < count + 1
          bv_omega
        rw [validateLoop, if_neg (by decide), if_neg (by decide), if_neg (by decide), if_neg hno]
        exact ih _ _
  refine ⟨by decide, by decide, ?_, fun rounds => hloop rounds 0 0⟩
  rw [mcsosSchedValidate, if_neg (by decide)]
  exact hloop _ _ _

end SchedChecker
