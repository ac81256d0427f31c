import Mathlib.Data.List.Nodup
import Mathlib.Data.List.Rotate

/-! # Round-robin run queues

    What a cooperative scheduler is for, without its pointers: one task is
    current, some wait their turn in a queue, some are blocked, and one task,
    the idle one, runs when nobody else can and never queues.  The fields say
    that no task is in two places, so a queue that lost or doubled a task
    cannot be built.

    A task that gives up the processor goes to the back of the queue (`yield`)
    or out of it (`block`); the first in the queue is next, or idle if there is
    none.  `phase` reads off where a task is, and the three `phase_*` results
    say that an operation moves the tasks it names and no other.  `Move` is any
    of the operations; it takes the first task of the queue or none. -/

namespace RunQueue

/-- Where a task can be; a fresh one has not been enqueued yet. -/
inductive Phase where
  | fresh
  | ready
  | running
  | blocked
deriving DecidableEq, Repr

/-- The tasks of a processor, each in one place only. -/
structure Tasks (P : Type) where
  idle : P
  current : P
  ready : List P
  blocked : List P
  nodup : ready.Nodup
  current_ready : current ∉ ready
  idle_ready : idle ∉ ready
  current_blocked : current ∉ blocked
  idle_blocked : idle ∉ blocked
  apart : ∀ p ∈ ready, p ∉ blocked

variable {P : Type} {q : Tasks P} {p : P}

/-- Who runs next. -/
def successor (q : Tasks P) : P := q.ready.headD q.idle

/-- The next task does not wait behind itself. -/
theorem successor_not_tail (q : Tasks P) : successor q ∉ q.ready.tail := by
  rw [successor]
  cases h : q.ready with
  | nil => exact List.not_mem_nil
  | cons t l =>
      have hnodup := q.nodup
      rw [h] at hnodup
      exact (List.nodup_cons.mp hnodup).1

/-- The next task is idle or the first in the queue. -/
theorem successor_cases (q : Tasks P) : successor q = q.idle ∨ successor q ∈ q.ready := by
  rw [successor]
  cases q.ready with
  | nil => exact Or.inl rfl
  | cons t l => exact Or.inr (List.mem_cons_self ..)

/-- Idle is next only if nobody waits. -/
theorem successor_idle_iff (q : Tasks P) : successor q = q.idle ↔ q.ready = [] := by
  rw [successor]
  cases h : q.ready with
  | nil => exact iff_of_true rfl rfl
  | cons t l =>
      refine iff_of_false (fun hidle => q.idle_ready ?_) (List.cons_ne_nil t l)
      rw [h, ← hidle]
      exact List.mem_cons_self ..

/-- The next task is not blocked. -/
theorem successor_not_blocked (q : Tasks P) : successor q ∉ q.blocked := by
  rcases successor_cases q with h | h
  · rw [h]
    exact q.idle_blocked
  · exact q.apart _ h

/-- A task other than idle does not follow itself. -/
theorem successor_ne_current (q : Tasks P) (h : q.current ≠ q.idle) :
    successor q ≠ q.current := by
  intro hc
  rcases successor_cases q with hs | hs
  · exact h (hc.symm.trans hs)
  · rw [hc] at hs
    exact q.current_ready hs

/-- The queue is its first task and the rest. -/
theorem mem_ready_iff (q : Tasks P) (hp : p ≠ q.idle) :
    p ∈ q.ready ↔ p = successor q ∨ p ∈ q.ready.tail := by
  rw [successor]
  cases q.ready with
  | nil => simp [hp]
  | cons t l => exact List.mem_cons

variable [DecidableEq P]

/-- Where a task is; the idle task counts as running throughout. -/
def phase (q : Tasks P) (p : P) : Phase :=
  if p = q.idle ∨ p = q.current then .running
  else if p ∈ q.ready then .ready
  else if p ∈ q.blocked then .blocked
  else .fresh

/-- Idle always counts as running. -/
theorem phase_running_iff : phase q p = .running ↔ p = q.idle ∨ p = q.current := by
  rw [phase]
  split <;> rename_i h
  · exact iff_of_true rfl h
  · refine iff_of_false ?_ h
    split <;> [skip; split] <;> intro hc <;> cases hc

/-- A task is ready if it is in the queue. -/
theorem phase_ready_iff : phase q p = .ready ↔ p ∈ q.ready := by
  rw [phase]
  split <;> rename_i h
  · refine iff_of_false (fun hc => by cases hc) ?_
    rcases h with rfl | rfl
    · exact q.idle_ready
    · exact q.current_ready
  · split <;> rename_i hr
    · exact iff_of_true rfl hr
    · refine iff_of_false ?_ hr
      split <;> intro hc <;> cases hc

/-- A task is blocked if it is among the blocked ones. -/
theorem phase_blocked_iff : phase q p = .blocked ↔ p ∈ q.blocked := by
  rw [phase]
  split <;> rename_i h
  · refine iff_of_false (fun hc => by cases hc) ?_
    rcases h with rfl | rfl
    · exact q.idle_blocked
    · exact q.current_blocked
  · split <;> rename_i hr
    · exact iff_of_false (fun hc => by cases hc) (q.apart p hr)
    · split <;> rename_i hb
      · exact iff_of_true rfl hb
      · exact iff_of_false (fun hc => by cases hc) hb

/-- A phase is settled by the three places a task can be in. -/
theorem phase_eq_of {q' : Tasks P} {r' : P}
    (hrun : p = q'.idle ∨ p = q'.current ↔ r' = q.idle ∨ r' = q.current)
    (hready : p ∈ q'.ready ↔ r' ∈ q.ready) (hblocked : p ∈ q'.blocked ↔ r' ∈ q.blocked) :
    phase q' p = phase q r' := by
  simp only [phase, hrun, hready, hblocked]

/-- The queue of a scheduler that has just started. -/
def start (idle : P) : Tasks P where
  idle := idle
  current := idle
  ready := []
  blocked := []
  nodup := List.nodup_nil
  current_ready := List.not_mem_nil
  idle_ready := List.not_mem_nil
  current_blocked := List.not_mem_nil
  idle_blocked := List.not_mem_nil
  apart := fun _ h => absurd h List.not_mem_nil

/-- The current task as it goes to the back of the queue; idle does not. -/
def requeued (q : Tasks P) : List P := if q.current = q.idle then [] else [q.current]

/-- The current task goes back to the queue, unless it is idle. -/
theorem mem_requeued : p ∈ requeued q ↔ p = q.current ∧ q.current ≠ q.idle := by
  rw [requeued]
  split <;> rename_i h <;> simp [h]

/-- Give up the processor and queue up again. -/
def yield (q : Tasks P) : Tasks P where
  idle := q.idle
  current := successor q
  ready := q.ready.tail ++ requeued q
  blocked := q.blocked
  nodup := by
    refine List.nodup_append.mpr ⟨q.nodup.sublist (List.tail_sublist _), ?_, ?_⟩
    · rw [requeued]
      split <;> simp
    · intro a ha b hb hab
      rw [(mem_requeued.mp hb).1] at hab
      rw [hab] at ha
      exact q.current_ready (List.mem_of_mem_tail ha)
  current_ready := by
    intro h
    rcases List.mem_append.mp h with h | h
    · exact successor_not_tail q h
    · obtain ⟨heq, hne⟩ := mem_requeued.mp h
      exact successor_ne_current q hne heq
  idle_ready := by
    intro h
    rcases List.mem_append.mp h with h | h
    · exact q.idle_ready (List.mem_of_mem_tail h)
    · obtain ⟨heq, hne⟩ := mem_requeued.mp h
      exact hne heq.symm
  current_blocked := successor_not_blocked q
  idle_blocked := q.idle_blocked
  apart := by
    intro p hp
    rcases List.mem_append.mp hp with hp | hp
    · exact q.apart p (List.mem_of_mem_tail hp)
    · rw [(mem_requeued.mp hp).1]
      exact q.current_blocked

/-- Give up the processor until somebody says otherwise. -/
def block (q : Tasks P) (hidle : q.current ≠ q.idle) : Tasks P where
  idle := q.idle
  current := successor q
  ready := q.ready.tail
  blocked := q.current :: q.blocked
  nodup := q.nodup.sublist (List.tail_sublist _)
  current_ready := successor_not_tail q
  idle_ready := fun h => q.idle_ready (List.mem_of_mem_tail h)
  current_blocked := by
    intro h
    rcases List.mem_cons.mp h with h | h
    · exact successor_ne_current q hidle h
    · exact successor_not_blocked q h
  idle_blocked := by
    intro h
    rcases List.mem_cons.mp h with h | h
    · exact hidle h.symm
    · exact q.idle_blocked h
  apart := by
    intro p hp hb
    have hmem := List.mem_of_mem_tail hp
    rcases List.mem_cons.mp hb with rfl | hb
    · exact q.current_ready hmem
    · exact q.apart p hmem hb

/-- Let a fresh or blocked task queue up. -/
def join (q : Tasks P) (p : P) (hrun : phase q p ≠ .running) (hready : phase q p ≠ .ready) :
    Tasks P where
  idle := q.idle
  current := q.current
  ready := q.ready ++ [p]
  blocked := q.blocked.filter (· ≠ p)
  nodup := by
    refine List.nodup_append.mpr ⟨q.nodup, List.nodup_singleton p, ?_⟩
    intro a ha b hb hab
    rw [hab, List.mem_singleton.mp hb] at ha
    exact hready (phase_ready_iff.mpr ha)
  current_ready := by
    intro h
    rcases List.mem_append.mp h with h | h
    · exact q.current_ready h
    · exact hrun (phase_running_iff.mpr (Or.inr (List.mem_singleton.mp h).symm))
  idle_ready := by
    intro h
    rcases List.mem_append.mp h with h | h
    · exact q.idle_ready h
    · exact hrun (phase_running_iff.mpr (Or.inl (List.mem_singleton.mp h).symm))
  current_blocked := fun h => q.current_blocked (List.mem_filter.mp h).1
  idle_blocked := fun h => q.idle_blocked (List.mem_filter.mp h).1
  apart := by
    intro a ha hb
    obtain ⟨hb, hne⟩ := List.mem_filter.mp hb
    rcases List.mem_append.mp ha with ha | ha
    · exact q.apart a ha hb
    · exact of_decide_eq_true hne (List.mem_singleton.mp ha)

/-- **A YIELD MOVES TWO TASKS**: the next one runs, the current one is ready. -/
theorem phase_yield (q : Tasks P) (p : P) :
    phase (yield q) p = if p = successor q then .running
      else if p = q.current ∧ q.current ≠ q.idle then .ready else phase q p := by
  split <;> rename_i hs
  · exact phase_running_iff.mpr (Or.inr hs)
  split <;> rename_i hc
  · exact phase_ready_iff.mpr (List.mem_append_right _ (mem_requeued.mpr hc))
  by_cases hidle : p = q.idle
  · rw [phase_running_iff.mpr (Or.inl hidle)]
    exact phase_running_iff.mpr (Or.inl hidle)
  have hcur : p ≠ q.current := fun h => hc ⟨h, h ▸ hidle⟩
  refine phase_eq_of ?_ ?_ Iff.rfl
  · exact iff_of_false (not_or.mpr ⟨hidle, hs⟩) (not_or.mpr ⟨hidle, hcur⟩)
  · rw [mem_ready_iff q hidle]
    show p ∈ q.ready.tail ++ requeued q ↔ _
    rw [List.mem_append, mem_requeued]
    simp [hs, hcur]

/-- **A BLOCK MOVES TWO TASKS**: the next one runs, the current one is blocked. -/
theorem phase_block (q : Tasks P) (h : q.current ≠ q.idle) (p : P) :
    phase (block q h) p = if p = successor q then .running
      else if p = q.current then .blocked else phase q p := by
  split <;> rename_i hs
  · exact phase_running_iff.mpr (Or.inr hs)
  split <;> rename_i hc
  · rw [hc]
    exact phase_blocked_iff.mpr (List.mem_cons_self ..)
  by_cases hidle : p = q.idle
  · rw [phase_running_iff.mpr (Or.inl hidle)]
    exact phase_running_iff.mpr (Or.inl hidle)
  refine phase_eq_of ?_ ?_ ?_
  · exact iff_of_false (not_or.mpr ⟨hidle, hs⟩) (not_or.mpr ⟨hidle, hc⟩)
  · rw [mem_ready_iff q hidle]
    exact (or_iff_right hs).symm
  · exact List.mem_cons.trans (or_iff_right hc)

/-- **AN ADMISSION MOVES ONE TASK**: the task admitted becomes ready, the others stay in their
    phases. -/
theorem phase_join (q : Tasks P) (r : P) (hrun : phase q r ≠ .running)
    (hready : phase q r ≠ .ready) (p : P) :
    phase (join q r hrun hready) p = if p = r then .ready else phase q p := by
  split <;> rename_i hp
  · rw [hp]
    exact phase_ready_iff.mpr (List.mem_append_right _ (List.mem_singleton_self r))
  refine phase_eq_of Iff.rfl ?_ ?_
  · show p ∈ q.ready ++ [r] ↔ _
    simp [hp]
  · show p ∈ q.blocked.filter (· ≠ r) ↔ _
    simp [hp]

/-! ## Turns -/

/-- One operation, and whether it hands the processor on. -/
inductive Move (q : Tasks P) : Bool → Tasks P → Prop where
  | keep : Move q false q
  | yield : Move q true (yield q)
  | block (h : q.current ≠ q.idle) : Move q true (block q h)
  | join (p : P) (hrun : phase q p ≠ .running) (hready : phase q p ≠ .ready) :
      Move q false (join q p hrun hready)

variable {q' : Tasks P} {b : Bool}

/-- The idle task stays the same. -/
theorem Move.idle (h : Move q b q') : q'.idle = q.idle := by
  cases h <;> rfl

/-- **FIRST COME, FIRST SERVED**: an operation takes the first task of the queue
    or none, and lets others queue up behind. -/
theorem Move.ready (h : Move q b q') : q.ready.drop b.toNat <+: q'.ready := by
  cases h with
  | keep => exact List.prefix_refl _
  | yield =>
      rw [Bool.toNat_true, List.drop_one]
      exact List.prefix_append _ _
  | block h =>
      rw [Bool.toNat_true, List.drop_one]
      exact List.prefix_refl _
  | join p _ _ => exact List.prefix_append _ _

/-- The current task changes to the next one, or not at all. -/
theorem Move.current (h : Move q b q') : q'.current = if b then successor q else q.current := by
  cases h <;> rfl

/-- **ROUND ROBIN**: a yield turns the queue by one, the current task first. -/
theorem yield_rotate (q : Tasks P) (hidle : q.current ≠ q.idle) (hready : q.ready ≠ []) :
    (yield q).current :: (yield q).ready = (q.current :: q.ready).rotate 1 := by
  have hreq : requeued q = [q.current] := if_neg hidle
  show successor q :: (q.ready.tail ++ requeued q) = _
  rw [hreq, successor, List.rotate_cons_succ, List.rotate_zero]
  cases h : q.ready with
  | nil => exact absurd h hready
  | cons t l => rfl

/-- A yield leaves the processor to the idle task only if nobody waits, unless a
    task other than the idle one yields alone. -/
theorem yield_idle_iff (q : Tasks P) :
    ((yield q).current = (yield q).idle → (yield q).ready = []) ↔
      (q.current = q.idle ∨ q.ready ≠ []) := by
  show (successor q = q.idle → q.ready.tail ++ requeued q = []) ↔ _
  rw [successor_idle_iff]
  by_cases hnil : q.ready = []
  · have hrest : q.ready.tail ++ requeued q = requeued q := by rw [hnil]; rfl
    have hreq : requeued q = [] ↔ q.current = q.idle := by
      rw [requeued]
      split <;> rename_i h <;> simp [h]
    rw [hrest, hreq]
    exact ⟨fun h => Or.inl (h hnil), fun h _ => h.resolve_right (not_not.mpr hnil)⟩
  · exact iff_of_true (fun h => absurd h hnil) (Or.inr hnil)

end RunQueue
