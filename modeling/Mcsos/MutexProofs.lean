import Mcsos.MachineProofs
import Mcsos.SyncModel

/-! # Mutex ownership under interleaving

    The mutex is two words, `locked` and `owner`, that one call writes at
    different moments.  Between them there are two windows in which `locked` is
    set and `owner` is not: after the compare-exchange that took the mutex, and
    after the first store of the unlock.  In both the holder is at a known
    place, and that is the invariant: what `owner` says is settled by the place
    the holder is at.

    A run is any list of threads; each entry lets one thread do its next atomic
    operation. -/

namespace Mutex

open Word Function SyncModel

variable {T : Type} {id : T → U64} {s : MutexSys T} {t u : T} {p : MutexPc}

/-- Places only the holder comes to. -/
def Owning (p : MutexPc) : Prop := p = .storeOwner ∨ p = .clearOwner ∨ p = .clearLocked

/-- Places at which the mutex is held and `owner` is not set. -/
def Window (p : MutexPc) : Prop := p = .storeOwner ∨ p = .clearLocked

instance (p : MutexPc) : Decidable (Window p) := inferInstanceAs (Decidable (_ ∨ _))

theorem window_storeOwner : Window .storeOwner := Or.inl rfl

theorem window_clearLocked : Window .clearLocked := Or.inr rfl

/-- **THE MUTEX INVARIANT**: at most one thread holds the mutex; the owner field names it
    except in the windows after the exchange and before the release; a free mutex is clear. -/
structure MutexInv (id : T → U64) (s : MutexSys T) : Prop where
  one : ∀ t u, s.holds t = true → s.holds u = true → t = u
  free : (∀ t, s.holds t = false) → s.locked = 0 ∧ s.owner = 0
  holder : ∀ t, s.holds t = true →
    s.locked = 1 ∧ s.owner = if Window (s.pc t) then 0 else id t
  other : ∀ t, s.holds t = false → ¬ Owning (s.pc t)

/-- An initialised mutex is free. -/
theorem mutexInv_init : MutexInv id (mutexInit T) where
  one := by
    intro t u ht
    cases ht
  free := fun _ => ⟨rfl, rfl⟩
  holder := by
    intro t ht
    cases ht
  other := by
    rintro t - (h | h | h) <;> cases h

/-- A mutex that is locked or owned has a holder. -/
theorem MutexInv.exists_holder (h : MutexInv id s) (hne : s.locked ≠ 0 ∨ s.owner ≠ 0) :
    ∃ u, s.holds u = true := by
  by_contra hno
  obtain ⟨hl, ho⟩ := h.free (fun u => Bool.eq_false_iff.mpr (fun hu => hno ⟨u, hu⟩))
  rcases hne with hne | hne
  · exact hne hl
  · exact hne ho

/-- An owner that is set is the holder. -/
theorem MutexInv.owner_holder (h : MutexInv id s) (hne : s.owner ≠ 0) :
    ∃ u, s.holds u = true ∧ s.owner = id u := by
  obtain ⟨u, hu⟩ := h.exists_holder (Or.inr hne)
  obtain ⟨-, howner⟩ := h.holder u hu
  by_cases hw : Window (s.pc u)
  · rw [if_pos hw] at howner
    exact absurd howner hne
  · rw [if_neg hw] at howner
    exact ⟨u, hu, howner⟩

/-- A thread whose id is the owner holds the mutex. -/
theorem MutexInv.holds_of_owner (h : MutexInv id s) (hinj : Injective id) (hid : id t ≠ 0)
    (howner : s.owner = id t) : s.holds t = true := by
  obtain ⟨u, hu, heq⟩ := h.owner_holder (howner ▸ hid)
  rw [hinj (howner.symm.trans heq)]
  exact hu

/-- Only the holder is at a step that writes the owner or gives the lock up. -/
theorem MutexInv.holds_of_owning (h : MutexInv id s) (hp : Owning (s.pc t)) :
    s.holds t = true := by
  by_contra hno
  exact h.other t (Bool.eq_false_iff.mpr hno) hp

/-! ## One operation -/

variable [DecidableEq T]

@[simp] theorem goto_pc : (s.goto t p).pc u = if u = t then p else s.pc u := by
  simp only [MutexSys.goto, update_apply]

@[simp] theorem goto_holds : (s.goto t p).holds = s.holds := rfl

/-- A thread may move where the words need not change. -/
theorem MutexInv.goto (h : MutexInv id s) (hwin : Window p ↔ Window (s.pc t))
    (hown : Owning p → s.holds t = true) : MutexInv id (s.goto t p) where
  one := h.one
  free := h.free
  holder := by
    intro u hu
    obtain ⟨hl, ho⟩ := h.holder u hu
    refine ⟨hl, ho.trans ?_⟩
    by_cases hut : u = t
    · subst hut
      rw [goto_pc, if_pos rfl]
      simp only [hwin]
    · simp only [goto_pc, if_neg hut]
  other := by
    intro u hu
    have hu' : s.holds u = false := hu
    rw [goto_pc]
    split <;> rename_i hut
    · intro hp
      rw [hut, hown hp] at hu'
      cases hu'
    · exact h.other u hu'

/-- The compare-exchange takes a free mutex. -/
theorem MutexInv.take (h : MutexInv id s) (hfree : s.locked = 0) :
    MutexInv id ({ s with locked := 1, holds := update s.holds t true }.goto t .storeOwner) := by
  -- a holder would have the word at 1
  have hnone : ∀ u, s.holds u = false := by
    intro u
    refine Bool.eq_false_iff.mpr (fun hu => ?_)
    rw [(h.holder u hu).1] at hfree
    cases hfree
  have hholds : ∀ u, update s.holds t true u = true → u = t := by
    intro u hu
    by_contra hut
    rw [update_of_ne hut, hnone u] at hu
    cases hu
  constructor
  · intro u v hu hv
    exact (hholds u hu).trans (hholds v hv).symm
  · intro hall
    have hself := hall t
    rw [goto_holds] at hself
    simp at hself
  · intro u hu
    refine ⟨rfl, ?_⟩
    rw [goto_pc, if_pos (hholds u hu), if_pos window_storeOwner]
    exact (h.free hnone).2
  · intro u hu
    have hut : u ≠ t := by
      rintro rfl
      rw [goto_holds] at hu
      simp at hu
    rw [goto_pc, if_neg hut]
    exact h.other u (hnone u)

/-- The holder writes the owner: its id when it has taken the mutex, 0 when it gives it back. -/
theorem MutexInv.setOwner (h : MutexInv id s) (ht : s.holds t = true) (v : U64)
    (hv : v = if Window p then 0 else id t) :
    MutexInv id ({ s with owner := v }.goto t p) where
  one := h.one
  free := by
    intro hall
    have hself : s.holds t = false := hall t
    rw [ht] at hself
    cases hself
  holder := by
    intro u hu
    -- there is one holder, so it is the thread that moves
    obtain rfl := h.one u t hu ht
    refine ⟨(h.holder u ht).1, ?_⟩
    rw [goto_pc, if_pos rfl]
    exact hv
  other := by
    intro u hu
    have hut : u ≠ t := by
      rintro rfl
      have hu' : s.holds u = false := hu
      rw [ht] at hu'
      cases hu'
    rw [goto_pc, if_neg hut]
    exact h.other u hu

/-- The holder's last store frees the mutex. -/
theorem MutexInv.give (h : MutexInv id s) (hp : s.pc t = .clearLocked) :
    MutexInv id ({ s with locked := 0, holds := update s.holds t false }.goto t .outside) := by
  have ht : s.holds t = true := h.holds_of_owning (Or.inr (Or.inr hp))
  have hnone : ∀ u, update s.holds t false u = false := by
    intro u
    by_cases hut : u = t
    · rw [hut, update_self]
    · rw [update_of_ne hut]
      exact Bool.eq_false_iff.mpr (fun hu => hut (h.one u t hu ht))
  constructor
  · intro u v hu
    rw [goto_holds] at hu
    exact absurd ((hnone u).symm.trans hu) (by decide)
  · intro _
    refine ⟨rfl, ?_⟩
    -- the owner was cleared one operation before the word
    have howner := (h.holder t ht).2
    rw [hp, if_pos window_clearLocked] at howner
    exact howner
  · intro u hu
    rw [goto_holds] at hu
    exact absurd ((hnone u).symm.trans hu) (by decide)
  · intro u _
    rw [goto_pc]
    split <;> rename_i hut
    · rintro (h | h | h) <;> cases h
    · exact h.other u (Bool.eq_false_iff.mpr (fun hu => hut (h.one u t hu ht)))

/-- Moves between places that are neither a window nor for the holder alone. -/
theorem MutexInv.goto_plain (h : MutexInv id s) (hfrom : ¬ Owning (s.pc t)) (hto : ¬ Owning p) :
    MutexInv id (s.goto t p) := by
  refine h.goto (iff_of_false ?_ ?_) (fun hp => absurd hp hto)
  · rintro (hw | hw)
    · exact hto (Or.inl hw)
    · exact hto (Or.inr (Or.inr hw))
  · rintro (hw | hw)
    · exact hfrom (Or.inl hw)
    · exact hfrom (Or.inr (Or.inr hw))

/-- What one operation can do: its answer and the state it leaves. -/
inductive Move (id : T → U64) (s : MutexSys T) (t : T) :
    Option (MutexCall × SyncResult) → MutexSys T → Prop where
  | invalid (call : MutexCall) (hid : id t = 0) : Move id s t (some (call, .error .einval)) s
  | tryLock (hpc : s.pc t = .outside) : Move id s t none (s.goto t .compareExchange)
  | unlock (hpc : s.pc t = .outside) : Move id s t none (s.goto t .checkOwner)
  | take (hpc : s.pc t = .compareExchange) (hfree : s.locked = 0) :
      Move id s t none
        ({ s with locked := 1, holds := update s.holds t true }.goto t .storeOwner)
  | fail (hpc : s.pc t = .compareExchange) : Move id s t none (s.goto t .loadOwner)
  | deadlk (hpc : s.pc t = .loadOwner) (howner : s.owner = id t) :
      Move id s t (some (.tryLock, .error .edeadlk)) (s.goto t .outside)
  | busy (hpc : s.pc t = .loadOwner) :
      Move id s t (some (.tryLock, .error .ebusy)) (s.goto t .outside)
  | own (hpc : s.pc t = .storeOwner) :
      Move id s t (some (.tryLock, .ok ())) ({ s with owner := id t }.goto t .outside)
  | perm (hpc : s.pc t = .checkOwner) :
      Move id s t (some (.unlock, .error .eperm)) (s.goto t .outside)
  | check (hpc : s.pc t = .checkOwner) (howner : s.owner = id t) :
      Move id s t none (s.goto t .clearOwner)
  | clear (hpc : s.pc t = .clearOwner) :
      Move id s t none ({ s with owner := 0 }.goto t .clearLocked)
  | give (hpc : s.pc t = .clearLocked) :
      Move id s t (some (.unlock, .ok ()))
        ({ s with locked := 0, holds := update s.holds t false }.goto t .outside)

/-- Every step of the mutex is one of the moves. -/
theorem mutexStep_move (t : T) (call : MutexCall) :
    Move id s t (mutexStep id s (t, call)).1 (mutexStep id s (t, call)).2 := by
  -- where the thread is decides which line of the source runs
  cases hpc : s.pc t with
  | outside =>
      simp only [mutexStep, hpc]
      split <;> rename_i hid
      · exact .invalid call hid
      · cases call with
        | tryLock => exact .tryLock hpc
        | unlock => exact .unlock hpc
  | compareExchange =>
      simp only [mutexStep, hpc]
      split <;> rename_i hfree
      · exact .take hpc hfree
      · exact .fail hpc
  | loadOwner =>
      simp only [mutexStep, hpc]
      split <;> rename_i howner
      · exact .deadlk hpc howner
      · exact .busy hpc
  | storeOwner =>
      simp only [mutexStep, hpc]
      exact .own hpc
  | checkOwner =>
      simp only [mutexStep, hpc]
      split <;> rename_i howner
      · exact .perm hpc
      · exact .check hpc (not_not.mp howner)
  | clearOwner =>
      simp only [mutexStep, hpc]
      exact .clear hpc
  | clearLocked =>
      simp only [mutexStep, hpc]
      exact .give hpc

/-- A place all threads come to is not for the holder alone. -/
theorem not_owning (hp : p = .outside ∨ p = .compareExchange ∨ p = .loadOwner ∨ p = .checkOwner) :
    ¬ Owning p := by
  rcases hp with rfl | rfl | rfl | rfl <;> rintro (h | h | h) <;> cases h

/-- **ONE OPERATION** of one thread keeps the invariant. -/
theorem mutexInv_step (hinj : Injective id) (hid : ∀ t, id t ≠ 0) (h : MutexInv id s)
    {out : Option (MutexCall × SyncResult)} {s' : MutexSys T} (hmove : Move id s t out s') :
    MutexInv id s' := by
  cases hmove with
  | invalid call _ => exact h
  | tryLock hpc => exact h.goto_plain (not_owning (by simp [hpc])) (not_owning (by simp))
  | unlock hpc => exact h.goto_plain (not_owning (by simp [hpc])) (not_owning (by simp))
  | take hpc hfree => exact h.take hfree
  | fail hpc => exact h.goto_plain (not_owning (by simp [hpc])) (not_owning (by simp))
  | deadlk hpc _ => exact h.goto_plain (not_owning (by simp [hpc])) (not_owning (by simp))
  | busy hpc => exact h.goto_plain (not_owning (by simp [hpc])) (not_owning (by simp))
  | own hpc =>
      refine h.setOwner (h.holds_of_owning (Or.inl hpc)) _ ?_
      rw [if_neg]
      rintro (hw | hw) <;> cases hw
  | perm hpc => exact h.goto_plain (not_owning (by simp [hpc])) (not_owning (by simp))
  | check hpc howner =>
      -- the check is what makes the thread the holder
      refine h.goto (iff_of_false ?_ ?_) (fun _ => h.holds_of_owner hinj (hid t) howner)
      · rintro (hw | hw) <;> cases hw
      · rw [hpc]
        rintro (hw | hw) <;> cases hw
  | clear hpc =>
      refine h.setOwner (h.holds_of_owning (Or.inr (Or.inl hpc))) 0 ?_
      rw [if_pos window_clearLocked]
  | give hpc => exact h.give hpc

/-- An unlock that succeeds, and a try that would deadlock, are the holder's. -/
theorem Move.holder (hinj : Injective id) (hid : ∀ t, id t ≠ 0) (h : MutexInv id s)
    {out : MutexCall × SyncResult} {s' : MutexSys T} (hmove : Move id s t (some out) s')
    (hout : out = (.unlock, .ok ()) ∨ out = (.tryLock, .error .edeadlk)) : s.holds t = true := by
  cases hmove with
  | invalid call hz => exact absurd hz (hid t)
  | deadlk hpc howner => exact h.holds_of_owner hinj (hid t) howner
  | busy hpc => rcases hout with hout | hout <;> cases hout
  | own hpc => rcases hout with hout | hout <;> cases hout
  | perm hpc => rcases hout with hout | hout <;> cases hout
  | give hpc => exact h.holds_of_owning (Or.inr (Or.inr hpc))

/-- The mutex and its threads after an interleaving of their operations. -/
def runMutex (id : T → U64) (run : List (T × MutexCall)) : MutexSys T :=
  Machine.exec (mutexStep id) (mutexInit T) run

/-- The invariant holds in every state that a run reaches. -/
theorem mutexInv_run (hinj : Injective id) (hid : ∀ t, id t ≠ 0) (run : List (T × MutexCall)) :
    MutexInv id (runMutex id run) := by
  refine Machine.exec_inv (mutexStep id) (I := MutexInv id) ?_ run _ mutexInv_init
  intro s op hs
  exact mutexInv_step hinj hid hs (mutexStep_move op.1 op.2)

/-- **MUTEX OWNERSHIP**: in every interleaving at most one thread holds the
    mutex, `owner` names nobody else and is set only while `locked` is, and
    the answers go to the right threads. -/
theorem mutex_ownership (id : T → U64) (hinj : Injective id) (hid : ∀ t, id t ≠ 0)
    (run : List (T × MutexCall)) :
    (∀ t u, (runMutex id run).holds t = true → (runMutex id run).holds u = true → t = u) ∧
      ((runMutex id run).owner = 0 ∨
        ∃ t, (runMutex id run).holds t = true ∧ (runMutex id run).owner = id t) ∧
      ((runMutex id run).owner ≠ 0 → (runMutex id run).locked = 1) ∧
      ∀ t call,
        ((mutexStep id (runMutex id run) (t, call)).1 = some (.unlock, .ok ()) →
          (runMutex id run).holds t = true) ∧
        ((mutexStep id (runMutex id run) (t, call)).1 = some (.tryLock, .error .edeadlk) →
          (runMutex id run).holds t = true) := by
  have h := mutexInv_run hinj hid run
  refine ⟨h.one, ?_, ?_, ?_⟩
  · by_cases howner : (runMutex id run).owner = 0
    · exact Or.inl howner
    · exact Or.inr (h.owner_holder howner)
  · intro howner
    obtain ⟨u, hu, -⟩ := h.owner_holder howner
    exact (h.holder u hu).1
  · intro t call
    have hmove : Move id (runMutex id run) t _ _ := mutexStep_move t call
    refine ⟨fun hret => ?_, fun hret => ?_⟩
    · rw [hret] at hmove
      exact hmove.holder hinj hid h (Or.inl rfl)
    · rw [hret] at hmove
      exact hmove.holder hinj hid h (Or.inr rfl)

/-- Two threads with ids 1 and 2. -/
def twoIds (b : Bool) : U64 := if b then 1 else 2

/-- One takes the mutex, the other tries in vain, and the first tries again. -/
def contendedRun : List (Bool × MutexCall) :=
  [(true, .tryLock), (true, .tryLock), (false, .tryLock), (false, .tryLock), (true, .tryLock),
    (false, .tryLock), (true, .tryLock), (true, .tryLock)]

/-- The first thread holds the mutex and is told so when it tries again. -/
theorem mutex_ownership_contended :
    (mutexStep twoIds (runMutex twoIds contendedRun) (true, .tryLock)).1 =
        some (.tryLock, .error .edeadlk) ∧
      (runMutex twoIds contendedRun).holds true = true := by
  have hret : (mutexStep twoIds (runMutex twoIds contendedRun) (true, .tryLock)).1 =
      some (.tryLock, .error .edeadlk) := by decide
  have hinj : Injective twoIds := by
    intro a b
    cases a <;> cases b <;> decide
  have hid : ∀ t, twoIds t ≠ 0 := by decide
  exact ⟨hret, ((mutex_ownership twoIds hinj hid contendedRun).2.2.2 true .tryLock).2 hret⟩

end Mutex
