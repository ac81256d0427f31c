import Mcsos.PmmBootMapProofs

/-! # What a confirmed reservation covers

    `pmm_reserve_range` answers true whenever the length is not 0, but the work
    is done by `mark_range_used`, which returns without a word when the end of
    the range does not fit in 64 bits or rounds up to 0.  So a range that
    reaches into the last page of the address space is confirmed and not
    reserved. -/

namespace PmmReserve

open Word PmmModel PmmFrame PmmRange PmmInvariant PmmBootMap

/-- The frame shares a byte with `[base, base + length)`, over the integers. -/
def Shares (base length : U64) (n : Nat) : Prop :=
  ∃ x, 4096 * n ≤ x ∧ x < 4096 * n + 4096 ∧ base.toNat ≤ x ∧ x < base.toNat + length.toNat

/-- A confirmed reservation leaves no frame of its range free and all others as they
    were; one that is refused changes nothing. -/
def ReserveExact (s : PmmState) (base length : U64) : Prop :=
  ((pmmReserveRange s base length).1 = true → ∀ n, n < s.frameCount.toNat →
    (Shares base length n → ¬ Clear (pmmReserveRange s base length).2 n) ∧
    (¬ Shares base length n → (Clear (pmmReserveRange s base length).2 n ↔ Clear s n))) ∧
  ((pmmReserveRange s base length).1 = false → (pmmReserveRange s base length).2 = s)

/-- A range that ends in the last page of the address space or behind it, with a free
    frame that does not end before its base. -/
def Unreserved (s : PmmState) (base length : U64) : Prop :=
  length ≠ 0 ∧ 2 ^ 64 - 4096 < base.toNat + length.toNat ∧
    ∃ n, n < s.frameCount.toNat ∧ Clear s n ∧ base.toNat < 4096 * n + 4096

/-- What is reserved: the whole range, unless it reaches the top, and then nothing. -/
theorem reserves_iff (base length : U64) (n : Nat) :
    ReservesFrame base length n ↔
      Shares base length n ∧ ¬ 2 ^ 64 - 4096 < base.toNat + length.toNat :=
  reservesFrame_iff ⟨base, length, BOOT_MEM_USABLE⟩ n

/-- A frame below the limit shares a byte with a range that reaches the top exactly if
    it does not end before the base. -/
theorem shares_top {s : PmmState} (h : PmmInv s) {base length : U64} (hlen : length ≠ 0)
    (htop : 2 ^ 64 - 4096 < base.toNat + length.toNat) {n : Nat}
    (hn : n < s.frameCount.toNat) :
    Shares base length n ↔ base.toNat < 4096 * n + 4096 := by
  have hframes := h.frames
  have hlim := s.maxPhys.isLt
  have hpos : length.toNat ≠ 0 := BitVec.toNat_ne.mp hlen
  constructor
  · rintro ⟨x, -, hx, hbase, -⟩
    omega
  · intro hbase
    exact ⟨max (4096 * n) base.toNat, by omega, by omega, by omega, by omega⟩

/-- **RESERVATION**: in every reachable state a reservation keeps its word, except for a
    range that reaches the last page of the address space while frames at or above its
    base are free. -/
theorem reserve_exact_iff {s : PmmState} (hs : PmmReachable s) (base length : U64) :
    ReserveExact s base length ↔ ¬ Unreserved s base length := by
  have h := PmmReachable.inv hs
  obtain ⟨hret, -, -, hclear⟩ := pmmReserveRange_spec h base length
  by_cases hlen : length = 0
  · refine iff_of_true ⟨fun htrue => ?_, fun _ => ?_⟩ (fun hu => hu.1 hlen)
    · rw [hret, hlen] at htrue
      cases htrue
    · rw [pmmReserveRange, if_pos (by simp [hlen])]
  have hret' : (pmmReserveRange s base length).1 = true := by
    rw [hret, decide_eq_true hlen]
  rw [ReserveExact, hret']
  simp only [true_imp_iff, Bool.true_eq_false, false_imp_iff, and_true]
  by_cases htop : 2 ^ 64 - 4096 < base.toNat + length.toNat
  · -- nothing has been reserved
    have hsame : ∀ n, n < s.frameCount.toNat →
        (Clear (pmmReserveRange s base length).2 n ↔ Clear s n) := by
      intro n hn
      rw [hclear n hn, reserves_iff]
      exact ⟨fun hc => hc.1, fun hc => ⟨hc, fun hr => hr.2 htop⟩⟩
    constructor
    · rintro hexact ⟨-, -, n, hn, hfree, hbase⟩
      exact (hexact n hn).1 ((shares_top h hlen htop hn).mpr hbase) ((hsame n hn).mpr hfree)
    · intro hno n hn
      refine ⟨fun hshares hfree => hno ⟨hlen, htop, n, hn, (hsame n hn).mp hfree, ?_⟩,
        fun _ => hsame n hn⟩
      exact (shares_top h hlen htop hn).mp hshares
  · refine iff_of_true (fun n hn => ?_) (fun hu => htop hu.2.1)
    rw [hclear n hn, reserves_iff]
    constructor
    · rintro hshares ⟨-, hno⟩
      exact hno ⟨hshares, htop⟩
    · intro hno
      exact ⟨fun hc => hc.1, fun hc => ⟨hc, fun hr => hno hr.1⟩⟩

/-- A range from `0x1000` may end where the last page begins, and no byte later. -/
theorem reserve_exact_iff_small :
    ReserveExact smallState 0x1000 0xffffffffffffe000 ∧
    ¬ ReserveExact smallState 0x1000 0xffffffffffffe001 := by
  have hreach := smallState_reachable []
  refine ⟨(reserve_exact_iff hreach _ _).mpr (fun hu => absurd hu.2.1 (by decide)),
    fun h => (reserve_exact_iff hreach _ _).mp h ?_⟩
  exact ⟨by decide, by decide, 1, by decide, by decide, by decide⟩

/-- Everything from `0x1000` to the end of the address space is confirmed as reserved,
    and frame 1 is still free. -/
theorem reserve_confirms_nothing :
    (pmmReserveRange smallState 0x1000 0xffffffffffffefff).1 = true ∧
    Shares 0x1000 0xffffffffffffefff 1 ∧
    Clear (pmmReserveRange smallState 0x1000 0xffffffffffffefff).2 1 :=
  ⟨by decide, ⟨0x1000, by decide, by decide, by decide, by decide⟩, by decide⟩

end PmmReserve
