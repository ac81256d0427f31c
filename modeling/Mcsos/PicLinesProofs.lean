import Mcsos.PicProofs

/-! # Which lines are open

    `pic_unmask_irq` clears one bit of one mask.  A request of the second controller
    reaches the processor through line 2 of the first one, whose mask is another
    matter: the lines that can interrupt are known after any calls. -/

namespace PicDriver

open Word PicModel

variable {d : PicPair}

/-- Calls of `pic_unmask_irq`, one after the other. -/
def unmaskAll (irqs : List (Fin 16)) (d : PicPair) : PicPair :=
  irqs.foldl (fun d irq => ((picUnmaskIrq picBus (BitVec.ofNat 8 irq)).run d).2) d

/-- The bit of a line. -/
theorem getLsbD_bit {i k : Nat} (hi : i < 8) : (bit k).getLsbD i = decide (i = k) :=
  getLsbD_one_shiftLeft k i hi

/-- One call changes one bit of one mask. -/
theorem unmaskIrq_masks (h : Ready d) (irq : Fin 16) :
    ((picUnmaskIrq picBus (BitVec.ofNat 8 irq)).run d).2 =
      if irq.val < 8 then
        { d with master := { d.master with imr := d.master.imr &&& ~~~bit irq } }
      else { d with slave := { d.slave with imr := d.slave.imr &&& ~~~bit (irq - 8) } } := by
  have hirq := irq.isLt
  have hval : (BitVec.ofNat 8 irq.val).toNat = irq := by
    rw [BitVec.toNat_ofNat]
    omega
  rw [picUnmaskIrq_run, unmasked_of_ready h.masterStage, unmasked_of_ready h.slaveStage, hval]
  by_cases hlt : irq.val < 8
  · rw [if_pos hlt, if_pos (by bv_omega)]
  · have hline : (BitVec.ofNat 8 irq.val - 8).toNat = irq - 8 := by bv_omega
    rw [if_neg hlt, if_neg (by bv_omega), hline]

/-- The controllers right after the setup and some calls: nothing requested, nothing in
    service, and the given lines unmasked. -/
structure Opened (irqs : List (Fin 16)) (d : PicPair) : Prop extends Quiet d where
  masterIrr : d.master.irr = 0
  slaveIrr : d.slave.irr = 0
  masterImr : ∀ i, i < 8 →
    (d.master.imr.getLsbD i = false ↔ i = 0 ∨ ∃ irq ∈ irqs, irq.val = i)
  slaveImr : ∀ i, i < 8 → (d.slave.imr.getLsbD i = false ↔ ∃ irq ∈ irqs, irq.val = i + 8)

/-- After the setup only line 0 is open. -/
theorem picSetup_opened (d : PicPair) : Opened [] ((picSetup picBus).run d).2 := by
  -- the masks that the setup leaves, bit by bit
  have hmaster : ∀ i : Fin 8, (0xFE : U8).getLsbD i = false ↔ i.val = 0 := by decide
  have hslave : ∀ i : Fin 8, (0xFF : U8).getLsbD i = true := by decide
  refine ⟨picSetup_quiet d, ?_, ?_, ?_, ?_⟩
  · rw [picSetup_run]
  · rw [picSetup_run]
  · intro i hi
    rw [picSetup_run]
    refine (hmaster ⟨i, hi⟩).trans ?_
    simp
  · intro i hi
    rw [picSetup_run]
    constructor
    · intro hclear
      cases (hslave ⟨i, hi⟩).symm.trans hclear
    · rintro ⟨irq, hirq, -⟩
      cases hirq

/-- A mask with one more bit cleared. -/
theorem cleared_iff {mask : U8} {i k : Nat} (hi : i < 8) :
    (mask &&& ~~~bit k).getLsbD i = false ↔ mask.getLsbD i = false ∨ i = k := by
  rw [BitVec.getLsbD_and, BitVec.getLsbD_not, getLsbD_bit hi, decide_eq_true hi]
  by_cases h : i = k
  · simp [h]
  · simp [h]

/-- Unmasking a line opens it and no other. -/
theorem Opened.unmask {irqs : List (Fin 16)} (h : Opened irqs d) (irq : Fin 16) :
    Opened (irqs ++ [irq]) ((picUnmaskIrq picBus (BitVec.ofNat 8 irq)).run d).2 := by
  have hquiet := h.toQuiet.unmask (BitVec.ofNat 8 irq)
  have hmem : ∀ k, (∃ n ∈ irqs ++ [irq], n.val = k) ↔ (∃ n ∈ irqs, n.val = k) ∨ k = irq := by
    intro k
    simp only [List.mem_append, List.mem_singleton]
    constructor
    · rintro ⟨n, hn | hn, hk⟩
      · exact .inl ⟨n, hn, hk⟩
      · exact .inr (by rw [← hk, hn])
    · rintro (⟨n, hn, hk⟩ | hk)
      · exact ⟨n, .inl hn, hk⟩
      · exact ⟨irq, .inr rfl, hk.symm⟩
  rw [unmaskIrq_masks h.toReady] at hquiet ⊢
  -- the line is the master's or the slave's, and the other mask stays
  by_cases hlt : irq.val < 8
  · rw [if_pos hlt] at hquiet ⊢
    refine ⟨hquiet, h.masterIrr, h.slaveIrr, fun i hi => ?_, fun i hi => ?_⟩
    · rw [cleared_iff hi, h.masterImr i hi, hmem, or_assoc]
    · have hne : i + 8 ≠ irq := by omega
      rw [h.slaveImr i hi, hmem, or_iff_left hne]
  · rw [if_neg hlt] at hquiet ⊢
    refine ⟨hquiet, h.masterIrr, h.slaveIrr, fun i hi => ?_, fun i hi => ?_⟩
    · have hne : i ≠ irq := by omega
      rw [h.masterImr i hi, hmem, or_iff_left hne]
    · have heq : i = irq.val - 8 ↔ i + 8 = irq := by omega
      rw [cleared_iff hi, h.slaveImr i hi, hmem, heq]

/-- Unmasking one line after another opens exactly these. -/
theorem Opened.unmaskAll {seen : List (Fin 16)} (irqs : List (Fin 16)) (h : Opened seen d) :
    Opened (seen ++ irqs) (unmaskAll irqs d) := by
  induction irqs generalizing seen d with
  | nil =>
      rw [List.append_nil]
      exact h
  | cons irq irqs ih =>
      have hnext := ih (h.unmask irq)
      rw [List.append_assoc] at hnext
      exact hnext

/-- A controller with nothing in service and one line requesting. -/
theorem request_bit {p : Pic} (h : p.isr = 0) {k : Nat} (hk : k < 8) :
    p.request (bit k) = if p.imr.getLsbD k then none else some k := by
  by_cases hmask : p.imr.getLsbD k = true
  · rw [if_pos hmask]
    refine List.find?_range_eq_none.mpr (fun i hi => ?_)
    rw [getLsbD_bit hi]
    by_cases hik : i = k
    · rw [hik, hmask]
      simp
    · simp [hik]
  · rw [if_neg hmask]
    refine List.find?_range_eq_some.mpr ⟨?_, List.mem_range.mpr hk, fun j hj => ?_⟩
    · rw [getLsbD_bit hk, h, Bool.eq_false_iff.mpr hmask]
      simp
    · rw [getLsbD_bit (by omega)]
      have hne : j ≠ k := by omega
      simp [hne]

/-- Nothing is requested if no line is raised. -/
theorem request_zero (p : Pic) : p.request 0 = none := by
  refine List.find?_range_eq_none.mpr (fun i hi => ?_)
  simp

theorem zero_or_bit (k : Nat) : 0 ||| bit k = bit k := BitVec.zero_or

/-- Right after the setup and some calls, one line of the first controller requests. -/
theorem request_raise_master {irqs : List (Fin 16)} (h : Opened irqs d) {irq : Fin 16}
    (hlt : irq.val < 8) (hne : irq.val ≠ CASCADE) :
    (d.raise irq).master.request (d.raise irq).masterIrr
      = if d.master.imr.getLsbD irq then none else some irq.val := by
  have hfirst : ∀ i : Fin 8, i.val ≠ CASCADE → bit i &&& ~~~bit CASCADE = bit i := by decide
  rw [PicPair.masterIrr, PicPair.raise, if_pos hlt]
  dsimp only
  rw [h.slaveIrr, request_zero, h.masterIrr, zero_or_bit]
  show Pic.request _ (bit irq &&& ~~~bit CASCADE) = _
  rw [hfirst ⟨irq, hlt⟩ hne]
  exact request_bit h.masterIsr hlt

/-- One line of the second controller requests. -/
theorem request_raise_slave {irqs : List (Fin 16)} (h : Opened irqs d) {irq : Fin 16}
    (hge : ¬ irq.val < 8) :
    (d.raise irq).slave.request (d.raise irq).slave.irr
        = (if d.slave.imr.getLsbD (irq - 8) then none else some (irq.val - 8)) ∧
      (d.raise irq).master.request (d.raise irq).masterIrr
        = if d.slave.imr.getLsbD (irq - 8) || d.master.imr.getLsbD CASCADE then none
          else some CASCADE := by
  have hzero : (0 : U8) &&& ~~~bit CASCADE = 0 := by decide
  have hslave : (d.raise irq).slave.request (d.raise irq).slave.irr
      = if d.slave.imr.getLsbD (irq - 8) then none else some (irq.val - 8) := by
    rw [PicPair.raise, if_neg hge]
    dsimp only
    rw [h.slaveIrr, zero_or_bit]
    exact request_bit h.slaveIsr (by omega)
  refine ⟨hslave, ?_⟩
  have hmaster : (d.raise irq).master = d.master := by rw [PicPair.raise, if_neg hge]
  rw [PicPair.masterIrr, hslave, hmaster, h.masterIrr, zero_or_bit, hzero]
  by_cases hmask : d.slave.imr.getLsbD (irq - 8) = true
  · rw [if_pos hmask, hmask]
    exact request_zero _
  · rw [if_neg hmask, Bool.eq_false_iff.mpr hmask, Bool.false_or]
    exact request_bit h.masterIsr (by decide)

theorem ite_none_ne {b : Bool} {i : Nat} :
    (if b then none else some i) ≠ none ↔ b = false := by
  cases b <;> simp

/-- **OPEN LINES**: after the setup and any calls of `pic_unmask_irq`, a request of a line
    reaches the processor exactly if the line is the timer's or has been unmasked and, for a
    line of the second controller, line 2 has been unmasked too: `pic_unmask_irq` does not
    do that by itself.  The vector is then 32 plus the line. -/
theorem open_lines (d : PicPair) (irqs : List (Fin 16)) (irq : Fin 16)
    (hne : irq.val ≠ CASCADE) :
    let d' := (unmaskAll irqs ((picSetup picBus).run d).2).raise irq
    (d'.master.request d'.masterIrr ≠ none ↔
      (irq.val = 0 ∨ irq ∈ irqs) ∧ (irq.val < 8 ∨ ∃ n ∈ irqs, n.val = CASCADE)) ∧
    (d'.master.request d'.masterIrr ≠ none →
      (d'.acknowledge false).1 = BitVec.ofNat 8 (32 + irq)) := by
  have h : Opened irqs (unmaskAll irqs ((picSetup picBus).run d).2) :=
    (picSetup_opened d).unmaskAll irqs
  -- from here on only the two masks matter
  generalize unmaskAll irqs ((picSetup picBus).run d).2 = e at h
  intro d'
  have hmem : (∃ n ∈ irqs, n.val = irq.val) ↔ irq ∈ irqs := by
    constructor
    · rintro ⟨n, hn, heq⟩
      rwa [Fin.ext heq] at hn
    · exact fun hirq => ⟨irq, hirq, rfl⟩
  have hready : Ready d' := (h.toQuiet.raise irq).toReady
  by_cases hlt : irq.val < 8
  · have hreq : d'.master.request d'.masterIrr = _ := request_raise_master h hlt hne
    rw [hreq, ite_none_ne]
    refine ⟨?_, fun hmask => ?_⟩
    · rw [h.masterImr irq hlt, hmem, and_iff_left (Or.inl hlt)]
    · rw [PicPair.acknowledge, hreq, hmask]
      dsimp only
      rw [if_neg Bool.false_ne_true]
      dsimp only
      rw [if_neg hne, hready.masterOffset]
      bv_omega
  · obtain ⟨hslave, hreq⟩ := request_raise_slave h hlt
    have hreq' : d'.master.request d'.masterIrr = _ := hreq
    have hslave' : d'.slave.request d'.slave.irr = _ := hslave
    -- a line of the slave also needs the cascade line of the master
    have hline : irq.val - 8 + 8 = irq := by omega
    have hzero : irq.val ≠ 0 := by omega
    rw [hreq', ite_none_ne, Bool.or_eq_false_iff]
    refine ⟨?_, fun hmask => ?_⟩
    · rw [h.slaveImr _ (by omega), h.masterImr _ (by decide), hline, hmem, or_iff_right hzero,
        or_iff_right hlt, or_iff_right (by decide)]
    · rw [PicPair.acknowledge, hreq', hmask.1, hmask.2]
      dsimp only
      rw [if_neg (by decide)]
      dsimp only
      rw [if_pos rfl, if_neg Bool.false_ne_true, hslave', hmask.1, if_neg Bool.false_ne_true]
      dsimp only
      rw [hready.slaveOffset]
      bv_omega

/-- The keyboard, on line 1, once it is unmasked. -/
theorem open_lines_keyboard :
    ((((unmaskAll [1] ((picSetup picBus).run default).2).raise 1).acknowledge false).1
      = BitVec.ofNat 8 (32 + 1)) :=
  (open_lines default [1] 1 (by decide)).2
    ((open_lines default [1] 1 (by decide)).1.mpr (by decide))

end PicDriver
