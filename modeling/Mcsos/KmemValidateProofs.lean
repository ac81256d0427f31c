import Mcsos.KmemModel
import Mcsos.LinkedProofs

/-! # `kmem_validate`

    What the checker of the heap decides, without its loop: the blocks are linked
    from `g_head` to a null pointer, each begins where the one before it ends, and
    its header says so.  One round of the loop accepts a block or refuses it
    (`validateLoop_cases`); everything that is proved about the checker goes
    through `kmemValidate_zero_iff`. -/

namespace KmemValidate

open Word KmemModel LinkedChain

variable {s : KmemState} {left : Nat} {cur prev cursor : U64}

/-! ## A round of the loop -/

/-- `cursor` behind the block at `x`. -/
def behind (s : KmemState) (x : U64) : U64 :=
  kmemAlignUpPtr (kmemPayload x + hdrSize s.mem x) KMEM_ALIGN

/-- What a round demands of the block at `cur`, with `prev` before it. -/
structure Accepted (s : KmemState) (prev cursor cur : U64) : Prop where
  place : cur = cursor
  lower : s.gHeapBase ≤ cur
  header : cur + HEADER ≤ s.gHeapEnd
  magic : hdrMagic s.mem cur = KMEM_MAGIC
  back : hdrPrev s.mem cur = prev
  size : hdrSize s.mem cur ≤ s.gHeapEnd - kmemPayload cur
  behind_ne : behind s cur ≠ 0
  behind_le : behind s cur ≤ s.gHeapEnd

/-- At the end of the list everything has been checked. -/
theorem validateLoop_null : validateLoop s left 0 prev cursor = 0 :=
  (validateLoop.eq_def ..).trans (if_pos rfl)

/-- A list that is too long is refused. -/
theorem validateLoop_guard (hcur : cur ≠ 0) : validateLoop s 0 cur prev cursor = -3 :=
  (validateLoop.eq_def ..).trans (if_neg hcur)

/-- **ROUND**: a block is refused, or the loop goes on behind it. -/
theorem validateLoop_cases (left : Nat) (prev cursor : U64) (hcur : cur ≠ 0) :
    (¬ Accepted s prev cursor cur ∧ validateLoop s (left + 1) cur prev cursor ≠ 0) ∨
    (Accepted s prev cursor cur ∧ validateLoop s (left + 1) cur prev cursor
      = validateLoop s left (hdrNext s.mem cur) cur (behind s cur)) := by
  rw [validateLoop, if_neg hcur]
  dsimp only
  by_cases hplace : cur = cursor
  swap
  · rw [if_pos hplace]
    exact Or.inl ⟨fun h => hplace h.place, by decide⟩
  rw [if_neg (not_not_intro hplace)]
  by_cases hheader : cur < s.gHeapBase ∨ cur + HEADER > s.gHeapEnd
  · rw [if_pos hheader]
    refine Or.inl ⟨fun h => ?_, by decide⟩
    rcases hheader with hlow | hhigh
    · exact BitVec.not_lt.mpr h.lower hlow
    · exact BitVec.not_lt.mpr h.header hhigh
  rw [if_neg hheader]
  -- the header lies in the arena; its fields are checked from here on
  obtain ⟨hlow, hhigh⟩ := not_or.mp hheader
  by_cases hmagic : hdrMagic s.mem cur = KMEM_MAGIC
  swap
  · rw [if_pos hmagic]
    exact Or.inl ⟨fun h => hmagic h.magic, by decide⟩
  rw [if_neg (not_not_intro hmagic)]
  by_cases hback : hdrPrev s.mem cur = prev
  swap
  · rw [if_pos hback]
    exact Or.inl ⟨fun h => hback h.back, by decide⟩
  rw [if_neg (not_not_intro hback)]
  by_cases hsize : hdrSize s.mem cur > s.gHeapEnd - kmemPayload cur
  · rw [if_pos hsize]
    exact Or.inl ⟨fun h => BitVec.not_lt.mpr h.size hsize, by decide⟩
  rw [if_neg hsize]
  by_cases hbehind : behind s cur = 0 ∨ behind s cur > s.gHeapEnd
  · refine Or.inl ⟨fun h => ?_, ?_⟩
    · rcases hbehind with hzero | hover
      · exact h.behind_ne hzero
      · exact BitVec.not_lt.mpr h.behind_le hover
    · exact ne_of_eq_of_ne (if_pos hbehind) (by decide)
  · obtain ⟨hne, hle⟩ := not_or.mp hbehind
    exact Or.inr ⟨⟨hplace, BitVec.not_lt.mp hlow, BitVec.not_lt.mp hhigh, hmagic, hback,
      BitVec.not_lt.mp hsize, hne, BitVec.not_lt.mp hle⟩, if_neg hbehind⟩

/-! ## The chain -/

/-- Every block of the chain is accepted, behind the one before it. -/
def Chain (s : KmemState) : U64 → U64 → List U64 → Prop
  | _, _, [] => True
  | prev, cursor, x :: l => Accepted s prev cursor x ∧ Chain s x (behind s x) l

/-- The loop answers 0 exactly on a chain of accepted blocks that ends in time. -/
theorem validateLoop_zero_iff : validateLoop s left cur prev cursor = 0 ↔
    ∃ l, Linked (hdrNext s.mem) 0 cur l ∧ Chain s prev cursor l ∧ l.length ≤ left := by
  induction left generalizing cur prev cursor with
  | zero =>
      by_cases hcur : cur = 0
      · subst hcur
        exact iff_of_true validateLoop_null ⟨[], rfl, trivial, Nat.le_refl 0⟩
      · rw [validateLoop_guard hcur]
        refine iff_of_false (by decide) ?_
        rintro ⟨l, hl, -, hlen⟩
        obtain rfl := List.eq_nil_of_length_eq_zero (Nat.le_zero.mp hlen)
        exact hcur hl
  | succ left ih =>
      by_cases hcur : cur = 0
      · subst hcur
        exact iff_of_true validateLoop_null ⟨[], rfl, trivial, Nat.zero_le _⟩
      -- one block is accepted or refused, and the rest is the induction's
      rcases validateLoop_cases (s := s) left prev cursor hcur with ⟨hno, hrc⟩ | ⟨hok, hgo⟩
      · refine iff_of_false hrc ?_
        rintro ⟨l, hl, hchain, -⟩
        cases l with
        | nil => exact hcur hl
        | cons x l =>
            obtain ⟨rfl, -, -⟩ := hl
            exact hno hchain.1
      · rw [hgo, ih]
        constructor
        · rintro ⟨l, hl, hchain, hlen⟩
          exact ⟨cur :: l, ⟨rfl, hcur, hl⟩, ⟨hok, hchain⟩, Nat.succ_le_succ hlen⟩
        · rintro ⟨l, hl, hchain, hlen⟩
          cases l with
          | nil => exact absurd hl hcur
          | cons x l =>
              obtain ⟨rfl, -, hrest⟩ := hl
              exact ⟨l, hrest, hchain.2, Nat.le_of_succ_le_succ hlen⟩

/-- What the checker decides: the blocks `l` are linked from `g_head` on, each
    begins where the one before it ends, and its header says so. -/
structure Consistent (s : KmemState) (l : List U64) : Prop where
  init : s.gInitialized = true
  base_ne : s.gHeapBase ≠ 0
  base_lt : s.gHeapBase < s.gHeapEnd
  head : s.gHead = s.gHeapBase
  linked : Linked (hdrNext s.mem) 0 s.gHead l
  chain : Chain s 0 s.gHeapBase l
  length : l.length ≤ 1048576

/-- **DECIDES**: 0 is returned exactly for a chain that is consistent. -/
theorem kmemValidate_zero_iff : kmemValidate s = 0 ↔ ∃ l, Consistent s l := by
  rw [kmemValidate]
  by_cases hready : !s.gInitialized ∨ s.gHeapBase = 0 ∨ s.gHeapEnd ≤ s.gHeapBase ∨ s.gHead = 0
  · rw [if_pos hready]
    refine iff_of_false (by decide) ?_
    rintro ⟨l, h⟩
    rcases hready with hinit | hbase | hend | hhead
    · rw [h.init] at hinit
      exact absurd hinit (by decide)
    · exact h.base_ne hbase
    · exact BitVec.not_lt.mpr hend h.base_lt
    · exact h.base_ne (h.head.symm.trans hhead)
  rw [if_neg hready]
  obtain ⟨hinit, hbase, hend, -⟩ : s.gInitialized = true ∧ s.gHeapBase ≠ 0 ∧
      s.gHeapBase < s.gHeapEnd ∧ s.gHead ≠ 0 := by
    simpa only [not_or, Bool.not_eq_true', Bool.not_eq_false, BitVec.not_le] using hready
  -- what is left is that the list starts at the base
  by_cases hhead : s.gHead = s.gHeapBase
  · rw [if_neg (not_not_intro hhead), validateLoop_zero_iff]
    constructor
    · rintro ⟨l, hl, hchain, hlen⟩
      exact ⟨l, hinit, hbase, hend, hhead, hl, hchain, hlen⟩
    · rintro ⟨l, h⟩
      exact ⟨l, h.linked, h.chain, h.length⟩
  · rw [if_pos hhead]
    refine iff_of_false (by decide) ?_
    rintro ⟨l, h⟩
    exact hhead h.head

end KmemValidate
