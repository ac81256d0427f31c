import Mcsos.KmemRunProofs

/-! # What the heap checker decides

    `kmem_validate` follows `next` in whatever is stored in the arena.  It reads a
    header only after it has compared its address with the place where the block
    before it ended, so that it never leaves the heap, whatever the links are;
    and what it accepts is a finite chain of blocks that do not overlap, linked
    in both directions.

    Two things are not checked.  If the heap ends in the last 48 bytes of the
    address space, the end of a header wraps and a header behind the heap is
    read.  And when the chain ends, the place reached is not compared with the
    end of the heap: a list that stops short is accepted. -/

namespace KmemChecker

open Word ByteMemory KmemModel KmemHeader KmemValidate KmemRun LinkedChain

variable {s : KmemState} {left : Nat} {cur prev cursor x : U64} {l : List U64}

/-! ## Reads -/

/-- A header wholly inside the heap. -/
def HeaderInside (s : KmemState) (x : U64) : Prop :=
  s.gHeapBase.toNat ≤ x.toNat ∧ x.toNat + 48 ≤ s.gHeapEnd.toNat

instance (s : KmemState) (x : U64) : Decidable (HeaderInside s x) :=
  inferInstanceAs (Decidable (_ ∧ _))

/-- A field of the header at `x`; there is nothing to read outside the heap. -/
def readField (s : KmemState) (field : Mem → U64 → U64) (x : U64) : Option U64 :=
  if HeaderInside s x then some (field s.mem x) else none

/-- The loop of `kmem_validate`, with every read of a header guarded. -/
def guardedLoop (s : KmemState) : Nat → U64 → U64 → U64 → Option Int
  | left, cur, prev, cursor =>
      if cur = 0 then some 0
      else
        match left with
        | 0 => some (-3)
        | left + 1 =>
            if cur ≠ cursor then some (-4)
            else if cur < s.gHeapBase ∨ cur + HEADER > s.gHeapEnd then some (-5)
            else
              (readField s hdrMagic cur).bind fun magic =>
              if magic ≠ KMEM_MAGIC then some (-6)
              else
                (readField s hdrPrev cur).bind fun back =>
                if back ≠ prev then some (-7)
                else
                  (readField s hdrSize cur).bind fun size =>
                  if size > s.gHeapEnd - kmemPayload cur then some (-8)
                  else
                    let cursor := kmemAlignUpPtr (kmemPayload cur + size) KMEM_ALIGN
                    if cursor = 0 ∨ cursor > s.gHeapEnd then some (-9)
                    else (readField s hdrNext cur).bind fun next =>
                      guardedLoop s left next cur cursor

/-- `kmem_validate` with every read of a header guarded: `none` is a read outside the arena. -/
def guardedValidate (s : KmemState) : Option Int :=
  if !s.gInitialized ∨ s.gHeapBase = 0 ∨ s.gHeapEnd ≤ s.gHeapBase ∨ s.gHead = 0 then some (-1)
  else if s.gHead ≠ s.gHeapBase then some (-2)
  else guardedLoop s 1048576 s.gHead 0 s.gHeapBase

/-- The comparison of the end of a header is one of numbers, as long as a header
    at the end of the heap does not wrap. -/
theorem headerInside_of_le (hend : s.gHeapEnd.toNat + 48 < 2 ^ 64)
    (hcur : cur.toNat ≤ s.gHeapEnd.toNat) (hlow : s.gHeapBase ≤ cur)
    (hhigh : cur + HEADER ≤ s.gHeapEnd) : HeaderInside s cur := by
  have hhigh' : (cur + 48).toNat ≤ s.gHeapEnd.toNat := hhigh
  refine ⟨hlow, ?_⟩
  rw [BitVec.toNat_add, show (48 : U64).toNat = 48 from rfl, Nat.mod_eq_of_lt (by omega)] at hhigh'
  exact hhigh'

/-- With an end that does not wrap, the loop reads inside the arena only, and answers as the plain
    one. -/
theorem guardedLoop_eq (hend : s.gHeapEnd.toNat + 48 < 2 ^ 64)
    (hcursor : cursor.toNat ≤ s.gHeapEnd.toNat) :
    guardedLoop s left cur prev cursor = some (validateLoop s left cur prev cursor) := by
  induction left generalizing cur prev cursor with
  | zero =>
      rw [guardedLoop, validateLoop, apply_ite some]
  | succ left ih =>
      rw [guardedLoop, validateLoop]
      by_cases hcur : cur = 0
      · rw [if_pos hcur, if_pos hcur]
      rw [if_neg hcur, if_neg hcur]
      dsimp only
      by_cases hplace : cur = cursor
      swap
      · rw [if_pos hplace, if_pos hplace]
      rw [if_neg (not_not_intro hplace), if_neg (not_not_intro hplace)]
      by_cases hheader : cur < s.gHeapBase ∨ cur + HEADER > s.gHeapEnd
      · rw [if_pos hheader, if_pos hheader]
      rw [if_neg hheader, if_neg hheader]
      obtain ⟨hlow, hhigh⟩ := not_or.mp hheader
      -- both checks before the first read have passed
      have hin := headerInside_of_le hend (hplace ▸ hcursor) (BitVec.not_lt.mp hlow)
        (BitVec.not_lt.mp hhigh)
      have hread : ∀ field, readField s field cur = some (field s.mem cur) :=
        fun _ => if_pos hin
      have hcursor' := (behind.eq_def s cur).symm
      simp only [hread, Option.bind_some, hcursor']
      by_cases hbehind : behind s cur = 0 ∨ behind s cur > s.gHeapEnd
      · rw [if_pos hbehind, if_pos hbehind]
        simp only [apply_ite some]
      · have hle := BitVec.le_def.mp (BitVec.not_lt.mp (not_or.mp hbehind).2)
        rw [if_neg hbehind, if_neg hbehind, ih hle]
        simp only [apply_ite some]

/-- **READS**: every header the checker looks at lies inside the heap. -/
theorem guardedValidate_eq (hend : s.gHeapEnd.toNat + 48 < 2 ^ 64) :
    guardedValidate s = some (kmemValidate s) := by
  rw [guardedValidate, kmemValidate]
  by_cases hready : !s.gInitialized ∨ s.gHeapBase = 0 ∨ s.gHeapEnd ≤ s.gHeapBase ∨ s.gHead = 0
  · rw [if_pos hready, if_pos hready]
  rw [if_neg hready, if_neg hready]
  have hlt : ¬ s.gHeapEnd ≤ s.gHeapBase := fun hle => hready (Or.inr (Or.inr (Or.inl hle)))
  have hbase : s.gHeapBase.toNat ≤ s.gHeapEnd.toNat := Nat.le_of_lt (BitVec.not_le.mp hlt)
  rw [guardedLoop_eq hend hbase, apply_ite some]

/-! ## What is accepted -/

/-- The end of the block at `x`. -/
def blockEnd (s : KmemState) (x : U64) : Nat := x.toNat + 48 + (hdrSize s.mem x).toNat

/-- A block that was accepted ends in the arena, at or before the next header. -/
theorem accepted_bounds (h : Accepted s prev cursor cur) (hend : s.gHeapEnd.toNat + 48 < 2 ^ 64)
    (hcursor : cursor.toNat ≤ s.gHeapEnd.toNat) :
    blockEnd s cur ≤ s.gHeapEnd.toNat ∧ blockEnd s cur ≤ (behind s cur).toNat := by
  have hin := headerInside_of_le hend (h.place ▸ hcursor) h.lower h.header
  have hhigh := hin.2
  have hpayload : (kmemPayload cur).toNat = cur.toNat + 48 := by
    rw [kmemPayload, HEADER]
    bv_omega
  have hsize : (hdrSize s.mem cur).toNat ≤ (s.gHeapEnd - kmemPayload cur).toNat := h.size
  rw [BitVec.toNat_sub_of_le (show (kmemPayload cur).toNat ≤ _ by omega), hpayload] at hsize
  have hsum : (kmemPayload cur + hdrSize s.mem cur).toNat = blockEnd s cur := by
    rw [BitVec.toNat_add, hpayload, Nat.mod_eq_of_lt (by omega), blockEnd]
  refine ⟨by rw [blockEnd]; omega, ?_⟩
  rcases kmemAlignUpPtr_cases (kmemPayload cur + hdrSize s.mem cur) with ⟨-, hzero⟩ | ⟨-, hval⟩
  · exact absurd hzero h.behind_ne
  · rw [behind, hval, hsum]
    omega

/-- The blocks of a chain lie between its beginning and the end of the heap. -/
theorem chain_inside (h : Chain s prev cursor l) (hend : s.gHeapEnd.toNat + 48 < 2 ^ 64)
    (hcursor : cursor.toNat ≤ s.gHeapEnd.toNat) (hx : x ∈ l) :
    cursor.toNat ≤ x.toNat ∧ s.gHeapBase.toNat ≤ x.toNat ∧ blockEnd s x ≤ s.gHeapEnd.toNat := by
  induction l generalizing prev cursor with
  | nil => cases hx
  | cons y l ih =>
      obtain ⟨hy, hrest⟩ := h
      obtain ⟨hinside, hbehind⟩ := accepted_bounds hy hend hcursor
      rcases List.mem_cons.mp hx with rfl | hmem
      · exact ⟨Nat.le_of_eq (congrArg BitVec.toNat hy.place.symm), hy.lower, hinside⟩
      · obtain ⟨hlow, hrest⟩ := ih hrest hy.behind_le hmem
        have hplace := congrArg BitVec.toNat hy.place
        rw [blockEnd] at hbehind
        exact ⟨by omega, hrest⟩

/-- Blocks that were accepted in a row lie one behind the other. -/
theorem chain_apart (h : Chain s prev cursor l) (hend : s.gHeapEnd.toNat + 48 < 2 ^ 64)
    (hcursor : cursor.toNat ≤ s.gHeapEnd.toNat) :
    l.Pairwise (fun x y => x.toNat < y.toNat ∧ blockEnd s x ≤ y.toNat) := by
  induction l generalizing prev cursor with
  | nil => exact List.Pairwise.nil
  | cons x l ih =>
      obtain ⟨hx, hrest⟩ := h
      obtain ⟨-, hbehind⟩ := accepted_bounds hx hend hcursor
      refine List.Pairwise.cons (fun y hy => ?_) (ih hrest hx.behind_le)
      obtain ⟨hlow, -⟩ := chain_inside hrest hend hx.behind_le hy
      have hafter := Nat.le_trans hbehind hlow
      rw [blockEnd] at hafter
      exact ⟨by omega, hafter⟩

/-- The block behind a block points back at it. -/
theorem chain_next (hl : Linked (hdrNext s.mem) 0 cur l) (h : Chain s prev cursor l) (hx : x ∈ l)
    (hne : hdrNext s.mem x ≠ 0) :
    hdrNext s.mem x ∈ l ∧ hdrPrev s.mem (hdrNext s.mem x) = x := by
  induction l generalizing cur prev cursor with
  | nil => cases hx
  | cons y l ih =>
      obtain ⟨-, -, hl⟩ := hl
      rcases List.mem_cons.mp hx with rfl | hmem
      · cases l with
        | nil => exact absurd hl hne
        | cons z l =>
            rw [hl.1]
            exact ⟨List.mem_cons_of_mem _ (List.mem_cons_self ..), h.2.1.back⟩
      · obtain ⟨hin, hback⟩ := ih hl h.2 hmem
        exact ⟨List.mem_cons_of_mem _ hin, hback⟩

/-- Only the first block points back out of the chain. -/
theorem chain_prev (hl : Linked (hdrNext s.mem) 0 cur l) (h : Chain s prev cursor l)
    (hx : x ∈ l) :
    (cur = x ∧ hdrPrev s.mem x = prev) ∨
    (hdrPrev s.mem x ∈ l ∧ hdrNext s.mem (hdrPrev s.mem x) = x) := by
  induction l generalizing cur prev cursor with
  | nil => cases hx
  | cons y l ih =>
      obtain ⟨hcur, -, hl⟩ := hl
      rcases List.mem_cons.mp hx with rfl | hmem
      · exact Or.inl ⟨hcur, h.1.back⟩
      · rcases ih hl h.2 hmem with ⟨hnext, hback⟩ | ⟨hin, hnext⟩
        · rw [hback]
          exact Or.inr ⟨List.mem_cons_self .., hnext⟩
        · exact Or.inr ⟨List.mem_cons_of_mem _ hin, hnext⟩

/-- A block list as it should be: finite, ascending without overlap, inside the
    heap, and linked in both directions. -/
structure Sound (s : KmemState) (l : List U64) : Prop where
  linked : Linked (hdrNext s.mem) 0 s.gHead l
  apart : l.Pairwise (fun x y => x.toNat < y.toNat ∧ blockEnd s x ≤ y.toNat)
  inside : ∀ x ∈ l, s.gHeapBase.toNat ≤ x.toNat ∧ blockEnd s x ≤ s.gHeapEnd.toNat
  next_prev : ∀ x ∈ l, hdrNext s.mem x ≠ 0 →
    hdrNext s.mem x ∈ l ∧ hdrPrev s.mem (hdrNext s.mem x) = x
  prev_next : ∀ x ∈ l, hdrPrev s.mem x ≠ 0 →
    hdrPrev s.mem x ∈ l ∧ hdrNext s.mem (hdrPrev s.mem x) = x

/-- A heap that is consistent is sound. -/
theorem sound_of_consistent (h : Consistent s l) (hend : s.gHeapEnd.toNat + 48 < 2 ^ 64) :
    Sound s l := by
  have hbase : s.gHeapBase.toNat ≤ s.gHeapEnd.toNat := Nat.le_of_lt h.base_lt
  refine ⟨h.linked, chain_apart h.chain hend hbase,
    fun x hx => (chain_inside h.chain hend hbase hx).2,
    fun x hx hne => chain_next h.linked h.chain hx hne, fun x hx hne => ?_⟩
  rcases chain_prev h.linked h.chain hx with ⟨-, hzero⟩ | hback
  · exact absurd hzero hne
  · exact hback

/-- **SAFE AND SOUND**: whatever is stored, the checker reads only headers inside
    the heap, and what it accepts is a block list as it should be. -/
theorem kmem_validate_safe_sound (s : KmemState) (hend : s.gHeapEnd.toNat + 48 < 2 ^ 64) :
    guardedValidate s = some (kmemValidate s) ∧
    (kmemValidate s = 0 → ∃ l, Sound s l) := by
  refine ⟨guardedValidate_eq hend, fun h => ?_⟩
  obtain ⟨l, hl⟩ := kmemValidate_zero_iff.mp h
  exact ⟨l, sound_of_consistent hl hend⟩

/-- A page whose one block is linked to itself. -/
def selfHeap : KmemState :=
  { smallStart.heap with
    mem := setNext smallStart.heap.mem smallStart.heap.gHead smallStart.heap.gHead }

/-- That page is refused, a fresh one is not. -/
theorem kmem_validate_safe_sound_page :
    guardedValidate selfHeap = some (-4) ∧
    guardedValidate smallStart.heap = some 0 ∧ ∃ l, Sound smallStart.heap l := by
  have hself := (kmem_validate_safe_sound selfHeap (by decide +kernel)).1
  obtain ⟨hread, hsound⟩ := kmem_validate_safe_sound smallStart.heap (by decide +kernel)
  have hrefused : kmemValidate selfHeap = -4 := by decide +kernel
  have hzero : kmemValidate smallStart.heap = 0 := by decide +kernel
  rw [hrefused] at hself
  rw [hzero] at hread
  exact ⟨hself, hread, hsound hzero⟩

/-- A heap of 64 bytes that ends 48 bytes below the top of the address space. Its
    one block is followed by a header at `g_heap_end`. -/
def topHeap : KmemState :=
  ⟨writeHeader (writeHeader (fun _ => 0) 0xffffffffffffff90
      ⟨KMEM_MAGIC, 16, 0, 0, 0xffffffffffffffd0⟩)
      0xffffffffffffffd0 ⟨KMEM_MAGIC, 16, 0, 0xffffffffffffff90, 0⟩,
    0xffffffffffffff90, 0xffffffffffffffd0, 0xffffffffffffff90, true⟩

/-- The two blocks of the example at the end of the address space are linked. -/
theorem linked_topHeap : Linked (hdrNext topHeap.mem) 0 topHeap.gHead
    [0xffffffffffffff90, 0xffffffffffffffd0] := by
  refine ⟨rfl, by decide, ?_, by decide, ?_⟩
  · decide +kernel
  · show hdrNext topHeap.mem 0xffffffffffffffd0 = 0
    decide +kernel

/-- **BEHIND THE HEAP**: there the checker reads a header that begins at
    `g_heap_end`, and accepts it as a block. -/
theorem kmem_validate_behind :
    topHeap.gHeapBase.toNat % 16 = 0 ∧ topHeap.gHeapEnd.toNat % 16 = 0 ∧
    topHeap.gHeapEnd.toNat + 48 = 2 ^ 64 ∧
    guardedValidate topHeap = none ∧ kmemValidate topHeap = 0 ∧ ¬ ∃ l, Sound topHeap l := by
  refine ⟨by decide, by decide, by decide, by decide +kernel, by decide +kernel, ?_⟩
  rintro ⟨l, h⟩
  obtain rfl := linked_unique h.linked linked_topHeap
  have hin := (h.inside 0xffffffffffffffd0 (by simp)).2
  exact absurd hin (by decide +kernel)

/-! ## Where the list stops -/

/-- The last block ends at `g_heap_end`. -/
def Covers (s : KmemState) (l : List U64) : Prop :=
  ∃ x, l.getLast? = some x ∧ blockEnd s x = s.gHeapEnd.toNat

/-- If the heap is accepted, its blocks cover it. -/
def NoticesLoss (s : KmemState) : Prop :=
  kmemValidate s = 0 → ∃ l, Linked (hdrNext s.mem) 0 s.gHead l ∧ Covers s l

/-- The links are consistent up to a block with none behind it that is not the
    last of the heap. -/
def StopsShort (s : KmemState) : Prop := ∃ l, Consistent s l ∧ ¬ Covers s l

/-- **LOST MEMORY**: it is noticed exactly if the list does not stop short with
    headers that are consistent up to there. -/
theorem kmem_validate_covers_iff (s : KmemState) : NoticesLoss s ↔ ¬ StopsShort s := by
  constructor
  · rintro h ⟨l, hl, hshort⟩
    obtain ⟨l', hlinked, hcovers⟩ := h (kmemValidate_zero_iff.mpr ⟨l, hl⟩)
    rw [linked_unique hlinked hl.linked] at hcovers
    exact hshort hcovers
  · intro h hzero
    obtain ⟨l, hl⟩ := kmemValidate_zero_iff.mp hzero
    refine ⟨l, hl.linked, ?_⟩
    by_contra hshort
    exact h ⟨l, hl, hshort⟩

/-- A page with one block of 16 bytes handed out, and the link behind that block
    overwritten with a null pointer. -/
def cutHeap : KmemState :=
  { (afterAlloc smallStart 16).heap with
    mem := setNext (afterAlloc smallStart 16).heap.mem (afterAlloc smallStart 16).heap.gHead 0 }

/-- **STOPS SHORT**: the list of that heap ends 4032 bytes before the heap does,
    and is accepted. -/
theorem kmem_validate_truncated :
    kmemValidate (afterAlloc smallStart 16).heap = 0 ∧
    (kmemBlocks (afterAlloc smallStart 16).heap).map List.length = some 2 ∧
    kmemValidate cutHeap = 0 ∧ kmemBlocks cutHeap = some [⟨cutHeap.gHeapBase, 16, false⟩] ∧
    cutHeap.gHeapEnd.toNat = cutHeap.gHeapBase.toNat + 4096 ∧ ¬ NoticesLoss cutHeap := by
  have hzero : kmemValidate cutHeap = 0 := by decide +kernel
  refine ⟨by decide +kernel, by decide +kernel, hzero, by decide +kernel, by decide +kernel, ?_⟩
  intro h
  obtain ⟨l, hlinked, x, hlast, hend⟩ := h hzero
  have hone : Linked (hdrNext cutHeap.mem) 0 cutHeap.gHead [cutHeap.gHead] := by
    refine ⟨rfl, by decide +kernel, ?_⟩
    show hdrNext cutHeap.mem cutHeap.gHead = 0
    decide +kernel
  rw [linked_unique hlinked hone] at hlast
  obtain rfl := Option.some.inj hlast
  exact absurd hend (by decide +kernel)

end KmemChecker
