import Mcsos.KmemAllocProofs

/-! # Freeing and coalescing

    `Rewrites` is what marking a block free and joining blocks have in common:
    they write headers only, drop some of them together with their magic
    number, and keep the bounds.  Such steps compose, and `coalesceLoop` is a
    run of them that ends with `absorb`: the block together with the free
    blocks behind it.

    `kmem_free_checked` coalesces from the freed block and then from the block
    before it; the result is maximal again. -/

namespace KmemFree

open Word ByteMemory KmemModel KmemHeader KmemList KmemAlloc Tiling

variable {lo hi : Nat} {b c q : Block} {bs bs' bs'' pre post : List Block}
variable {m m' m'' : Mem} {p : U64}

/-! ## Rewriting headers -/

/-- **REWRITE**: `m'` holds `bs'` where `m` held `bs`. -/
structure Rewrites (hi : Nat) (p : U64) (m m' : Mem) (bs bs' : List Block) : Prop where
  first : nextAddr bs' 0 = nextAddr bs 0
  layout : ∀ lo, Layout lo hi bs → Layout lo hi bs'
  linked : Seg m' p bs' 0
  headers : ∀ d' ∈ bs', ∃ d ∈ bs, d.addr = d'.addr
  outside : ∀ x, (∀ d ∈ bs, ¬ InRange d.addr 48 x) → m' x = m x
  magic : ∀ a, Aligned a → load64 m' a = KMEM_MAGIC →
    load64 m a = KMEM_MAGIC ∧ ∀ d ∈ bs, d.addr = a → ∃ d' ∈ bs', d'.addr = a

theorem Rewrites.refl (hs : Seg m p bs 0) : Rewrites hi p m m bs bs :=
  ⟨rfl, fun _ h => h, hs, fun d hd => ⟨d, hd, rfl⟩, fun _ _ => rfl,
    fun _ _ hm => ⟨hm, fun d hd haddr => ⟨d, hd, haddr⟩⟩⟩

theorem Rewrites.trans (h : Rewrites hi p m m' bs bs') (h' : Rewrites hi p m' m'' bs' bs'') :
    Rewrites hi p m m'' bs bs'' := by
  refine ⟨h'.first.trans h.first, fun lo hL => h'.layout lo (h.layout lo hL), h'.linked, ?_, ?_, ?_⟩
  · intro d'' hd''
    obtain ⟨d', hd', haddr'⟩ := h'.headers d'' hd''
    obtain ⟨d, hd, haddr⟩ := h.headers d' hd'
    exact ⟨d, hd, haddr.trans haddr'⟩
  · intro x hx
    refine (h'.outside x (fun d' hd' => ?_)).trans (h.outside x hx)
    obtain ⟨d, hd, haddr⟩ := h.headers d' hd'
    rw [← haddr]
    exact hx d hd
  · intro a ha hm
    obtain ⟨hm', hkeep'⟩ := h'.magic a ha hm
    obtain ⟨hm'', hkeep⟩ := h.magic a ha hm'
    refine ⟨hm'', fun d hd haddr => ?_⟩
    obtain ⟨d', hd', haddr'⟩ := hkeep d hd haddr
    exact hkeep' d' hd' haddr'

/-- A block in front is not affected. -/
theorem Rewrites.cons (hL : Layout lo hi (q :: bs)) (hs : Seg m p (q :: bs) 0)
    (h : Rewrites hi q.addr m m' bs bs') : Rewrites hi p m m' (q :: bs) (q :: bs') := by
  refine ⟨rfl, ?_, ⟨?_, h.linked⟩, ?_, ?_, ?_⟩
  · intro lo' hL'
    have hsplit : Layout lo' hi ([q] ++ bs) := hL'
    obtain ⟨mid, -, hmid, -, hback⟩ := hsplit.split
    exact hback bs' (h.layout mid hmid)
  · rw [h.first, ← hs.1]
    -- the header before the rewritten blocks is apart from theirs
    refine readHeader_congr (fun x hx => h.outside x (fun d hd hin => ?_))
    have hq := hL.room (List.mem_cons_self ..)
    exact not_inRange_of_sep hq (hL.tail.room hd) (hL.sep_tail hd) hin hx
  · intro d' hd'
    rcases List.mem_cons.mp hd' with rfl | hmem
    · exact ⟨d', List.mem_cons_self .., rfl⟩
    · obtain ⟨d, hd, haddr⟩ := h.headers d' hmem
      exact ⟨d, List.mem_cons_of_mem q hd, haddr⟩
  · intro x hx
    exact h.outside x (fun d hd => hx d (List.mem_cons_of_mem q hd))
  · intro a ha hm
    obtain ⟨hold, hkeep⟩ := h.magic a ha hm
    refine ⟨hold, fun d hd haddr => ?_⟩
    rcases List.mem_cons.mp hd with rfl | hmem
    · exact ⟨d, List.mem_cons_self .., haddr⟩
    · obtain ⟨d', hd', haddr'⟩ := hkeep d hmem haddr
      exact ⟨d', List.mem_cons_of_mem q hd', haddr'⟩

/-- Assigning `free` rewrites one block. -/
theorem rewrites_setFree (hL : Layout lo hi (b :: post)) (f : Bool)
    (hs : Seg m p (b :: post) 0) :
    Rewrites hi p m (setFree m b.addr (if f then 1 else 0)) (b :: post)
      ({ b with free := f } :: post) := by
  refine ⟨rfl, ?_, seg_setFree hL f hs, ?_, ?_, ?_⟩
  · intro lo' h
    exact h.of_head rfl rfl
  · intro d hd
    rcases List.mem_cons.mp hd with rfl | hmem
    · exact ⟨b, List.mem_cons_self .., rfl⟩
    · exact ⟨d, List.mem_cons_of_mem b hmem, rfl⟩
  · intro x hx
    exact onlyAt_setFree m b.addr _ x (hx b (List.mem_cons_self ..))
  · intro a ha hm
    -- a word whose low half is 0 or 1 is not the magic word
    have hle : (if f then (1 : U32) else 0).toNat ≤ 1 := by cases f <;> decide
    refine ⟨noNewMagic_setFree (hL.addr_aligned (List.mem_cons_self ..)) hle a ha hm, ?_⟩
    intro d hd haddr
    rcases List.mem_cons.mp hd with rfl | hmem
    · exact ⟨{ d with free := f }, List.mem_cons_self .., haddr⟩
    · exact ⟨d, List.mem_cons_of_mem _ hmem, haddr⟩

/-- One round of coalescing makes one block of two. -/
theorem rewrites_absorbNext (hL : Layout lo hi (b :: c :: post))
    (hs : Seg m p (b :: c :: post) 0) :
    Rewrites hi p m (absorbNext m b.addr) (b :: c :: post) (join b c :: post) := by
  refine ⟨rfl, fun _ h => layout_join h, seg_absorbNext hL hs, ?_,
    fun x hx => absorbNext_outside hL hs hx, ?_⟩
  · intro d hd
    rcases List.mem_cons.mp hd with rfl | hmem
    · exact ⟨b, List.mem_cons_self .., rfl⟩
    · exact ⟨d, List.mem_cons_of_mem b (List.mem_cons_of_mem c hmem), rfl⟩
  · intro a ha hm
    obtain ⟨hne, hold⟩ := magic_absorbNext hL hs ha hm
    refine ⟨hold, fun d hd haddr => ?_⟩
    rcases List.mem_cons.mp hd with rfl | hd'
    · exact ⟨join d c, List.mem_cons_self .., haddr⟩
    · rcases List.mem_cons.mp hd' with rfl | hmem
      · exact absurd haddr.symm hne
      · exact ⟨d, List.mem_cons_of_mem _ hmem, haddr⟩

/-! ## Coalescing -/

/-- A block with the free blocks right behind it. -/
def absorb (b : Block) : List Block → List Block
  | [] => [b]
  | c :: cs => if c.free then absorb (join b c) cs else b :: c :: cs

/-- Absorbing keeps the address and the state of the block. -/
theorem absorb_cons (b : Block) (post : List Block) :
    ∃ size rest, absorb b post = ⟨b.addr, size, b.free⟩ :: rest := by
  induction post generalizing b with
  | nil => exact ⟨b.size, [], rfl⟩
  | cons c post ih =>
      rw [absorb]
      split
      · exact ih (join b c)
      · exact ⟨b.size, c :: post, rfl⟩

/-- Nothing that is in use is absorbed. -/
theorem mem_absorb (hb : b.free = true) {d : Block} (hd : d.free = false) :
    d ∈ absorb b post ↔ d ∈ post := by
  have hne : ∀ e : Block, e.free = true → d ≠ e := by
    rintro e he rfl
    exact Bool.false_ne_true (hd.symm.trans he)
  induction post generalizing b with
  | nil => simp [absorb, hne b hb]
  | cons c post ih =>
      rw [absorb]
      split
      · rename_i hc
        have hrest := ih (b := join b c) hb
        refine hrest.trans ?_
        rw [List.mem_cons, or_iff_right (hne c hc)]
      · rw [List.mem_cons, or_iff_right (hne b hb)]

/-- Absorbing leaves no two free neighbours. -/
theorem maximal_absorb (h : Maximal Block.free post) : Maximal Block.free (absorb b post) := by
  induction post generalizing b with
  | nil => exact List.isChain_singleton b
  | cons c post ih =>
      rw [absorb]
      split
      · have hpost : Maximal Block.free ([c] ++ post) := h
        exact ih (maximal_right hpost)
      · rename_i hc
        exact List.isChain_cons_cons.mpr ⟨fun hboth => hc hboth.2, h⟩

/-- `expected` of `kmem_coalesce_forward`, in a heap that is in order. -/
theorem expected_eq (hL : Layout lo hi (b :: c :: post)) :
    kmemAlignUpPtr (kmemPayload b.addr + b.size) KMEM_ALIGN = c.addr := by
  have hb : b.addr.toNat = lo := hL.tiles.1
  have hc : c.addr.toNat = lo + 48 + b.size.toNat := hL.tiles.2.1
  have hmem := hL.tail.mem (List.mem_cons_self ..)
  have htop := hL.top
  have heq : kmemPayload b.addr + b.size = c.addr := by
    rw [kmemPayload, show HEADER = (48 : U64) from rfl]
    bv_omega
  rw [heq]
  refine kmemAlignUpPtr_aligned (hL.tail.addr_aligned (List.mem_cons_self ..)) ?_
  omega

/-- **COALESCE**: the loop ends, with every free block behind taken in. -/
theorem coalesceLoop_spec (rounds : Nat) (hL : Layout lo hi (b :: post))
    (hs : Seg m p (b :: post) 0) (hr : post.length < rounds) :
    ∃ m', coalesceLoop b.addr rounds m = some m' ∧
      Rewrites hi p m m' (b :: post) (absorb b post) := by
  induction post generalizing b m rounds with
  | nil =>
      cases rounds with
      | zero => exact absurd hr (Nat.not_lt_zero _)
      | succ rounds =>
          refine ⟨m, ?_, Rewrites.refl hs⟩
          have hnext : hdrNext m b.addr = 0 := (header_fields hs.1).next
          rw [coalesceLoop, if_neg (fun h => h.2.1 hnext)]
  | cons c post ih =>
      cases rounds with
      | zero => exact absurd hr (Nat.not_lt_zero _)
      | succ rounds =>
          have hf := header_fields hs.1
          have hnext : hdrNext m b.addr = c.addr := hf.next
          have hfree := free_ne_zero (header_fields hs.2.1)
          rw [coalesceLoop, hnext, hf.size, expected_eq hL, absorb]
          by_cases hc : c.free = true
          · rw [if_pos ⟨hL.ne_zero (List.mem_cons_self ..), hL.tail.ne_zero (List.mem_cons_self ..),
                  hfree.mpr hc⟩, if_pos hc]
            have hjoin := rewrites_absorbNext hL hs
            obtain ⟨m', hrun, hrest⟩ := ih (b := join b c) rounds (layout_join hL) hjoin.linked
              (Nat.lt_of_succ_lt_succ hr)
            exact ⟨m', (if_neg (not_not_intro rfl)).trans hrun, hjoin.trans hrest⟩
          · -- a block in use stops the loop
            rw [if_neg (fun h => hc (hfree.mp h.2.2)), if_neg hc]
            exact ⟨m, rfl, Rewrites.refl hs⟩

/-! ## `kmem_free_checked` -/

/-- What freeing the block `b` of the list `bs` leaves. -/
structure Freed (s : KmemState) (bs : List Block) (b : Block) (m' : Mem) (bs' : List Block) :
    Prop where
  heap : Heap { s with mem := m' } bs'
  live : ∀ d : Block, d.free = false → (d ∈ bs' ↔ d ∈ bs ∧ d ≠ b)
  frame : ∀ c ∈ bs, ∀ x, InPayload c x → m' x = s.mem x

/-- A rewrite behind a prefix that makes exactly one block free is a free. -/
theorem Rewrites.freed {s : KmemState} (pre : List Block) (h : Heap s (pre ++ bs)) (hpre : b ∉ pre)
    (hr : Rewrites s.gHeapEnd.toNat (lastAddr 0 pre) s.mem m' bs bs') (hne : bs' ≠ [])
    (hmax : Maximal Block.free (pre ++ bs'))
    (hlive : ∀ d : Block, d.free = false → (d ∈ bs' ↔ d ∈ bs ∧ d ≠ b)) :
    Freed s (pre ++ bs) b m' (pre ++ bs') := by
  obtain ⟨mid, -, hmid, -, -⟩ := h.layout.split
  refine ⟨h.edit hne hr.first hr.layout hr.linked ?_ hmax ?_, ?_, ?_⟩
  · intro x hx
    exact hr.outside x (fun d hd => hmid.not_inRange_of_lt hd (hx d hd))
  · intro a ha hm
    exact Or.inl (hr.magic a ha hm)
  · intro d hd
    rw [List.mem_append, List.mem_append, hlive d hd, or_and_right]
    have hne' : d ∈ pre → d ≠ b := fun hmem heq => hpre (heq ▸ hmem)
    exact or_congr (by simpa using hne') Iff.rfl
  · intro c hc x hx
    exact hr.outside x (fun d hd =>
      not_inRange_of_inPayload h.layout hc (List.mem_append_right pre hd) hx)

/-- The first pass of `kmem_free_checked`: from the freed block. -/
theorem coalesce_freed {s : KmemState} (h : Heap s (pre ++ b :: post)) :
    ∃ m', kmemCoalesceForward (setFree s.mem b.addr 1) b.addr = some m' ∧
      Rewrites s.gHeapEnd.toNat (lastAddr 0 pre) s.mem m' (b :: post)
        (absorb { b with free := true } post) := by
  obtain ⟨mid, -, hmid, -, -⟩ := h.layout.split
  obtain ⟨-, hseg⟩ := seg_append.mp h.linked
  have hset := rewrites_setFree hmid true hseg
  obtain ⟨m', hrun, hr⟩ := coalesceLoop_spec (b := { b with free := true }) ROUNDS
    (hset.layout mid hmid) hset.linked hmid.tail.length_lt
  exact ⟨m', hrun, hset.trans hr⟩

/-- No two neighbours stay free when a block is freed and absorbs. -/
theorem maximal_absorb_freed {s : KmemState} (h : Heap s (pre ++ b :: post)) :
    Maximal Block.free (absorb { b with free := true } post) := by
  have hsplit : Maximal Block.free (pre ++ ([b] ++ post)) := h.maximal
  exact maximal_absorb (maximal_right (maximal_right hsplit))

/-- From a freed block on, it alone is no longer in use. -/
theorem mem_absorb_freed (hpost : b ∉ post) {d : Block} (hd : d.free = false) :
    d ∈ absorb { b with free := true } post ↔ d ∈ b :: post ∧ d ≠ b := by
  rw [mem_absorb rfl hd, List.mem_cons]
  exact ⟨fun hmem => ⟨Or.inr hmem, fun heq => hpost (heq ▸ hmem)⟩,
    fun ⟨hmem, hne⟩ => hmem.resolve_left hne⟩

/-- Something is left. -/
theorem absorb_ne_nil (b : Block) (post : List Block) : absorb b post ≠ [] := by
  obtain ⟨size, rest, habs⟩ := absorb_cons b post
  rw [habs]
  exact List.cons_ne_nil _ _

section SecondPass

variable {s : KmemState} {q : Block}

/-- A block in use in front of the freed one stays as it is. -/
theorem Rewrites.freed_behind_used (h : Heap s (pre ++ q :: b :: post)) (hqf : ¬ q.free = true)
    (hpre : b ∉ pre) (hpost : b ∉ post)
    (hr : Rewrites s.gHeapEnd.toNat (lastAddr 0 pre) s.mem m' (q :: b :: post)
      (q :: absorb { b with free := true } post)) :
    Freed s (pre ++ q :: b :: post) b m' (pre ++ q :: absorb { b with free := true } post) := by
  obtain ⟨mid, -, hmid, -, -⟩ := h.layout.split
  have hqb : q ≠ b := hmid.ne_of_mem_tail (List.mem_cons_self ..)
  have hmax : Maximal Block.free (absorb { b with free := true } post) := by
    rw [List.append_cons] at h
    exact maximal_absorb_freed h
  refine Rewrites.freed pre h hpre hr (List.cons_ne_nil _ _) ?_ ?_
  · exact maximal_edit (fun hf => hf) h.maximal (maximal_cons (by simpa using hqf) hmax)
  · intro d hd
    have hne : d = q → d ≠ b := fun heq => heq ▸ hqb
    have hmem : d ∈ q :: b :: post ↔ d = q ∨ d ∈ b :: post := List.mem_cons
    rw [List.mem_cons, mem_absorb_freed hpost hd, hmem, or_and_right, and_iff_left_of_imp hne]

/-- A free block in front of the freed one takes in all that was merged. -/
theorem Rewrites.freed_behind_free (h : Heap s (pre ++ q :: b :: post)) (hqf : q.free = true)
    (hpre : b ∉ pre) (hpost : b ∉ post)
    (hr : Rewrites s.gHeapEnd.toNat (lastAddr 0 pre) s.mem m' (q :: b :: post)
      (absorb q (absorb { b with free := true } post))) :
    Freed s (pre ++ q :: b :: post) b m'
      (pre ++ absorb q (absorb { b with free := true } post)) := by
  have hmax : Maximal Block.free (absorb q (absorb { b with free := true } post)) := by
    have h' := h
    rw [List.append_cons] at h'
    exact maximal_absorb (maximal_absorb_freed h')
  refine Rewrites.freed pre h hpre hr (absorb_ne_nil _ _) ?_ ?_
  · obtain ⟨size, rest, habs⟩ := absorb_cons q (absorb { b with free := true } post)
    rw [habs] at hmax ⊢
    exact maximal_edit (fun _ => hqf) h.maximal hmax
  · intro d hd
    have hdq : d ≠ q := fun heq => Bool.false_ne_true (hd.symm.trans (heq ▸ hqf))
    have hmem : d ∈ q :: b :: post ↔ d ∈ b :: post := List.mem_cons.trans (or_iff_right hdq)
    rw [mem_absorb hqf hd, mem_absorb_freed hpost hd, hmem]

end SecondPass

/-- **FREE**: a block in use becomes free and merges with its free neighbours;
    the other blocks in use and all payloads stay. -/
theorem releaseBlock_spec {s : KmemState} (h : Heap s (pre ++ b :: post)) :
    ∃ m' bs', releaseBlock s b.addr
        = some (kmemValidate { s with mem := m' }, { s with mem := m' }) ∧
      Freed s (pre ++ b :: post) b m' bs' := by
  obtain ⟨hpre, hpost⟩ := h.layout.not_mem_split
  obtain ⟨m₁, hrun, hr⟩ := coalesce_freed h
  have hprev : hdrPrev m₁ b.addr = lastAddr 0 pre := by
    obtain ⟨size, rest, habs⟩ := absorb_cons { b with free := true } post
    have hlinked := hr.linked
    rw [habs] at hlinked
    exact (header_fields hlinked.1).prev
  rw [releaseBlock, hrun, Option.bind_some, hprev]
  -- the second pass depends on the block before, if there is one
  rcases List.eq_nil_or_concat' pre with rfl | ⟨pre', q, rfl⟩
  · refine ⟨m₁, absorb { b with free := true } post, ?_, ?_⟩
    · rw [if_neg (fun hf => hf.1 rfl)]
      rfl
    · exact Rewrites.freed [] h hpre hr (absorb_ne_nil _ _) (maximal_absorb_freed h)
        (fun d hd => mem_absorb_freed hpost hd)
  · rw [lastAddr_concat] at hr ⊢
    have hpre' : b ∉ pre' := fun hmem => hpre (List.mem_append_left [q] hmem)
    rw [← List.append_cons] at h ⊢
    obtain ⟨mid, -, hmid, -, -⟩ := h.layout.split
    obtain ⟨-, hseg⟩ := seg_append.mp h.linked
    have hr' := Rewrites.cons hmid hseg hr
    have hfree := free_ne_zero (header_fields hr'.linked.1)
    by_cases hqf : q.free = true
    · obtain ⟨m₂, hrun₂, hr₂⟩ := coalesceLoop_spec ROUNDS (hr'.layout mid hmid) hr'.linked
        (hr'.layout mid hmid).tail.length_lt
      refine ⟨m₂, _, ?_, Rewrites.freed_behind_free h hqf hpre' hpost (hr'.trans hr₂)⟩
      rw [if_pos ⟨hmid.ne_zero (List.mem_cons_self ..), hfree.mpr hqf⟩, kmemCoalesceForward,
          hrun₂]
      rfl
    · refine ⟨m₁, _, ?_, Rewrites.freed_behind_used h hqf hpre' hpost hr'⟩
      rw [if_neg (fun hf => hqf (hfree.mp hf.2))]
      rfl

/-- The pointers that get past the checks of `kmem_free_checked`. -/
structure Accepts (s : KmemState) (ptr : U64) : Prop where
  ne_zero : ptr ≠ 0
  inHeap : kmemPtrInHeap s ptr = true
  aligned : ptr &&& (KMEM_ALIGN - 1) = 0
  headerInHeap : kmemPtrInHeap s (kmemHeaderFromPayload ptr) = true
  magic : hdrMagic s.mem (kmemHeaderFromPayload ptr) = KMEM_MAGIC
  used : hdrFree s.mem (kmemHeaderFromPayload ptr) = 0

/-- Any other pointer is refused, and nothing changes. -/
theorem kmemFreeChecked_cases (s : KmemState) (ptr : U64) :
    (Accepts s ptr ∧ kmemFreeChecked s ptr = releaseBlock s (kmemHeaderFromPayload ptr)) ∨
    (¬ Accepts s ptr ∧ ∃ rc : Int, rc ≤ 0 ∧ (rc = 0 ↔ ptr = 0) ∧
      kmemFreeChecked s ptr = some (rc, s)) := by
  rw [kmemFreeChecked]
  by_cases h0 : ptr = 0
  · exact Or.inr ⟨fun h => h.ne_zero h0, 0, by decide, by simp [h0], if_pos h0⟩
  rw [if_neg h0]
  -- from here on every refusal is a negative code
  have hcode : ∀ {rc : Int}, rc ≠ 0 → (rc = 0 ↔ ptr = 0) := fun hrc => iff_of_false hrc h0
  by_cases h1 : kmemPtrInHeap s ptr = true
  · rw [if_neg (by simp [h1])]
    by_cases h2 : ptr &&& (KMEM_ALIGN - 1) = 0
    · rw [if_neg (not_not_intro h2)]
      by_cases h3 : kmemPtrInHeap s (kmemHeaderFromPayload ptr) = true ∧
          hdrMagic s.mem (kmemHeaderFromPayload ptr) = KMEM_MAGIC
      · rw [if_neg (by simp [h3.1, h3.2])]
        by_cases h4 : hdrFree s.mem (kmemHeaderFromPayload ptr) = 0
        · exact Or.inl ⟨⟨h0, h1, h2, h3.1, h3.2, h4⟩, if_neg (not_not_intro h4)⟩
        · exact Or.inr ⟨fun h => h4 h.used, -4, by decide, hcode (by decide), if_pos h4⟩
      · refine Or.inr ⟨fun h => h3 ⟨h.headerInHeap, h.magic⟩, -3, by decide, hcode (by decide),
          if_pos ?_⟩
        rcases not_and_or.mp h3 with h | h
        · exact Or.inl (by simpa using h)
        · exact Or.inr h
    · exact Or.inr ⟨fun h => h2 h.aligned, -2, by decide, hcode (by decide), if_pos h2⟩
  · exact Or.inr ⟨fun h => h1 h.inHeap, -1, by decide, hcode (by decide),
      if_pos (by simpa using h1)⟩

/-- The pointer is between the bounds. -/
theorem kmemPtrInHeap_iff {s : KmemState} (hi : s.gInitialized = true) (a : U64) :
    kmemPtrInHeap s a = true ↔ s.gHeapBase ≤ a ∧ a < s.gHeapEnd := by
  rw [kmemPtrInHeap, hi]
  simp

/-- The mask tests for multiples of 16. -/
theorem and_align_eq_zero (a : U64) : a &&& (KMEM_ALIGN - 1) = 0 ↔ Aligned a :=
  and_lowMask_eq_zero_iff a (KMEM_ALIGN - 1) 4 (by decide)

/-- With the payload aligned, so is the header. -/
theorem Accepts.header_aligned {s : KmemState} {ptr : U64} (h : Accepts s ptr) :
    Aligned (kmemHeaderFromPayload ptr) := by
  have hptr : ptr.toNat % 16 = 0 := (and_align_eq_zero ptr).mp h.aligned
  show (ptr - 48).toNat % 16 = 0
  bv_omega

/-- Back from the payload to the header. -/
theorem headerFromPayload_payload (a : U64) : kmemHeaderFromPayload (kmemPayload a) = a := by
  rw [kmemHeaderFromPayload, kmemPayload]
  exact BitVec.add_sub_cancel a HEADER

/-- The header of a payload leads back to it. -/
theorem payload_headerFromPayload (ptr : U64) : kmemPayload (kmemHeaderFromPayload ptr) = ptr := by
  rw [kmemHeaderFromPayload, kmemPayload]
  exact BitVec.sub_add_cancel ptr HEADER

/-- **ACCEPTED POINTERS** are the payloads of the blocks in use. -/
theorem accepts_iff {s : KmemState} (h : Heap s bs) (ptr : U64) :
    Accepts s ptr ↔ ∃ b ∈ bs, b.free = false ∧ kmemPayload b.addr = ptr := by
  constructor
  · intro ha
    obtain ⟨hlo, hhi⟩ := (kmemPtrInHeap_iff h.init _).mp ha.headerInHeap
    -- the magic word stands at headers only, so the pointer is a block's payload
    obtain ⟨b, hb, haddr⟩ := h.magic _ ha.header_aligned hlo hhi ha.magic
    obtain ⟨prev, next, hf⟩ := h.fields hb
    refine ⟨b, hb, ?_, ?_⟩
    · have hno : ¬ hdrFree s.mem b.addr ≠ 0 := not_not_intro (haddr ▸ ha.used)
      rw [free_ne_zero hf] at hno
      exact Bool.not_eq_true _ ▸ hno
    · rw [haddr]
      exact payload_headerFromPayload ptr
  · rintro ⟨b, hb, hfree, rfl⟩
    obtain ⟨prev, next, hf⟩ := h.fields hb
    have hmem := h.layout.mem hb
    have htop := h.layout.top
    have hsize := h.layout.sizes b hb
    have hal : b.addr.toNat % 16 = 0 := h.layout.addr_aligned hb
    have hpay : (b.addr + 48).toNat = b.addr.toNat + 48 := by bv_omega
    have heq : kmemPayload b.addr = b.addr + 48 := rfl
    refine ⟨?_, ?_, ?_, ?_, ?_, ?_⟩
    · rw [heq]
      bv_omega
    · rw [kmemPtrInHeap_iff h.init, heq]
      bv_omega
    · rw [and_align_eq_zero, heq]
      show (b.addr + 48).toNat % 16 = 0
      omega
    · rw [headerFromPayload_payload, kmemPtrInHeap_iff h.init]
      bv_omega
    · rw [headerFromPayload_payload]
      exact hf.magic
    · rw [headerFromPayload_payload, hf.free, hfree]
      rfl

/-- **CHECKED FREE** on a heap that is in order. -/
theorem kmemFreeChecked_spec {s : KmemState} (h : Heap s bs) (ptr : U64) :
    (∃ b ∈ bs, b.free = false ∧ kmemPayload b.addr = ptr ∧ ∃ m' bs',
      kmemFreeChecked s ptr
        = some (kmemValidate { s with mem := m' }, { s with mem := m' }) ∧
      Freed s bs b m' bs') ∨
    ((∀ b ∈ bs, b.free = false → kmemPayload b.addr ≠ ptr) ∧
      ∃ rc : Int, rc ≤ 0 ∧ (rc = 0 ↔ ptr = 0) ∧ kmemFreeChecked s ptr = some (rc, s)) := by
  rcases kmemFreeChecked_cases s ptr with ⟨ha, hrun⟩ | ⟨hno, hrc⟩
  · obtain ⟨b, hb, hfree, rfl⟩ := (accepts_iff h ptr).mp ha
    obtain ⟨pre, post, rfl⟩ := List.append_of_mem hb
    obtain ⟨m', bs', hrel, hfreed⟩ := releaseBlock_spec h
    refine Or.inl ⟨b, hb, hfree, rfl, m', bs', ?_, hfreed⟩
    rw [hrun, headerFromPayload_payload, hrel]
  · refine Or.inr ⟨?_, hrc⟩
    intro b hb hfree heq
    exact hno ((accepts_iff h ptr).mpr ⟨b, hb, hfree, heq⟩)

end KmemFree
