import Mcsos.KmemRunModel

/-! # The request that wraps

    `kmem_split_if_useful` compares the size of a block with
    `wanted + header + KMEM_MIN_SPLIT`, which wraps for a request of
    `2^64 - 80` bytes.  One heap has a block that large, the one of
    `2^64 - 32` bytes from address 16 on: there the split goes ahead, and the
    header of the new block runs over the end of the address space into the
    header of the block it was cut from.  What is left holds no magic number,
    so that the allocator refuses every further request.  The payload that was
    handed out is not touched. -/

namespace KmemWrap

open Word ByteMemory KmemModel KmemHeader KmemList KmemAlloc KmemFree KmemRunModel Tiling

/-- The end of the heap that fills the address space. -/
def TOP : U64 := 0xfffffffffffffff0

/-- The size of its block. -/
def ALL : U64 := 0xffffffffffffffb0

theorem TOP_toNat : TOP.toNat = 2 ^ 64 - 16 := by decide

theorem ALL_toNat : ALL.toNat = 2 ^ 64 - 80 := by decide

/-- The split that should not happen. -/
theorem kmemSplitIfUseful_wrap {m : Mem} (hsize : hdrSize m 16 = ALL) :
    kmemSplitIfUseful TOP m 16 ALL = splitAt m 16 TOP ALL ALL := by
  have hnew : kmemAlignUpPtr (kmemPayload 16 + ALL) KMEM_ALIGN = TOP := by decide
  rw [kmemSplitIfUseful]
  simp only [hsize, hnew]
  rfl

/-- The split at the top of the address space, whose new header has no room behind it. -/
theorem splitAt_wrap {m : Mem} (hsize : hdrSize m 16 = ALL) (hnext : hdrNext m 16 = 0) :
    splitAt m 16 TOP ALL ALL
      = setSize (setNext (writeHeader m TOP ⟨KMEM_MAGIC, ALL - ALL - HEADER, 1, 16, 0⟩) 16 TOP)
          16 ALL := by
  have hsize' : hdrSize (setMagic m TOP KMEM_MAGIC) 16 = ALL := by
    rw [← hsize]
    exact load64_store64_apart (by decide)
  -- the link of the block lies outside the new header, even where that wraps
  have hnext' : ∀ m', OnlyAt TOP m m' → hdrNext m' 16 = 0 := by
    intro m' h
    rw [← hnext]
    refine load64_congr (fun i hi => h _ ?_)
    show ¬ ((16 : U64) + 40 + BitVec.ofNat 64 i - 0xfffffffffffffff0).toNat < 48
    bv_omega
  have h1 := onlyAt_setMagic m TOP KMEM_MAGIC
  have h4 := ((h1.trans (onlyAt_setSize _ TOP (ALL - ALL - HEADER))).trans
    (onlyAt_setFree _ TOP 1)).trans (onlyAt_setPrev _ TOP 16)
  have h5 := h4.trans (onlyAt_setNext _ TOP 0)
  rw [splitAt]
  simp only [hsize', hnext' _ h4, hnext' _ h5]
  rfl

/-- **WRAP**: the new header runs into the old one, and the magic number is
    gone. -/
theorem readHeader_wrap {m : Mem} (hsize : hdrSize m 16 = ALL) (hprev : hdrPrev m 16 = 0)
    (hnext : hdrNext m 16 = 0) : readHeader (takeBlock TOP m 16 ALL) 16 = ⟨16, ALL, 0, 0, TOP⟩ := by
  have hroom : Room 16 := show (16 : U64).toNat + 48 ≤ 2 ^ 64 by decide
  have hmagic :
      hdrMagic (writeHeader m TOP ⟨KMEM_MAGIC, ALL - ALL - HEADER, 1, 16, 0⟩) 16 = 16 := by
    rw [hdrMagic, writeHeader, setNext, load64_store64_apart (by decide), setPrev,
        show TOP + 32 = (16 : U64) from by decide]
    exact load64_store64 _ _ _
  have hprev' : hdrPrev (writeHeader m TOP ⟨KMEM_MAGIC, ALL - ALL - HEADER, 1, 16, 0⟩) 16 = 0 := by
    rw [← hprev]
    refine load64_congr (fun i hi => onlyAt_writeHeader m TOP _ _ ?_)
    show ¬ ((16 : U64) + 32 + BitVec.ofNat 64 i - 0xfffffffffffffff0).toNat < 48
    bv_omega
  rw [takeBlock, kmemSplitIfUseful_wrap hsize, splitAt_wrap hsize hnext, readHeader_setFree hroom,
      readHeader_setSize hroom, readHeader_setNext hroom, readHeader, hmagic, hprev']

/-- The allocation that wraps writes to the two ends of the arena only. -/
theorem takeBlock_wrap_outside {m : Mem} (hsize : hdrSize m 16 = ALL) (hnext : hdrNext m 16 = 0)
    {x : U64} (hlo : 64 ≤ x) (hhi : x < TOP) : takeBlock TOP m 16 ALL x = m x := by
  have h16 : ¬ InRange 16 48 x := by
    show ¬ (x - 16).toNat < 48
    bv_omega
  have htop : ¬ InRange TOP 48 x := by
    have hhi' : x < 0xfffffffffffffff0 := hhi
    show ¬ (x - 0xfffffffffffffff0).toNat < 48
    bv_omega
  rw [takeBlock, kmemSplitIfUseful_wrap hsize, splitAt_wrap hsize hnext,
      onlyAt_setFree _ _ _ x h16, onlyAt_setSize _ _ _ x h16, onlyAt_setNext _ _ _ x h16,
      onlyAt_writeHeader _ _ _ x htop]

/-! ## The heap afterwards -/

/-- A heap without a header. -/
structure Wrecked (s : KmemState) : Prop where
  init : s.gInitialized = true
  base : s.gHeapBase = 16
  top : s.gHeapEnd = TOP
  head : s.gHead = 16
  size : hdrSize s.mem 16 = ALL
  magic : ∀ a, Aligned a → s.gHeapBase ≤ a → a < s.gHeapEnd → load64 s.mem a ≠ KMEM_MAGIC

variable {s : KmemState} {bs : List Block} {b : Block}

/-- Only the block that fills the address space is large enough for a request
    that wraps. -/
theorem block_eq_of_wrap (h : Heap s bs) (hb : b ∈ bs) {wanted : U64} (hfit : Fits wanted b)
    (hwrap : ¬ wanted.toNat < 2 ^ 64 - 80) :
    bs = [⟨16, ALL, true⟩] ∧ b = ⟨16, ALL, true⟩ ∧ s.gHeapBase = 16 ∧ s.gHeapEnd = TOP ∧
    wanted = ALL := by
  have hle : wanted.toNat ≤ b.size.toNat := hfit.2
  have hmem := h.layout.mem hb
  have htop := h.layout.top
  have hpos := h.layout.pos
  have hlo := h.layout.aligned
  have hal : b.addr.toNat % 16 = 0 := h.layout.addr_aligned hb
  have hTOP := TOP_toNat
  have hALL := ALL_toNat
  have haddr : b.addr = 16 := BitVec.eq_of_toNat_eq (by show _ = 16; omega)
  have hsize : b.size = ALL := BitVec.eq_of_toNat_eq (by omega)
  have hbeq : b = ⟨16, ALL, true⟩ := by rw [← haddr, ← hsize, ← hfit.1]
  -- a second block would need addresses that the first one has
  have hone : ∀ c ∈ bs, c = b := by
    intro c hc
    have hc' := h.layout.mem hc
    rcases tiles_apart h.layout.tiles hc hb with heq | hlt | hlt <;> [exact heq; omega; omega]
  refine ⟨?_, hbeq, BitVec.eq_of_toNat_eq (by show _ = 16; omega),
    BitVec.eq_of_toNat_eq (by omega), BitVec.eq_of_toNat_eq (by omega)⟩
  rw [← hbeq]
  obtain ⟨pre, post, rfl⟩ := List.append_of_mem hb
  obtain ⟨hpre, hpost⟩ := h.layout.not_mem_split
  have hnil : ∀ xs : List Block, (∀ c ∈ xs, c = b) → b ∉ xs → xs = [] := by
    intro xs hall hno
    refine List.eq_nil_iff_forall_not_mem.mpr (fun c hc => hno ?_)
    exact hall c hc ▸ hc
  rw [hnil pre (fun c hc => hone c (List.mem_append_left _ hc)) hpre,
      hnil post (fun c hc => hone c (List.mem_append_right pre (List.mem_cons_of_mem b hc))) hpost]
  rfl

/-- The allocation that wraps leaves two headers that do not tile the arena. -/
theorem wrecked_takeBlock (h : Heap s [⟨16, ALL, true⟩]) (hbase : s.gHeapBase = 16)
    (htop : s.gHeapEnd = TOP) : Wrecked { s with mem := takeBlock TOP s.mem 16 ALL } := by
  have hf := header_fields h.linked.1
  have hhead := readHeader_wrap hf.size hf.prev hf.next
  obtain ⟨hmagic, hsize, hfree, hprev, -⟩ := fields_of_readHeader hhead
  refine ⟨h.init, hbase, htop, h.head.trans hbase, hsize, ?_⟩
  intro a ha hlo hhi hm
  have hlo' : (16 : U64) ≤ a := hbase ▸ hlo
  have hhi' : a < TOP := htop ▸ hhi
  have ha' : a.toNat % 16 = 0 := ha
  have hcase : a = 16 ∨ a = 16 + 16 ∨ a = 16 + 32 ∨ 64 ≤ a := by bv_omega
  rcases hcase with rfl | rfl | rfl | hpay
  · exact absurd (hm.symm.trans hmagic) (show KMEM_MAGIC ≠ 16 from by decide)
  · exact free_not_magic (by rw [hfree]; exact (show (0 : U32).toNat ≤ 1 from by decide)) hm
  · exact absurd (hm.symm.trans hprev) (show KMEM_MAGIC ≠ 0 from by decide)
  · -- in the payload nothing has changed
    have hsame : load64 (takeBlock TOP s.mem 16 ALL) a = load64 s.mem a := by
      refine load64_congr (fun i hi => takeBlock_wrap_outside hf.size hf.next ?_ ?_)
      · have hhi'' : a < 0xfffffffffffffff0 := hhi'
        bv_omega
      · have hhi'' : a < 0xfffffffffffffff0 := hhi'
        show a + BitVec.ofNat 64 i < 0xfffffffffffffff0
        bv_omega
    obtain ⟨c, hc, haddr⟩ := h.magic a ha hlo hhi (hsame ▸ hm)
    obtain rfl := List.mem_singleton.mp hc
    have haddr' : (16 : U64) = a := haddr
    bv_omega

/-- Every request is refused, -/
theorem kmemAlloc_wrecked (h : Wrecked s) (n : U64) : kmemAlloc s n = some (0, s) := by
  have hno : hdrMagic s.mem s.gHead ≠ KMEM_MAGIC := by
    rw [h.head]
    exact h.magic 16 (by decide) (by rw [h.base]; decide) (by rw [h.top]; decide)
  have hhead : s.gHead ≠ 0 := by
    rw [h.head]
    decide
  rw [kmemAlloc]
  split
  · rfl
  · dsimp only
    split
    · rfl
    · show ((allocLoop s.gHeapEnd _ s.mem (2 ^ 64 - 1 + 1) s.gHead).map _) = _
      rw [allocLoop, if_neg hhead, if_pos hno]
      rfl

/-- and so is every pointer. -/
theorem kmemFreeChecked_wrecked (h : Wrecked s) (ptr : U64) :
    ∃ rc, kmemFreeChecked s ptr = some (rc, s) := by
  rcases kmemFreeChecked_cases s ptr with ⟨ha, -⟩ | ⟨-, rc, -, -, hrun⟩
  · obtain ⟨hlo, hhi⟩ := (kmemPtrInHeap_iff h.init _).mp ha.headerInHeap
    exact absurd ha.magic (h.magic _ ha.header_aligned hlo hhi)
  · exact ⟨rc, hrun⟩

/-- Stores to the payload change nothing about that. -/
theorem wrecked_store (h : Wrecked s) {m' : Mem} (hframe : ∀ x, 16 ≤ x → x < 64 → m' x = s.mem x)
    (hmagic : PlacesNoMagic s m') : Wrecked { s with mem := m' } := by
  refine ⟨h.init, h.base, h.top, h.head, ?_, ?_⟩
  · rw [← h.size]
    refine load64_congr (fun i hi => hframe _ ?_ ?_)
    · bv_omega
    · bv_omega
  · intro a ha hlo hhi hm
    exact h.magic a ha hlo hhi (hmagic a ha hlo hhi hm)

end KmemWrap
