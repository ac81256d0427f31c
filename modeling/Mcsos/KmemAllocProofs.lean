import Mcsos.KmemListProofs

/-! # Allocation

    `Heap s bs` says that the allocator state `s` holds the block list `bs`:
    laid out over the whole heap, linked in memory, maximal, and with no magic
    number at an aligned address other than the headers.

    `kmem_alloc` searches the list for the first free block that is large
    enough and puts `placed` in its stead. -/

namespace KmemAlloc

open Word ByteMemory KmemModel KmemHeader KmemList Tiling

variable {lo hi : Nat} {b c : Block} {bs pre post : List Block} {m : Mem} {p : U64}

/-- **HEAP INVARIANT**: the blocks `bs` tile the arena, the headers in memory link them in
    order, no two neighbours are both free, and the magic word stands at headers only. -/
structure Heap (s : KmemState) (bs : List Block) : Prop where
  init : s.gInitialized = true
  head : s.gHead = s.gHeapBase
  layout : Layout s.gHeapBase.toNat s.gHeapEnd.toNat bs
  nonempty : bs ≠ []
  linked : Seg s.mem 0 bs 0
  maximal : Maximal Block.free bs
  magic : ∀ a, Aligned a → s.gHeapBase ≤ a → a < s.gHeapEnd → load64 s.mem a = KMEM_MAGIC →
    ∃ b ∈ bs, b.addr = a

/-- The headers of a heap that is in order. -/
theorem Heap.fields {s : KmemState} (h : Heap s bs) (hb : b ∈ bs) :
    ∃ prev next, Fields s.mem b prev next := by
  obtain ⟨pre, post, rfl⟩ := List.append_of_mem hb
  obtain ⟨-, hseg⟩ := seg_append.mp h.linked
  exact ⟨_, _, header_fields hseg.1⟩

/-- The payload of a block. -/
def InPayload (b : Block) (x : U64) : Prop :=
  b.addr.toNat + 48 ≤ x.toNat ∧ x.toNat < b.addr.toNat + 48 + b.size.toNat

/-- Headers are no part of a payload. -/
theorem not_inRange_of_inPayload (hL : Layout lo hi bs) (hb : b ∈ bs) (hc : c ∈ bs) {x : U64}
    (hx : InPayload b x) : ¬ InRange c.addr 48 x := by
  intro hin
  have hin' := (inRange_iff (hL.room hc) x).mp hin
  have h1 := hx.1
  have h2 := hx.2
  rcases tiles_apart hL.tiles hb hc with rfl | hlt | hlt <;> omega

/-- Payloads of different blocks have no byte in common. -/
theorem eq_of_inPayload (hL : Layout lo hi bs) (hb : b ∈ bs) (hc : c ∈ bs) {x : U64}
    (hx : InPayload b x) (hx' : InPayload c x) : b = c := by
  have h1 := hx.1
  have h2 := hx.2
  have h3 := hx'.1
  have h4 := hx'.2
  rcases tiles_apart hL.tiles hb hc with heq | hlt | hlt
  · exact heq
  · omega
  · omega

/-! ## What is put in the place of a free block -/

/-- A free block of the requested size, or the block cut in two if more than a
    header and the smallest size worth splitting off would be left. -/
def placed (b : Block) (wanted : U64) : List Block :=
  if b.size.toNat ≤ wanted.toNat + 80 then [{ b with free := false }]
  else [⟨b.addr, wanted, false⟩, ⟨b.addr + HEADER + wanted, b.size - wanted - HEADER, true⟩]

/-- The decision of `kmem_split_if_useful`.  The bound on the request keeps
    `wanted + header + KMEM_MIN_SPLIT` from wrapping. -/
theorem kmemSplitIfUseful_eq (hL : Layout lo hi (b :: post)) {e wanted : U64}
    (he : e.toNat = hi) (hsize : hdrSize m b.addr = b.size) (hw : Aligned wanted)
    (hle : wanted ≤ b.size) (hnowrap : wanted.toNat < 2 ^ 64 - 80) :
    kmemSplitIfUseful e m b.addr wanted
      = if b.size.toNat ≤ wanted.toNat + 80 then m
        else splitAt m b.addr (b.addr + HEADER + wanted) wanted wanted := by
  have hmem := hL.mem (List.mem_cons_self ..)
  have htop := hL.top
  have hal : b.addr.toNat % 16 = 0 := hL.addr_aligned (List.mem_cons_self ..)
  have hw' : wanted.toNat % 16 = 0 := hw
  have hb := hL.sizes b (List.mem_cons_self ..)
  have hheader : kmemAlignUpSize HEADER KMEM_ALIGN = HEADER := by decide
  have hH : HEADER = (48 : U64) := rfl
  have hS : KMEM_MIN_SPLIT = (32 : U64) := rfl
  rw [kmemSplitIfUseful]
  simp only [hheader, hsize]
  rw [if_neg (by decide)]
  -- the two size checks of the source differ only where the size equals the sum
  by_cases hsmall : b.size < wanted + HEADER + KMEM_MIN_SPLIT
  · rw [if_pos hsmall, if_pos (by rw [hH, hS] at hsmall; bv_omega)]
  · rw [hH, hS] at hsmall
    have hnew : (b.addr + 48 + wanted).toNat = b.addr.toNat + 48 + wanted.toNat := by bv_omega
    have halign : kmemAlignUpPtr (kmemPayload b.addr + wanted) KMEM_ALIGN
        = b.addr + HEADER + wanted := by
      refine kmemAlignUpPtr_aligned ?_ ?_
      · show (b.addr + 48 + wanted).toNat % 16 = 0
        omega
      · show (b.addr + 48 + wanted).toNat ≤ _
        bv_omega
    have hconsumed : b.addr + HEADER + wanted - kmemPayload b.addr = wanted := by
      rw [kmemPayload, hH]
      bv_omega
    rw [if_neg (by rw [hH, hS]; exact hsmall), halign, hconsumed, if_neg (by rw [hH]; bv_omega),
        if_neg (by rw [hH]; bv_omega)]
    by_cases hexact : b.size.toNat ≤ wanted.toNat + 80
    · rw [if_pos hexact, if_pos (by rw [hH, hS]; bv_omega)]
    · rw [if_neg hexact, if_neg (by rw [hH, hS]; bv_omega)]

/-- Taking the front of a block leaves the blocks tiled. -/
theorem layout_placed (hL : Layout lo hi (b :: post)) {wanted : U64} (hw : Aligned wanted)
    (hpos : 16 ≤ wanted.toNat) : Layout lo hi (placed b wanted ++ post) := by
  have hb := hL.sizes b (List.mem_cons_self ..)
  have hw' : wanted.toNat % 16 = 0 := hw
  have hmem := hL.mem (List.mem_cons_self ..)
  have htop := hL.top
  have haddr : b.addr.toNat = lo := hL.tiles.1
  have htail : BlockTiles (lo + 48 + b.size.toNat) hi post := hL.tiles.2
  rw [placed]
  split
  · exact hL.of_head rfl rfl
  · rename_i hbig
    -- the block is large enough for both parts, so nothing wraps
    have hrest : (b.size - wanted - 48).toNat = b.size.toNat - wanted.toNat - 48 := by bv_omega
    have hnew : (b.addr + 48 + wanted).toNat = lo + 48 + wanted.toNat := by bv_omega
    refine ⟨⟨haddr, hnew, ?_⟩, hL.pos, hL.aligned, hL.top, ?_⟩
    · show BlockTiles (lo + 48 + wanted.toNat + 48 + (b.size - wanted - 48).toNat) hi post
      rwa [hrest, show lo + 48 + wanted.toNat + 48 + (b.size.toNat - wanted.toNat - 48)
        = lo + 48 + b.size.toNat from by omega]
    · intro c hc
      rcases List.mem_cons.mp hc with rfl | hc
      · exact ⟨hw', hpos⟩
      · rcases List.mem_cons.mp hc with rfl | hc
        · show (b.size - wanted - 48).toNat % 16 = 0 ∧ 16 ≤ (b.size - wanted - 48).toNat
          omega
        · exact hL.sizes c (List.mem_cons_of_mem b hc)

/-- The block that is handed out. -/
def taken (b : Block) (wanted : U64) : Block :=
  if b.size.toNat ≤ wanted.toNat + 80 then { b with free := false } else ⟨b.addr, wanted, false⟩

/-- The block that is handed out is where the free one was. -/
theorem taken_addr (b : Block) (wanted : U64) : (taken b wanted).addr = b.addr := by
  rw [taken]
  split <;> rfl

/-- The taken block is in use. -/
theorem taken_free (b : Block) (wanted : U64) : (taken b wanted).free = false := by
  rw [taken]
  split <;> rfl

/-- The taken block is as large as was asked for. -/
theorem le_taken_size {wanted : U64} (hle : wanted ≤ b.size) : wanted ≤ (taken b wanted).size := by
  rw [taken]
  split
  · exact hle
  · exact BitVec.le_refl wanted

/-- The taken block is the only one in use of those that are put in place. -/
theorem mem_placed {wanted : U64} {d : Block} (hd : d.free = false) :
    d ∈ placed b wanted ↔ d = taken b wanted := by
  rw [placed, taken]
  split
  · exact List.mem_singleton
  · have hne : d ≠ ⟨b.addr + HEADER + wanted, b.size - wanted - HEADER, true⟩ := by
      rintro rfl
      exact Bool.false_ne_true hd.symm
    rw [List.mem_cons, List.mem_singleton, or_iff_left hne]

/-- The memory `kmem_alloc` leaves for a block it takes. -/
def takeBlock (e : U64) (m : Mem) (block wanted : U64) : Mem :=
  setFree (kmemSplitIfUseful e m block wanted) block 0

/-- **TAKE**: the stores of an allocation make the picture of the list with
    `placed`, touch only headers and the block that was taken, and make no
    other magic number appear. -/
theorem takeBlock_spec (hL : Layout lo hi (b :: post)) {e wanted : U64} (he : e.toNat = hi)
    (hs : Seg m p (b :: post) 0) (hw : Aligned wanted) (hpos : 16 ≤ wanted.toNat)
    (hle : wanted ≤ b.size) (hnowrap : wanted.toNat < 2 ^ 64 - 80) :
    Seg (takeBlock e m b.addr wanted) p (placed b wanted ++ post) 0 ∧
    (∀ x, (∀ d ∈ b :: post, ¬ InRange d.addr 48 x) → ¬ InPayload b x →
      takeBlock e m b.addr wanted x = m x) ∧
    (∀ a, Aligned a → load64 (takeBlock e m b.addr wanted) a = KMEM_MAGIC →
      load64 m a = KMEM_MAGIC ∨ ∃ d ∈ placed b wanted, d.addr = a) := by
  have hb : b ∈ b :: post := List.mem_cons_self ..
  have hroom := hL.room hb
  have hal := hL.addr_aligned hb
  have hL' := layout_placed hL hw hpos
  have hfree := noNewMagic_setFree (m := kmemSplitIfUseful e m b.addr wanted) hal
    (show (0 : U32).toNat ≤ 1 from by decide)
  rw [takeBlock]
  rw [kmemSplitIfUseful_eq hL he (header_fields hs.1).size hw hle hnowrap] at hfree ⊢
  rw [placed] at hL' ⊢
  by_cases hsmall : b.size.toNat ≤ wanted.toNat + 80
  · simp only [if_pos hsmall] at hL' hfree ⊢
    refine ⟨seg_setFree hL false hs, ?_, ?_⟩
    · intro x hx _
      exact onlyAt_setFree _ _ _ x (hx b hb)
    · intro a ha hm
      exact Or.inl (hfree a ha hm)
  · simp only [if_neg hsmall] at hL' hfree ⊢
    -- the block as it stands after the split, still marked free
    have hcut : Layout lo hi ((⟨b.addr, wanted, b.free⟩ : Block) ::
        ⟨b.addr + HEADER + wanted, b.size - wanted - HEADER, true⟩ :: post) :=
      hL'.of_head rfl rfl
    have hsep : Sep (b.addr + HEADER + wanted) b.addr :=
      (hcut.sep_tail (List.mem_cons_self ..)).symm
    have hseg := seg_splitAt (b := b) wanted hcut rfl rfl rfl rfl hs
    refine ⟨seg_setFree hcut false hseg, ?_, ?_⟩
    · intro x hx hpay
      rw [onlyAt_setFree _ _ _ x (hx b hb)]
      refine splitAt_outside ⟨b.addr + HEADER + wanted, b.size - wanted - HEADER, true⟩
        hcut.tail hs.1 hroom hsep (hx b hb) ?_ (fun c hc => hx c (List.mem_cons_of_mem b hc))
      intro hin
      have hin' := (inRange_iff (hcut.tail.room (List.mem_cons_self ..)) x).mp hin
      have hmem := hL.mem hb
      have htop := hL.top
      have hnew : (b.addr + 48 + wanted).toNat = b.addr.toNat + 48 + wanted.toNat := by bv_omega
      have hin'' : (b.addr + 48 + wanted).toNat ≤ x.toNat ∧
        x.toNat < (b.addr + 48 + wanted).toNat + 48 := hin'
      exact hpay ⟨by omega, by omega⟩
    · intro a ha hm
      rcases magic_splitAt ⟨b.addr + HEADER + wanted, b.size - wanted - HEADER, true⟩
        hcut.tail hs.1 hroom hal hsep ha (hfree a ha hm) with h | h
      · exact Or.inr ⟨_, List.mem_cons_of_mem _ (List.mem_cons_self ..), h.symm⟩
      · exact Or.inl h

/-! ## Editing a heap -/

/-- **EDIT**: the blocks from some place on are replaced by others. -/
theorem Heap.edit {s : KmemState} {bs' : List Block} {m' : Mem} (h : Heap s (pre ++ bs))
    (hne : bs' ≠ []) (hfirst : nextAddr bs' 0 = nextAddr bs 0)
    (hlay : ∀ mid, Layout mid s.gHeapEnd.toNat bs → Layout mid s.gHeapEnd.toNat bs')
    (hseg : Seg m' (lastAddr 0 pre) bs' 0)
    (hframe : ∀ x : U64, (∀ d ∈ bs, x.toNat < d.addr.toNat) → m' x = s.mem x)
    (hmax : Maximal Block.free (pre ++ bs'))
    (hmagic : ∀ a, Aligned a → load64 m' a = KMEM_MAGIC →
      (load64 s.mem a = KMEM_MAGIC ∧ ∀ d ∈ bs, d.addr = a → ∃ d' ∈ bs', d'.addr = a) ∨
      ∃ d ∈ bs', d.addr = a) :
    Heap { s with mem := m' } (pre ++ bs') := by
  -- the blocks before the edit lie below everything that changes
  obtain ⟨mid, -, hmid, hbelow, hback⟩ := h.layout.split
  obtain ⟨hpre, -⟩ := seg_append.mp h.linked
  refine ⟨h.init, h.head, hback bs' (hlay mid hmid), ?_, ?_, hmax, ?_⟩
  · intro hnil
    exact hne (List.append_eq_nil_iff.mp hnil).2
  · refine seg_append.mpr ⟨?_, hseg⟩
    rw [hfirst]
    refine seg_congr (fun c hc => ?_) hpre
    have hroom := h.layout.room (List.mem_append_left bs hc)
    have hc' := hbelow c hc
    refine readHeader_congr (fun x hx => hframe x (fun d hd => ?_))
    have hd' := hmid.mem hd
    have hx' := (inRange_iff hroom x).mp hx
    omega
  · intro a ha hlo hhi hm
    rcases hmagic a ha hm with ⟨hold, hkeep⟩ | ⟨d, hd, haddr⟩
    · obtain ⟨d, hd, haddr⟩ := h.magic a ha hlo hhi hold
      rcases List.mem_append.mp hd with hd | hd
      · exact ⟨d, List.mem_append_left bs' hd, haddr⟩
      · obtain ⟨d', hd', haddr'⟩ := hkeep d hd haddr
        exact ⟨d', List.mem_append_right pre hd', haddr'⟩
    · exact ⟨d, List.mem_append_right pre hd, haddr⟩

/-! ## The search -/

/-- A block that serves a request. -/
def Fits (wanted : U64) (b : Block) : Prop := b.free = true ∧ wanted ≤ b.size

/-- The field `free` in memory says what the block says. -/
theorem free_ne_zero {m : Mem} {b : Block} {q n : U64} (h : Fields m b q n) :
    hdrFree m b.addr ≠ 0 ↔ b.free = true := by
  rw [h.free]
  cases b.free with
  | false => decide
  | true => decide

/-- **SEARCH**: the loop of `kmem_alloc` ends, with the first block that fits. -/
theorem allocLoop_spec {e wanted : U64} :
    ∀ {lo : Nat} {bs : List Block} {p : U64} (rounds : Nat), Layout lo hi bs → Seg m p bs 0 →
      bs.length < rounds →
      ((∀ b ∈ bs, ¬ Fits wanted b) ∧
        allocLoop e wanted m rounds (nextAddr bs 0) = some (0, m)) ∨
      (∃ pre b post, bs = pre ++ b :: post ∧ (∀ c ∈ pre, ¬ Fits wanted c) ∧ Fits wanted b ∧
        allocLoop e wanted m rounds (nextAddr bs 0)
          = some (kmemPayload b.addr, takeBlock e m b.addr wanted)) := by
  intro lo bs
  induction bs generalizing lo with
  | nil =>
      intro p rounds _ _ hr
      cases rounds with
      | zero => exact absurd hr (Nat.not_lt_zero _)
      | succ rounds => exact Or.inl ⟨fun b hb => absurd hb List.not_mem_nil, if_pos rfl⟩
  | cons b bs ih =>
      intro p rounds hL hs hr
      cases rounds with
      | zero => exact absurd hr (Nat.not_lt_zero _)
      | succ rounds =>
          have hf := header_fields hs.1
          have hstart : nextAddr (b :: bs) 0 = b.addr := rfl
          rw [hstart, allocLoop, if_neg (hL.ne_zero (List.mem_cons_self ..)),
              if_neg (not_not_intro hf.magic)]
          -- the header is intact, so the loop goes on unless the block fits
          by_cases hfit : Fits wanted b
          · refine Or.inr ⟨[], b, bs, rfl, fun c hc => absurd hc List.not_mem_nil, hfit, ?_⟩
            rw [if_pos ⟨(free_ne_zero hf).mpr hfit.1, by rw [hf.size]; exact hfit.2⟩]
            rfl
          · have hno : ¬ (hdrFree m b.addr ≠ 0 ∧ hdrSize m b.addr ≥ wanted) := by
              rintro ⟨h1, h2⟩
              rw [hf.size] at h2
              exact hfit ⟨(free_ne_zero hf).mp h1, h2⟩
            rw [if_neg hno, hf.next]
            rcases ih rounds hL.tail hs.2 (Nat.lt_of_succ_lt_succ hr) with
              ⟨hnone, heq⟩ | ⟨pre, c, post, hsplit, hpre, hc, heq⟩
            · refine Or.inl ⟨?_, heq⟩
              intro c hc
              rcases List.mem_cons.mp hc with rfl | hmem
              · exact hfit
              · exact hnone c hmem
            · refine Or.inr ⟨b :: pre, c, post, by rw [hsplit]; rfl, ?_, hc, heq⟩
              intro d hd
              rcases List.mem_cons.mp hd with rfl | hmem
              · exact hfit
              · exact hpre d hmem

/-! ## `kmem_alloc` -/

/-- The first block is at `g_head`. -/
theorem Heap.nextAddr_eq {s : KmemState} (h : Heap s bs) : nextAddr bs 0 = s.gHead := by
  cases bs with
  | nil => exact absurd rfl h.nonempty
  | cons b bs =>
      rw [h.head]
      exact BitVec.eq_of_toNat_eq h.layout.tiles.1

/-- A request and the size it is rounded to. -/
structure Request (bytes wanted : U64) : Prop where
  aligned : Aligned wanted
  pos : 16 ≤ wanted.toNat
  le : bytes.toNat ≤ wanted.toNat
  eq : wanted = kmemAlignUpSize bytes KMEM_ALIGN

/-- **ALLOC**: a request that no free block serves changes nothing; otherwise
    the first block that fits is taken. -/
theorem kmemAlloc_cases {s : KmemState} (h : Heap s bs) (bytes : U64) :
    (kmemAlloc s bytes = some (0, s) ∧
      ∀ wanted, Request bytes wanted → ∀ b ∈ bs, ¬ Fits wanted b) ∨
    ∃ pre b post wanted, bs = pre ++ b :: post ∧ Request bytes wanted ∧
      (∀ c ∈ pre, ¬ Fits wanted c) ∧ Fits wanted b ∧
      kmemAlloc s bytes = some (kmemPayload b.addr,
        { s with mem := takeBlock s.gHeapEnd s.mem b.addr wanted }) := by
  -- a size that is rounded to zero is no request
  have hnone : kmemAlignUpSize bytes KMEM_ALIGN = 0 →
      ∀ wanted, Request bytes wanted → ∀ b ∈ bs, ¬ Fits wanted b := by
    intro hzero wanted hreq
    have hpos := hreq.pos
    rw [hreq.eq, hzero] at hpos
    exact absurd hpos (by decide)
  rw [kmemAlloc]
  by_cases h0 : bytes = 0
  · exact Or.inl ⟨if_pos (Or.inr h0), hnone (by rw [h0]; decide)⟩
  rw [if_neg (by simpa [h.init] using h0)]
  have hbytes : 0 < bytes.toNat := by bv_omega
  rcases kmemAlignUpSize_cases bytes with ⟨-, hzero⟩ | ⟨hle, hval⟩
  · exact Or.inl ⟨if_pos hzero, hnone hzero⟩
  · have hpos : 16 ≤ (kmemAlignUpSize bytes KMEM_ALIGN).toNat := by omega
    have hne : kmemAlignUpSize bytes KMEM_ALIGN ≠ 0 := by bv_omega
    have hreq : Request bytes (kmemAlignUpSize bytes KMEM_ALIGN) :=
      ⟨show _ % 16 = 0 by omega, hpos, by omega, rfl⟩
    simp only [if_neg hne]
    rcases h.nextAddr_eq ▸ allocLoop_spec ROUNDS h.layout h.linked h.layout.length_lt with
      ⟨hno, heq⟩ | ⟨pre, b, post, hsplit, hpre, hfit, heq⟩
    · rw [heq]
      refine Or.inl ⟨rfl, fun wanted hreq' => ?_⟩
      rw [hreq'.eq]
      exact hno
    · rw [heq]
      exact Or.inr ⟨pre, b, post, _, hsplit, hreq, hpre, hfit, rfl⟩

/-- **ALLOC KEEPS THE HEAP**, if the request is too small to wrap. -/
theorem Heap.take {s : KmemState} (h : Heap s (pre ++ b :: post)) {bytes wanted : U64}
    (hreq : Request bytes wanted) (hfit : Fits wanted b) (hnowrap : wanted.toNat < 2 ^ 64 - 80) :
    Heap { s with mem := takeBlock s.gHeapEnd s.mem b.addr wanted }
      (pre ++ (placed b wanted ++ post)) ∧
    ∀ c ∈ pre ++ b :: post, c.free = false → ∀ x, InPayload c x →
      takeBlock s.gHeapEnd s.mem b.addr wanted x = s.mem x := by
  have hbm : b ∈ pre ++ b :: post := List.mem_append_right pre (List.mem_cons_self ..)
  obtain ⟨mid, -, hmid, -, -⟩ := h.layout.split
  obtain ⟨-, hseg⟩ := seg_append.mp h.linked
  have htail : Maximal Block.free (b :: post) := maximal_right h.maximal
  obtain ⟨hs, hout, hmagic⟩ :=
    takeBlock_spec hmid rfl hseg hreq.aligned hreq.pos hfit.2 hnowrap
  refine ⟨h.edit ?_ ?_ ?_ hs ?_ ?_ ?_, ?_⟩
  · rw [placed]
    split <;> exact List.cons_ne_nil _ _
  · rw [placed]
    split <;> rfl
  · intro mid' hmid'
    exact layout_placed hmid' hreq.aligned hreq.pos
  · intro x hx
    refine hout x (fun d hd => hmid.not_inRange_of_lt hd (hx d hd)) (fun hpay => ?_)
    have hbelow := hx b (List.mem_cons_self ..)
    have habove := hpay.1
    omega
  · rw [placed]
    split
    · exact maximal_edit (fun _ => hfit.1) h.maximal (maximal_head (fun _ => hfit.1) htail)
    · exact maximal_edit (fun _ => hfit.1) h.maximal
        (maximal_cons rfl (maximal_head (fun _ => hfit.1) htail))
  · intro a ha hm
    rcases hmagic a ha hm with hold | ⟨d, hd, haddr⟩
    · refine Or.inl ⟨hold, ?_⟩
      intro d hd haddr
      rcases List.mem_cons.mp hd with rfl | hmem
      · -- the block that was taken keeps its header where it was
        have htaken : taken d wanted ∈ placed d wanted := (mem_placed (taken_free d wanted)).mpr rfl
        exact ⟨_, List.mem_append_left post htaken, (taken_addr d wanted).trans haddr⟩
      · exact ⟨d, List.mem_append_right _ hmem, haddr⟩
    · exact Or.inr ⟨d, List.mem_append_left post hd, haddr⟩
  · intro c hc hfree x hpay
    have hcb : c ≠ b := by
      rintro rfl
      exact absurd (hfree.symm.trans hfit.1) Bool.false_ne_true
    refine hout x (fun d hd => ?_) (fun hpay' => ?_)
    · exact not_inRange_of_inPayload h.layout hc (List.mem_append_right pre hd) hpay
    · exact hcb (eq_of_inPayload h.layout hc hbm hpay hpay')

end KmemAlloc
