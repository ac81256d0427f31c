import Mcsos.KmemHeaderProofs
import Mcsos.TilingProofs

/-! # The block list in memory

    `Layout` is the arithmetic of the heap: blocks with a 48-byte header and a
    size in units of 16 tile the heap.  `Seg` is its picture in memory: each
    header describes its block and points to its neighbours.

    The allocator edits the list in two ways, cutting a block in two and
    joining a block with its successor.  For each the memory after the stores
    is the picture of the edited list (`seg_splitAt`, `seg_absorbNext`). -/

namespace KmemList

open Word ByteMemory KmemModel KmemHeader Tiling

/-! ## Layout -/

/-- Headers and payloads fill the range from `lo` to `hi`, in order and without gaps. -/
abbrev BlockTiles (lo hi : Nat) (bs : List Block) : Prop :=
  Tiles (fun b : Block => b.addr.toNat) (fun b => b.size.toNat) 48 lo hi bs

/-- **LAYOUT** of the blocks of a heap, or of a stretch of it. -/
structure Layout (lo hi : Nat) (bs : List Block) : Prop where
  tiles : BlockTiles lo hi bs
  pos : 0 < lo
  aligned : lo % 16 = 0
  top : hi ≤ 2 ^ 64 - 16
  sizes : ∀ b ∈ bs, b.size.toNat % 16 = 0 ∧ 16 ≤ b.size.toNat

variable {lo hi : Nat} {b c : Block} {bs pre post : List Block}

/-- A block lies between the bounds. -/
theorem Layout.mem (h : Layout lo hi bs) (hb : b ∈ bs) :
    lo ≤ b.addr.toNat ∧ b.addr.toNat + 48 + b.size.toNat ≤ hi :=
  tiles_mem h.tiles hb

/-- A block's header does not wrap. -/
theorem Layout.room (h : Layout lo hi bs) (hb : b ∈ bs) : Room b.addr := by
  have hm := h.mem hb
  have ht := h.top
  show b.addr.toNat + 48 ≤ 2 ^ 64
  omega

/-- No block is at address 0. -/
theorem Layout.ne_zero (h : Layout lo hi bs) (hb : b ∈ bs) : b.addr ≠ 0 := by
  have hm := h.mem hb
  have hp := h.pos
  bv_omega

/-- Headers of different blocks are apart. -/
theorem Layout.sep (h : Layout lo hi bs) (hb : b ∈ bs) (hc : c ∈ bs) (hne : b ≠ c) :
    Sep b.addr c.addr := by
  rcases tiles_apart h.tiles hb hc with heq | hlt | hlt
  · exact absurd heq hne
  · exact Or.inl (by omega)
  · exact Or.inr (by omega)

/-- The rest of the blocks tile what is left. -/
theorem Layout.tail (h : Layout lo hi (b :: bs)) :
    Layout (lo + 48 + b.size.toNat) hi bs := by
  have hb := h.sizes b (List.mem_cons_self ..)
  have hp := h.pos
  have ha := h.aligned
  exact ⟨h.tiles.2, by omega, by omega, h.top, fun c hc => h.sizes c (List.mem_cons_of_mem b hc)⟩

/-- Only the flag of the first block differs. -/
theorem Layout.of_head (h : Layout lo hi (b :: bs)) (haddr : c.addr = b.addr)
    (hsize : c.size = b.size) : Layout lo hi (c :: bs) := by
  refine ⟨⟨?_, ?_⟩, h.pos, h.aligned, h.top, fun d hd => ?_⟩
  · show c.addr.toNat = lo
    rw [haddr]
    exact h.tiles.1
  · show BlockTiles (lo + 48 + c.size.toNat) hi bs
    rw [hsize]
    exact h.tiles.2
  · rcases List.mem_cons.mp hd with rfl | hmem
    · rw [hsize]
      exact h.sizes b (List.mem_cons_self ..)
    · exact h.sizes d (List.mem_cons_of_mem b hmem)

/-- An address below a block is not in its header. -/
theorem Layout.not_inRange_of_lt (h : Layout lo hi bs) (hb : b ∈ bs) {x : U64}
    (hx : x.toNat < b.addr.toNat) : ¬ InRange b.addr 48 x := by
  intro hin
  have hin' := (inRange_iff (h.room hb) x).mp hin
  omega

/-- No loop over the list runs out of rounds. -/
theorem Layout.length_lt (h : Layout lo hi bs) : bs.length < ROUNDS := by
  have hlen := tiles_length (k := 64) h.tiles (fun b hb => by
    have := h.sizes b hb
    omega)
  have htop := h.top
  show bs.length < 2 ^ 64
  omega

/-- A stretch at the end of a layout, which may be laid out anew. -/
theorem Layout.split (h : Layout lo hi (pre ++ bs)) :
    ∃ mid, lo ≤ mid ∧ Layout mid hi bs ∧
      (∀ c ∈ pre, c.addr.toNat + 48 + c.size.toNat ≤ mid) ∧
      ∀ bs', Layout mid hi bs' → Layout lo hi (pre ++ bs') := by
  induction pre generalizing lo with
  | nil => exact ⟨lo, Nat.le_refl _, h, fun c hc => absurd hc List.not_mem_nil, fun bs' h' => h'⟩
  | cons c pre ih =>
      -- the place where the suffix starts does not depend on what it is replaced by
      obtain ⟨mid, hle, hmid, hbelow, hback⟩ := ih h.tail
      have hc : c.addr.toNat = lo := h.tiles.1
      refine ⟨mid, by omega, hmid, ?_, ?_⟩
      · intro d hd
        rcases List.mem_cons.mp hd with rfl | hmem
        · omega
        · exact hbelow d hmem
      · intro bs' h'
        have ht := hback bs' h'
        refine ⟨⟨h.tiles.1, ht.tiles⟩, h.pos, h.aligned, h.top, ?_⟩
        intro d hd
        rcases List.mem_cons.mp hd with rfl | hmem
        · exact h.sizes d (List.mem_cons_self ..)
        · exact ht.sizes d hmem

/-- Every header is aligned, since every size is a multiple of 16. -/
theorem Layout.addr_aligned (h : Layout lo hi bs) (hb : b ∈ bs) : Aligned b.addr := by
  induction bs generalizing lo with
  | nil => exact nomatch hb
  | cons c bs ih =>
      rcases List.mem_cons.mp hb with rfl | hmem
      · have haddr : b.addr.toNat = lo := h.tiles.1
        show b.addr.toNat % 16 = 0
        rw [haddr]
        exact h.aligned
      · exact ih h.tail hmem

/-- A block and the blocks behind it are different. -/
theorem Layout.ne_of_mem_tail (h : Layout lo hi (b :: bs)) (hc : c ∈ bs) : b ≠ c := by
  rintro rfl
  have h1 : b.addr.toNat = lo := h.tiles.1
  have h2 := h.tail.mem hc
  omega

/-- A block is at one place in the list only. -/
theorem Layout.not_mem_split (hL : Layout lo hi (pre ++ b :: post)) : b ∉ pre ∧ b ∉ post := by
  obtain ⟨mid, -, hmid, hbelow, -⟩ := hL.split
  refine ⟨fun hb => ?_, fun hb => hmid.ne_of_mem_tail hb rfl⟩
  have h1 := hbelow b hb
  have h2 := hmid.mem (List.mem_cons_self ..)
  omega

/-- The first header is apart from the others. -/
theorem Layout.sep_tail (h : Layout lo hi (b :: bs)) (hc : c ∈ bs) : Sep b.addr c.addr :=
  h.sep (List.mem_cons_self ..) (List.mem_cons_of_mem b hc) (h.ne_of_mem_tail hc)

/-! ## Linked blocks -/

/-- The header of a block between `prev` and `next`. -/
def blockHeader (b : Block) (prev next : U64) : Header :=
  ⟨KMEM_MAGIC, b.size, if b.free then 1 else 0, prev, next⟩

/-- What the header of a block says, field by field. -/
structure Fields (m : Mem) (b : Block) (prev next : U64) : Prop where
  magic : hdrMagic m b.addr = KMEM_MAGIC
  size : hdrSize m b.addr = b.size
  free : hdrFree m b.addr = if b.free then 1 else 0
  prev : hdrPrev m b.addr = prev
  next : hdrNext m b.addr = next

/-- A header in memory, field by field. -/
theorem header_fields {m : Mem} {b : Block} {prev next : U64}
    (h : readHeader m b.addr = blockHeader b prev next) : Fields m b prev next := by
  obtain ⟨h1, h2, h3, h4, h5⟩ := fields_of_readHeader h
  exact ⟨h1, h2, h3, h4, h5⟩

/-- What follows a list of blocks that comes before `n`. -/
def nextAddr (bs : List Block) (n : U64) : U64 :=
  match bs with
  | [] => n
  | b :: _ => b.addr

/-- What precedes the block behind a list that comes after `p`. -/
def lastAddr (p : U64) : List Block → U64
  | [] => p
  | b :: bs => lastAddr b.addr bs

/-- The last block's address. -/
theorem lastAddr_concat (p : U64) (xs : List Block) (q : Block) :
    lastAddr p (xs ++ [q]) = q.addr := by
  induction xs generalizing p with
  | nil => rfl
  | cons x xs ih => exact ih x.addr

/-- **PICTURE**: memory holds the blocks linked one after the other, between
    `p` and `n`. -/
def Seg (m : Mem) : U64 → List Block → U64 → Prop
  | _, [], _ => True
  | p, b :: bs, n => readHeader m b.addr = blockHeader b p (nextAddr bs n) ∧ Seg m b.addr bs n

variable {m m' : Mem} {p q n : U64}

/-- The first block's address. -/
theorem nextAddr_append (xs ys : List Block) (n : U64) :
    nextAddr (xs ++ ys) n = nextAddr xs (nextAddr ys n) := by
  cases xs with
  | nil => rfl
  | cons x xs => rfl

/-- A linked list of headers can be cut in two. -/
theorem seg_append {xs ys : List Block} :
    Seg m p (xs ++ ys) n ↔ Seg m p xs (nextAddr ys n) ∧ Seg m (lastAddr p xs) ys n := by
  induction xs generalizing p with
  | nil => exact ⟨fun h => ⟨trivial, h⟩, fun h => h.2⟩
  | cons x xs ih =>
      show readHeader m x.addr = blockHeader x p (nextAddr (xs ++ ys) n) ∧ Seg m x.addr (xs ++ ys) n
        ↔ (readHeader m x.addr = blockHeader x p (nextAddr xs (nextAddr ys n)) ∧
            Seg m x.addr xs (nextAddr ys n)) ∧ Seg m (lastAddr x.addr xs) ys n
      rw [nextAddr_append, ih, and_assoc]

/-- Only the headers matter. -/
theorem seg_congr (h : ∀ b ∈ bs, readHeader m' b.addr = readHeader m b.addr)
    (hs : Seg m p bs n) : Seg m' p bs n := by
  induction bs generalizing p with
  | nil => trivial
  | cons b bs ih =>
      refine ⟨?_, ih (fun c hc => h c (List.mem_cons_of_mem b hc)) hs.2⟩
      rw [h b (List.mem_cons_self ..)]
      exact hs.1

/-- Only headers outside the list differ. -/
theorem seg_onlyAt {a : U64} (h : OnlyAt a m m') (ha : Room a)
    (hroom : ∀ b ∈ bs, Room b.addr) (hsep : ∀ b ∈ bs, Sep a b.addr) (hs : Seg m p bs n) :
    Seg m' p bs n :=
  seg_congr (fun b hb => h.readHeader ha (hroom b hb) (hsep b hb)) hs

/-- The store that makes the next block point back. -/
def relink (m : Mem) (next prev : U64) : Mem := if next ≠ 0 then setPrev m next prev else m

/-- The blocks behind an edit, linked back to it. -/
theorem seg_relink (hL : Layout lo hi bs) (hs : Seg m p bs 0) :
    Seg (relink m (nextAddr bs 0) q) q bs 0 := by
  cases bs with
  | nil => trivial
  | cons b bs =>
      have hb : b ∈ b :: bs := List.mem_cons_self ..
      have hroom := hL.room hb
      rw [relink, show nextAddr (b :: bs) 0 = b.addr from rfl, if_pos (hL.ne_zero hb)]
      refine ⟨?_, ?_⟩
      · rw [readHeader_setPrev hroom, hs.1]
        rfl
      · exact seg_onlyAt (onlyAt_setPrev m b.addr q) hroom
          (fun c hc => hL.room (List.mem_cons_of_mem b hc)) (fun c hc => hL.sep_tail hc) hs.2

/-- A header that is not the first of the list does not see the link back. -/
theorem readHeader_relink (hL : Layout lo hi bs) {a : U64} (ha : Room a)
    (hsep : ∀ b ∈ bs, Sep b.addr a) :
    readHeader (relink m (nextAddr bs 0) q) a = readHeader m a := by
  cases bs with
  | nil => rfl
  | cons b bs =>
      have hb : b ∈ b :: bs := List.mem_cons_self ..
      rw [relink, show nextAddr (b :: bs) 0 = b.addr from rfl, if_pos (hL.ne_zero hb)]
      exact (onlyAt_setPrev m b.addr q).readHeader (hL.room hb) ha (hsep b hb)

/-- A byte outside the headers of the list does not see it either. -/
theorem relink_outside {x : U64} (hL : Layout lo hi bs) (hx : ∀ b ∈ bs, ¬ InRange b.addr 48 x) :
    relink m (nextAddr bs 0) q x = m x := by
  cases bs with
  | nil => rfl
  | cons b bs =>
      have hb : b ∈ b :: bs := List.mem_cons_self ..
      rw [relink, show nextAddr (b :: bs) 0 = b.addr from rfl, if_pos (hL.ne_zero hb)]
      exact onlyAt_setPrev m b.addr q x (hx b hb)

/-- Linking a neighbour makes no magic word. -/
theorem noNewMagic_relink (hL : Layout lo hi bs) (hq : Aligned q) :
    NoNewMagic m (relink m (nextAddr bs 0) q) := by
  cases bs with
  | nil => exact fun a _ h => h
  | cons b bs =>
      have hb : b ∈ b :: bs := List.mem_cons_self ..
      rw [relink, show nextAddr (b :: bs) 0 = b.addr from rfl, if_pos (hL.ne_zero hb)]
      exact noNewMagic_setPrev (hL.addr_aligned hb) hq

/-! ## Cutting a block in two -/

/-- The stores of a split: a new header, the link back to it, and the block that
    was cut. -/
theorem splitAt_eq {a new : U64} (ha : Room a) (hnew : Room new) (hsep : Sep new a)
    (consumed wanted : U64) :
    splitAt m a new consumed wanted
      = setSize (setNext (relink (writeHeader m new
          ⟨KMEM_MAGIC, hdrSize m a - consumed - HEADER, 1, a, hdrNext m a⟩)
          (hdrNext m a) new) a new) a wanted := by
  -- what the block says is not changed by the stores to the new header
  have hsize : ∀ m', OnlyAt new m m' → hdrSize m' a = hdrSize m a := fun m' h =>
    (fields_congr (h.readHeader hnew ha hsep)).1
  have hnext : ∀ m', OnlyAt new m m' → hdrNext m' a = hdrNext m a := fun m' h =>
    (fields_congr (h.readHeader hnew ha hsep)).2
  have h1 := onlyAt_setMagic m new KMEM_MAGIC
  have h2 := h1.trans (onlyAt_setSize _ new (hdrSize m a - consumed - HEADER))
  have h3 := h2.trans (onlyAt_setFree _ new 1)
  have h4 := h3.trans (onlyAt_setPrev _ new a)
  have h5 := h4.trans (onlyAt_setNext _ new (hdrNext m a))
  rw [splitAt]
  simp only [hsize _ h1, hnext _ h4, hnext _ h5]
  rfl

/-- A split leaves the headers linked, with the new block between the two. -/
theorem seg_splitAt {b' nb : Block} (consumed : U64) (hL : Layout lo hi (b' :: nb :: post))
    (haddr : b'.addr = b.addr) (hfree : b'.free = b.free) (hnf : nb.free = true)
    (hsize : nb.size = b.size - consumed - HEADER) (hs : Seg m p (b :: post) 0) :
    Seg (splitAt m b.addr nb.addr consumed b'.size) p (b' :: nb :: post) 0 := by
  obtain ⟨hb, hpost⟩ := hs
  have hroomb : Room b.addr := haddr ▸ hL.room (List.mem_cons_self ..)
  have hroomn : Room nb.addr := hL.tail.room (List.mem_cons_self ..)
  have hsep : Sep nb.addr b.addr := haddr ▸ (hL.sep_tail (List.mem_cons_self ..)).symm
  have hsepb : ∀ c ∈ post, Sep b.addr c.addr := fun c hc =>
    haddr ▸ hL.sep_tail (List.mem_cons_of_mem nb hc)
  have hsepn : ∀ c ∈ post, Sep nb.addr c.addr := fun c hc => hL.tail.sep_tail hc
  have hroomp : ∀ c ∈ post, Room c.addr := fun c hc => hL.tail.tail.room hc
  have hf := header_fields hb
  -- the split writes the new header, the neighbour's `prev`, and then its own block
  rw [splitAt_eq hroomb hroomn hsep, hf.size, hf.next]
  generalize hH :
    (⟨KMEM_MAGIC, b.size - consumed - HEADER, 1, b.addr, nextAddr post 0⟩ : Header) = H
  have honly : OnlyAt b.addr (relink (writeHeader m nb.addr H) (nextAddr post 0) nb.addr)
      (setSize (setNext (relink (writeHeader m nb.addr H) (nextAddr post 0) nb.addr) b.addr nb.addr)
        b.addr b'.size) :=
    (onlyAt_setNext _ _ _).trans (onlyAt_setSize _ _ _)
  refine ⟨?_, ?_, ?_⟩
  · rw [haddr, readHeader_setSize hroomb, readHeader_setNext hroomb,
        readHeader_relink hL.tail.tail hroomb (fun c hc => (hsepb c hc).symm),
        (onlyAt_writeHeader m nb.addr H).readHeader hroomn hroomb hsep, hb, blockHeader,
        blockHeader, hfree]
    rfl
  · rw [honly.readHeader hroomb hroomn hsep.symm,
        readHeader_relink hL.tail.tail hroomn (fun c hc => (hsepn c hc).symm),
        readHeader_writeHeader hroomn, ← hH, blockHeader, hsize, hnf, haddr]
    rfl
  · refine seg_onlyAt honly hroomb hroomp hsepb ?_
    exact seg_relink hL.tail.tail
      (seg_onlyAt (onlyAt_writeHeader m nb.addr H) hroomn hroomp hsepn hpost)

/-- A split touches the headers of the list it edits. -/
theorem splitAt_outside (nb : Block) {consumed wanted x : U64} (hL : Layout lo hi (nb :: post))
    (hb : readHeader m b.addr = blockHeader b p (nextAddr post 0)) (hroom : Room b.addr)
    (hsep : Sep nb.addr b.addr) (hxb : ¬ InRange b.addr 48 x) (hxn : ¬ InRange nb.addr 48 x)
    (hxp : ∀ c ∈ post, ¬ InRange c.addr 48 x) :
    splitAt m b.addr nb.addr consumed wanted x = m x := by
  rw [splitAt_eq hroom (hL.room (List.mem_cons_self ..)) hsep, (header_fields hb).next,
      onlyAt_setSize _ _ _ x hxb, onlyAt_setNext _ _ _ x hxb, relink_outside hL.tail hxp,
      onlyAt_writeHeader _ _ _ x hxn]

/-- A split makes one magic number appear: the new block's. -/
theorem magic_splitAt (nb : Block) {consumed wanted a : U64} (hL : Layout lo hi (nb :: post))
    (hb : readHeader m b.addr = blockHeader b p (nextAddr post 0)) (hroom : Room b.addr)
    (hal : Aligned b.addr) (hsep : Sep nb.addr b.addr) (ha : Aligned a)
    (hm : load64 (splitAt m b.addr nb.addr consumed wanted) a = KMEM_MAGIC) :
    a = nb.addr ∨ load64 m a = KMEM_MAGIC := by
  have hn : nb ∈ nb :: post := List.mem_cons_self ..
  rw [splitAt_eq hroom (hL.room hn) hsep, (header_fields hb).next] at hm
  have hwrite := (((noNewMagic_relink hL.tail (hL.addr_aligned hn)).trans
    (noNewMagic_setNext hal _)).trans (noNewMagic_setSize hal _)) a ha hm
  exact magic_writeHeader (hL.addr_aligned hn) (show (1 : U32).toNat ≤ 1 from by decide) hal ha
    hwrite

/-! ## Joining a block with its successor -/

/-- Clear the header of a block that is no longer one. -/
def clearHeader (m : Mem) (a : U64) : Mem :=
  setNext (setPrev (setSize (setMagic m a 0) a 0) a 0) a 0

/-- A header that is given up is cleared in place. -/
theorem onlyAt_clearHeader (m : Mem) (a : U64) : OnlyAt a m (clearHeader m a) :=
  (((onlyAt_setMagic m a 0).trans (onlyAt_setSize _ a 0)).trans (onlyAt_setPrev _ a 0)).trans
    (onlyAt_setNext _ a 0)

/-- One round of coalescing, as one update for each of the three headers. -/
theorem absorbNext_eq {a next : U64} (ha : Room a) (hn : Room next) (hsep : Sep a next)
    (hnext : hdrNext m a = next) :
    absorbNext m a
      = clearHeader (relink (setNext (setSize m a (hdrSize m a + (HEADER + hdrSize m next))) a
          (hdrNext m next)) (hdrNext m next) a) next := by
  have hkeep : ∀ m', OnlyAt a m m' → hdrNext m' next = hdrNext m next := fun m' h =>
    (fields_congr (h.readHeader ha hn hsep)).2
  have h1 := onlyAt_setSize m a (hdrSize m a + (HEADER + hdrSize m next))
  have h2 := h1.trans (onlyAt_setNext _ a (hdrNext m next))
  rw [absorbNext]
  simp only [hnext, hkeep _ h1, hkeep _ h2]
  rfl

/-- A block joined with the one behind it. -/
def join (b c : Block) : Block := { b with size := b.size + (HEADER + c.size) }

/-- The joined block has both payloads and the header between them. -/
theorem join_size (hL : Layout lo hi (b :: c :: post)) :
    (join b c).size.toNat = b.size.toNat + 48 + c.size.toNat := by
  have hb := hL.tiles.1
  have hc := hL.tail.mem (List.mem_cons_self ..)
  have ht := hL.top
  show (b.size + (48 + c.size)).toNat = _
  bv_omega

/-- The blocks are still tiled. -/
theorem layout_join (hL : Layout lo hi (b :: c :: post)) : Layout lo hi (join b c :: post) := by
  have hsz := join_size hL
  have hb := hL.sizes b (List.mem_cons_self ..)
  have hc := hL.sizes c (List.mem_cons_of_mem b (List.mem_cons_self ..))
  refine ⟨⟨hL.tiles.1, ?_⟩, hL.pos, hL.aligned, hL.top, ?_⟩
  · have htail : BlockTiles (lo + 48 + b.size.toNat + 48 + c.size.toNat) hi post := hL.tiles.2.2
    show BlockTiles (lo + 48 + (join b c).size.toNat) hi post
    rwa [hsz, show lo + 48 + (b.size.toNat + 48 + c.size.toNat)
      = lo + 48 + b.size.toNat + 48 + c.size.toNat from by omega]
  · intro d hd
    rcases List.mem_cons.mp hd with rfl | hmem
    · rw [hsz]
      omega
    · exact hL.sizes d (List.mem_cons_of_mem b (List.mem_cons_of_mem c hmem))

/-- One round of coalescing leaves the headers linked. -/
theorem seg_absorbNext (hL : Layout lo hi (b :: c :: post)) (hs : Seg m p (b :: c :: post) 0) :
    Seg (absorbNext m b.addr) p (join b c :: post) 0 := by
  obtain ⟨hb, hc, hpost⟩ := hs
  have hroomb : Room b.addr := hL.room (List.mem_cons_self ..)
  have hroomc : Room c.addr := hL.tail.room (List.mem_cons_self ..)
  have hsep : Sep b.addr c.addr := hL.sep_tail (List.mem_cons_self ..)
  have hsepb : ∀ d ∈ post, Sep b.addr d.addr := fun d hd => hL.sep_tail (List.mem_cons_of_mem c hd)
  have hsepc : ∀ d ∈ post, Sep c.addr d.addr := fun d hd => hL.tail.sep_tail hd
  have hroomp : ∀ d ∈ post, Room d.addr := fun d hd => hL.tail.tail.room hd
  have hfb := header_fields hb
  have hfc := header_fields hc
  rw [absorbNext_eq hroomb hroomc hsep hfb.next, hfb.size, hfc.size, hfc.next]
  -- the joined block's own header changes in size and link only
  have honly : OnlyAt b.addr m (setNext (setSize m b.addr (b.size + (HEADER + c.size))) b.addr
      (nextAddr post 0)) := (onlyAt_setSize _ _ _).trans (onlyAt_setNext _ _ _)
  have haddr : (join b c).addr = b.addr := rfl
  refine ⟨?_, ?_⟩
  · rw [haddr, (onlyAt_clearHeader _ c.addr).readHeader hroomc hroomb hsep.symm,
        readHeader_relink hL.tail.tail hroomb (fun d hd => (hsepb d hd).symm),
        readHeader_setNext hroomb, readHeader_setSize hroomb, hb]
    rfl
  · refine seg_onlyAt (onlyAt_clearHeader _ c.addr) hroomc hroomp hsepc ?_
    exact seg_relink hL.tail.tail (seg_onlyAt honly hroomb hroomp hsepb hpost)

/-- A cleared header is no header any more. -/
theorem magic_clearHeader {a h : U64} (ha : Aligned a) (hh : Aligned h)
    (hm : load64 (clearHeader m h) a = KMEM_MAGIC) : a ≠ h ∧ load64 m a = KMEM_MAGIC := by
  have hrest : NoNewMagic (setMagic m h 0) (clearHeader m h) :=
    ((noNewMagic_setSize hh _).trans (noNewMagic_setPrev hh (show Aligned 0 from rfl))).trans
      (noNewMagic_setNext hh _)
  have hset := hrest a ha hm
  rw [load64_setMagic ha hh] at hset
  by_cases hah : a = h
  · rw [if_pos hah] at hset
    exact absurd hset (by decide)
  · rw [if_neg hah] at hset
    exact ⟨hah, hset⟩

/-- Joining touches the headers of the list it edits. -/
theorem absorbNext_outside {x : U64} (hL : Layout lo hi (b :: c :: post))
    (hs : Seg m p (b :: c :: post) 0) (hx : ∀ d ∈ b :: c :: post, ¬ InRange d.addr 48 x) :
    absorbNext m b.addr x = m x := by
  obtain ⟨hb, hc, -⟩ := hs
  have hbm : b ∈ b :: c :: post := List.mem_cons_self ..
  have hcm : c ∈ b :: c :: post := List.mem_cons_of_mem b (List.mem_cons_self ..)
  rw [absorbNext_eq (hL.room hbm) (hL.room hcm) (hL.sep_tail (List.mem_cons_self ..))
        (header_fields hb).next, (header_fields hc).next, onlyAt_clearHeader _ _ x (hx c hcm),
      relink_outside hL.tail.tail
        (fun d hd => hx d (List.mem_cons_of_mem b (List.mem_cons_of_mem c hd))),
      onlyAt_setNext _ _ _ x (hx b hbm), onlyAt_setSize _ _ _ x (hx b hbm)]

/-- Joining takes the magic number of the block that is gone. -/
theorem magic_absorbNext {a : U64} (hL : Layout lo hi (b :: c :: post))
    (hs : Seg m p (b :: c :: post) 0) (ha : Aligned a)
    (hm : load64 (absorbNext m b.addr) a = KMEM_MAGIC) :
    a ≠ c.addr ∧ load64 m a = KMEM_MAGIC := by
  obtain ⟨hb, hc, -⟩ := hs
  have hbm : b ∈ b :: c :: post := List.mem_cons_self ..
  have hcm : c ∈ b :: c :: post := List.mem_cons_of_mem b (List.mem_cons_self ..)
  have hal := hL.addr_aligned hbm
  rw [absorbNext_eq (hL.room hbm) (hL.room hcm) (hL.sep_tail (List.mem_cons_self ..))
        (header_fields hb).next, (header_fields hc).next] at hm
  obtain ⟨hne, hclear⟩ := magic_clearHeader ha (hL.addr_aligned hcm) hm
  exact ⟨hne, (((noNewMagic_setSize hal _).trans (noNewMagic_setNext hal _)).trans
    (noNewMagic_relink hL.tail.tail hal)) a ha hclear⟩

/-! ## The free flag -/

/-- Assigning `free` leaves the headers linked. -/
theorem seg_setFree (hL : Layout lo hi (b :: bs)) (f : Bool) (hs : Seg m p (b :: bs) n) :
    Seg (setFree m b.addr (if f then 1 else 0)) p ({ b with free := f } :: bs) n := by
  have hroom : Room b.addr := hL.room (List.mem_cons_self ..)
  refine ⟨?_, ?_⟩
  · show readHeader (setFree m b.addr _) b.addr = _
    rw [readHeader_setFree hroom, hs.1]
    rfl
  · exact seg_onlyAt (onlyAt_setFree m b.addr _) hroom
      (fun c hc => hL.room (List.mem_cons_of_mem b hc)) (fun c hc => hL.sep_tail hc) hs.2

end KmemList
