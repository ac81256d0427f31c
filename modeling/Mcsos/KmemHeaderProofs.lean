import Mcsos.KmemModel

/-! # Block headers in memory

    A header is read as one record (`readHeader`).  Each field store is an
    update of that record at its own address and invisible at every other
    header, and the byte frame says that nothing outside the header changes.

    Apart from headers, one thing is read anywhere in the heap: the magic
    number at a 16-aligned address.  The stores of the allocator never make
    one appear except where they write a header (`load64_set*`). -/

namespace KmemHeader

open Word ByteMemory KmemModel

/-! ## Reading and writing a header -/

/-- The fields of `kmem_block_t` that the allocator uses. -/
@[ext] structure Header where
  magic : U64
  size : U64
  free : U32
  prev : U64
  next : U64

/-- The five fields of a header in memory. -/
def readHeader (m : Mem) (a : U64) : Header :=
  ⟨hdrMagic m a, hdrSize m a, hdrFree m a, hdrPrev m a, hdrNext m a⟩

/-- The fields of a header that is known as a whole. -/
theorem fields_of_readHeader {m : Mem} {a : U64} {h : Header} (hr : readHeader m a = h) :
    hdrMagic m a = h.magic ∧ hdrSize m a = h.size ∧ hdrFree m a = h.free ∧
    hdrPrev m a = h.prev ∧ hdrNext m a = h.next := by
  rw [← hr]
  exact ⟨rfl, rfl, rfl, rfl, rfl⟩

/-- Headers that agree have the same fields. -/
theorem fields_congr {m m' : Mem} {a : U64} (h : readHeader m' a = readHeader m a) :
    hdrSize m' a = hdrSize m a ∧ hdrNext m' a = hdrNext m a := by
  obtain ⟨-, hs, -, -, hn⟩ := fields_of_readHeader h
  exact ⟨hs, hn⟩

/-- A header that does not wrap around the address space. -/
def Room (a : U64) : Prop := a.toNat + 48 ≤ 2 ^ 64

/-- Two headers that do not overlap. -/
def Sep (a b : U64) : Prop := a.toNat + 48 ≤ b.toNat ∨ b.toNat + 48 ≤ a.toNat

/-- Being apart is symmetric. -/
theorem Sep.symm {a b : U64} (h : Sep a b) : Sep b a := Or.symm h

/-- Nothing but the header at `a` differs. -/
def OnlyAt (a : U64) (m m' : Mem) : Prop := ∀ x, ¬ InRange a 48 x → m' x = m x

/-- A header is made of its own 48 bytes. -/
theorem readHeader_congr {m m' : Mem} {a : U64} (h : ∀ x, InRange a 48 x → m' x = m x) :
    readHeader m' a = readHeader m a := by
  have hword : ∀ o i : Nat, o + i < 48 →
      m' (a + BitVec.ofNat 64 o + BitVec.ofNat 64 i)
        = m (a + BitVec.ofNat 64 o + BitVec.ofNat 64 i) := by
    intro o i hoi
    apply h
    show (a + BitVec.ofNat 64 o + BitVec.ofNat 64 i - a).toNat < 48
    bv_omega
  -- each field is a word at its own offset below 48
  have hmagic : hdrMagic m' a = hdrMagic m a := by
    refine load64_congr (fun i hi => ?_)
    have := hword 0 i (by omega)
    rwa [BitVec.add_zero] at this
  have hsize : hdrSize m' a = hdrSize m a := load64_congr (fun i hi => hword 8 i (by omega))
  have hfree : hdrFree m' a = hdrFree m a := load32_congr (fun i hi => hword 16 i (by omega))
  have hprev : hdrPrev m' a = hdrPrev m a := load64_congr (fun i hi => hword 32 i (by omega))
  have hnext : hdrNext m' a = hdrNext m a := load64_congr (fun i hi => hword 40 i (by omega))
  rw [readHeader, readHeader, hmagic, hsize, hfree, hprev, hnext]

/-- Headers that are apart have no byte in common. -/
theorem not_inRange_of_sep {a b x : U64} (ha : Room a) (hb : Room b) (h : Sep a b)
    (hx : InRange b 48 x) : ¬ InRange a 48 x := by
  intro hx'
  have h1 := (inRange_iff hb x).mp hx
  have h2 := (inRange_iff ha x).mp hx'
  rcases h with h | h <;> omega

/-- **FRAME**: a change to one header is not seen at another. -/
theorem OnlyAt.readHeader {m m' : Mem} {a b : U64} (h : OnlyAt a m m') (ha : Room a)
    (hb : Room b) (hab : Sep a b) : readHeader m' b = readHeader m b :=
  readHeader_congr (fun x hx => h x (not_inRange_of_sep ha hb hab hx))

theorem OnlyAt.trans {m m' m'' : Mem} {a : U64} (h : OnlyAt a m m') (h' : OnlyAt a m' m'') :
    OnlyAt a m m'' :=
  fun x hx => (h' x hx).trans (h x hx)

/-- A write within the 48 bytes changes nothing else. -/
private theorem onlyAt_storeBytes {m : Mem} {a : U64} (o w v : Nat) (ho : o + w ≤ 48) :
    OnlyAt a m (storeBytes m (a + BitVec.ofNat 64 o) w v) := by
  intro x hx
  refine storeBytes_outside (fun hin => hx ?_)
  have hin' : (x - (a + BitVec.ofNat 64 o)).toNat < w := hin
  show (x - a).toNat < 48
  bv_omega

/-- Each assignment to a field stays in its header. -/
theorem onlyAt_setMagic (m : Mem) (a v : U64) : OnlyAt a m (setMagic m a v) := by
  have h := onlyAt_storeBytes (m := m) (a := a) 0 8 v.toNat (by omega)
  rwa [BitVec.add_zero] at h

theorem onlyAt_setSize (m : Mem) (a v : U64) : OnlyAt a m (setSize m a v) :=
  onlyAt_storeBytes 8 8 v.toNat (by omega)

theorem onlyAt_setFree (m : Mem) (a : U64) (v : U32) : OnlyAt a m (setFree m a v) :=
  onlyAt_storeBytes 16 4 v.toNat (by omega)

theorem onlyAt_setPrev (m : Mem) (a v : U64) : OnlyAt a m (setPrev m a v) :=
  onlyAt_storeBytes 32 8 v.toNat (by omega)

theorem onlyAt_setNext (m : Mem) (a v : U64) : OnlyAt a m (setNext m a v) :=
  onlyAt_storeBytes 40 8 v.toNat (by omega)

/-- Two fields of one header lie apart. -/
private theorem fields_apart {a : U64} (ha : Room a) {o w o' w' : Nat} (ho : o + w ≤ 48)
    (ho' : o' + w' ≤ 48) (hw : 0 < w) (hw' : 0 < w') (hdis : o + w ≤ o' ∨ o' + w' ≤ o) :
    Apart (a + BitVec.ofNat 64 o) w (a + BitVec.ofNat 64 o') w' := by
  have ha' : a.toNat + 48 ≤ 2 ^ 64 := ha
  have h1 : (a + BitVec.ofNat 64 o).toNat = a.toNat + o := by bv_omega
  have h2 : (a + BitVec.ofNat 64 o').toNat = a.toNat + o' := by bv_omega
  rw [Apart, h1, h2]
  omega

variable {m : Mem} {a : U64}

/-- The field at offset 0. -/
private theorem at_zero (a : U64) : a = a + BitVec.ofNat 64 0 := (BitVec.add_zero a).symm

/-- A store to one field, as another field sees it. -/
private theorem load64_frame {p q : U64} {o w o' v : Nat} (ha : Room a)
    (hp : p = a + BitVec.ofNat 64 o) (hq : q = a + BitVec.ofNat 64 o') (hw : 0 < w)
    (ho : o + w ≤ 48) (ho' : o' + 8 ≤ 48) (hdis : o + w ≤ o' ∨ o' + 8 ≤ o) :
    load64 (storeBytes m p w v) q = load64 m q := by
  rw [hp, hq, load64, load64,
      loadBytes_storeBytes_apart (fields_apart ha ho ho' hw (by decide) hdis)]

private theorem load32_frame {p q : U64} {o w o' v : Nat} (ha : Room a)
    (hp : p = a + BitVec.ofNat 64 o) (hq : q = a + BitVec.ofNat 64 o') (hw : 0 < w)
    (ho : o + w ≤ 48) (ho' : o' + 4 ≤ 48) (hdis : o + w ≤ o' ∨ o' + 4 ≤ o) :
    load32 (storeBytes m p w v) q = load32 m q := by
  rw [hp, hq, load32, load32,
      loadBytes_storeBytes_apart (fields_apart ha ho ho' hw (by decide) hdis)]

/-- Each assignment to a field changes that field and no other. -/
theorem readHeader_setMagic (ha : Room a) (v : U64) :
    readHeader (setMagic m a v) a = { readHeader m a with magic := v } := by
  ext1
  · exact load64_store64 m a v
  · exact load64_frame ha (at_zero a) rfl (by decide) (by decide) (by decide) (by decide)
  · exact load32_frame ha (at_zero a) rfl (by decide) (by decide) (by decide) (by decide)
  · exact load64_frame ha (at_zero a) rfl (by decide) (by decide) (by decide) (by decide)
  · exact load64_frame ha (at_zero a) rfl (by decide) (by decide) (by decide) (by decide)

theorem readHeader_setSize (ha : Room a) (v : U64) :
    readHeader (setSize m a v) a = { readHeader m a with size := v } := by
  ext1
  · exact load64_frame ha rfl (at_zero a) (by decide) (by decide) (by decide) (by decide)
  · exact load64_store64 m (a + 8) v
  · exact load32_frame ha rfl rfl (by decide) (by decide) (by decide) (by decide)
  · exact load64_frame ha rfl rfl (by decide) (by decide) (by decide) (by decide)
  · exact load64_frame ha rfl rfl (by decide) (by decide) (by decide) (by decide)

theorem readHeader_setFree (ha : Room a) (v : U32) :
    readHeader (setFree m a v) a = { readHeader m a with free := v } := by
  ext1
  · exact load64_frame ha rfl (at_zero a) (by decide) (by decide) (by decide) (by decide)
  · exact load64_frame ha rfl rfl (by decide) (by decide) (by decide) (by decide)
  · exact load32_store32 m (a + 16) v
  · exact load64_frame ha rfl rfl (by decide) (by decide) (by decide) (by decide)
  · exact load64_frame ha rfl rfl (by decide) (by decide) (by decide) (by decide)

theorem readHeader_setPrev (ha : Room a) (v : U64) :
    readHeader (setPrev m a v) a = { readHeader m a with prev := v } := by
  ext1
  · exact load64_frame ha rfl (at_zero a) (by decide) (by decide) (by decide) (by decide)
  · exact load64_frame ha rfl rfl (by decide) (by decide) (by decide) (by decide)
  · exact load32_frame ha rfl rfl (by decide) (by decide) (by decide) (by decide)
  · exact load64_store64 m (a + 32) v
  · exact load64_frame ha rfl rfl (by decide) (by decide) (by decide) (by decide)

theorem readHeader_setNext (ha : Room a) (v : U64) :
    readHeader (setNext m a v) a = { readHeader m a with next := v } := by
  ext1
  · exact load64_frame ha rfl (at_zero a) (by decide) (by decide) (by decide) (by decide)
  · exact load64_frame ha rfl rfl (by decide) (by decide) (by decide) (by decide)
  · exact load32_frame ha rfl rfl (by decide) (by decide) (by decide) (by decide)
  · exact load64_frame ha rfl rfl (by decide) (by decide) (by decide) (by decide)
  · exact load64_store64 m (a + 40) v

/-- All five fields, in the order the sources store them. -/
def writeHeader (m : Mem) (a : U64) (h : Header) : Mem :=
  setNext (setPrev (setFree (setSize (setMagic m a h.magic) a h.size) a h.free) a h.prev) a h.next

/-- A header that is written is read back. -/
theorem readHeader_writeHeader (ha : Room a) (h : Header) :
    readHeader (writeHeader m a h) a = h := by
  rw [writeHeader, readHeader_setNext ha, readHeader_setPrev ha, readHeader_setFree ha,
      readHeader_setSize ha, readHeader_setMagic ha]

/-- Writing a header changes nothing else. -/
theorem onlyAt_writeHeader (m : Mem) (a : U64) (h : Header) : OnlyAt a m (writeHeader m a h) :=
  ((((onlyAt_setMagic m a _).trans (onlyAt_setSize _ a _)).trans (onlyAt_setFree _ a _)).trans
    (onlyAt_setPrev _ a _)).trans (onlyAt_setNext _ a _)

/-! ## Alignment -/

/-- A 16-aligned address. -/
def Aligned (a : U64) : Prop := a.toNat % 16 = 0

instance (a : U64) : Decidable (Aligned a) := inferInstanceAs (Decidable (_ = _))

/-- Rounding up, as long as it does not wrap. -/
theorem alignUp_toNat {v : U64} (hv : ¬ v > UINT64_MAX - (16 - 1)) :
    ((v + (16 - 1)) &&& ~~~((16 : U64) - 1)).toNat = (v.toNat + 15) / 16 * 16 := by
  have hmax : (UINT64_MAX - (16 - 1)).toNat = 2 ^ 64 - 16 := by decide
  have hle : v.toNat ≤ 2 ^ 64 - 16 := by bv_omega
  rw [and_highMask_toNat _ _ 4 (by decide)]
  have hadd : (v + (16 - 1)).toNat = v.toNat + 15 := by bv_omega
  rw [hadd]
  rfl

/-- The address a pointer is rounded to: 0 if it is too high, and otherwise the
    next multiple of 16. -/
theorem kmemAlignUpPtr_cases (v : U64) :
    (2 ^ 64 - 16 < v.toNat ∧ kmemAlignUpPtr v KMEM_ALIGN = 0) ∨
    (v.toNat ≤ 2 ^ 64 - 16 ∧
      (kmemAlignUpPtr v KMEM_ALIGN).toNat = (v.toNat + 15) / 16 * 16) := by
  have hmax : (UINT64_MAX - (16 - 1)).toNat = 2 ^ 64 - 16 := by decide
  rw [kmemAlignUpPtr, KMEM_ALIGN, if_neg (by decide)]
  by_cases hbig : v > UINT64_MAX - (16 - 1)
  · have hlt : (UINT64_MAX - (16 - 1)).toNat < v.toNat := hbig
    exact Or.inl ⟨by omega, if_pos hbig⟩
  · have hle : ¬ (UINT64_MAX - (16 - 1)).toNat < v.toNat := hbig
    refine Or.inr ⟨by omega, ?_⟩
    rw [if_neg hbig]
    exact alignUp_toNat hbig

/-- An aligned pointer stays where it is. -/
theorem kmemAlignUpPtr_aligned {v : U64} (hv : Aligned v) (hle : v.toNat ≤ 2 ^ 64 - 16) :
    kmemAlignUpPtr v KMEM_ALIGN = v := by
  have hv' : v.toNat % 16 = 0 := hv
  rcases kmemAlignUpPtr_cases v with ⟨hbig, -⟩ | ⟨-, hval⟩
  · omega
  · exact BitVec.eq_of_toNat_eq (by omega)

/-- The size a request is rounded to: 0 if it is too large, and otherwise the
    next multiple of 16. -/
theorem kmemAlignUpSize_cases (v : U64) :
    (2 ^ 64 - 16 < v.toNat ∧ kmemAlignUpSize v KMEM_ALIGN = 0) ∨
    (v.toNat ≤ 2 ^ 64 - 16 ∧
      (kmemAlignUpSize v KMEM_ALIGN).toNat = (v.toNat + 15) / 16 * 16) := by
  have hmax : (UINT64_MAX - (16 - 1)).toNat = 2 ^ 64 - 16 := by decide
  rw [kmemAlignUpSize, KMEM_ALIGN, if_neg (by decide)]
  by_cases hbig : v > UINT64_MAX - (16 - 1)
  · have hlt : (UINT64_MAX - (16 - 1)).toNat < v.toNat := hbig
    refine Or.inl ⟨by omega, ?_⟩
    rw [if_neg (by decide), if_pos hbig]
  · have hle : ¬ (UINT64_MAX - (16 - 1)).toNat < v.toNat := hbig
    refine Or.inr ⟨by omega, ?_⟩
    rw [if_neg (by decide), if_neg hbig]
    exact alignUp_toNat hbig

/-! ## The magic number -/

/-- A store of part of a header and the word at an aligned address. -/
private theorem load64_outside {p : U64} {w v : Nat}
    (h : ∀ i : Nat, i < 8 → ¬ InRange p w (a + BitVec.ofNat 64 i)) :
    load64 (storeBytes m p w v) a = load64 m a :=
  load64_congr (fun i hi => storeBytes_outside (h i hi))

/-- Words at aligned addresses do not see the fields at 8 and 40. -/
theorem load64_setSize {h : U64} (ha : Aligned a) (hh : Aligned h) (v : U64) :
    load64 (setSize m h v) a = load64 m a := by
  refine load64_outside (fun i hi hin => ?_)
  have hin' : (a + BitVec.ofNat 64 i - (h + 8)).toNat < 8 := hin
  have ha' : a.toNat % 16 = 0 := ha
  have hh' : h.toNat % 16 = 0 := hh
  bv_omega

/-- The link is at an offset that no aligned magic word has. -/
theorem load64_setNext {h : U64} (ha : Aligned a) (hh : Aligned h) (v : U64) :
    load64 (setNext m h v) a = load64 m a := by
  refine load64_outside (fun i hi hin => ?_)
  have hin' : (a + BitVec.ofNat 64 i - (h + 40)).toNat < 8 := hin
  have ha' : a.toNat % 16 = 0 := ha
  have hh' : h.toNat % 16 = 0 := hh
  bv_omega

/-- A magic word is written at its header and nowhere else. -/
theorem load64_setMagic {h : U64} (ha : Aligned a) (hh : Aligned h) (v : U64) :
    load64 (setMagic m h v) a = if a = h then v else load64 m a := by
  by_cases hah : a = h
  · rw [if_pos hah, hah]
    exact load64_store64 m h v
  · rw [if_neg hah]
    refine load64_outside (fun i hi hin => ?_)
    have hin' : (a + BitVec.ofNat 64 i - h).toNat < 8 := hin
    have ha' : a.toNat % 16 = 0 := ha
    have hh' : h.toNat % 16 = 0 := hh
    exact hah (by bv_omega)

/-- The magic number starts with its own first byte. -/
theorem magic_low_byte (h : load64 m a = KMEM_MAGIC) : m a = 0x41 := by
  have hval := load64_toNat m a
  rw [h] at hval
  have hlow : KMEM_MAGIC.toNat = (m a).toNat + 256 * loadBytes m (a + 1) 7 := hval
  have hbyte : (m a).toNat < 256 := (m a).isLt
  have hmagic : KMEM_MAGIC.toNat = 0x4d43534f53484541 := rfl
  apply BitVec.eq_of_toNat_eq
  show (m a).toNat = 0x41
  omega

/-- A free flag is no magic number, whatever the reserved bytes behind it. -/
theorem free_not_magic {h : U64} (hf : (hdrFree m h).toNat ≤ 1) :
    load64 m (h + 16) ≠ KMEM_MAGIC := by
  intro hm
  have hbyte := magic_low_byte hm
  have hlow : (hdrFree m h).toNat = (m (h + 16)).toNat + 256 * loadBytes m (h + 16 + 1) 3 :=
    load32_toNat m (h + 16)
  rw [hbyte] at hlow
  have h41 : (0x41 : U8).toNat = 65 := rfl
  omega

/-- No magic number appears at an aligned address. -/
def NoNewMagic (m m' : Mem) : Prop :=
  ∀ a, Aligned a → load64 m' a = KMEM_MAGIC → load64 m a = KMEM_MAGIC

theorem NoNewMagic.trans {m m' m'' : Mem} (h : NoNewMagic m m') (h' : NoNewMagic m' m'') :
    NoNewMagic m m'' :=
  fun a ha hm => h a ha (h' a ha hm)

/-- No size makes a magic word at an aligned address. -/
theorem noNewMagic_setSize {h : U64} (hh : Aligned h) (v : U64) : NoNewMagic m (setSize m h v) := by
  intro a ha hm
  rwa [load64_setSize ha hh] at hm

/-- A link makes no magic word. -/
theorem noNewMagic_setNext {h : U64} (hh : Aligned h) (v : U64) : NoNewMagic m (setNext m h v) := by
  intro a ha hm
  rwa [load64_setNext ha hh] at hm

/-- The flag makes no magic word: a word whose low half is 0 or 1 is not it. -/
theorem noNewMagic_setFree {h : U64} (hh : Aligned h) {v : U32} (hv : v.toNat ≤ 1) :
    NoNewMagic m (setFree m h v) := by
  intro a ha hm
  by_cases hah : a = h + 16
  · rw [hah] at hm
    refine absurd hm (free_not_magic ?_)
    rw [hdrFree, setFree, load32_store32]
    exact hv
  · have hsame : load64 (setFree m h v) a = load64 m a := by
      refine load64_outside (fun i hi hin => ?_)
      have hin' : (a + BitVec.ofNat 64 i - (h + 16)).toNat < 4 := hin
      have ha' : a.toNat % 16 = 0 := ha
      have hh' : h.toNat % 16 = 0 := hh
      exact hah (by bv_omega)
    rw [hsame] at hm
    exact hm

/-- An aligned pointer is no magic number. -/
theorem noNewMagic_setPrev {h v : U64} (hh : Aligned h) (hv : Aligned v) :
    NoNewMagic m (setPrev m h v) := by
  intro a ha hm
  by_cases hah : a = h + 32
  · rw [hah, setPrev, load64_store64] at hm
    rw [hm] at hv
    exact absurd hv (by decide)
  · have hsame : load64 (setPrev m h v) a = load64 m a := by
      refine load64_outside (fun i hi hin => ?_)
      have hin' : (a + BitVec.ofNat 64 i - (h + 32)).toNat < 8 := hin
      have ha' : a.toNat % 16 = 0 := ha
      have hh' : h.toNat % 16 = 0 := hh
      exact hah (by bv_omega)
    rw [hsame] at hm
    exact hm

/-- Writing a header makes a magic number appear only where it stands. -/
theorem magic_writeHeader {h : U64} {H : Header} (hh : Aligned h) (hfree : H.free.toNat ≤ 1)
    (hprev : Aligned H.prev) (ha : Aligned a)
    (hm : load64 (writeHeader m h H) a = KMEM_MAGIC) : a = h ∨ load64 m a = KMEM_MAGIC := by
  have hrest : NoNewMagic (setMagic m h H.magic) (writeHeader m h H) :=
    (((noNewMagic_setSize hh _).trans (noNewMagic_setFree hh hfree)).trans
      (noNewMagic_setPrev hh hprev)).trans (noNewMagic_setNext hh _)
  have hset := hrest a ha hm
  rw [load64_setMagic ha hh] at hset
  by_cases hah : a = h
  · exact Or.inl hah
  · rw [if_neg hah] at hset
    exact Or.inr hset

end KmemHeader
