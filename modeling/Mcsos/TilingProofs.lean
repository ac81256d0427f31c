import Mathlib.Algebra.BigOperators.Group.List.Basic
import Mathlib.Algebra.GroupWithZero.Nat
import Mathlib.Data.List.Chain
import Mathlib.Order.Basic

/-! # Tilings of an interval by blocks

    A list of blocks tiles `[lo, hi)` when each block starts where the one
    before it ended; a block occupies its size and a fixed overhead.  A tiling
    is maximal when no two neighbours are both free.

    The main fact is that a maximal tiling holds no history: it is determined
    by its bounds and by its blocks that are not free (`maximal_unique`). -/

namespace Tiling

variable {β : Type} {addr size : β → Nat} {free : β → Bool} {hdr : Nat}

/-- The blocks cover `[lo, hi)` in order, without gap or overlap. -/
def Tiles (addr size : β → Nat) (hdr : Nat) : Nat → Nat → List β → Prop
  | lo, hi, [] => lo = hi
  | lo, hi, b :: bs => addr b = lo ∧ Tiles addr size hdr (lo + hdr + size b) hi bs

/-- No two neighbours are both free. -/
def Maximal (free : β → Bool) (bs : List β) : Prop :=
  bs.IsChain (fun b c => ¬ (free b = true ∧ free c = true))

/-- A tiled range does not end before it starts. -/
theorem tiles_le {lo hi : Nat} {bs : List β} (h : Tiles addr size hdr lo hi bs) : lo ≤ hi := by
  induction bs generalizing lo with
  | nil => exact Nat.le_of_eq h
  | cons b bs ih =>
      have := ih h.2
      omega

/-- Every block lies inside the interval. -/
theorem tiles_mem {lo hi : Nat} {bs : List β} (h : Tiles addr size hdr lo hi bs) {b : β}
    (hb : b ∈ bs) : lo ≤ addr b ∧ addr b + hdr + size b ≤ hi := by
  induction bs generalizing lo with
  | nil => exact nomatch hb
  | cons c bs ih =>
      obtain ⟨hc, hrest⟩ := h
      have hle := tiles_le hrest
      rcases List.mem_cons.mp hb with rfl | hb
      · omega
      · have := ih hrest hb
        omega

/-- Two blocks are one and the same, or one lies behind the other. -/
theorem tiles_apart {lo hi : Nat} {bs : List β} (h : Tiles addr size hdr lo hi bs) {b c : β}
    (hb : b ∈ bs) (hc : c ∈ bs) :
    b = c ∨ addr b + hdr + size b ≤ addr c ∨ addr c + hdr + size c ≤ addr b := by
  induction bs generalizing lo with
  | nil => exact nomatch hb
  | cons d bs ih =>
      obtain ⟨hd, hrest⟩ := h
      rcases List.mem_cons.mp hb with hbd | hb'
      · rcases List.mem_cons.mp hc with hcd | hc'
        · exact Or.inl (hbd.trans hcd.symm)
        · have := tiles_mem hrest hc'
          exact Or.inr (Or.inl (by rw [hbd]; omega))
      · rcases List.mem_cons.mp hc with hcd | hc'
        · have := tiles_mem hrest hb'
          exact Or.inr (Or.inr (by rw [hcd]; omega))
        · exact ih hrest hb' hc'

/-- The blocks account for the whole interval. -/
theorem tiles_sum {lo hi : Nat} {bs : List β} (h : Tiles addr size hdr lo hi bs) :
    lo + (bs.map (fun b => hdr + size b)).sum = hi := by
  induction bs generalizing lo with
  | nil =>
      have hlo : lo = hi := h
      rw [hlo]
      rfl
  | cons b bs ih =>
      have := ih h.2
      rw [List.map_cons, List.sum_cons]
      omega

/-- A bound on the blocks' sizes from below bounds their number. -/
theorem tiles_length {lo hi k : Nat} {bs : List β} (h : Tiles addr size hdr lo hi bs)
    (hk : ∀ b ∈ bs, k ≤ hdr + size b) : k * bs.length ≤ hi - lo := by
  induction bs generalizing lo with
  | nil => exact Nat.zero_le _
  | cons b bs ih =>
      have hlen := ih h.2 (fun c hc => hk c (List.mem_cons_of_mem b hc))
      have hb := hk b (List.mem_cons_self ..)
      have hle := tiles_le h.2
      rw [List.length_cons, Nat.mul_succ]
      omega

/-! ## Maximal tilings -/

theorem maximal_right {pre post : List β} (h : Maximal free (pre ++ post)) : Maximal free post :=
  (List.isChain_append.mp h).2.1

/-- A block that is not free may be put in front of any other. -/
theorem maximal_cons {b : β} {bs : List β} (hb : free b = false) (h : Maximal free bs) :
    Maximal free (b :: bs) := by
  cases bs with
  | nil => exact List.isChain_singleton b
  | cons c bs =>
      exact List.isChain_cons_cons.mpr
        ⟨fun hboth => Bool.false_ne_true (hb.symm.trans hboth.1), h⟩

/-- The first block may be replaced by one that is free only if it was. -/
theorem maximal_head {b b' : β} {bs : List β} (hf : free b' = true → free b = true)
    (h : Maximal free (b :: bs)) : Maximal free (b' :: bs) := by
  cases bs with
  | nil => exact List.isChain_singleton b'
  | cons c bs =>
      obtain ⟨hr, hrest⟩ := List.isChain_cons_cons.mp h
      exact List.isChain_cons_cons.mpr ⟨fun hboth => hr ⟨hf hboth.1, hboth.2⟩, hrest⟩

/-- So may all the blocks from some place on. -/
theorem maximal_edit {b b' : β} {pre post post' : List β} (hf : free b' = true → free b = true)
    (h : Maximal free (pre ++ b :: post)) (h' : Maximal free (b' :: post')) :
    Maximal free (pre ++ b' :: post') := by
  obtain ⟨hpre, -, hjoin⟩ := List.isChain_append.mp h
  refine List.isChain_append.mpr ⟨hpre, h', ?_⟩
  intro x hx y hy hboth
  have hyb : b' = y := by simpa using hy
  exact hjoin x hx b (by simp) ⟨hboth.1, hf (hyb ▸ hboth.2)⟩

/-- Behind a free block of a maximal tiling that ends early comes a block that
    is not free. -/
private theorem next_not_free {b : β} {bs : List β} (hm : Maximal free (b :: bs))
    (hb : free b = true) {c : β} {cs : List β} (hbs : bs = c :: cs) : free c = false := by
  subst hbs
  have hr := (List.isChain_cons_cons.mp hm).1
  cases hc : free c with
  | false => rfl
  | true => exact absurd ⟨hb, hc⟩ hr

/-- Of two maximal tilings that start with a free block at the same place and
    agree on what is not free, neither first block is the shorter one. -/
private theorem free_head_le {lo hi : Nat} {b c : β} {bs cs : List β}
    (hb : Tiles addr size hdr lo hi (b :: bs)) (hc : Tiles addr size hdr lo hi (c :: cs))
    (hmb : Maximal free (b :: bs)) (hfb : free b = true) (hfc : free c = true)
    (hsame : ∀ d, free d = false → d ∈ b :: bs → d ∈ c :: cs) : size c ≤ size b := by
  by_contra hlt
  obtain ⟨-, hbs⟩ := hb
  obtain ⟨-, hcs⟩ := hc
  have hle := tiles_le hcs
  cases hbs' : bs with
  | nil =>
      rw [hbs'] at hbs
      have : lo + hdr + size b = hi := hbs
      omega
  | cons d ds =>
      -- what follows the shorter block is allocated, so both lists have it
      have hd := next_not_free hmb hfb hbs'
      rw [hbs'] at hbs hsame
      have haddr : addr d = lo + hdr + size b := hbs.1
      rcases List.mem_cons.mp (hsame d hd (List.mem_cons_of_mem b (List.mem_cons_self ..)))
        with rfl | hmem
      · rw [hfc] at hd
        exact nomatch hd
      · have := tiles_mem hcs hmem
        omega

/-- The only block at the start of a tiling is its first. -/
private theorem mem_head {lo hi : Nat} {b d : β} {bs : List β} (hhdr : 0 < hdr)
    (hb : Tiles addr size hdr lo hi (b :: bs)) (hd : d ∈ b :: bs) (haddr : addr d = lo) :
    d = b := by
  rcases List.mem_cons.mp hd with h | hmem
  · exact h
  · have := tiles_mem hb.2 hmem
    omega

/-- Two maximal tilings of one interval that agree on what is not free start
    with the same block: one in use is in the other list too, and a free one
    reaches as far as the first block in use of either. -/
private theorem head_unique {lo hi : Nat} {b c : β} {bs cs : List β} (hhdr : 0 < hdr)
    (hext : ∀ b c : β, addr b = addr c → size b = size c → free b = free c → b = c)
    (hbs : Tiles addr size hdr lo hi (b :: bs)) (hcs : Tiles addr size hdr lo hi (c :: cs))
    (hmb : Maximal free (b :: bs)) (hmc : Maximal free (c :: cs))
    (hsame : ∀ d, free d = false → (d ∈ b :: bs ↔ d ∈ c :: cs)) : b = c := by
  cases hfb : free b with
  | false =>
      have hmem := (hsame b hfb).mp (List.mem_cons_self ..)
      exact mem_head hhdr hcs hmem hbs.1
  | true =>
      cases hfc : free c with
      | false =>
          have hmem := (hsame c hfc).mpr (List.mem_cons_self ..)
          exact (mem_head hhdr hbs hmem hcs.1).symm
      | true =>
          have h1 := free_head_le hbs hcs hmb hfb hfc (fun d hd h => (hsame d hd).mp h)
          have h2 := free_head_le hcs hbs hmc hfc hfb (fun d hd h => (hsame d hd).mpr h)
          exact hext b c (hbs.1.trans hcs.1.symm) (Nat.le_antisymm h2 h1) (hfb.trans hfc.symm)

/-- A block of the rest of a tiling, found in a list with the same first block,
    is found in the rest of that list. -/
private theorem mem_tail {lo hi : Nat} {b d : β} {bs cs : List β} (hhdr : 0 < hdr)
    (hbs : Tiles addr size hdr lo hi (b :: bs)) (hd : d ∈ bs) (hmem : d ∈ b :: cs) :
    d ∈ cs := by
  refine (List.mem_cons.mp hmem).resolve_left ?_
  rintro rfl
  have := tiles_mem hbs.2 hd
  have := hbs.1
  omega

/-- **UNIQUENESS**: bounds and the blocks that are not free determine a maximal
    tiling. -/
theorem maximal_unique (hhdr : 0 < hdr)
    (hext : ∀ b c : β, addr b = addr c → size b = size c → free b = free c → b = c) :
    ∀ {lo hi : Nat} {bs cs : List β}, Tiles addr size hdr lo hi bs →
      Tiles addr size hdr lo hi cs → Maximal free bs → Maximal free cs →
      (∀ d, free d = false → (d ∈ bs ↔ d ∈ cs)) → bs = cs := by
  intro lo hi bs
  induction bs generalizing lo with
  | nil =>
      intro cs hbs hcs _ _ _
      cases cs with
      | nil => rfl
      | cons c cs =>
          have hlo : lo = hi := hbs
          have := tiles_le hcs.2
          omega
  | cons b bs ih =>
      intro cs hbs hcs hmb hmc hsame
      cases cs with
      | nil =>
          have hlo : lo = hi := hcs
          have := tiles_le hbs.2
          omega
      | cons c cs =>
          -- the first blocks agree, and the rest is the induction's
          have hhead := head_unique hhdr hext hbs hcs hmb hmc hsame
          subst hhead
          have htail : bs = cs := by
            refine ih hbs.2 hcs.2 hmb.tail hmc.tail ?_
            intro d hd
            constructor
            · intro hmem
              exact mem_tail hhdr hbs hmem ((hsame d hd).mp (List.mem_cons_of_mem b hmem))
            · intro hmem
              exact mem_tail hhdr hcs hmem ((hsame d hd).mpr (List.mem_cons_of_mem b hmem))
          rw [htail]

end Tiling
