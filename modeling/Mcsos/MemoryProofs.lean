import Mcsos.MemoryModel
import Mcsos.MovesProofs

/-! # What a copy leaves in memory

    Both loops of `memory.c` make the same assignments, byte `i` of the target
    from byte `i` of the source: the forward loop by ascending `i`, the backward
    loop by descending `i`.  The first order is serial if the target begins
    below the source or behind its end, the second if it begins above the
    source.  `memmove` looks which, and so moves the bytes under any overlap;
    `memcpy` does if its one order is the right one. -/

namespace Memory

open Word ByteMemory MemoryModel Moves

variable {m : Mem} {dest src count : U64} {is : List Nat}

/-- Byte `i` of the target, and byte `i` of the source. -/
def place (dest src : U64) (i : Nat) : U64 × U64 :=
  (dest + BitVec.ofNat 64 i, src + BitVec.ofNat 64 i)

/-! ## The loops as assignments -/

/-- The next byte of a copy is the first of the rest. -/
theorem place_succ (d s : U64) (i : Nat) : place d s (i + 1) = place (d + 1) (s + 1) i := by
  have hadd : ∀ a : U64, a + BitVec.ofNat 64 (i + 1) = a + 1 + BitVec.ofNat 64 i := by
    intro a
    bv_omega
  rw [place, place, hadd, hadd]

/-- The forward loop is a sequence of assignments, the lowest first. -/
theorem copyForward_eq (m : Mem) (d s : U64) (n : Nat) :
    copyForward m d s n = assign ((List.range n).map (place d s)) m := by
  induction n generalizing m d s with
  | zero => rfl
  | succ n ih =>
      have hfirst : place d s 0 = (d, s) := by rw [place, BitVec.add_zero, BitVec.add_zero]
      have hrest : place d s ∘ Nat.succ = place (d + 1) (s + 1) := funext (place_succ d s)
      rw [copyForward, ih, List.range_succ_eq_map, List.map_cons, List.map_map, hfirst, hrest]
      rfl

/-- The backward loop is the same sequence, the highest first. -/
theorem copyBackward_eq (m : Mem) (d s : U64) (n : Nat) :
    copyBackward m (d + BitVec.ofNat 64 n) (s + BitVec.ofNat 64 n) n
      = assign ((List.range n).reverse.map (place d s)) m := by
  induction n generalizing m with
  | zero => rfl
  | succ n ih =>
      have hback : ∀ a : U64, a + BitVec.ofNat 64 (n + 1) - 1 = a + BitVec.ofNat 64 n := by
        intro a
        bv_omega
      rw [copyBackward, hback, hback, ih, List.range_succ, List.reverse_append,
          List.reverse_singleton]
      rfl

/-! ## The order of the bytes -/

/-- An order of the bytes is serial if none is written over one still to be read. -/
theorem serial_map {R : Nat → Nat → Prop} (hord : is.Pairwise R)
    (h : ∀ i ∈ is, ∀ j ∈ is, R i j →
      dest + BitVec.ofNat 64 i ≠ dest + BitVec.ofNat 64 j ∧
      dest + BitVec.ofNat 64 i ≠ src + BitVec.ofNat 64 j) :
    Serial (is.map (place dest src)) := by
  refine List.pairwise_map.mpr (hord.imp_of_mem ?_)
  intro i j hi hj hij
  exact h i hi j hj hij

/-- **UPWARDS**: towards lower addresses, or out of the way. -/
theorem serial_forward (hsrc : src.toNat + count.toNat ≤ 2 ^ 64)
    (h : dest.toNat ≤ src.toNat ∨ src.toNat + count.toNat ≤ dest.toNat) :
    Serial ((List.range count.toNat).map (place dest src)) := by
  refine serial_map List.pairwise_lt_range (fun i hi j hj hij => ?_)
  have hi' := List.mem_range.mp hi
  have hj' := List.mem_range.mp hj
  constructor
  · bv_omega
  · bv_omega

/-- **DOWNWARDS**: towards higher addresses. -/
theorem serial_backward (hdest : dest.toNat + count.toNat ≤ 2 ^ 64)
    (h : src.toNat ≤ dest.toNat) :
    Serial ((List.range count.toNat).reverse.map (place dest src)) := by
  refine serial_map (List.pairwise_reverse.mpr List.pairwise_lt_range)
    (fun i hi j hj hij => ?_)
  have hi' := List.mem_range.mp (List.mem_reverse.mp hi)
  constructor
  · bv_omega
  · bv_omega

/-! ## The bytes moved -/

/-- The `count` bytes from `dest` on are the ones that were at `src`, and every
    other byte is as it was. -/
structure Moved (m m' : Mem) (dest src count : U64) : Prop where
  inside : ∀ i, i < count.toNat →
    m' (dest + BitVec.ofNat 64 i) = m (src + BitVec.ofNat 64 i)
  outside : ∀ x : U64, x.toNat < dest.toNat ∨ dest.toNat + count.toNat ≤ x.toNat → m' x = m x

/-- Any serial order of the bytes will do. -/
theorem moved_assign (hdest : dest.toNat + count.toNat ≤ 2 ^ 64)
    (hall : ∀ i, i ∈ is ↔ i < count.toNat) (hserial : Serial (is.map (place dest src))) :
    Moved m (assign (is.map (place dest src)) m) dest src count := by
  refine ⟨fun i hi => ?_, fun x hx => ?_⟩
  · exact assign_target hserial (List.mem_map.mpr ⟨i, (hall i).mpr hi, rfl⟩) m
  · refine assign_outside (fun p hp => ?_) m
    obtain ⟨i, hi, rfl⟩ := List.mem_map.mp hp
    have hi' := (hall i).mp hi
    show dest + BitVec.ofNat 64 i ≠ x
    bv_omega

/-- Copying forward moves the bytes if the destination does not lie inside the source. -/
theorem moved_forward (m : Mem) (hdest : dest.toNat + count.toNat ≤ 2 ^ 64)
    (hsrc : src.toNat + count.toNat ≤ 2 ^ 64)
    (h : dest.toNat ≤ src.toNat ∨ src.toNat + count.toNat ≤ dest.toNat) :
    Moved m (copyForward m dest src count.toNat) dest src count := by
  rw [copyForward_eq]
  exact moved_assign hdest (fun i => List.mem_range) (serial_forward hsrc h)

/-- Copying backward moves them if the destination does not lie below the source. -/
theorem moved_backward (m : Mem) (hdest : dest.toNat + count.toNat ≤ 2 ^ 64)
    (h : src.toNat ≤ dest.toNat) :
    Moved m (copyBackward m (dest + count) (src + count) count.toNat) dest src count := by
  -- the pointers start at the two ends, one of which may be the top of memory
  have hend : ∀ a : U64, a + count = a + BitVec.ofNat 64 count.toNat := by
    intro a
    rw [BitVec.ofNat_toNat, BitVec.setWidth_eq]
  rw [hend dest, hend src, copyBackward_eq]
  exact moved_assign hdest (fun i => List.mem_reverse.trans List.mem_range)
    (serial_backward hdest h)

/-- Nothing is to be done for no bytes, or for bytes that are in place. -/
theorem moved_refl (m : Mem) (h : dest = src ∨ count = 0) : Moved m m dest src count := by
  refine ⟨fun i hi => ?_, fun _ _ => rfl⟩
  rcases h with rfl | rfl
  · rfl
  · exact absurd hi (Nat.not_lt_zero i)

/-- **MEMCPY** moves the bytes if the target begins at or below the source, or
    behind its end. -/
theorem memcpy_moved (m : Mem) (hdest : dest.toNat + count.toNat ≤ 2 ^ 64)
    (hsrc : src.toNat + count.toNat ≤ 2 ^ 64)
    (h : dest.toNat ≤ src.toNat ∨ src.toNat + count.toNat ≤ dest.toNat) :
    (memcpy m dest src count).1 = dest ∧ Moved m (memcpy m dest src count).2 dest src count :=
  ⟨rfl, moved_forward m hdest hsrc h⟩

/-- **MEMMOVE** moves the bytes under any overlap. -/
theorem memmove_moved (m : Mem) (dest src count : U64)
    (hdest : dest.toNat + count.toNat ≤ 2 ^ 64) (hsrc : src.toNat + count.toNat ≤ 2 ^ 64) :
    (memmove m dest src count).1 = dest ∧ Moved m (memmove m dest src count).2 dest src count := by
  rw [memmove]
  by_cases hnone : dest = src ∨ count = 0
  · rw [if_pos hnone]
    exact ⟨rfl, moved_refl m hnone⟩
  rw [if_neg hnone]
  by_cases hlt : dest < src
  · rw [if_pos hlt]
    exact ⟨rfl, moved_forward m hdest hsrc (Or.inl (Nat.le_of_lt hlt))⟩
  · rw [if_neg hlt]
    exact ⟨rfl, moved_backward m hdest (BitVec.not_lt.mp hlt)⟩

/-- Eight bytes, three up and three down, and up to the top of memory, where
    `d += count` wraps to 0. -/
theorem memmove_moved_overlap :
    (memmove (fun x => x.setWidth 8) 0x1003 0x1000 8).2 0x100a = 7 ∧
    (memmove (fun x => x.setWidth 8) 0x1000 0x1003 8).2 0x1000 = 3 ∧
    (memmove (fun x => x.setWidth 8) 0xfffffffffffffff8 0xfffffffffffffff5 8).2
      0xffffffffffffffff = 0xfc := by
  have hup := (memmove_moved (fun x => x.setWidth 8) 0x1003 0x1000 8 (by decide) (by decide)).2
  have hdown := (memmove_moved (fun x => x.setWidth 8) 0x1000 0x1003 8 (by decide) (by decide)).2
  have htop := (memmove_moved (fun x => x.setWidth 8) 0xfffffffffffffff8 0xfffffffffffffff5 8
    (by decide) (by decide)).2
  exact ⟨hup.inside 7 (by decide), hdown.inside 0 (by decide), htop.inside 7 (by decide)⟩

end Memory
