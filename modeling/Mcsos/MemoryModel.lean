import Mcsos.ByteMemoryProofs
import Mathlib.Logic.Function.Basic

/-! # Copying memory, as `kernel/lib/memory.c` does

    `memcpy` and `memmove` return `dest` and the memory they leave.  Pointers
    are 64-bit words that wrap, and `while (count-- != 0u)` makes as many rounds
    as `count` says.  The forward loop of `memmove` is the loop of `memcpy`, in
    the same words. -/

namespace MemoryModel

open Word ByteMemory

/-- `while (count-- != 0u) *d++ = *s++;` -/
def copyForward (m : Mem) : U64 → U64 → Nat → Mem
  | _, _, 0 => m
  | d, s, count + 1 => copyForward (Function.update m d (m s)) (d + 1) (s + 1) count

/-- `while (count-- != 0u) *--d = *--s;` -/
def copyBackward (m : Mem) : U64 → U64 → Nat → Mem
  | _, _, 0 => m
  | d, s, count + 1 => copyBackward (Function.update m (d - 1) (m (s - 1))) (d - 1) (s - 1) count

/-- `memcpy`, byte by byte from the front. -/
def memcpy (m : Mem) (dest src count : U64) : U64 × Mem :=
  (dest, copyForward m dest src count.toNat)

/-- `memmove`: from the front if the destination comes first, else from the back. -/
def memmove (m : Mem) (dest src count : U64) : U64 × Mem :=
  if dest = src ∨ count = 0 then (dest, m)
  else if dest < src then (dest, copyForward m dest src count.toNat)
  else (dest, copyBackward m (dest + count) (src + count) count.toNat)

end MemoryModel
