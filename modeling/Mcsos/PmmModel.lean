import Mcsos.LoopProofs
import Mcsos.MachineProofs

/-! # The physical memory manager, as `kernel/core/pmm.c` computes it

    A frame is used when its bit in a byte-packed bitmap is set.  The state
    keeps two counters and a search hint next to the bitmap.  Every integer is
    a 64-bit word, so `align_up` and the counters wrap where the machine's do.

    The `pmm` pointer itself is the state argument, so the `NULL` guards on it
    have no counterpart here; neither have those on `regions` and
    `bitmap_storage`, whose contents are passed instead. -/

namespace PmmModel

open Word Loop

/-- The size of a frame. -/
def PMM_PAGE_SIZE : U64 := 4096
/-- The answer of a failed allocation, which is the address of no frame. -/
def PMM_INVALID_FRAME : U64 := 0xffffffffffffffff
/-- The one kind of region whose frames become free. -/
def BOOT_MEM_USABLE : U32 := 1

/-- `struct boot_mem_region`: the type is a raw word, any value can arrive. -/
structure BootMemRegion where
  base : U64
  length : U64
  type : U32
deriving DecidableEq, Repr

/-- The bytes behind the `bitmap` pointer. -/
abbrev Bitmap := U64 → U8

/-- `struct pmm_state`, with the bitmap's storage in place of the pointer. -/
structure PmmState where
  bitmap : Bitmap
  bitmapBytes : U64
  maxPhys : U64
  frameCount : U64
  freeFrames : U64
  usedFrames : U64
  reservedFrames : U64
  ignoredFrames : U64
  nextHint : U64
  initialized : Bool

/-- `align_down`. -/
def alignDown (value align : U64) : U64 := value &&& ~~~(align - 1)

/-- `align_up`, which wraps around at the end of the address space. -/
def alignUp (value align : U64) : U64 := (value + align - 1) &&& ~~~(align - 1)

/-- `checked_add_u64`: the sum, or nothing when it would wrap. -/
def checkedAddU64 (a b : U64) : Option U64 :=
  if 0xffffffffffffffff - a < b then none else some (a + b)

/-- The mask `(uint8_t)(1U << (index & 7U))`. -/
def bitMask (index : U64) : U8 := (1 : U8) <<< (index &&& 7).toNat

/-- `bitmap_set`: the frame is used. -/
def bitmapSet (bitmap : Bitmap) (index : U64) : Bitmap :=
  fun i => if i = index >>> 3 then bitmap i ||| bitMask index else bitmap i

/-- `bitmap_clear`: the frame is free. -/
def bitmapClear (bitmap : Bitmap) (index : U64) : Bitmap :=
  fun i => if i = index >>> 3 then bitmap i &&& ~~~(bitMask index) else bitmap i

/-- `bitmap_test`. -/
def bitmapTest (bitmap : Bitmap) (index : U64) : Bool :=
  (bitmap (index >>> 3) &&& bitMask index) ≠ 0

/-- `mark_frame_free`, which changes a used frame only. -/
def markFrameFree (pmm : PmmState) (frame : U64) : PmmState :=
  if frame ≥ pmm.frameCount then pmm
  else if bitmapTest pmm.bitmap frame then
    { pmm with
      bitmap := bitmapClear pmm.bitmap frame
      freeFrames := pmm.freeFrames + 1
      usedFrames := if pmm.usedFrames > 0 then pmm.usedFrames - 1 else pmm.usedFrames
      nextHint := if frame < pmm.nextHint then frame else pmm.nextHint }
  else pmm

/-- `mark_frame_used`, which changes a free frame only. -/
def markFrameUsed (pmm : PmmState) (frame : U64) : PmmState :=
  if frame ≥ pmm.frameCount then pmm
  else if !bitmapTest pmm.bitmap frame then
    { pmm with
      bitmap := bitmapSet pmm.bitmap frame
      freeFrames := if pmm.freeFrames > 0 then pmm.freeFrames - 1 else pmm.freeFrames
      usedFrames := pmm.usedFrames + 1 }
  else pmm

/-- `mark_range_free`: the pages that lie in the range as a whole. -/
def markRangeFree (pmm : PmmState) (base length : U64) : PmmState :=
  if length = 0 then pmm
  else match checkedAddU64 base length with
  | none => pmm
  | some end_ =>
      let start := alignUp base PMM_PAGE_SIZE
      let stop := alignDown end_ PMM_PAGE_SIZE
      if stop ≤ start then pmm
      else if start ≥ pmm.maxPhys then pmm
      else
        let clipped := if stop > pmm.maxPhys then pmm.maxPhys else stop
        let pmm := if stop > pmm.maxPhys then
            { pmm with ignoredFrames := pmm.ignoredFrames +
                (alignDown end_ PMM_PAGE_SIZE - clipped) / PMM_PAGE_SIZE }
          else pmm
        forUpTo start clipped PMM_PAGE_SIZE
          (fun addr pmm => markFrameFree pmm (addr / PMM_PAGE_SIZE)) pmm

/-- The body of the loop of `mark_range_used`: only frames that were free
    count as newly reserved. -/
def reserveFrameAt (addr : U64) (pmm : PmmState) : PmmState :=
  let wasFree := !bitmapTest pmm.bitmap (addr / PMM_PAGE_SIZE)
  let pmm := markFrameUsed pmm (addr / PMM_PAGE_SIZE)
  if wasFree then { pmm with reservedFrames := pmm.reservedFrames + 1 } else pmm

/-- `mark_range_used`: the pages that have a byte in the range. -/
def markRangeUsed (pmm : PmmState) (base length : U64) : PmmState :=
  if length = 0 then pmm
  else match checkedAddU64 base length with
  | none => pmm
  | some end_ =>
      let start := alignDown base PMM_PAGE_SIZE
      let stop := alignUp end_ PMM_PAGE_SIZE
      if stop ≤ start then pmm
      else if start ≥ pmm.maxPhys then pmm
      else
        let stop := if stop > pmm.maxPhys then pmm.maxPhys else stop
        forUpTo start stop PMM_PAGE_SIZE reserveFrameAt pmm

/-- `pmm_zero_state`; the storage behind the cleared pointer is untouched. -/
def pmmZeroState (pmm : PmmState) : PmmState :=
  { pmm with
    bitmapBytes := 0, maxPhys := 0, frameCount := 0, freeFrames := 0
    usedFrames := 0, reservedFrames := 0, ignoredFrames := 0, nextHint := 0
    initialized := false }

/-- The state `pmm_init_from_map` builds before it reads the map: every frame
    below the limit used, the required bitmap bytes filled with `0xff`. -/
def pmmAllUsed (pmm : PmmState) (bitmapStorage : Bitmap) (maxPhysBytes : U64) :
    PmmState :=
  let frameCount := maxPhysBytes / PMM_PAGE_SIZE
  let requiredBitmapBytes := (frameCount + 7) / 8
  { pmmZeroState pmm with
    bitmap := fun i => if i < requiredBitmapBytes then 0xff else bitmapStorage i
    bitmapBytes := requiredBitmapBytes
    maxPhys := maxPhysBytes
    frameCount := frameCount
    freeFrames := 0
    usedFrames := frameCount
    nextHint := 0 }

/-- The first pass over the map: usable regions are opened. -/
def freeUsable (pmm : PmmState) (r : BootMemRegion) : PmmState :=
  if r.type = BOOT_MEM_USABLE then markRangeFree pmm r.base r.length else pmm

/-- The second pass over the map: every other region is closed again. -/
def reserveOther (pmm : PmmState) (r : BootMemRegion) : PmmState :=
  if r.type ≠ BOOT_MEM_USABLE then markRangeUsed pmm r.base r.length else pmm

/-- `pmm_init_from_map`; `none` is the result `false`, which leaves the state
    as it was. -/
def pmmInitFromMap (pmm : PmmState) (regions : List BootMemRegion)
    (bitmapStorage : Bitmap) (bitmapStorageBytes maxPhysBytes : U64) :
    Option PmmState :=
  if regions = [] then none
  else if maxPhysBytes = 0 ∨ (maxPhysBytes &&& (PMM_PAGE_SIZE - 1)) ≠ 0 then none
  else if bitmapStorageBytes < (maxPhysBytes / PMM_PAGE_SIZE + 7) / 8 then none
  else
    let pmm := pmmAllUsed pmm bitmapStorage maxPhysBytes
    let pmm := regions.foldl freeUsable pmm
    let pmm := markRangeUsed pmm 0 PMM_PAGE_SIZE
    let pmm := regions.foldl reserveOther pmm
    some { pmm with initialized := true }

/-- The exit of both scans of `pmm_alloc_frame`. -/
def takeFrame (pmm : PmmState) (frame : U64) : U64 × PmmState :=
  (frame * PMM_PAGE_SIZE, { markFrameUsed pmm frame with nextHint := frame + 1 })

/-- `pmm_alloc_frame`: from the hint to the end, then from the start to the hint. -/
def pmmAllocFrame (pmm : PmmState) : U64 × PmmState :=
  if !pmm.initialized || pmm.freeFrames = 0 then (PMM_INVALID_FRAME, pmm)
  else match findUpTo pmm.nextHint pmm.frameCount (fun f => !bitmapTest pmm.bitmap f) with
  | some frame => takeFrame pmm frame
  | none =>
      match findUpTo 0 pmm.nextHint (fun f => !bitmapTest pmm.bitmap f) with
      | some frame => takeFrame pmm frame
      | none => (PMM_INVALID_FRAME, pmm)

/-- `pmm_free_frame`; frame 0 is never given back. -/
def pmmFreeFrame (pmm : PmmState) (physAddr : U64) : Bool × PmmState :=
  if !pmm.initialized then (false, pmm)
  else if (physAddr &&& (PMM_PAGE_SIZE - 1)) ≠ 0 ∨ physAddr = 0 ∨ physAddr ≥ pmm.maxPhys then
    (false, pmm)
  else if !bitmapTest pmm.bitmap (physAddr / PMM_PAGE_SIZE) then (false, pmm)
  else (true, markFrameFree pmm (physAddr / PMM_PAGE_SIZE))

/-- `pmm_reserve_range`. -/
def pmmReserveRange (pmm : PmmState) (base length : U64) : Bool × PmmState :=
  if !pmm.initialized || length = 0 then (false, pmm)
  else (true, markRangeUsed pmm base length)

/-- `pmm_is_frame_free`. -/
def pmmIsFrameFree (pmm : PmmState) (physAddr : U64) : Bool :=
  if !pmm.initialized then false
  else if (physAddr &&& (PMM_PAGE_SIZE - 1)) ≠ 0 ∨ physAddr ≥ pmm.maxPhys then false
  else !bitmapTest pmm.bitmap (physAddr / PMM_PAGE_SIZE)

/-- `pmm_free_count`. -/
def pmmFreeCount (pmm : PmmState) : U64 := pmm.freeFrames
/-- `pmm_used_count`. -/
def pmmUsedCount (pmm : PmmState) : U64 := pmm.usedFrames
/-- `pmm_frame_count`. -/
def pmmFrameCount (pmm : PmmState) : U64 := pmm.frameCount

/-! ## The manager as a machine -/

/-- The calls a client can make on an initialised manager. -/
inductive PmmOp where
  | allocFrame
  | freeFrame (physAddr : U64)
  | reserveRange (base length : U64)
  | isFrameFree (physAddr : U64)
  | freeCount
  | usedCount
  | frameCount
deriving DecidableEq, Repr

/-- What a call answers. -/
inductive PmmOut where
  | word (value : U64)
  | bool (value : Bool)
deriving DecidableEq, Repr

/-- A call of the manager, with its answer. -/
def pmmStep (pmm : PmmState) : PmmOp → PmmOut × PmmState
  | .allocFrame => (.word (pmmAllocFrame pmm).1, (pmmAllocFrame pmm).2)
  | .freeFrame a => (.bool (pmmFreeFrame pmm a).1, (pmmFreeFrame pmm a).2)
  | .reserveRange b l => (.bool (pmmReserveRange pmm b l).1, (pmmReserveRange pmm b l).2)
  | .isFrameFree a => (.bool (pmmIsFrameFree pmm a), pmm)
  | .freeCount => (.word (pmmFreeCount pmm), pmm)
  | .usedCount => (.word (pmmUsedCount pmm), pmm)
  | .frameCount => (.word (pmmFrameCount pmm), pmm)

/-- States reached from a `pmm_init_from_map` that returned true. -/
def PmmReachable (s : PmmState) : Prop :=
  ∃ (garbage s₀ : PmmState) (regions : List BootMemRegion) (storage : Bitmap)
    (storageBytes maxPhysBytes : U64) (ops : List PmmOp),
    pmmInitFromMap garbage regions storage storageBytes maxPhysBytes = some s₀ ∧
    s = Machine.exec pmmStep s₀ ops

end PmmModel
