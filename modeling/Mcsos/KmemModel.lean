import Mcsos.ByteMemoryProofs

/-! # The kernel heap, as `kernel/mm/kmem.c` computes it

    Block headers live in the arena itself, so the heap is byte memory plus the
    four globals of the file.  Sizes and addresses are 64-bit words and wrap.
    The fields of `kmem_block_t` sit at fixed offsets of the 48-byte header:
    `magic` 0, `size` 8, `free` 16, `prev` 32, `next` 40; the reserved fields
    at 20 and 24 are never accessed.

    Loops that follow `next` are bounded by the number of addresses and return
    `none` past it: a walk that goes on for longer has come back to where it
    was and never ends. -/

namespace KmemModel

open Word ByteMemory

/-- Payloads start at multiples of 16. -/
def KMEM_ALIGN : U64 := 16
/-- The word that every header starts with. -/
def KMEM_MAGIC : U64 := 0x4d43534f53484541
/-- A rest with a smaller payload is not split off. -/
def KMEM_MIN_SPLIT : U64 := 32

/-- `sizeof(kmem_block_t)`. -/
def HEADER : U64 := 48

/-- `UINT64_MAX`. -/
def UINT64_MAX : U64 := 0xffffffffffffffff

/-- More rounds than there are addresses. -/
def ROUNDS : Nat := 2 ^ 64

/-! ## Header fields -/

/-- `block->magic`. -/
def hdrMagic (m : Mem) (block : U64) : U64 := load64 m block
/-- `block->size`, the length of the payload. -/
def hdrSize (m : Mem) (block : U64) : U64 := load64 m (block + 8)
/-- `block->free`, which the code compares with 0. -/
def hdrFree (m : Mem) (block : U64) : U32 := load32 m (block + 16)
/-- `block->prev`. -/
def hdrPrev (m : Mem) (block : U64) : U64 := load64 m (block + 32)
/-- `block->next`. -/
def hdrNext (m : Mem) (block : U64) : U64 := load64 m (block + 40)

/-- Assign `block->magic`. -/
def setMagic (m : Mem) (block v : U64) : Mem := store64 m block v
/-- Assign `block->size`. -/
def setSize (m : Mem) (block v : U64) : Mem := store64 m (block + 8) v
/-- Assign `block->free`. -/
def setFree (m : Mem) (block : U64) (v : U32) : Mem := store32 m (block + 16) v
/-- Assign `block->prev`. -/
def setPrev (m : Mem) (block v : U64) : Mem := store64 m (block + 32) v
/-- Assign `block->next`. -/
def setNext (m : Mem) (block v : U64) : Mem := store64 m (block + 40) v

/-- The memory, and the globals `g_heap_base`, `g_heap_end`, `g_head` and
    `g_initialized`. -/
structure KmemState where
  mem : Mem
  gHeapBase : U64
  gHeapEnd : U64
  gHead : U64
  gInitialized : Bool

/-! ## Helpers -/

/-- `kmem_align_up_size`. -/
def kmemAlignUpSize (value align : U64) : U64 :=
  if align = 0 then value
  else
    let mask := align - 1
    if align &&& mask ≠ 0 then 0
    else if value > UINT64_MAX - mask then 0
    else (value + mask) &&& ~~~mask

/-- `kmem_align_up_ptr`. -/
def kmemAlignUpPtr (value align : U64) : U64 :=
  let mask := align - 1
  if align &&& mask ≠ 0 then 0
  else if value > UINT64_MAX - mask then 0
  else (value + mask) &&& ~~~mask

/-- `kmem_memset`. -/
def kmemMemset (m : Mem) (dst : U64) (value : U8) (bytes : U64) : Mem :=
  fillBytes m dst bytes.toNat value

/-- `kmem_payload`: the payload lies right behind the header. -/
def kmemPayload (block : U64) : U64 := block + HEADER

/-- `kmem_header_from_payload`. -/
def kmemHeaderFromPayload (ptr : U64) : U64 := ptr - HEADER

/-- `kmem_ptr_in_heap`. -/
def kmemPtrInHeap (s : KmemState) (ptr : U64) : Bool :=
  s.gInitialized && s.gHeapBase ≤ ptr && ptr < s.gHeapEnd

/-- The stores of a split: a free block `newBlock` cut off the end of `block`. -/
def splitAt (m : Mem) (block newBlock consumed wanted : U64) : Mem :=
  let m := setMagic m newBlock KMEM_MAGIC
  let m := setSize m newBlock (hdrSize m block - consumed - HEADER)
  let m := setFree m newBlock 1
  let m := setPrev m newBlock block
  let m := setNext m newBlock (hdrNext m block)
  let m := if hdrNext m block ≠ 0 then setPrev m (hdrNext m block) newBlock else m
  let m := setNext m block newBlock
  setSize m block wanted

/-- `kmem_split_if_useful`: the block is left whole if the rest would be too small for a header and
    a payload. -/
def kmemSplitIfUseful (gHeapEnd : U64) (m : Mem) (block wanted : U64) : Mem :=
  let header := kmemAlignUpSize HEADER KMEM_ALIGN
  if header = 0 then m
  else if hdrSize m block < wanted + header + KMEM_MIN_SPLIT then m
  else
    let newAddr := kmemAlignUpPtr (kmemPayload block + wanted) KMEM_ALIGN
    if newAddr = 0 then m
    else if newAddr + HEADER ≥ gHeapEnd then m
    else
      let consumed := newAddr - kmemPayload block
      if hdrSize m block ≤ consumed + HEADER + KMEM_MIN_SPLIT then m
      else splitAt m block newAddr consumed wanted

/-- One round of `kmem_coalesce_forward`: `block` takes in its successor. -/
def absorbNext (m : Mem) (block : U64) : Mem :=
  let next := hdrNext m block
  let m := setSize m block (hdrSize m block + (HEADER + hdrSize m next))
  let m := setNext m block (hdrNext m next)
  let m := if hdrNext m next ≠ 0 then setPrev m (hdrNext m next) block else m
  let m := setMagic m next 0
  let m := setSize m next 0
  let m := setPrev m next 0
  setNext m next 0

/-- The loop of `kmem_coalesce_forward`; `none` is a loop that does not end in that many rounds. -/
def coalesceLoop (block : U64) : Nat → Mem → Option Mem
  | 0, _ => none
  | rounds + 1, m =>
      if block ≠ 0 ∧ hdrNext m block ≠ 0 ∧ hdrFree m (hdrNext m block) ≠ 0 then
        let expected := kmemAlignUpPtr (kmemPayload block + hdrSize m block) KMEM_ALIGN
        if expected ≠ hdrNext m block then some m
        else coalesceLoop block rounds (absorbNext m block)
      else some m

/-- `kmem_coalesce_forward`. -/
def kmemCoalesceForward (m : Mem) (block : U64) : Option Mem := coalesceLoop block ROUNDS m

/-! ## `kmem_validate` -/

/-- The loop of `kmem_validate`; `left` counts `guard` down from its limit. -/
def validateLoop (s : KmemState) : Nat → U64 → U64 → U64 → Int
  | left, cur, prev, cursor =>
      if cur = 0 then 0
      else
        match left with
        | 0 => -3
        | left + 1 =>
            if cur ≠ cursor then -4
            else if cur < s.gHeapBase ∨ cur + HEADER > s.gHeapEnd then -5
            else if hdrMagic s.mem cur ≠ KMEM_MAGIC then -6
            else if hdrPrev s.mem cur ≠ prev then -7
            else if hdrSize s.mem cur > s.gHeapEnd - kmemPayload cur then -8
            else
              let cursor := kmemAlignUpPtr (kmemPayload cur + hdrSize s.mem cur) KMEM_ALIGN
              if cursor = 0 ∨ cursor > s.gHeapEnd then -9
              else validateLoop s left (hdrNext s.mem cur) cur cursor

/-- `kmem_validate`, which gives up after 1048576 blocks. -/
def kmemValidate (s : KmemState) : Int :=
  if !s.gInitialized ∨ s.gHeapBase = 0 ∨ s.gHeapEnd ≤ s.gHeapBase ∨ s.gHead = 0 then -1
  else if s.gHead ≠ s.gHeapBase then -2
  else validateLoop s 1048576 s.gHead 0 s.gHeapBase

/-! ## The interface -/

/-- `kmem_init`: the arena becomes one free block. -/
def kmemInit (s : KmemState) (base bytes : U64) : Int × KmemState :=
  if base = 0 ∨ bytes < HEADER + KMEM_MIN_SPLIT then (-1, s)
  else
    let start := kmemAlignUpPtr base KMEM_ALIGN
    if start = 0 ∨ start < base then (-2, s)
    else
      let lost := start - base
      if bytes ≤ lost + HEADER + KMEM_MIN_SPLIT then (-3, s)
      else
        let usable := (bytes - lost) &&& ~~~(KMEM_ALIGN - 1)
        if usable ≤ HEADER + KMEM_MIN_SPLIT then (-4, s)
        else
          let m := setMagic s.mem start KMEM_MAGIC
          let m := setSize m start (usable - HEADER)
          let m := setFree m start 1
          let m := setPrev m start 0
          let m := setNext m start 0
          let s : KmemState := ⟨m, start, start + usable, start, true⟩
          (kmemValidate s, s)

/-- The search loop of `kmem_alloc`: the pointer returned, and the memory. -/
def allocLoop (gHeapEnd wanted : U64) (m : Mem) : Nat → U64 → Option (U64 × Mem)
  | 0, _ => none
  | rounds + 1, cur =>
      if cur = 0 then some (0, m)
      else if hdrMagic m cur ≠ KMEM_MAGIC then some (0, m)
      else if hdrFree m cur ≠ 0 ∧ hdrSize m cur ≥ wanted then
        let m := kmemSplitIfUseful gHeapEnd m cur wanted
        some (kmemPayload cur, setFree m cur 0)
      else allocLoop gHeapEnd wanted m rounds (hdrNext m cur)

/-- `kmem_alloc`: first fit; the pointer 0 is a refusal. -/
def kmemAlloc (s : KmemState) (bytes : U64) : Option (U64 × KmemState) :=
  if !s.gInitialized ∨ bytes = 0 then some (0, s)
  else
    let wanted := kmemAlignUpSize bytes KMEM_ALIGN
    if wanted = 0 then some (0, s)
    else (allocLoop s.gHeapEnd wanted s.mem ROUNDS s.gHead).map
      (fun r => (r.1, { s with mem := r.2 }))

/-- `kmem_calloc`: the product is checked before it is taken, and the payload is cleared. -/
def kmemCalloc (s : KmemState) (count bytes : U64) : Option (U64 × KmemState) :=
  if count ≠ 0 ∧ bytes > UINT64_MAX / count then some (0, s)
  else
    let total := count * bytes
    (kmemAlloc s total).map (fun r =>
      if r.1 ≠ 0 then (r.1, { r.2 with mem := kmemMemset r.2.mem r.1 0 total }) else r)

/-- `kmem_free_checked` once the block is found to be allocated. -/
def releaseBlock (s : KmemState) (block : U64) : Option (Int × KmemState) :=
  (kmemCoalesceForward (setFree s.mem block 1) block).bind (fun m =>
    (if hdrPrev m block ≠ 0 ∧ hdrFree m (hdrPrev m block) ≠ 0 then
      kmemCoalesceForward m (hdrPrev m block)
    else some m).map (fun m =>
      let s : KmemState := { s with mem := m }
      (kmemValidate s, s)))

/-- `kmem_free_checked`; a refused pointer changes nothing. -/
def kmemFreeChecked (s : KmemState) (ptr : U64) : Option (Int × KmemState) :=
  if ptr = 0 then some (0, s)
  else if !kmemPtrInHeap s ptr then some (-1, s)
  else if ptr &&& (KMEM_ALIGN - 1) ≠ 0 then some (-2, s)
  else
    let block := kmemHeaderFromPayload ptr
    if !kmemPtrInHeap s block ∨ hdrMagic s.mem block ≠ KMEM_MAGIC then some (-3, s)
    else if hdrFree s.mem block ≠ 0 then some (-4, s)
    else releaseBlock s block

/-- `kmem_stats_t`. -/
structure KmemStats where
  totalBytes : U64
  usedBytes : U64
  freeBytes : U64
  blockCount : U64
  freeCount : U64
  largestFree : U64
deriving DecidableEq, Repr

/-- The body of the loop of `kmem_get_stats`, for a block of this size and flag. -/
def countBlock (out : KmemStats) (size : U64) (free : Bool) : KmemStats :=
  let out := { out with blockCount := out.blockCount + 1 }
  if free then
    let out := { out with freeCount := out.freeCount + 1, freeBytes := out.freeBytes + size }
    if size > out.largestFree then { out with largestFree := size } else out
  else { out with usedBytes := out.usedBytes + size }

/-- The loop of `kmem_get_stats` over the list. -/
def statsLoop (m : Mem) : Nat → U64 → KmemStats → Option KmemStats
  | 0, _, _ => none
  | rounds + 1, cur, out =>
      if cur = 0 then some out
      else statsLoop m rounds (hdrNext m cur)
        (countBlock out (hdrSize m cur) (hdrFree m cur ≠ 0))

/-- `kmem_get_stats`. -/
def kmemGetStats (s : KmemState) : Option KmemStats :=
  if !s.gInitialized then some ⟨0, 0, 0, 0, 0, 0⟩
  else statsLoop s.mem ROUNDS s.gHead ⟨s.gHeapEnd - s.gHeapBase, 0, 0, 0, 0, 0⟩

/-! ## The block list -/

/-- A block as its header describes it. -/
structure Block where
  addr : U64
  size : U64
  free : Bool
deriving DecidableEq, Repr

/-- The blocks met by following `next`. -/
def walkBlocks (m : Mem) : Nat → U64 → Option (List Block)
  | 0, _ => none
  | rounds + 1, cur =>
      if cur = 0 then some []
      else (walkBlocks m rounds (hdrNext m cur)).map
        (fun bs => ⟨cur, hdrSize m cur, hdrFree m cur ≠ 0⟩ :: bs)

/-- The blocks reached from `g_head`. -/
def kmemBlocks (s : KmemState) : Option (List Block) := walkBlocks s.mem ROUNDS s.gHead

/-- `total_bytes` of `kmem_get_stats`. -/
def totalBytes (s : KmemState) : U64 := s.gHeapEnd - s.gHeapBase

end KmemModel
