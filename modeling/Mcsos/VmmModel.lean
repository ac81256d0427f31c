import Mcsos.LoopProofs
import Mcsos.ByteMemoryProofs
import Mcsos.MachineProofs

/-! # The page-table walker, as `kernel/core/vmm.c` computes it

    Page tables live in byte memory: `table[index]` is the 64-bit word at
    `table + 8 * index`.  The three callbacks of a `vmm_space` are parameters;
    a null callback is `none`, a null pointer is the address 0.  What `ctx`
    points to is the allocator's own state and is threaded through the calls
    of `alloc_frame` and `free_frame`; `phys_to_virt` is a fixed translation.

    The `space` and `out` pointers are arguments that are always there, so the
    guards against their being null have no counterpart.  `vmm_invalidate_page`
    only drops a cached translation and does not touch memory. -/

namespace VmmModel

open Word Loop ByteMemory

/-- The answer of an allocator without frames. -/
def VMM_INVALID_PHYS : U64 := 0xffffffffffffffff
/-- The entry is in use. -/
def VMM_PTE_PRESENT : U64 := 0x1
/-- The page may be written. -/
def VMM_PTE_WRITABLE : U64 := 0x2
/-- The page is open to ring 3. -/
def VMM_PTE_USER : U64 := 0x4
/-- Writes go to memory at once. -/
def VMM_PTE_WRITE_THROUGH : U64 := 0x8
/-- The page is not cached. -/
def VMM_PTE_CACHE_DISABLE : U64 := 0x10
/-- The entry is a large page and no table. -/
def VMM_PTE_HUGE : U64 := 0x80
/-- The translation survives a change of address space. -/
def VMM_PTE_GLOBAL : U64 := 0x100
/-- The page holds no code. -/
def VMM_PTE_NO_EXECUTE : U64 := 0x8000000000000000
/-- The bits of an entry that hold a frame's address. -/
def VMM_PTE_ADDR_MASK : U64 := 0x000ffffffffff000

/-- The flags `vmm_map_page` lets a caller set. -/
def allowedFlags : U64 :=
  VMM_PTE_WRITABLE ||| VMM_PTE_USER ||| VMM_PTE_WRITE_THROUGH |||
    VMM_PTE_CACHE_DISABLE ||| VMM_PTE_GLOBAL ||| VMM_PTE_NO_EXECUTE

/-- The error codes `VMM_ERR_INVAL`, `VMM_ERR_NOMEM`, `VMM_ERR_EXISTS` and
    `VMM_ERR_NOT_FOUND`; `VMM_MAP_OK` is `Except.ok`. -/
inductive VmmErr where
  | inval
  | nomem
  | exists
  | notFound
deriving DecidableEq, Repr

/-- `struct vmm_space`. -/
structure VmmSpace (Ctx : Type) where
  rootPaddr : U64
  allocFrame : Option (Ctx → U64 × Ctx)
  freeFrame : Option (Ctx → U64 → Ctx)
  physToVirt : Option (U64 → U64)

/-- What the calls change: memory, and the state behind `ctx`. -/
structure VmmWorld (Ctx : Type) where
  mem : Mem
  ctx : Ctx

/-- `struct vmm_mapping`. -/
structure VmmMapping where
  vaddr : U64
  paddr : U64
  flags : U64
deriving DecidableEq, Repr

variable {Ctx : Type}

/-- `table[index]`. -/
def entryAddr (table index : U64) : U64 := table + 8 * index

/-- `vmm_zero_page`, entry by entry. -/
def vmmZeroPage (mem : Mem) (page : U64) : Mem :=
  forUpTo 0 512 1 (fun i mem => store64 mem (entryAddr page i) 0) mem

/-- `vmm_is_aligned_4k`. -/
def vmmIsAligned4k (value : U64) : Bool := (value &&& (4096 - 1)) = 0

/-- `vmm_is_canonical`: bits 48 to 63 repeat bit 47. -/
def vmmIsCanonical (vaddr : U64) : Bool :=
  if (vaddr >>> 47) &&& 1 ≠ 0 then vaddr >>> 48 = 0xffff else vaddr >>> 48 = 0

/-- The index of an address at the first level. -/
def idxPml4 (vaddr : U64) : U64 := (vaddr >>> 39) &&& 0x1ff
/-- The index at the second level. -/
def idxPdpt (vaddr : U64) : U64 := (vaddr >>> 30) &&& 0x1ff
/-- The index at the third level. -/
def idxPd (vaddr : U64) : U64 := (vaddr >>> 21) &&& 0x1ff
/-- The index at the last level. -/
def idxPt (vaddr : U64) : U64 := (vaddr >>> 12) &&& 0x1ff

/-- `table_from_phys`: the pointer to a table, 0 if there is none. -/
def tableFromPhys (space : VmmSpace Ctx) (paddr : U64) : U64 :=
  match space.physToVirt with
  | none => 0
  | some physToVirt => if !vmmIsAligned4k paddr then 0 else physToVirt paddr

/-- `get_or_alloc_next_table`: follow an entry, or link a new table of zeros there. -/
def getOrAllocNextTable (space : VmmSpace Ctx) (w : VmmWorld Ctx) (table index : U64) :
    Except VmmErr U64 × VmmWorld Ctx :=
  let entry := load64 w.mem (entryAddr table index)
  if entry &&& VMM_PTE_PRESENT ≠ 0 then
    if entry &&& VMM_PTE_HUGE ≠ 0 then (.error .exists, w)
    else
      let next := tableFromPhys space (entry &&& VMM_PTE_ADDR_MASK)
      if next = 0 then (.error .inval, w) else (.ok next, w)
  else match space.allocFrame with
  | none => (.error .nomem, w)
  | some allocFrame =>
      let newPaddr := (allocFrame w.ctx).1
      let w := { w with ctx := (allocFrame w.ctx).2 }
      if newPaddr = VMM_INVALID_PHYS ∨ !vmmIsAligned4k newPaddr then (.error .nomem, w)
      else
        let newTable := tableFromPhys space newPaddr
        if newTable = 0 then
          match space.freeFrame with
          | none => (.error .inval, w)
          | some freeFrame => (.error .inval, { w with ctx := freeFrame w.ctx newPaddr })
        else
          let mem := vmmZeroPage w.mem newTable
          let mem := store64 mem (entryAddr table index)
            ((newPaddr &&& VMM_PTE_ADDR_MASK) ||| VMM_PTE_PRESENT ||| VMM_PTE_WRITABLE)
          (.ok newTable, { w with mem := mem })

/-- `vmm_space_init`; what `ctx` points to is the world's. -/
def vmmSpaceInit (rootPaddr : U64) (allocFrame : Option (Ctx → U64 × Ctx))
    (freeFrame : Option (Ctx → U64 → Ctx)) (physToVirt : Option (U64 → U64)) :
    Except VmmErr (VmmSpace Ctx) :=
  if physToVirt.isNone ∨ !vmmIsAligned4k rootPaddr then .error .inval
  else .ok ⟨rootPaddr, allocFrame, freeFrame, physToVirt⟩

/-- `vmm_map_page`; tables that it has linked stay when it fails further down. -/
def vmmMapPage (space : VmmSpace Ctx) (w : VmmWorld Ctx) (vaddr paddr flags : U64) :
    Except VmmErr Unit × VmmWorld Ctx :=
  if !vmmIsCanonical vaddr ∨ !vmmIsAligned4k vaddr ∨ !vmmIsAligned4k paddr then
    (.error .inval, w)
  else
    let pml4 := tableFromPhys space space.rootPaddr
    if pml4 = 0 then (.error .inval, w)
    else match getOrAllocNextTable space w pml4 (idxPml4 vaddr) with
    | (.error e, w) => (.error e, w)
    | (.ok pdpt, w) =>
      match getOrAllocNextTable space w pdpt (idxPdpt vaddr) with
      | (.error e, w) => (.error e, w)
      | (.ok pd, w) =>
        match getOrAllocNextTable space w pd (idxPd vaddr) with
        | (.error e, w) => (.error e, w)
        | (.ok pt, w) =>
            let pte := entryAddr pt (idxPt vaddr)
            if load64 w.mem pte &&& VMM_PTE_PRESENT ≠ 0 then (.error .exists, w)
            else
              let value := (paddr &&& VMM_PTE_ADDR_MASK) ||| VMM_PTE_PRESENT |||
                (flags &&& allowedFlags)
              (.ok (), { w with mem := store64 w.mem pte value })

/-- One level of the walk that `vmm_query_page` and `vmm_unmap_page` share. -/
def nextTable (space : VmmSpace Ctx) (mem : Mem) (table index : U64) : Except VmmErr U64 :=
  let e := load64 mem (entryAddr table index)
  if e &&& VMM_PTE_PRESENT = 0 ∨ e &&& VMM_PTE_HUGE ≠ 0 then .error .notFound
  else
    let next := tableFromPhys space (e &&& VMM_PTE_ADDR_MASK)
    if next = 0 then .error .inval else .ok next

/-- The walk of `vmm_query_page` and `vmm_unmap_page` down to the page table. -/
def walkToPt (space : VmmSpace Ctx) (mem : Mem) (vaddr : U64) : Except VmmErr U64 :=
  if !vmmIsCanonical vaddr ∨ !vmmIsAligned4k vaddr then .error .inval
  else
    let pml4 := tableFromPhys space space.rootPaddr
    if pml4 = 0 then .error .inval
    else match nextTable space mem pml4 (idxPml4 vaddr) with
    | .error e => .error e
    | .ok pdpt =>
      match nextTable space mem pdpt (idxPdpt vaddr) with
      | .error e => .error e
      | .ok pd => nextTable space mem pd (idxPd vaddr)

/-- `vmm_query_page`, which changes nothing. -/
def vmmQueryPage (space : VmmSpace Ctx) (mem : Mem) (vaddr : U64) :
    Except VmmErr VmmMapping :=
  match walkToPt space mem vaddr with
  | .error e => .error e
  | .ok pt =>
      let e := load64 mem (entryAddr pt (idxPt vaddr))
      if e &&& VMM_PTE_PRESENT = 0 then .error .notFound
      else .ok ⟨vaddr, e &&& VMM_PTE_ADDR_MASK, e &&& ~~~VMM_PTE_ADDR_MASK⟩

/-- `vmm_unmap_page`: the entry is cleared, and no table is given back. -/
def vmmUnmapPage (space : VmmSpace Ctx) (w : VmmWorld Ctx) (vaddr : U64) :
    Except VmmErr Unit × VmmWorld Ctx :=
  match walkToPt space w.mem vaddr with
  | .error e => (.error e, w)
  | .ok pt =>
      let pte := entryAddr pt (idxPt vaddr)
      if load64 w.mem pte &&& VMM_PTE_PRESENT = 0 then (.error .notFound, w)
      else (.ok (), { w with mem := store64 w.mem pte 0 })

/-! ## The walker as a machine -/

/-- A call that can change the tables. -/
inductive VmmOp where
  | map (vaddr paddr flags : U64)
  | unmap (vaddr : U64)
deriving DecidableEq, Repr

/-- One call of the walker. -/
def vmmStep (space : VmmSpace Ctx) (w : VmmWorld Ctx) :
    VmmOp → Except VmmErr Unit × VmmWorld Ctx
  | .map vaddr paddr flags => vmmMapPage space w vaddr paddr flags
  | .unmap vaddr => vmmUnmapPage space w vaddr

end VmmModel
