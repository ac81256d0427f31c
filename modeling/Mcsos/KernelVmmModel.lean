import Mcsos.PmmModel
import Mcsos.VmmModel
import Mathlib.Data.Finset.Insert

/-! # Page tables on kernel frames, as `kernel/core/kmain.c` wires them

    The kernel has one `pmm_state`.  Its page-table walker takes frames from
    it through two adapters and reaches them through the direct map, at
    `kernel_hhdm_offset + paddr`; everybody else calls the same manager.

    The code keeps no record of who has a frame.  The ledger adds one: it is
    written next to each call and read by none. -/

namespace KernelVmmModel

open Word ByteMemory PmmModel VmmModel

/-- `kernel_pmm`, and where its frames went: to the page tables, back from
    them, and to the other clients that still have theirs. -/
structure FrameLedger where
  pmm : PmmState
  taken : Finset U64
  givenBack : Finset U64
  held : Finset U64

/-- A successful allocation enters the frame; a failed one enters nothing. -/
def record (frames : Finset U64) (frame : U64) : Finset U64 :=
  if frame = PMM_INVALID_FRAME then frames else insert frame frames

/-! ## The adapters -/

/-- `kernel_vmm_alloc`, the walker's way to a frame. -/
def kernelVmmAlloc (l : FrameLedger) : U64 × FrameLedger :=
  let r := pmmAllocFrame l.pmm
  (r.1, { l with pmm := r.2, taken := record l.taken r.1 })

/-- `kernel_vmm_free`, which drops the answer of `pmm_free_frame`. -/
def kernelVmmFree (l : FrameLedger) (framePaddr : U64) : FrameLedger :=
  { l with
    pmm := (pmmFreeFrame l.pmm framePaddr).2
    givenBack := insert framePaddr l.givenBack }

/-- `kernel_vmm_phys_to_virt`, the direct map. -/
def kernelVmmPhysToVirt (hhdmOffset paddr : U64) : U64 := hhdmOffset + paddr

/-- `memset` of `kernel/lib/memory.c`. -/
def memset (mem : Mem) (dest : U64) (value : U8) (count : Nat) : Mem :=
  fillBytes mem dest count value

/-- The ways in which `kernel_vmm_init` stops the kernel: there is no frame for the root, or
    `vmm_space_init` does not take the root it is given. -/
inductive VmmInitErr where
  | noRoot
  | space (rootPaddr : U64) (rc : VmmErr)
deriving DecidableEq, Repr

/-- `kernel_vmm_init` without its reports, with the frames `held` in other hands by then. -/
def kernelVmmInit (hhdmOffset : U64) (mem : Mem) (pmm : PmmState) (held : Finset U64) :
    Except VmmInitErr (VmmSpace FrameLedger × VmmWorld FrameLedger) :=
  let rootPaddr := (pmmAllocFrame pmm).1
  let ctx : FrameLedger := ⟨(pmmAllocFrame pmm).2, ∅, ∅, held⟩
  if rootPaddr = PMM_INVALID_FRAME then .error .noRoot
  else
    let mem := memset mem (hhdmOffset + rootPaddr) 0 4096
    match vmmSpaceInit rootPaddr (some kernelVmmAlloc) (some kernelVmmFree)
        (some (kernelVmmPhysToVirt hhdmOffset)) with
    | .error rc => .error (.space rootPaddr rc)
    | .ok space => .ok (space, ⟨mem, ctx⟩)

/-! ## The walker and the other clients -/

/-- A call of the walker, a call of the manager by another client, or a store by one to a frame
    through the direct map. -/
inductive FrameOp where
  | vmm (op : VmmOp)
  | alloc
  | free (frame : U64)
  | write (frame offset : U64) (value : U8)
deriving DecidableEq, Repr

/-- A client's `pmm_alloc_frame`. -/
def clientAlloc (l : FrameLedger) : U64 × FrameLedger :=
  let r := pmmAllocFrame l.pmm
  (r.1, { l with pmm := r.2, held := record l.held r.1 })

/-- A client's `pmm_free_frame`. -/
def clientFree (l : FrameLedger) (frame : U64) : Bool × FrameLedger :=
  let r := pmmFreeFrame l.pmm frame
  (r.1, { l with pmm := r.2, held := l.held.erase frame })

/-- One step of the walker or of a client. -/
def frameStep (hhdmOffset : U64) (space : VmmSpace FrameLedger) (w : VmmWorld FrameLedger) :
    FrameOp → VmmWorld FrameLedger
  | .vmm op => (vmmStep space w op).2
  | .alloc => { w with ctx := (clientAlloc w.ctx).2 }
  | .free frame => { w with ctx := (clientFree w.ctx frame).2 }
  | .write frame offset value =>
      { w with mem := Function.update w.mem (hhdmOffset + frame + offset) value }

/-- Clients free and write only frames that they were given and have not freed;
    the walker's calls are arbitrary. -/
def Allowed (w : VmmWorld FrameLedger) : FrameOp → Prop
  | .vmm _ => True
  | .alloc => True
  | .free frame => frame ∈ w.ctx.held
  | .write frame offset _ => frame ∈ w.ctx.held ∧ offset.toNat < 4096

/-- The worlds reached by any interleaving of the walker and the clients. -/
inductive FrameReach (hhdmOffset : U64) (space : VmmSpace FrameLedger)
    (w₀ : VmmWorld FrameLedger) : VmmWorld FrameLedger → Prop
  | start : FrameReach hhdmOffset space w₀ w₀
  | step {w : VmmWorld FrameLedger} (op : FrameOp) (h : FrameReach hhdmOffset space w₀ w)
      (hop : Allowed w op) : FrameReach hhdmOffset space w₀ (frameStep hhdmOffset space w op)

end KernelVmmModel
