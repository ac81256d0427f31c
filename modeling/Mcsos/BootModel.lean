import Mcsos.ElfModel
import Mcsos.KernelModel
import Mcsos.KernelVmmModel
import Mcsos.KmemModel
import Mcsos.SyncModel

/-! # Boot, as `kmain` of `kernel/core/kmain.c` runs it

    Each function of `kmain.c` brings one part of the kernel up, tries it, logs and
    panics if the trial fails.  What the bootloader answers is arbitrary: a map
    of any length with any regions, or none at all.

    `kmain` is followed up to the point where the demo threads alternate.  The devices
    are in `PicModel` and `LogModel`, the descriptor table in `TrapModel`; here the
    log is the characters handed on.

    From `sti` on the timer interrupts the boot code and the demo threads, and its
    handler reports every interrupt to the same port (`TrapModel` has these reports).
    They are left out here: the log is what the code of `kmain.c` writes itself, and
    on the line the reports stand between its characters. -/

namespace BootModel

open Word ByteMemory LogModel

/-- How the boot code can end. -/
inductive Stop where
  /-- `KERNEL_PANIC` on a line of `kmain.c` -/
  | panic (line : U32) (reason : String) (code : U64)
  /-- a loop that never ends -/
  | hangs
deriving DecidableEq, Repr

/-- Code that logs and may stop. -/
abbrev Boot (α : Type) := ExceptT Stop (StateM (List U8)) α

/-- Hand characters to the serial port. -/
def say (chars : List U8) : Boot Unit := modify (· ++ chars)

/-- `KERNEL_PANIC` on a line of `kmain.c`, which stops the kernel. -/
def kernelPanic {α : Type} (line : U32) (reason : String) (code : U64) : Boot α :=
  throw (.panic line reason code)

/-- What the code does, from what has been logged. -/
def runs {α : Type} (f : Boot α) (log : List U8) : Except Stop α × List U8 := f.run.run log

/-- Go on with what a loop gives, if it ends. -/
def ended {α : Type} : Option α → Boot α
  | some a => pure a
  | none => throw .hangs

/-! ## Physical memory -/

section Memory

open PmmModel

/-- The kinds of memory of the bootloader's map. -/
inductive LimineType where
  | usable
  | reserved
  | acpiReclaimable
  | acpiNvs
  | badMemory
  | bootloaderReclaimable
  | kernelAndModules
  | framebuffer
  | other (type : U64)
deriving DecidableEq, Repr

/-- `struct limine_memmap_entry`, an entry of the bootloader's map. -/
structure LimineMemmapEntry where
  base : U64
  length : U64
  type : LimineType
deriving DecidableEq, Repr

/-- `BOOT_MEM_RESERVED`, also the kind of every type the kernel does not know. -/
def BOOT_MEM_RESERVED : U32 := 2
/-- Memory that still holds what the bootloader left there. -/
def BOOT_MEM_BOOTLOADER_RECLAIMABLE : U32 := 3
/-- The kernel's own image. -/
def BOOT_MEM_KERNEL_AND_MODULES : U32 := 4
/-- The frame buffer of the screen. -/
def BOOT_MEM_FRAMEBUFFER : U32 := 5
/-- The ACPI tables. -/
def BOOT_MEM_ACPI_RECLAIMABLE : U32 := 6
/-- Memory that ACPI keeps for itself. -/
def BOOT_MEM_ACPI_NVS : U32 := 7
/-- Memory that has failed. -/
def BOOT_MEM_BAD_MEMORY : U32 := 8

/-- `limine_type_to_boot_mem`: only usable entries become usable regions. -/
def limineTypeToBootMem : LimineType → U32
  | .usable => BOOT_MEM_USABLE
  | .reserved => BOOT_MEM_RESERVED
  | .acpiReclaimable => BOOT_MEM_ACPI_RECLAIMABLE
  | .acpiNvs => BOOT_MEM_ACPI_NVS
  | .badMemory => BOOT_MEM_BAD_MEMORY
  | .bootloaderReclaimable => BOOT_MEM_BOOTLOADER_RECLAIMABLE
  | .kernelAndModules => BOOT_MEM_KERNEL_AND_MODULES
  | .framebuffer => BOOT_MEM_FRAMEBUFFER
  | .other _ => BOOT_MEM_RESERVED

/-- The length of the array that the map is copied to. -/
def MAX_BOOT_REGIONS : Nat := 64
/-- The physical memory the kernel manages, 64 GiB. -/
def PMM_MAX_PHYS_BYTES : U64 := 64 * 1024 * 1024 * 1024
/-- The bitmap has one bit for each page of it. -/
def PMM_BITMAP_BYTES : U64 := PMM_MAX_PHYS_BYTES / PMM_PAGE_SIZE / 8

/-- The array `regions`: what comes behind the first entries of the map is left out. -/
def bootRegions (entries : List LimineMemmapEntry) : List BootMemRegion :=
  (entries.take MAX_BOOT_REGIONS).map fun e => ⟨e.base, e.length, limineTypeToBootMem e.type⟩

/-- `none` is a null response. -/
def kernelMemoryInit (response : Option (List LimineMemmapEntry)) (pmm : PmmState) :
    Boot PmmState :=
  match response with
  | none => kernelPanic 112 "limine memmap response is NULL" 0
  | some entries =>
      match pmmInitFromMap pmm (bootRegions entries) pmm.bitmap PMM_BITMAP_BYTES
          PMM_MAX_PHYS_BYTES with
      | none => kernelPanic 139 "pmm_init_from_map failed" 0
      | some pmm => do
          say (logWriteln (text "[m6] pmm: initialized"))
          say (logKeyValueHex64 "[m6] pmm: frame_count" (pmmFrameCount pmm))
          say (logKeyValueHex64 "[m6] pmm: free_frames" (pmmFreeCount pmm))
          say (logKeyValueHex64 "[m6] pmm: used_frames" (pmmUsedCount pmm))
          let f := pmmAllocFrame pmm
          if f.1 = PMM_INVALID_FRAME then
            kernelPanic 150 "pmm_alloc_frame returned invalid frame" 0
          else do
            say (logKeyValueHex64 "[m6] pmm: sample_frame" f.1)
            let r := pmmFreeFrame f.2 f.1
            if !r.1 then kernelPanic 155 "pmm_free_frame failed" 0
            else do
              say (logWriteln (text "[m6] pmm: smoke test passed"))
              return r.2

end Memory

/-! ## Page tables -/

section Paging

open PmmModel VmmModel KernelVmmModel

/-- The return code of a failed call of the page-table walker. -/
def vmmStatus : VmmErr → U64
  | .inval => -1
  | .nomem => -2
  | .exists => -3
  | .notFound => -4

/-- `kernel_vmm_init` with its reports; the response is the offset of the direct map. -/
def kernelVmmInit (response : Option U64) (mem : Mem) (pmm : PmmState) :
    Boot (VmmSpace FrameLedger × VmmWorld FrameLedger) :=
  match response with
  | none => kernelPanic 169 "limine hhdm response is NULL" 0
  | some offset => do
      say (logKeyValueHex64 "[m7] vmm: hhdm_offset" offset)
      match KernelVmmModel.kernelVmmInit offset mem pmm ∅ with
      | .error .noRoot => kernelPanic 177 "vmm: cannot allocate root page table frame" 0
      | .error (.space rootPaddr rc) => do
          say (logKeyValueHex64 "[m7] vmm: root_paddr" rootPaddr)
          kernelPanic 196 "vmm_space_init failed" (vmmStatus rc)
      | .ok (space, w) => do
          say (logKeyValueHex64 "[m7] vmm: root_paddr" space.rootPaddr)
          say (logWriteln (text "[m7] vmm: core initialized"))
          return (space, w)

end Paging

/-! ## Heap -/

section Heap

open KmemModel

/-- The size of the array `m8_boot_heap`. -/
def M8_BOOT_HEAP_SIZE : U64 := 64 * 1024

/-- `m8_boot_heap` is at `heap`. -/
def m8HeapBootstrap (heap : U64) (s : KmemState) : Boot KmemState := do
  let init := kmemInit s heap M8_BOOT_HEAP_SIZE
  if init.1 ≠ 0 then kernelPanic 530 "M8 kmem_init failed" (BitVec.ofInt 64 init.1)
  else do
    let probe ← ended (kmemAlloc init.2 128)
    if probe.1 = 0 then kernelPanic 535 "M8 kmem_alloc probe failed" 0
    else do
      let freed ← ended (kmemFreeChecked probe.2 probe.1)
      if freed.1 ≠ 0 then kernelPanic 539 "M8 kmem_free_checked probe failed" 0
      else do
        let st ← ended (kmemGetStats freed.2)
        say (logWriteln (text "[m8] kmem: initialized"))
        say (logKeyValueHex64 "[m8] kmem: total_bytes" st.totalBytes)
        say (logKeyValueHex64 "[m8] kmem: free_bytes" st.freeBytes)
        say (logKeyValueHex64 "[m8] kmem: largest_free" st.largestFree)
        say (logKeyValueHex64 "[m8] kmem: block_count" st.blockCount)
        return freed.2

end Heap

/-! ## System calls and threads -/

section Threads

open VfsModel SchedModel SyscallModel SyscallEntryModel KernelModel

/-- Where the linker has put the objects and functions of `kmain.c`. -/
structure Statics where
  bootHeap : U64
  bootThread : U64
  threadA : U64
  threadB : U64
  stackA : U64
  stackB : U64
  threadStart : U64
  trampoline : U64
  demoThreadA : U64
  demoThreadB : U64
  smokePath : U64
  smokeBuf : U64

/-- The argument of `mcs_ramfs_seed_file`. -/
def helloText : List U8 := text "hello-mcsos"

/-- `mcs_ramfs_init` and `mcs_ramfs_seed_file`. -/
def seedRamfs (fs : Ramfs) : Ramfs :=
  (mcsRamfsSeedFile (mcsRamfsInit fs) (some (text "/hello.txt"))
    (some fun i => helloText.getD i 0) 11).2

/-- A system call that the kernel makes itself; `stack` is what its buffers hold. -/
def dispatch (stack : Nat → U8) (nr arg0 arg1 arg2 : U64) (k : Kernel) : Int × Kernel :=
  syscall stack ⟨nr, arg0, arg1, arg2, 0, 0, 0⟩ k

/-- `kernel_m10_syscall_init`; the callbacks are those of `KernelModel`. -/
def kernelM10SyscallInit (stack : Nat → U8) (k : Kernel) : Boot Kernel := do
  let k := { k with region := USER_REGION }
  say (logWriteln (text "[M10] syscall init"))
  let r := dispatch stack MCSOS_SYS_PING 0 0 0 k
  if r.1 ≠ 0x2605020A then kernelPanic 307 "M10 syscall ping failed" 0
  else do
    say (logWriteln (text "[M10] syscall ping ok"))
    let ticks := dispatch stack MCSOS_SYS_GET_TICKS 0 0 0 r.2
    if ticks.1 < 0 then kernelPanic 310 "M10 syscall get_ticks failed" 0
    else do
      say (logWriteln (text "[M10] syscall get_ticks ok"))
      say (logWriteln (text "[M10] syscall smoke done"))
      return ticks.2

/-- The size of `g_stack_a` and `g_stack_b`. -/
def DEMO_STACK_SIZE : U64 := 8192

/-- `mcsos_thread_prepare` of a demo thread, and the store that makes it start in
    `m9_thread_start`. -/
def prepareDemo (st : Statics) (p entry stackBase : U64) (line : U32) (reason : String)
    (k : Kernel) : Boot Kernel :=
  match mcsosThreadPrepare st.trampoline k.world.threads p entry stackBase DEMO_STACK_SIZE with
  | (.error _, _) => kernelPanic line reason 0
  | (.ok (), threads) =>
      let t := threads.threads p
      let threads :=
        threads.setThread p { t with context := { t.context with rip := st.threadStart } }
      return (k.setThreads threads).clearTable p

/-- A call of `mcsos_sched_enqueue` that panics if it is refused. -/
def enqueueDemo (p : U64) (line : U32) (reason : String) (k : Kernel) : Boot Kernel :=
  match mcsosSchedEnqueue k.world.threads p with
  | (.error _, _) => kernelPanic line reason 0
  | (.ok (), threads) => return k.setThreads threads

/-- `kernel_m9_scheduler_init` up to the switch of its `mcsos_sched_yield`. -/
def kernelM9SchedulerInit (st : Statics) (k : Kernel) : Boot Kernel :=
  match mcsosSchedulerInit k.world.threads st.bootThread with
  | (.error _, _) => kernelPanic 244 "M9 scheduler_init failed" 0
  | (.ok (), threads) => do
      let k := (k.setThreads threads).clearTable st.bootThread
      let k ← prepareDemo st st.threadA st.demoThreadA st.stackA 249 "M9 thread_prepare A failed" k
      let k ← prepareDemo st st.threadB st.demoThreadB st.stackB 255 "M9 thread_prepare B failed" k
      let k ← enqueueDemo st.threadA 259 "M9 enqueue A failed" k
      let k ← enqueueDemo st.threadB 261 "M9 enqueue B failed" k
      say (logWriteln (text "[M9] scheduler initialized"))
      return k.setThreads (mcsosSchedYield k.world.threads).2

/-- The user region for the trial. -/
def SMOKE_REGION : UserRegion := ⟨1, 0xFFFFFFFFFFFFFFFE⟩

/-- `kernel_m13_vfs_syscall_smoke`, which thread A runs first. -/
def kernelM13VfsSyscallSmoke (st : Statics) (stack : Nat → U8) (k : Kernel) : Boot Kernel := do
  let k := { k with region := SMOKE_REGION }
  let fd := dispatch stack MCSOS_SYS_OPEN st.smokePath 10 (MCS_O_RDONLY.setWidth 64) k
  if fd.1 < 0 then kernelPanic 439 "M13 syscall open failed" (BitVec.ofInt 64 fd.1)
  else do
    say (logKeyValueHex64 "[M13] syscall: open fd" (BitVec.ofInt 64 fd.1))
    let n := dispatch stack MCSOS_SYS_READ (BitVec.ofInt 64 fd.1) st.smokeBuf 5 fd.2
    if n.1 ≠ 5 then kernelPanic 445 "M13 syscall read failed" (BitVec.ofInt 64 n.1)
    else if (List.range 5).map (byteAt n.2.mem st.smokeBuf) ≠ text "hello" then
      kernelPanic 448 "M13 syscall read data mismatch" 0
    else do
      say (logWriteln (text "[M13] syscall: read data verified"))
      let seek := dispatch stack MCSOS_SYS_LSEEK (BitVec.ofInt 64 fd.1) 0 0 n.2
      if seek.1 ≠ 0 then kernelPanic 454 "M13 syscall lseek failed" (BitVec.ofInt 64 seek.1)
      else do
        let close := dispatch stack MCSOS_SYS_CLOSE (BitVec.ofInt 64 fd.1) 0 0 seek.2
        if close.1 ≠ 0 then kernelPanic 458 "M13 syscall close failed" (BitVec.ofInt 64 close.1)
        else do
          say (logWriteln (text "[M13] syscall: close ok"))
          say (logWriteln (text "[M13] syscall smoke done"))
          return { close.2 with region := USER_REGION }

end Threads

/-! ## The other trials -/

section Trials

open SyncModel

/-- `mcs_spin_lock` with nobody else on the lock. -/
def spinLockAlone (locked : U32) : Boot U32 :=
  let r := mcsSpinTryLock locked
  if r.1 then return r.2 else throw .hangs

/-- `m12_sync_selftest`; what it leaves in `boot_counter`, `boot_lockdep` and the lock. -/
def m12SyncSelftest (bootCounter : U64) : Boot (U64 × Lockdep × U32) :=
  match mcsLockdepBeforeAcquire mcsLockdepInit 10 with
  | (.error _, _) => kernelPanic 405 "M12 lockdep acquire failed" 0xC12A0001
  | (.ok (), lockdep) => do
      let _ ← spinLockAlone mcsSpinInit
      let bootCounter := bootCounter + 1
      let locked := mcsSpinUnlock
      match mcsLockdepAfterRelease lockdep 10 with
      | (.error _, _) => kernelPanic 413 "M12 lockdep release failed" 0xC12A0002
      | (.ok (), lockdep) => do
          say (logWriteln (text "[M12] sync selftest passed"))
          return (bootCounter, lockdep, locked)

end Trials

section Loader

open ReadLog ElfModel

/-- The size of the image that the loader is tried on. -/
def M11_DEMO_IMAGE_SIZE : U64 := 12288

/-- The low bytes of a word, the least first. -/
def bytesLE (n : Nat) (v : Nat) : List U8 :=
  (List.range n).map fun i => BitVec.ofNat 8 (v >>> (8 * i))

/-- `struct m11_elf64_phdr` with `p_paddr` zero. -/
def phdrBytes (ph : Phdr) : List U8 :=
  bytesLE 4 ph.pType.toNat ++ bytesLE 4 ph.pFlags.toNat ++ bytesLE 8 ph.pOffset.toNat ++
  bytesLE 8 ph.pVaddr.toNat ++ bytesLE 8 0 ++ bytesLE 8 ph.pFilesz.toNat ++
  bytesLE 8 ph.pMemsz.toNat ++ bytesLE 8 ph.pAlign.toNat

/-- `m11_build_demo_image`: two headers behind the first, and zeros. -/
def m11BuildDemoImage : Nat → U8 :=
  let ehdr : List U8 :=
    [M11_ELFMAG0, M11_ELFMAG1, M11_ELFMAG2, M11_ELFMAG3, M11_ELFCLASS64, M11_ELFDATA2LSB,
      BitVec.ofNat 8 M11_EV_CURRENT] ++ List.replicate 9 0 ++
    bytesLE 2 M11_ET_EXEC.toNat ++ bytesLE 2 M11_EM_X86_64.toNat ++ bytesLE 4 M11_EV_CURRENT ++
    bytesLE 8 0x401000 ++ bytesLE 8 EHDR_SIZE ++ List.replicate 12 0 ++ bytesLE 2 EHDR_SIZE ++
    bytesLE 2 PHDR_SIZE ++ bytesLE 2 2 ++ List.replicate 6 0
  let image := ehdr ++
    phdrBytes ⟨M11_PT_LOAD, M11_PF_R ||| M11_PF_X, 0x1000, 0x400000, 16, 4096, 4096⟩ ++
    phdrBytes ⟨M11_PT_LOAD, M11_PF_R ||| M11_PF_W, 0x2000, 0x401000, 8, 4096, 4096⟩
  fun i => image.getD i 0

/-- `m11_error_name`, the name under which an error is logged. -/
def m11ErrorName : ElfErr → String
  | .size => "M11_ERR_SIZE"
  | .magic => "M11_ERR_MAGIC"
  | .class64 => "M11_ERR_CLASS"
  | .endian => "M11_ERR_ENDIAN"
  | .version => "M11_ERR_VERSION"
  | .type => "M11_ERR_TYPE"
  | .machine => "M11_ERR_MACHINE"
  | .ehsize => "M11_ERR_EHSIZE"
  | .phentsize => "M11_ERR_PHENTSIZE"
  | .phbounds => "M11_ERR_PHBOUNDS"
  | .align => "M11_ERR_ALIGN"
  | .segbounds => "M11_ERR_SEGBOUNDS"
  | .segrange => "M11_ERR_SEGRANGE"
  | .segcount => "M11_ERR_SEGCOUNT"
  | .entry => "M11_ERR_ENTRY"
  | .flags => "M11_ERR_FLAGS"

/-- The four lines that the loader's trial logs for a segment. -/
def logSegment (s : SegmentPlan) : List U8 :=
  logKeyValueHex64 "[M11] elf: segment vaddr" s.vaddr ++
  logKeyValueHex64 "[M11] elf: segment filesz" s.filesz ++
  logKeyValueHex64 "[M11] elf: segment memsz" s.memsz ++
  logKeyValueHex64 "[M11] elf: segment flags" (s.flags.setWidth 64)

/-- `kernel_m11_loader_smoke`; `plan` is what lies on the stack before. -/
def kernelM11LoaderSmoke (plan : Plan) : Boot Unit :=
  match value m11BuildDemoImage
      (m11Elf64PlanLoad M11_DEMO_IMAGE_SIZE ⟨0x400000, 0x800000000000⟩ plan) with
  | (.error e, _) => do
      say (logWriteln (text "[M11] elf: plan FAILED"))
      say (logWriteln (text (m11ErrorName e)))
  | (.ok (), plan) => do
      say (logWriteln (text "[M11] elf: ident ok"))
      say (logKeyValueHex64 "[M11] elf: phnum" (plan.segmentCount.setWidth 64))
      say ((List.range plan.segmentCount.toNat).flatMap fun i => logSegment (plan.segments i))
      say (logKeyValueHex64 "[M11] elf: plan ok entry" plan.entry)
      say (logWriteln (text "[M11] user image plan ready"))

end Loader

/-! ## `kmain` -/

section Kmain

open PmmModel VmmModel KernelVmmModel KmemModel SyncModel KernelModel

/-- What the bootloader answers. -/
structure Responses where
  memmap : Option (List LimineMemmapEntry)
  hhdm : Option U64

/-- The objects before `kmain`; those of C are zero then. -/
structure Before where
  mem : Mem
  pmm : PmmState
  heap : KmemState
  bootCounter : U64
  plan : ElfModel.Plan
  kernel : Kernel
  /-- what the buffers of the system calls hold -/
  stack : Nat → U8

/-- What `kmain` has built when thread A starts its loop, on one memory. -/
structure Booted where
  space : VmmSpace FrameLedger
  world : VmmWorld FrameLedger
  heap : KmemState
  sync : U64 × Lockdep × U32
  kernel : Kernel

/-- `kmain` up to the loop of thread A; the reports of the timer after `sti` are left out. -/
def kmain (st : Statics) (boot : Responses) (b : Before) : Boot Booted := do
  say (logWriteln (text "[MCSOS:M7] boot: memory manager bring-up start"))
  say (logWriteln (text "[MCSOS:M7] idt: loaded"))
  say (logWriteln (text "[MCSOS:M7] pic: remapped and masked"))
  say (logWriteln (text "[MCSOS:M7] pit: configured 100Hz"))
  let pmm ← kernelMemoryInit boot.memmap b.pmm
  say (logWriteln (text "[MCSOS:M7] pmm: ready"))
  let vmm ← kernelVmmInit boot.hhdm b.mem pmm
  say (logWriteln (text "[MCSOS:M7] vmm: ready"))
  let heap ← m8HeapBootstrap st.bootHeap { b.heap with mem := vmm.2.mem }
  say (logWriteln (text "[MCSOS:M8] heap: ready"))
  say (logWriteln (text "[MCSOS:M7] sti: enabling interrupts"))
  let k := { b.kernel with mem := heap.mem, fs := seedRamfs b.kernel.fs }
  say (logWriteln (text "[M13] ramfs: initialized + demo file seeded"))
  let k ← kernelM10SyscallInit b.stack k
  kernelM11LoaderSmoke b.plan
  let sync ← m12SyncSelftest b.bootCounter
  let k ← kernelM9SchedulerInit st k
  let k ← kernelM13VfsSyscallSmoke st b.stack k
  return ⟨vmm.1, { vmm.2 with mem := k.mem }, { heap with mem := k.mem }, sync, k⟩

/-- One round of the loop of the thread that is current: a line and a yield, without the
    timer's reports.  The boot thread has no loop; it would go on to the `hlt` loop
    of `kmain`. -/
def demoRound (st : Statics) (k : Kernel) : Boot Kernel :=
  if k.current = st.threadA then do
    say (logWriteln (text "[M9] thread A tick"))
    return k.setThreads (SchedModel.mcsosSchedYield k.world.threads).2
  else if k.current = st.threadB then do
    say (logWriteln (text "[M9] thread B tick"))
    return k.setThreads (SchedModel.mcsosSchedYield k.world.threads).2
  else throw .hangs

/-- Rounds of the demo loops, whichever thread is current. -/
def demoRounds (st : Statics) : Nat → Kernel → Boot Kernel
  | 0, k => return k
  | n + 1, k => do
      let k ← demoRound st k
      demoRounds st n k

end Kmain

end BootModel
