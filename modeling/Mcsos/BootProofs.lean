import Mcsos.BootFileProofs
import Mcsos.BootHeapProofs

/-! # What `kmain` comes to

    Each part of the boot code has its own trial.  Put together on one memory, they
    leave four panics that a bootloader can cause, and no other end: else all parts
    are up, thread A has read its file, and the two demo threads take turns from
    then on.

    What is up is where the theorems about the parts start from: page tables in
    frames of the map, an idle heap, and a state of the kernel that steps of the
    kernel lead to. -/

namespace BootRun

open Word ByteMemory LogModel BootModel BootMemory BootHeap BootThreads BootFile
open PmmModel PmmRange PmmBootMap VmmModel FrameOwnership FrameConfine VfsModel KmemModel
open KmemRunModel SyscallModel SyscallVfs KernelModel KernelVfs
open KernelVmmModel hiding kernelVmmInit

variable {st : Statics} {b : Before} {boot : Responses}

/-! ## The image -/

/-- The bytes of the objects that boot code reaches by their addresses. -/
def InImage (st : Statics) (x : U64) : Prop :=
  InRange st.bootHeap 65536 x ∨ InRange st.smokePath 16 x ∨ InRange st.smokeBuf 16 x

/-- What the linker and the loader see to: the objects are apart from each other and from
    the direct map of physical memory, and hold what C says. -/
structure Loaded (st : Statics) (b : Before) (hhdm : Option U64) : Prop where
  threads : Threads st
  arena : Arena st.bootHeap b.mem
  buffers : Buffers st b.mem
  path_apart : ∀ x, InRange st.smokePath 16 x → ¬ InRange st.bootHeap 65536 x
  buf_apart : ∀ x, InRange st.smokeBuf 16 x → ¬ InRange st.bootHeap 65536 x
  blank : Blank b.kernel
  ticks : b.kernel.world.gTicks.toNat < 2 ^ 63
  direct : ∀ offset, hhdm = some offset → DirectMap offset PMM_MAX_PHYS_BYTES
  outside : ∀ offset, hhdm = some offset → ∀ x, InImage st x → ¬ InRange offset (2 ^ 36) x

/-- A page of the managed memory lies in the direct map's window. -/
theorem page_inWindow {offset p x : U64} (hp : p.toNat + 4096 ≤ 2 ^ 36)
    (hx : InRange (offset + p) 4096 x) : InRange offset (2 ^ 36) x := by
  have hx : (x - (offset + p)).toNat < 4096 := hx
  show (x - offset).toNat < 2 ^ 36
  rw [show x - offset = p + (x - (offset + p)) from by bv_omega, BitVec.toNat_add,
    Nat.mod_eq_of_lt (by omega)]
  omega

/-! ## The kernel -/

/-- What boot does to the kernel, from `mcs_ramfs_init` on. -/
def bootOps (st : Statics) (stack : Nat → U8) : List KernelOp :=
  .seedFile (some (text "/hello.txt")) (some fun i => helloText.getD i 0) 11 ::
    (threadOps st ++ smokeOps st stack)

/-- The scheduler's part of boot starts from the seeded kernel. -/
theorem withScheduler_eq (k : Kernel) :
    withScheduler st { k with fs := seedRamfs k.fs, region := USER_REGION }
      = (kernelStep (kernelInit st.bootThread k)
        (.seedFile (some (text "/hello.txt")) (some fun i => helloText.getD i 0) 11)).2 := rfl

/-- What the kernel is when thread A starts its loop. -/
structure Started (st : Statics) (k k' : Kernel) : Prop where
  copied : CopiedOut k.mem k'.mem st.smokeBuf (fun i => (text "hello").getD i 0) 5
  files : k'.fs = seedRamfs k.fs
  closed : k'.tables st.threadA = mcsFdTableInit (k.tables st.threadA)
  turn : Turn st k'.world.threads st.threadA st.threadB

/-- What comes after the heap: the scheduler is up, the trial of the file system passes in thread A,
    and both together are steps of the running kernel. -/
theorem kernel_ok (h : Threads st) {k : Kernel} (hblank : Blank k) (hb : Buffers st k.mem)
    (stack : Nat → U8) :
    let k₁ : Kernel := { k with fs := seedRamfs k.fs, region := USER_REGION }
    let k₂ := Machine.exec kernelStep (withScheduler st k₁) (threadOps st)
    let k₃ := Machine.exec kernelStep (kernelInit st.bootThread k) (bootOps st stack)
    (∀ log, ∃ log', runs (kernelM9SchedulerInit st k₁) log = (.ok k₂, log')) ∧
    (∀ log, ∃ log', runs (kernelM13VfsSyscallSmoke st stack k₂) log = (.ok k₃, log')) ∧
    Started st k k₃ := by
  intro k₁ k₂ k₃
  obtain ⟨-, -, hturn⟩ := schedulerInit_ok h k₁ []
  obtain ⟨hfiles, hmem, hclosed⟩ := threadOps_keeps h k₁
  -- the kernel's invariant holds here, since boot is a run of it
  have hinv : KernelInv k₂ := by
    have hrun := kernel_inv hblank h.boot
      (.seedFile (some (text "/hello.txt")) (some fun i => helloText.getD i 0) 11 :: threadOps st)
    rwa [Machine.exec_cons, ← withScheduler_eq] at hrun
  -- thread A is current, with the empty table it was prepared with
  have hown : k₂.tables k₂.current = mcsFdTableInit (k.tables st.threadA) := by
    rw [show k₂.current = st.threadA from hturn.current]
    exact hclosed
  have hb₂ : Buffers st k₂.mem := hmem.symm ▸ hb
  obtain ⟨m', hcopied, hexec, hsmoke⟩ := vfsSyscallSmoke_ok hinv hfiles hown hb₂ stack
  have hlast : k₃ = Machine.exec kernelStep k₂ (smokeOps st stack) := by
    show Machine.exec kernelStep _ (_ :: (threadOps st ++ smokeOps st stack)) = _
    rw [Machine.exec_cons, ← withScheduler_eq, Machine.exec_append]
  rw [hlast]
  refine ⟨fun log => ?_, hsmoke, ?_⟩
  · obtain ⟨log', hrun, -⟩ := schedulerInit_ok h k₁ log
    exact ⟨log', hrun⟩
  · rw [hexec]
    rw [show k₂.mem = k.mem from hmem] at hcopied
    exact ⟨hcopied, hfiles, hclosed, hturn⟩

/-! ## `kmain` -/

/-- What `kmain` leaves, on memory that has the root of the page tables in the page of
    `root`. -/
structure Ready (st : Statics) (b : Before) (entries : List LimineMemmapEntry) (offset : U64)
    (n : Nat) (root : U64) (r : Booted) : Prop where
  /-- the root is in the first frame of the map, the others are free -/
  frame : BootFrame entries n ∧ root.toNat = 4096 * n ∧ ∀ m, m < n → ¬ BootFrame entries m
  others : Offers (fun m => InitFree (bootRegions entries) m ∧ m ≠ n) r.world.ctx.pmm
  space : r.space = kernelSpace offset root
  tables : Within offset PMM_MAX_PHYS_BYTES root (BootFrame entries) r.kernel.mem r.world
  heap : Run Ordinary st.bootHeap M8_BOOT_HEAP_SIZE ⟨r.heap, []⟩
  lock : r.sync.1 = b.bootCounter + 1 ∧ r.sync.2.1.depth = 0 ∧ r.sync.2.2 = 0
  kernel : ∃ m : Mem,
    r.kernel = Machine.exec kernelStep (kernelInit st.bootThread { b.kernel with mem := m })
      (bootOps st b.stack) ∧ Started st { b.kernel with mem := m } r.kernel
  /-- one memory, of which all else is as it was -/
  memory : r.world.mem = r.kernel.mem ∧ r.heap.mem = r.kernel.mem ∧
    ∀ x, r.kernel.mem x ≠ b.mem x →
      InRange (offset + root) 4096 x ∨ InRange st.bootHeap 65536 x ∨ InRange st.smokeBuf 5 x

/-- The ends of `kmain`, by what the bootloader answers. -/
inductive Outcome (st : Statics) (b : Before) (boot : Responses) : Except Stop Booted → Prop where
  | noMap (h : boot.memmap = none) :
      Outcome st b boot (.error (.panic 112 "limine memmap response is NULL" 0))
  | emptyMap (h : boot.memmap = some []) :
      Outcome st b boot (.error (.panic 139 "pmm_init_from_map failed" 0))
  | noFrame {entries : List LimineMemmapEntry} (h : boot.memmap = some entries)
      (hne : entries ≠ []) (hnone : ∀ n, ¬ BootFrame entries n) :
      Outcome st b boot (.error (.panic 150 "pmm_alloc_frame returned invalid frame" 0))
  | noDirectMap {entries : List LimineMemmapEntry} {n : Nat} (h : boot.memmap = some entries)
      (hn : BootFrame entries n) (hhdm : boot.hhdm = none) :
      Outcome st b boot (.error (.panic 169 "limine hhdm response is NULL" 0))
  | ready {entries : List LimineMemmapEntry} {n : Nat} {offset root : U64} {r : Booted}
      (h : boot.memmap = some entries) (hhdm : boot.hhdm = some offset)
      (hr : Ready st b entries offset n root r) : Outcome st b boot (.ok r)

variable {entries : List LimineMemmapEntry} {offset root : U64} {n : Nat}

/-- The image is not in a page of the direct map. -/
theorem Loaded.not_page (h : Loaded st b (some offset)) {p x : U64}
    (hp : p.toNat + 4096 ≤ 2 ^ 36) (hx : InImage st x) : ¬ InRange (offset + p) 4096 x :=
  fun hin => h.outside offset rfl x hx (page_inWindow hp hin)

/-- The read puts its bytes into the buffer only. -/
theorem Started.memory {k k' : Kernel} (h : Started st k k') {x : U64}
    (hx : ¬ InRange st.smokeBuf 5 x) : k'.mem x = k.mem x := by
  refine h.copied.others x (fun i hi heq => hx ?_)
  show (x - st.smokeBuf).toNat < 5
  bv_omega

/-- An empty map opens no frame. -/
theorem not_bootFrame_nil (n : Nat) : ¬ BootFrame [] n := by
  rintro ⟨hlt, hfree⟩
  obtain ⟨-, ⟨r, hr, -⟩ | ⟨r, hr, -⟩, -⟩ := (initFree_iff (by omega)).mp hfree
  · exact absurd hr List.not_mem_nil
  · exact absurd hr List.not_mem_nil

theorem limit_toNat : PMM_MAX_PHYS_BYTES.toNat = 2 ^ 36 := by decide

/-- A frame of the map is one that the walker may use. -/
theorem frame_below (hn : BootFrame entries n) (haddr : root.toNat = 4096 * n) :
    Frame PMM_MAX_PHYS_BYTES root := by
  have hlt := hn.1
  have h0 : n ≠ 0 := hn.2.1
  refine ⟨by omega, ?_, ?_⟩
  · rintro rfl
    rw [show (0 : U64).toNat = 0 from rfl] at haddr
    omega
  · rw [BitVec.lt_def, limit_toNat]
    omega

/-- Clearing the root changes nothing outside its page. -/
theorem rootPage_outside (hdirect : DirectMap offset PMM_MAX_PHYS_BYTES)
    (hroot : Frame PMM_MAX_PHYS_BYTES root) (m : Mem) {x : U64}
    (hx : ¬ InRange (offset + root) 4096 x) : memset m (offset + root) 0 4096 x = m x := by
  have hfits : (offset + root).toNat + 4096 ≤ 2 ^ 64 := (hdirect root hroot).2
  rw [memset, fillBytes_apply m _ 0 hfits]
  exact if_neg hx

/-- The parts on one memory: each has written where the others are not. -/
theorem ready_of_parts (h : Loaded st b (some offset)) {pmm t : PmmState} {m₁ : Mem}
    {heap : KmemState} {sync : U64 × SyncModel.Lockdep × U32} {k : Kernel}
    (hoffers : Offers (InitFree (bootRegions entries)) pmm) (hn : BootFrame entries n)
    (hleast : ∀ m, m < n → ¬ InitFree (bootRegions entries) m) (haddr : root.toNat = 4096 * n)
    (heq : pmmAllocFrame pmm = (root, t))
    (hothers : Offers (fun m => InitFree (bootRegions entries) m ∧ m ≠ n) t)
    (hm₁ : m₁ = memset b.mem (offset + root) 0 4096)
    (hidle : Run Ordinary st.bootHeap M8_BOOT_HEAP_SIZE ⟨heap, []⟩)
    (hout : ∀ x, ¬ InRange st.bootHeap 65536 x → heap.mem x = m₁ x)
    (hsync : sync.1 = b.bootCounter + 1 ∧ sync.2.1.depth = 0 ∧ sync.2.2 = 0)
    (hkernel : k = Machine.exec kernelStep
      (kernelInit st.bootThread { b.kernel with mem := heap.mem }) (bootOps st b.stack))
    (hstarted : Started st { b.kernel with mem := heap.mem } k) :
    Ready st b entries offset n root
      ⟨kernelSpace offset root, ⟨k.mem, ⟨t, ∅, ∅, ∅⟩⟩, { heap with mem := k.mem }, sync, k⟩ := by
  have hbuf : ∀ x, InRange st.smokeBuf 5 x → InRange st.smokeBuf 16 x :=
    fun x hx => Nat.lt_trans (show (x - st.smokeBuf).toNat < 5 from hx) (by decide)
  refine ⟨⟨hn, haddr, fun m hm hboot => hleast m hm hboot.2⟩, hothers, rfl, ?_, ?_, hsync,
    ⟨heap.mem, hkernel, hstarted⟩, rfl, rfl, ?_⟩
  · -- the tables are in the direct map, and the image is not
    have hdirect := h.direct offset rfl
    have hfree : ∀ m, m < pmm.frameCount.toNat → PmmFrame.Clear pmm m → BootFrame entries m := by
      intro m hm hclear
      rw [hoffers.count] at hm
      exact ⟨hm, (hoffers.clear m hm).mp hclear⟩
    have hvalid : root ≠ PMM_INVALID_FRAME := by
      rintro rfl
      exact absurd (frame_below hn haddr).1 (by decide)
    have hwithin : Within offset pmm.maxPhys root (BootFrame entries) b.mem
        ⟨memset b.mem (offset + root) 0 4096, ⟨t, ∅, ∅, ∅⟩⟩ :=
      within_start hoffers.inv (hoffers.limit ▸ hdirect) hfree heq hvalid
    rw [hoffers.limit, ← hm₁] at hwithin
    refine hwithin.elsewhere hdirect (fun x hx => ?_)
    simp only [VmmFootprint.Elsewhere, not_forall, not_not] at hx
    obtain ⟨p, ⟨hF, -⟩, hin⟩ := hx
    have hp : p.toNat + 4096 ≤ 2 ^ 36 := by
      obtain ⟨hal, -, hlt⟩ := hF
      rw [BitVec.lt_def, limit_toNat] at hlt
      omega
    have himage : ¬ InImage st x := fun hx => h.not_page hp hx hin
    rw [hstarted.memory fun hx => himage (Or.inr (Or.inr (hbuf x hx)))]
    exact hout x fun hx => himage (Or.inl hx)
  · -- the buffer is not in the heap
    refine idle_elsewhere hidle h.arena.fits (fun x hx => hstarted.memory fun hx' => ?_)
    exact h.buf_apart x (hbuf x hx') hx
  · intro x hx
    by_contra hnone
    rw [not_or, not_or] at hnone
    obtain ⟨hpage, harena, hbuffer⟩ := hnone
    have hkept := rootPage_outside (h.direct offset rfl) (frame_below hn haddr) b.mem hpage
    rw [← hm₁] at hkept
    exact hx (((hstarted.memory hbuffer).trans (hout x harena)).trans hkept)

/-- With a frame in the map and a direct map, all trials pass. -/
theorem kmain_ready (h : Loaded st b boot.hhdm) (hmap : boot.memmap = some entries)
    (hn : BootFrame entries n) (hhdm : boot.hhdm = some offset) (log : List U8) :
    ∃ n root r log', runs (kmain st boot b) log = (.ok r, log') ∧
      Ready st b entries offset n root r := by
  have hne : entries ≠ [] := by
    rintro rfl
    exact not_bootFrame_nil n hn
  rw [hhdm] at h
  unfold kmain
  rw [runs_say, runs_say, runs_say, runs_say, hmap, hhdm]
  generalize log ++ _ ++ _ ++ _ ++ _ = log₁
  rcases memoryInit_cases b.pmm log₁ hne with ⟨hnone, -⟩ | ⟨-, pmm, log₂, hmem, hoffers⟩
  · exact absurd hn (hnone n)
  obtain ⟨n, root, log₃, hlt, hP, hleast, haddr, hothers, heq, hvmm⟩ :=
    vmmInit_ok hoffers ⟨n, hn⟩ offset b.mem (log₂ ++ _)
  rw [runs_ok hmem, runs_say, runs_ok hvmm, runs_say]
  have hframe : BootFrame entries n := ⟨hlt, hP⟩
  have hpage : root.toNat + 4096 ≤ 2 ^ 36 := by omega
  have hroot : ∀ x, ¬ InRange (offset + root) 4096 x →
      memset b.mem (offset + root) 0 4096 x = b.mem x :=
    fun x => rootPage_outside (h.direct offset rfl) (frame_below hframe haddr) b.mem
  generalize hm₁ : memset b.mem (offset + root) 0 4096 = m₁ at hroot
  -- the root page is not in the image, so the heap array is still zero
  have harena : Arena st.bootHeap m₁ := ⟨h.arena.ne_zero, h.arena.fits, fun x hx =>
    (hroot x (h.not_page hpage (Or.inl hx))).trans (h.arena.zero x hx)⟩
  obtain ⟨heap, log₄, hheap, hidle, hout⟩ :=
    heapBootstrap_ok (s := { b.heap with mem := m₁ }) harena (log₃ ++ _)
  rw [runs_ok hheap, runs_say, runs_say, runs_say]
  generalize log₄ ++ _ ++ _ ++ _ = log₅
  -- and the path is still in its buffer
  have hb : Buffers st heap.mem := h.buffers.congr fun x hx =>
    (hout x (h.path_apart x hx)).trans (hroot x (h.not_page hpage (Or.inr (Or.inl hx))))
  obtain ⟨log₆, hcalls⟩ := syscallInit_ok b.stack
    (k := { b.kernel with mem := heap.mem, fs := seedRamfs b.kernel.fs }) h.ticks log₅
  obtain ⟨log₇, hloader⟩ := loaderSmoke_ok b.plan log₆
  obtain ⟨lockdep, log₈, hsync, hdepth, -⟩ := selftest_ok b.bootCounter log₇
  obtain ⟨hsched, hsmoke, hstarted⟩ := kernel_ok h.threads
    (k := { b.kernel with mem := heap.mem }) h.blank hb b.stack
  obtain ⟨log₉, hsched⟩ := hsched log₈
  obtain ⟨log₁₀, hsmoke⟩ := hsmoke log₉
  rw [runs_ok hcalls, runs_ok hloader, runs_ok hsync, runs_ok hsched, runs_ok hsmoke]
  exact ⟨n, root, _, log₁₀, rfl, ready_of_parts h hoffers hframe hleast haddr heq hothers hm₁.symm
    hidle hout ⟨rfl, hdepth, rfl⟩ rfl hstarted⟩

/-- **BOOT**: with an image that lies apart from the direct map, and whatever the bootloader
    answers, `kmain` stops in one of four panics, or everything is up and thread A starts
    its loop. -/
theorem kmain_outcome (h : Loaded st b boot.hhdm) (log : List U8) :
    Outcome st b boot (runs (kmain st boot b) log).1 := by
  by_cases hup : ∃ entries n offset, boot.memmap = some entries ∧ BootFrame entries n ∧
      boot.hhdm = some offset
  · obtain ⟨entries, n, offset, hmap, hn, hhdm⟩ := hup
    obtain ⟨m, root, r, log', hrun, hr⟩ := kmain_ready h hmap hn hhdm log
    rw [hrun]
    exact .ready hmap hhdm hr
  -- without a frame or a direct map one of the four panics is reached
  unfold kmain
  rw [runs_say, runs_say, runs_say, runs_say]
  generalize log ++ _ ++ _ ++ _ ++ _ = log₁
  cases hmap : boot.memmap with
  | none =>
      rw [runs_error (memoryInit_null b.pmm log₁)]
      exact .noMap hmap
  | some entries =>
      by_cases hne : entries = []
      · subst hne
        rw [runs_error (memoryInit_empty b.pmm log₁)]
        exact .emptyMap hmap
      rcases memoryInit_cases b.pmm log₁ hne with
        ⟨hnone, log₂, hrun⟩ | ⟨⟨n, hn⟩, pmm, log₂, hrun, -⟩
      · rw [runs_error hrun]
        exact .noFrame hmap hne hnone
      · cases hhdm : boot.hhdm with
        | none =>
            rw [runs_ok hrun]
            exact .noDirectMap hmap hn hhdm
        | some offset => exact absurd ⟨entries, n, offset, hmap, hn, hhdm⟩ hup

/-- An image in the upper half, as it is linked. -/
def image : Statics where
  bootHeap := 0xffffffff80100000
  bootThread := 0xffffffff80120000
  threadA := 0xffffffff80121000
  threadB := 0xffffffff80122000
  stackA := 0xffffffff80123000
  stackB := 0xffffffff80125000
  threadStart := 0xffffffff80000100
  trampoline := 0xffffffff80000200
  demoThreadA := 0xffffffff80000300
  demoThreadB := 0xffffffff80000400
  smokePath := 0xffffffff80127000
  smokeBuf := 0xffffffff80127010

/-- The memory and the objects of the example before the boot. -/
def before : Before where
  mem := fun x => (text "/hello.txt").getD (x - image.smokePath).toNat 0
  pmm := PmmInvariant.smallState
  heap := ⟨fun _ => 0, 0, 0, 0, false⟩
  bootCounter := 0
  plan := ⟨0, 0, fun _ => ⟨0, 0, 0, 0, 0, 0⟩⟩
  kernel := emptyKernel
  stack := fun _ => 0

/-- The bootloader's answers in the example: 65 entries, and a direct map in the upper half. -/
def answers : Responses := ⟨some longMap, some 0xffff800000000000⟩

/-- The example image is linked and loaded as C requires. -/
theorem image_loaded : Loaded image before answers.hhdm where
  threads := ⟨by decide, ⟨by decide, by decide, by decide, by decide⟩,
    ⟨by decide, by decide, by decide, by decide⟩, by decide, by decide, by decide⟩
  arena := by
    refine ⟨by decide, by decide, fun x hx => ?_⟩
    have hx : (x - 0xffffffff80100000).toNat < 65536 := hx
    show (text "/hello.txt").getD (x - 0xffffffff80127000).toNat 0 = 0
    rw [path_chars]
    refine List.getD_eq_default _ _ ?_
    show 10 ≤ (x - 0xffffffff80127000).toNat
    bv_omega
  buffers := by
    refine ⟨by decide, by decide, ?_, by decide, by decide⟩
    unfold before
    dsimp only
    rw [path_chars]
    decide +kernel
  path_apart := by
    intro x hx hin
    have hx : (x - 0xffffffff80127000).toNat < 16 := hx
    have hin : (x - 0xffffffff80100000).toNat < 65536 := hin
    bv_omega
  buf_apart := by
    intro x hx hin
    have hx : (x - 0xffffffff80127010).toNat < 16 := hx
    have hin : (x - 0xffffffff80100000).toNat < 65536 := hin
    bv_omega
  blank := emptyKernel_blank
  ticks := by decide
  direct := by
    intro offset hoffset
    obtain rfl := Option.some.inj hoffset
    exact high_directMap
  outside := by
    intro offset hoffset x hx hin
    obtain rfl := Option.some.inj hoffset
    have hin : (x - 0xffff800000000000).toNat < 2 ^ 36 := hin
    rcases hx with hx | hx | hx
    · have hx : (x - 0xffffffff80100000).toNat < 65536 := hx
      bv_omega
    · have hx : (x - 0xffffffff80127000).toNat < 16 := hx
      bv_omega
    · have hx : (x - 0xffffffff80127010).toNat < 16 := hx
      bv_omega

/-- On a map with a frame, the kernel comes up. -/
theorem kmain_outcome_image :
    ∃ r, (runs (kmain image answers before) []).1 = .ok r ∧
      r.space.rootPaddr.toNat ≤ 256 * 4096 ∧ r.kernel.current = image.threadA := by
  have h := kmain_outcome image_loaded []
  generalize (runs (kmain image answers before) []).1 = out at h
  cases h with
  | noMap h => cases h
  | emptyMap h => cases h
  | noFrame h hne hnone =>
      cases h
      exact absurd longMap_frame (hnone 256)
  | noDirectMap h hn hhdm => cases hhdm
  | ready h hhdm hr =>
      cases h
      obtain ⟨m, -, hstarted⟩ := hr.kernel
      refine ⟨_, rfl, ?_, hstarted.turn.current⟩
      obtain ⟨-, haddr, hleast⟩ := hr.frame
      rw [congrArg VmmSpace.rootPaddr hr.space]
      dsimp only [kernelSpace]
      rw [haddr]
      -- frame 256 is open, so the root is not above it
      have hfirst := mt (hleast 256) (not_not_intro longMap_frame)
      omega

/-! ## The loops of the demo threads -/

/-- **TURNS**: with a frame in the map and a direct map, the demo threads take turns for
    ever, A first, each with one line per round; the boot thread is not seen again. -/
theorem demo_threads_alternate (h : Loaded st b boot.hhdm) (hmap : boot.memmap = some entries)
    (hn : BootFrame entries n) (hhdm : boot.hhdm = some offset) (log : List U8) :
    ∃ r log', runs (kmain st boot b) log = (.ok r, log') ∧ ∀ rounds,
      let k := Machine.exec kernelStep r.kernel (List.replicate rounds .yield)
      runs (demoRounds st rounds r.kernel) log'
          = (.ok k, log' ++ (List.range rounds).flatMap lineOf) ∧
        k.current = threadOf st rounds ∧ k.current ≠ st.bootThread := by
  obtain ⟨m, root, r, log', hrun, hr⟩ := kmain_ready h hmap hn hhdm log
  refine ⟨r, log', hrun, fun rounds => ?_⟩
  obtain ⟨mem, -, hstarted⟩ := hr.kernel
  obtain ⟨hrounds, hturn⟩ := demoRounds_ok h.threads rounds 0 r.kernel log' hstarted.turn
  simp only [Nat.zero_add] at hrounds hturn
  have hcurrent := hturn.current
  refine ⟨hrounds, hcurrent, ?_⟩
  exact fun hboot => threadOf_ne_boot h.threads rounds (hcurrent.symm.trans hboot)

/-- After three rounds thread B is current. -/
theorem demo_threads_alternate_image :
    ∃ r log', runs (kmain image answers before) [] = (.ok r, log') ∧
      (Machine.exec kernelStep r.kernel (List.replicate 3 .yield)).current = image.threadB := by
  obtain ⟨r, log', hrun, hrounds⟩ :=
    demo_threads_alternate image_loaded (show answers.memmap = some longMap from rfl)
      longMap_frame (show answers.hhdm = some 0xffff800000000000 from rfl) []
  exact ⟨r, log', hrun, (hrounds 3).2.1⟩

end BootRun
