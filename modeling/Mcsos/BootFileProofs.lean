import Mcsos.BootThreadsProofs

/-! # A file is read at boot

    `kernel_m13_vfs_syscall_smoke` is the first thing that thread A runs: it opens the
    file that `kmain` has put into the ramfs, reads the start of it, and closes it.
    The calls go the way of every system call, with a user region that spans nearly
    all addresses; none of them fails, and all that is left of them are the bytes in
    the buffer. -/

namespace BootFile

open Word ByteMemory LogModel BootModel BootMemory BootThreads VfsModel SyscallModel
open SyscallConfinement SyscallEntryModel SyscallVfs KernelModel KernelVfs

variable {fs : Ramfs} {t : FdTable} {st : Statics} {k : Kernel} {stack : Nat → U8}

/-! ## The file system -/

/-- The trial's path, character by character, for the lookups to compute with. -/
theorem path_chars :
    text "/hello.txt" = [0x2f, 0x68, 0x65, 0x6c, 0x6c, 0x6f, 0x2e, 0x74, 0x78, 0x74] := by
  decide +kernel

/-- What the file is seeded with. -/
theorem file_chars :
    helloText = [0x68, 0x65, 0x6c, 0x6c, 0x6f, 0x2d, 0x6d, 0x63, 0x73, 0x6f, 0x73] := by
  decide +kernel

/-- What the trial reads of it. -/
theorem start_chars : text "hello" = [0x68, 0x65, 0x6c, 0x6c, 0x6f] := by
  decide +kernel

/-- Descriptor 0 is on the file, and no other is open. -/
def helloOpen (t : FdTable) (offset : U64) : FdTable :=
  setFile (mcsFdTableInit t) 0 ⟨true, MCS_O_RDONLY, offset, some 1, true⟩

/-- An update of descriptor 0 forgets what it was. -/
theorem setFile_helloOpen (offset : U64) (file : File) :
    setFile (helloOpen t offset) 0 file = setFile (mcsFdTableInit t) 0 file :=
  congrArg FdTable.mk (Function.update_idem ..)

theorem helloOpen_file (offset : U64) :
    (helloOpen t offset).files 0 = ⟨true, MCS_O_RDONLY, offset, some 1, true⟩ := rfl

theorem helloOpen_get (offset : U64) : mcsFdGet (helloOpen t offset) 0 = some 0 := rfl

/-- The file has its eleven bytes at the start of the shared array. -/
theorem seeded_size (fs : Ramfs) : ((seedRamfs fs).nodes 1).size = 11 ∧
    ((seedRamfs fs).nodes 1).dataOffset = 0 := by
  unfold seedRamfs
  rw [path_chars]
  exact ⟨rfl, rfl⟩

/-- Node 1 is no directory. -/
theorem seeded_type : ((seedRamfs fs).nodes 1).type ≠ .dir := by
  have h : ((seedRamfs fs).nodes 1).type = .file := by
    unfold seedRamfs
    rw [path_chars]
    rfl
  rw [h]
  decide

/-- The array starts with the text that the trial expects. -/
theorem seeded_bytes (fs : Ramfs) : (List.range 5).map (seedRamfs fs).data = text "hello" := by
  rw [start_chars]
  unfold seedRamfs
  rw [path_chars, file_chars]
  rfl

/-- The open finds the seeded file and takes descriptor 0. -/
theorem open_hello :
    mcsVfsOpen (seedRamfs fs) (mcsFdTableInit t) (some (text "/hello.txt")) MCS_O_RDONLY
      = (.ok 0, seedRamfs fs, helloOpen t 0) := by
  have hlook : mcsRamfsLookup (seedRamfs fs) (some (text "/hello.txt")) = .ok 1 := by
    unfold seedRamfs
    rw [path_chars]
    rfl
  have hflags : openFlags MCS_O_RDONLY = MCS_O_RDONLY := by decide
  have halloc : mcsFdAlloc (mcsFdTableInit t)
      = (.ok 0, setFile (mcsFdTableInit t) 0 ⟨true, 0, 0, none, false⟩) := rfl
  rw [mcsVfsOpen, Option.isNone_some, if_neg Bool.false_ne_true, hflags, hlook]
  dsimp only
  rw [openNode, if_neg (fun h => seeded_type h.1), halloc]
  dsimp only
  rw [if_neg (by decide), if_neg (by decide)]
  exact congrArg (fun files => (Except.ok 0, seedRamfs fs, FdTable.mk files))
    (Function.update_idem ..)

/-- The read delivers the first five bytes and moves the offset. -/
theorem read_hello :
    mcsVfsRead (seedRamfs fs) (helloOpen t 0) 0 true 5 = (.ok 5, text "hello", helloOpen t 5) := by
  obtain ⟨hsize, hoff⟩ := seeded_size fs
  have htransfer : readTransfer (seedRamfs fs) (helloOpen t 0) 0 true 5 = .ok (0, ⟨1, 0, 5⟩) := by
    rw [readTransfer, if_neg (by decide), helloOpen_get]
    dsimp only
    rw [helloOpen_file]
    dsimp only
    rw [if_neg (by decide), if_neg (by decide), if_neg seeded_type, hsize, if_neg (by decide)]
    rfl
  have hstart : Transfer.start (seedRamfs fs) ⟨1, 0, 5⟩ = 0 := by
    rw [Transfer.start, hoff]
    rfl
  rw [mcsVfsRead, htransfer]
  dsimp only
  rw [hstart, setFile_helloOpen, ← seeded_bytes fs]
  simp only [Nat.zero_add]
  rfl

/-- The seek goes back to the start. -/
theorem seek_hello (offset : U64) :
    mcsVfsLseek (seedRamfs fs) (helloOpen t offset) 0 0 0 = (.ok 0, helloOpen t 0) := by
  rw [mcsVfsLseek, helloOpen_get]
  dsimp only
  rw [helloOpen_file]
  dsimp only
  rw [if_neg seeded_type, if_pos (by decide), if_neg (by decide), setFile_helloOpen]
  rfl

/-- The close leaves the table as `mcs_fd_table_init` has made it. -/
theorem close_hello (offset : U64) :
    mcsVfsClose (helloOpen t offset) 0 = (.ok (), mcsFdTableInit t) := by
  have hclosed : setFile (mcsFdTableInit t) 0 ⟨false, 0, 0, none, false⟩ = mcsFdTableInit t :=
    congrArg FdTable.mk (Function.update_eq_self 0 (mcsFdTableInit t).files)
  rw [mcsVfsClose, helloOpen_get]
  dsimp only
  rw [setFile_helloOpen, hclosed]

/-! ## The system calls -/

/-- The objects of the trial: the path, and a buffer that is not the null pointer. -/
structure Buffers (st : Statics) (m : Mem) : Prop where
  path_ne : st.smokePath ≠ 0
  path_fits : st.smokePath.toNat + 16 < 2 ^ 64
  path : userPath m st.smokePath 10 = text "/hello.txt"
  buf_ne : st.smokeBuf ≠ 0
  buf_fits : st.smokeBuf.toNat + 16 < 2 ^ 64

/-- The buffers are as they were if memory is, in them. -/
theorem Buffers.congr {m m' : Mem} (h : Buffers st m)
    (hsame : ∀ x, InRange st.smokePath 16 x → m' x = m x) : Buffers st m' := by
  refine ⟨h.path_ne, h.path_fits, ?_, h.buf_ne, h.buf_fits⟩
  rw [← h.path]
  refine List.map_congr_left (fun i hi => hsame _ ?_)
  have hi : i < 10 := List.mem_range.mp hi
  show (st.smokePath + BitVec.ofNat 64 i - st.smokePath).toNat < 16
  bv_omega

/-- The region of the trial holds every object of the image. -/
theorem smoke_userBuffer {p len : U64} (hp : p ≠ 0) (hfits : p.toNat + 16 < 2 ^ 64)
    (hlen : len ≠ 0) (hmax : len.toNat ≤ 10) : UserBuffer SMOKE_REGION p len := by
  have hunset : ¬ Unset SMOKE_REGION := not_or.mpr ⟨by decide, by decide⟩
  refine Or.inr ⟨hp, (userCheckRange_iff hlen).mpr ⟨hunset, ?_, ?_, ?_⟩⟩
  · show 1 ≤ p
    bv_omega
  · bv_omega
  · show p + len - 1 < 0xFFFFFFFFFFFFFFFE
    bv_omega

/-- The kernel with other user memory and other descriptors of the current thread. -/
def withFiles (k : Kernel) (m : Mem) (u : FdTable) : Kernel :=
  { k with mem := m, tables := Function.update k.tables k.current u }

/-- Nothing is replaced by what is there. -/
theorem withFiles_self (k : Kernel) : withFiles k k.mem (k.tables k.current) = k := by
  rw [withFiles, Function.update_eq_self]

theorem withFiles_mem (m : Mem) (u : FdTable) : (withFiles k m u).mem = m := rfl

/-- A call of the current thread works on the table that was put in. -/
theorem withFiles_state (m : Mem) (u : FdTable) :
    (withFiles k m u).state = ⟨m, u, k.fs, k.world⟩ := by
  show (⟨m, Function.update k.tables k.current u k.current, k.fs, k.world⟩ : SyscallState World) = _
  rw [Function.update_self]

/-- A call that answers leaves the memory and the table it has worked on. -/
theorem withFiles_after (m m' : Mem) (u u' : FdTable) (n : Int) :
    (withFiles k m u).after (reply ⟨m', u', k.fs, k.world⟩ n) = withFiles k m' u' := by
  have h := after_reply (withFiles k m u) m' u' n
  rw [withFiles_state] at h
  refine h.trans ?_
  show ({ k with
    mem := m'
    tables := Function.update (Function.update k.tables k.current u) k.current u' } : Kernel) = _
  rw [Function.update_idem]
  rfl

/-- The kernel in the trial. -/
structure Trial (fs : Ramfs) (k : Kernel) : Prop where
  serves : Serves k.config k.world
  region : k.region = SMOKE_REGION
  files : k.fs = seedRamfs fs

/-- A call whose handler answers `n`. -/
theorem dispatch_reply {nr : U64} {i : Nat} {fn : SyscallFn World} (hnr : nr = BitVec.ofNat 64 i)
    (hi : i < 10) {m m' : Mem} {u u' : FdTable}
    (hfn : (gTable k.config stack)[i]? = some fn) {a b c : U64} {n : Int}
    (heq : fn a b c 0 0 0 ⟨m, u, k.fs, k.world⟩ = reply ⟨m', u', k.fs, k.world⟩ n) :
    dispatch stack nr a b c (withFiles k m u) = (n, withFiles k m' u') := by
  rw [dispatch_eq (k := withFiles k m u) hnr hi hfn, withFiles_state, heq, withFiles_after]
  rfl

/-- The open as a system call. -/
theorem call_open (h : Trial fs k) (stack : Nat → U8) {m : Mem} (hb : Buffers st m) :
    dispatch stack MCSOS_SYS_OPEN st.smokePath 10 (MCS_O_RDONLY.setWidth 64)
        (withFiles k m (mcsFdTableInit t))
      = (0, withFiles k m (helloOpen t 0)) := by
  refine dispatch_reply (i := 5) rfl (by decide) rfl ?_
  have hpath : PathBuffer k.config.region st.smokePath 10 := by
    show PathBuffer k.region st.smokePath 10
    rw [h.region]
    exact ⟨by decide, smoke_userBuffer hb.path_ne hb.path_fits (by decide) (by decide)⟩
  have hserves : Serves k.config
      (⟨m, mcsFdTableInit t, k.fs, k.world⟩ : SyscallState World).world := h.serves
  rw [sysOpen_eq hserves stack hpath]
  dsimp only
  rw [hb.path, h.files]
  rw [show (BitVec.setWidth 64 MCS_O_RDONLY).setWidth 32 = MCS_O_RDONLY from rfl, open_hello]
  rfl

/-- The read as a system call: the five bytes are in the trial's buffer. -/
theorem call_read (h : Trial fs k) (stack : Nat → U8) {m : Mem} (hb : Buffers st m) :
    ∃ m', CopiedOut m m' st.smokeBuf (fun i => (text "hello").getD i 0) 5 ∧
      dispatch stack MCSOS_SYS_READ 0 st.smokeBuf 5 (withFiles k m (helloOpen t 0))
        = (5, withFiles k m' (helloOpen t 5)) := by
  have hserves : Serves k.config
      (⟨m, helloOpen t 0, k.fs, k.world⟩ : SyscallState World).world := h.serves
  have hread : mcsVfsRead k.fs (helloOpen t 0) (toInt32 0) true 5
      = (.ok 5, text "hello", helloOpen t 5) := by
    rw [h.files]
    exact read_hello
  have hlen : (text "hello").length = 5 := by
    rw [start_chars]
    rfl
  -- the file has the bytes and the buffer is in the region, so the last case is the one
  rcases sysRead_cases hserves stack (show (5 : U64) ≤ 4096 by decide) 0 st.smokeBuf 0 0 0 with
    ⟨e, he, -⟩ | ⟨n, e, hn, ⟨hpos, hbad⟩, -⟩ | ⟨n, m', hn, heq, hcopied⟩
  · rw [hread] at he
    cases he
  · rw [hread] at hn
    cases hn
    have hbad : st.smokeBuf = 0 ∨ mcsosUserCheckRange k.region st.smokeBuf 5 = false := hbad
    rw [h.region] at hbad
    have huser := smoke_userBuffer hb.buf_ne hb.buf_fits (show (5 : U64) ≠ 0 from hpos) (by decide)
    obtain ⟨hne, hcheck⟩ := huser.resolve_left hpos
    rcases hbad with hnull | hfalse
    · exact absurd hnull hne
    · rw [hcheck] at hfalse
      cases hfalse
  · rw [hread] at hn heq hcopied
    cases hn
    rw [hlen] at hcopied
    exact ⟨m', hcopied, dispatch_reply (i := 6) rfl (by decide) rfl heq⟩

/-- The seek as a system call. -/
theorem call_lseek (h : Trial fs k) (stack : Nat → U8) (m : Mem) (offset : U64) :
    dispatch stack MCSOS_SYS_LSEEK 0 0 0 (withFiles k m (helloOpen t offset))
      = (0, withFiles k m (helloOpen t 0)) := by
  refine dispatch_reply (i := 8) rfl (by decide) rfl ?_
  have hserves : Serves k.config
      (⟨m, helloOpen t offset, k.fs, k.world⟩ : SyscallState World).world := h.serves
  rw [sysLseek_eq hserves]
  dsimp only
  rw [h.files]
  exact congrArg (fun r : Except VfsErr Int × FdTable =>
    reply (⟨m, r.2, seedRamfs fs, k.world⟩ : SyscallState World) (vfsReturn r.1))
    (seek_hello offset)

/-- The close as a system call. -/
theorem call_close (h : Trial fs k) (stack : Nat → U8) (m : Mem) (offset : U64) :
    dispatch stack MCSOS_SYS_CLOSE 0 0 0 (withFiles k m (helloOpen t offset))
      = (0, withFiles k m (mcsFdTableInit t)) := by
  refine dispatch_reply (i := 9) rfl (by decide) rfl ?_
  have hserves : Serves k.config
      (⟨m, helloOpen t offset, k.fs, k.world⟩ : SyscallState World).world := h.serves
  rw [sysClose_eq hserves]
  exact congrArg (fun r : Except VfsErr Unit × FdTable =>
    reply (⟨m, r.2, k.fs, k.world⟩ : SyscallState World) (vfsReturn (r.1.map fun _ => 0)))
    (close_hello offset)

/-- The trial as steps of the kernel. -/
def smokeOps (st : Statics) (stack : Nat → U8) : List KernelOp :=
  [.setUserRegion SMOKE_REGION,
    .call stack ⟨MCSOS_SYS_OPEN, st.smokePath, 10, MCS_O_RDONLY.setWidth 64, 0, 0, 0⟩,
    .call stack ⟨MCSOS_SYS_READ, 0, st.smokeBuf, 5, 0, 0, 0⟩,
    .call stack ⟨MCSOS_SYS_LSEEK, 0, 0, 0, 0, 0, 0⟩,
    .call stack ⟨MCSOS_SYS_CLOSE, 0, 0, 0, 0, 0, 0⟩,
    .setUserRegion USER_REGION]

/-- **M13**: the calls succeed and the bytes are right; the descriptors are as before, and
    memory is but for the buffer. -/
theorem vfsSyscallSmoke_ok (h : KernelInv k) (hfiles : k.fs = seedRamfs fs)
    (hclosed : k.tables k.current = mcsFdTableInit t) (hb : Buffers st k.mem)
    (stack : Nat → U8) :
    ∃ m', CopiedOut k.mem m' st.smokeBuf (fun i => (text "hello").getD i 0) 5 ∧
      Machine.exec kernelStep k (smokeOps st stack)
        = { k with mem := m', region := USER_REGION } ∧
      ∀ log, ∃ log', runs (kernelM13VfsSyscallSmoke st stack k) log
        = (.ok (Machine.exec kernelStep k (smokeOps st stack)), log') := by
  have htrial : Trial fs { k with region := SMOKE_REGION } :=
    ⟨⟨h.serves.table, h.serves.ramfs⟩, rfl, hfiles⟩
  have hself : { k with region := SMOKE_REGION }
      = withFiles { k with region := SMOKE_REGION } k.mem (mcsFdTableInit t) := by
    rw [← hclosed]
    exact (withFiles_self { k with region := SMOKE_REGION }).symm
  obtain ⟨m', hcopied, hread⟩ := call_read (t := t) htrial stack hb
  have hopen := call_open (t := t) htrial stack hb
  have hseek := call_lseek (t := t) htrial stack m' 5
  have hclose := call_close (t := t) htrial stack m' 0
  rw [← hself] at hopen
  -- the table is closed again, so only memory and region differ from before
  have hback : withFiles { k with region := SMOKE_REGION } m' (mcsFdTableInit t)
      = { k with mem := m', region := SMOKE_REGION } := by
    show ({ k with
      mem := m'
      region := SMOKE_REGION
      tables := Function.update k.tables k.current (mcsFdTableInit t) } : Kernel) = _
    rw [← hclosed, Function.update_eq_self]
  rw [hback] at hclose
  have hexec : Machine.exec kernelStep k (smokeOps st stack)
      = { k with mem := m', region := USER_REGION } := by
    show ({ (dispatch stack MCSOS_SYS_CLOSE 0 0 0 (dispatch stack MCSOS_SYS_LSEEK 0 0 0
      (dispatch stack MCSOS_SYS_READ 0 st.smokeBuf 5 (dispatch stack MCSOS_SYS_OPEN st.smokePath 10
        (MCS_O_RDONLY.setWidth 64) { k with region := SMOKE_REGION }).2).2).2).2 with
      region := USER_REGION } : Kernel) = _
    rw [hopen, hread, hseek, hclose]
  -- what the trial compares with its text
  have hbytes : (List.range 5).map (byteAt m' st.smokeBuf) = text "hello" := by
    rw [List.map_congr_left fun i hi => hcopied.bytes i (List.mem_range.mp hi), start_chars]
    rfl
  refine ⟨m', hcopied, hexec, fun log => ?_⟩
  unfold kernelM13VfsSyscallSmoke
  dsimp only
  rw [hexec, hopen]
  dsimp only
  rw [if_neg (by decide), runs_say, show BitVec.ofInt 64 0 = 0 from rfl, hread]
  dsimp only
  rw [if_neg (not_not_intro rfl), withFiles_mem, if_neg (not_not_intro hbytes), runs_say, hseek]
  dsimp only
  rw [if_neg (not_not_intro rfl), hclose]
  dsimp only
  rw [if_neg (not_not_intro rfl)]
  exact ⟨_, rfl⟩

end BootFile
