import Mcsos.KernelVfsProofs

/-! # Data between threads

    A byte that one thread writes to a file comes from its user memory, and a
    byte that another thread reads goes to its own.  `writtenAfter` is the map of
    `VfsContents` for a whole run of the kernel: for each position of each file
    the byte last written there, by whichever thread. -/

namespace KernelContents

open Word ByteMemory VfsModel VfsTree VfsInvariant VfsContents SchedModel SyscallModel
  SyscallEntryModel SyscallConfinement SyscallFailure SyscallVfs KernelModel KernelVfs

/-! ## What a run has written -/

/-- What a step writes to files: the bytes in user memory for a write, nothing for most. -/
def writtenStep (k : Kernel) (G : Stored) (op : KernelOp) : Stored :=
  match vfsOp k op with
  | some call => storedStep (view k) G call
  | none => G

/-- The bytes written over a run. -/
def writtenAfter : Kernel → Stored → List KernelOp → Stored
  | _, G, [] => G
  | k, G, op :: ops => writtenAfter (kernelStep k op).2 (writtenStep k G op) ops

variable {k : Kernel} {G : Stored}

/-- The ramfs after a step. -/
theorem kernelStep_fs (h : KernelInv k) (op : KernelOp) :
    (kernelStep k op).2.fs = (vfsAfter (view k) (vfsOp k op)).fs := by
  cases op with
  | call stack f => exact congrArg VfsState.fs (syscall_view h stack f).2
  | prepareThread trampoline p entry stackBase stackSize =>
      show (prepareThread trampoline p entry stackBase stackSize k).fs = k.fs
      rw [prepareThread]
      split <;> rfl
  | compute | enqueue | yield | blockCurrent | markReady | tick | setUserRegion | seedFile => rfl

/-- **STEP**: after a step the ramfs holds the record of what was written, with what this
    step has written. -/
theorem agrees_kernelStep (h : KernelInv k) (hG : Agrees k.fs G) (op : KernelOp) :
    Agrees (kernelStep k op).2.fs (writtenStep k G op) := by
  rw [kernelStep_fs h, writtenStep]
  cases vfsOp k op with
  | none => exact hG
  | some call => exact agrees_step h.vfs hG call

/-- **RUN**: over any run the ramfs holds at every position the byte written there last. -/
theorem agrees_kernelRun (ops : List KernelOp) :
    ∀ {k : Kernel} {G : Stored}, KernelInv k → Agrees k.fs G →
      Agrees (Machine.exec kernelStep k ops).fs (writtenAfter k G ops) := by
  induction ops with
  | nil => intro k G _ hG; exact hG
  | cons op ops ih =>
      intro k G h hG
      exact ih (kernelStep_inv h op) (agrees_kernelStep h hG op)

/-! ## A read -/

/-- A read that answers a count has found an open file, has delivered that many of its bytes
    to user memory and has moved the descriptor. -/
structure ReadsUser (k : Kernel) (f : SyscallFrame) (r : Int × Kernel) (d i : Nat) (n : Nat) :
    Prop where
  slot : mcsFdGet (k.tables k.current) (toInt32 f.arg0) = some d
  node : ((k.tables k.current).files d).node = some i
  count : n = min f.arg2.toNat
    ((k.fs.nodes i).size.toNat - ((k.tables k.current).files d).offset.toNat)
  bytes : ∀ j, j < n → byteAt r.2.mem f.arg1 j = k.fs.data ((k.fs.nodes i).dataOffset.toNat
    + (((k.tables k.current).files d).offset.toNat + j))
  others : ∀ a, (∀ j, j < n → a ≠ f.arg1 + BitVec.ofNat 64 j) → r.2.mem a = k.mem a
  moved : r.2.tables k.current = setFile (k.tables k.current) d
    { (k.tables k.current).files d with
      offset := ((k.tables k.current).files d).offset + BitVec.ofNat 64 n }
  fs : r.2.fs = k.fs

/-- What a read that is done has done. -/
theorem readsUser_of_copied (h : KernelInv k) {f : SyscallFrame} {n : Int} {mem : Mem}
    {r : SyscallResult World} (hlen : f.arg2 ≤ 4096)
    (hres : (mcsVfsRead k.fs (k.tables k.current) (toInt32 f.arg0) true f.arg2).1 = .ok n)
    (hr : r = reply { k.state with
      table := (mcsVfsRead k.fs (k.tables k.current) (toInt32 f.arg0) true f.arg2).2.2
      mem := mem } n)
    (hcopied : CopiedOut k.mem mem f.arg1
      (fun i => (mcsVfsRead k.fs (k.tables k.current) (toInt32 f.arg0) true f.arg2).2.1.getD i 0)
      (mcsVfsRead k.fs (k.tables k.current) (toInt32 f.arg0) true f.arg2).2.1.length) :
    ∃ d i n, r.ret = (n : Nat) ∧ ReadsUser k f (r.ret, k.after r) d i n := by
  have htable : (view k).tables k.current.toNat = k.state.table := view_table h.current
  have hcount := (mcsVfsRead_count hlen hres).1
  have hstep : (vfsStep (view k) (.vfsRead k.current.toNat (toInt32 f.arg0) true f.arg2)).1
      = (.ok n, (mcsVfsRead k.fs (k.tables k.current) (toInt32 f.arg0) true f.arg2).2.1) := by
    rw [vfsStep_read (s := k.state) rfl htable]
    exact congrArg (·, _) hres
  -- the file system's read and the copy to the user are about the same bytes
  rcases mcsVfsRead_cases k.fs (k.tables k.current) (toInt32 f.arg0) true f.arg2 with
    ⟨e, heq⟩ | ⟨d, t, hreads, heq⟩
  · rw [heq] at hres
    cases hres
  have hbytes := fun j => read_byte h.vfs (d := d) (f := t.node) (k := j) hstep
    (htable ▸ hreads.slot) (htable ▸ hreads.node)
  rw [heq] at hres hr hcopied hcount hbytes
  have hlength : ((List.range t.len.toNat).map fun i => k.fs.data (t.start k.fs + i)).length
      = t.len.toNat := by
    rw [List.length_map, List.length_range]
  dsimp only at hr hcopied hcount hbytes
  rw [hlength] at hcopied hcount hbytes
  rw [htable] at hbytes
  refine ⟨d, t.node, t.len.toNat, ?_, hreads.slot, hreads.node, hreads.count_toNat, ?_, ?_, ?_, ?_⟩
  · show r.ret = _
    rw [hr, hcount]
    rfl
  · intro j hj
    show byteAt r.state.mem f.arg1 j = _
    rw [hr]
    exact (hcopied.bytes j hj).trans (hbytes j hj).2.2
  · intro a ha
    show r.state.mem a = _
    rw [hr]
    exact hcopied.others a ha
  · show Function.update k.tables k.current r.state.table k.current = _
    rw [Function.update_self, hr, BitVec.ofNat_toNat, BitVec.setWidth_eq]
    rfl
  · show r.state.fs = _
    rw [hr]
    rfl

/-- A read that answers a count has delivered that many bytes of an open file. -/
theorem syscall_read (h : KernelInv k) (stack : Nat → U8) {f : SyscallFrame}
    (hnr : f.nr = MCSOS_SYS_READ) (hret : 0 ≤ (syscall stack f k).1) :
    ∃ d i n, (syscall stack f k).1 = (n : Nat) ∧ ReadsUser k f (syscall stack f k) d i n := by
  have hdispatch : dispatchFrame k.config stack f k.state
      = sysRead k.config stack f.arg0 f.arg1 f.arg2 f.arg3 f.arg4 f.arg5 k.state :=
    dispatchFrame_eq hnr (by decide) rfl
  have hsys : syscall stack f k = ((dispatchFrame k.config stack f k.state).ret,
    k.after (dispatchFrame k.config stack f k.state)) := rfl
  rw [hsys, hdispatch] at hret ⊢
  by_cases hlen : f.arg2 ≤ 4096
  · -- every refusal is a negative answer
    rcases sysRead_cases h.serves stack hlen f.arg0 f.arg1 f.arg3 f.arg4 f.arg5 with
      ⟨e, hres, hr⟩ | ⟨n, e, hres, -, hr⟩ | ⟨n, mem, hres, hr, hcopied⟩
    · rw [hr] at hret
      exact absurd (vfsStatus_neg e) (Int.not_lt.mpr hret)
    · rw [hr] at hret
      exact absurd (syscallErr_neg e) (Int.not_lt.mpr hret)
    · exact readsUser_of_copied h hlen hres hr hcopied
  · rw [sysRead_long h.serves stack hlen] at hret
    exact absurd (syscallErr_neg .einval) (Int.not_lt.mpr hret)

/-- **LAST WRITER ACROSS THREADS**: whatever has happened since boot, a read that answers a
    count `n` has come to an open file `i` of the thread that is current and delivers what is
    left of it, up to the length asked for.  Each byte that any thread has written at such a
    position, and that nothing has replaced since, is then in the reader's buffer as it was
    in the writer's memory; no other byte of memory changes. -/
theorem read_last_written {k₀ : Kernel} (hblank : Blank k₀) {boot : U64} (hboot : boot ≠ 0)
    (ops : List KernelOp) (stack : Nat → U8) {f : SyscallFrame} (hnr : f.nr = MCSOS_SYS_READ) :
    let k := Machine.exec kernelStep (kernelInit boot k₀) ops
    0 ≤ (syscall stack f k).1 →
    ∃ d i n, (syscall stack f k).1 = (n : Nat) ∧
      mcsFdGet (k.tables k.current) (toInt32 f.arg0) = some d ∧
      ((k.tables k.current).files d).node = some i ∧
      n = min f.arg2.toNat
        ((k.fs.nodes i).size.toNat - ((k.tables k.current).files d).offset.toNat) ∧
      (∀ j b, j < n →
        writtenAfter (kernelInit boot k₀) (fun _ _ => none) ops i
          (((k.tables k.current).files d).offset.toNat + j) = some b →
        byteAt (syscall stack f k).2.mem f.arg1 j = b) ∧
      ∀ a, (∀ j, j < n → a ≠ f.arg1 + BitVec.ofNat 64 j) →
        (syscall stack f k).2.mem a = k.mem a := by
  intro k hret
  have h : KernelInv k := kernel_inv hblank hboot ops
  have hG : Agrees k.fs (writtenAfter (kernelInit boot k₀) (fun _ _ => none) ops) := by
    refine agrees_kernelRun ops (kernelInit_inv hblank hboot) (fun i p b hb => ?_)
    cases hb
  obtain ⟨d, i, n, hn, hread⟩ := syscall_read h stack hnr hret
  refine ⟨d, i, n, hn, hread.slot, hread.node, hread.count, fun j b hj hb => ?_, hread.others⟩
  obtain ⟨-, -, hdata⟩ := hG i _ b hb
  rw [hread.bytes j hj, hdata]

/-- `read(0, 0x500000, 16)`. -/
def readFrame : SyscallFrame := ⟨MCSOS_SYS_READ, 0, 0x500000, 16, 0, 0, 0⟩

/-- Thread 0x20 reads what thread 0x10 has written. -/
def readerKernel : Kernel := Machine.exec kernelStep (kernelInit 0x10 emptyKernel) twoThreadRun

/-- Thread 0x20 reads what the boot thread has written. -/
theorem read_last_written_two :
    (syscall (fun _ => 0) readFrame readerKernel).1 = 2 ∧
    byteAt (syscall (fun _ => 0) readFrame readerKernel).2.mem 0x500000 1 = 0x61 := by
  have hret : (syscall (fun _ => 0) readFrame readerKernel).1 = 2 := by decide +kernel
  have hslot : mcsFdGet (readerKernel.tables readerKernel.current) (toInt32 readFrame.arg0)
      = some 0 := by decide +kernel
  have hnode : ((readerKernel.tables readerKernel.current).files 0).node = some 1 := by
    decide +kernel
  have hwritten : writtenAfter (kernelInit 0x10 emptyKernel) (fun _ _ => none) twoThreadRun 1
      (((readerKernel.tables readerKernel.current).files 0).offset.toNat + 1) = some 0x61 := by
    decide +kernel
  obtain ⟨d, i, n, hn, hd, hi, -, hbytes, -⟩ := read_last_written emptyKernel_blank
    (show (0x10 : U64) ≠ 0 by decide) twoThreadRun (fun _ => 0) (f := readFrame) rfl
    (show 0 ≤ (syscall (fun _ => 0) readFrame readerKernel).1 by rw [hret]; decide)
  rw [← readerKernel] at hn hd hi hbytes
  obtain rfl : d = 0 := Option.some.inj (hd.symm.trans hslot)
  obtain rfl : i = 1 := Option.some.inj (hi.symm.trans hnode)
  have hcount : ((n : Nat) : Int) = 2 := hn.symm.trans hret
  exact ⟨hret, hbytes 1 0x61 (by omega) hwritten⟩

end KernelContents
