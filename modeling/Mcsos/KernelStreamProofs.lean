import Mcsos.KernelContentsProofs

/-! # A reader among other threads

    A thread that reads a file piece by piece sees a stream, although other threads
    run in between and use descriptors of their own on the same file: its offset
    is its own.  As long as the file keeps its contents, what the reads have
    delivered and what is left of the file are, one behind the other, what was
    left at the start.

    One thing breaks the stream: a read that is refused at the user's buffer has
    moved the offset already (`LosesBytes`).  A read that is refused for any other
    reason is harmless. -/

namespace KernelStream

open Word ByteMemory VfsModel VfsTree VfsInvariant SchedModel SyscallModel SyscallFailure
  SyscallEntryModel SyscallVfs KernelModel KernelVfs KernelContents

/-- The contents of file `i`. -/
def fileBytes (fs : Ramfs) (i : Nat) : List U8 :=
  (List.range (fs.nodes i).size.toNat).map fun j => fs.data ((fs.nodes i).dataOffset.toNat + j)

/-- A read of descriptor `fd` by thread `p`. -/
def ReadsStream (p : U64) (fd : Int) (k : Kernel) (f : SyscallFrame) : Prop :=
  k.current = p ∧ f.nr = MCSOS_SYS_READ ∧ toInt32 f.arg0 = fd

instance (p : U64) (fd : Int) (k : Kernel) (f : SyscallFrame) : Decidable (ReadsStream p fd k f) :=
  inferInstanceAs (Decidable (_ ∧ _))

/-- What a step puts into the buffer of the reader. -/
def deliveredStep (p : U64) (fd : Int) (k : Kernel) : KernelOp → List U8
  | .call stack f =>
      if ReadsStream p fd k f then
        (List.range (syscall stack f k).1.toNat).map
          (byteAt (syscall stack f k).2.mem f.arg1)
      else []
  | _ => []

/-- What the reads of a run have delivered, in order. -/
def delivered (p : U64) (fd : Int) : Kernel → List KernelOp → List U8
  | _, [] => []
  | k, op :: ops => deliveredStep p fd k op ++ delivered p fd (kernelStep k op).2 ops

/-- The step leaves the file as it is, no read of the reader is refused at the buffer it
    gives, and its other calls leave its descriptor where it is. -/
structure StreamStep (p : U64) (fd : Int) (i : Nat) (k : Kernel) (op : KernelOp) : Prop where
  file : fileBytes (kernelStep k op).2.fs i = fileBytes k.fs i
  own : ∀ stack f, op = .call stack f → k.current = p →
    if ReadsStream p fd k f then
      ∀ d i, ¬ LosesBytes k.config k.state f.arg0 f.arg1 f.arg2 d i
    else ((syscall stack f k).2.tables p).files fd.toNat = (k.tables p).files fd.toNat
  kept : ∀ trampoline entry base size, op ≠ .prepareThread trampoline p entry base size

/-- Every step of the run is one of these where it is made. -/
def StreamRun (p : U64) (fd : Int) (i : Nat) : Kernel → List KernelOp → Prop
  | _, [] => True
  | k, op :: ops => StreamStep p fd i k op ∧ StreamRun p fd i (kernelStep k op).2 ops

/-- Descriptor `fd` of thread `p` is open on file `i` at offset `o`. -/
structure OpenAt (p : U64) (fd : Int) (i : Nat) (k : Kernel) (o : Nat) : Prop where
  slot : mcsFdGet (k.tables p) fd = some fd.toNat
  node : ((k.tables p).files fd.toNat).node = some i
  offset : ((k.tables p).files fd.toNat).offset.toNat = o

variable {p : U64} {fd : Int} {i o : Nat} {k k' : Kernel}

/-- The reader's slot decides where it is in the file. -/
theorem OpenAt.congr (h : OpenAt p fd i k o)
    (hfile : (k'.tables p).files fd.toNat = (k.tables p).files fd.toNat) : OpenAt p fd i k' o := by
  refine ⟨?_, ?_, ?_⟩
  · have hslot := h.slot
    rw [mcsFdGet] at hslot ⊢
    rw [hfile]
    exact hslot
  · rw [hfile, h.node]
  · rw [hfile, h.offset]

/-- A slice of the contents. -/
theorem fileBytes_drop {fs : Ramfs} {n : Nat} (hn : n ≤ (fs.nodes i).size.toNat - o) :
    (fileBytes fs i).drop o
      = ((List.range n).map fun j => fs.data ((fs.nodes i).dataOffset.toNat + (o + j)))
        ++ (fileBytes fs i).drop (o + n) := by
  rw [← List.take_append_drop n ((fileBytes fs i).drop o), List.drop_drop]
  congr 1
  refine List.ext_getElem ?_ (fun j _ _ => ?_)
  · simp only [fileBytes, List.length_take, List.length_drop, List.length_map, List.length_range]
    exact Nat.min_eq_left hn
  · simp [fileBytes]

/-- **READ**: the reader gets the next bytes of its file. -/
theorem read_streams (h : KernelInv k) (hopen : OpenAt p fd i k o) {stack : Nat → U8}
    {f : SyscallFrame} (hreads : ReadsStream p fd k f) (hret : 0 ≤ (syscall stack f k).1) :
    ∃ o', OpenAt p fd i (syscall stack f k).2 o' ∧
      (fileBytes k.fs i).drop o = (List.range (syscall stack f k).1.toNat).map
          (byteAt (syscall stack f k).2.mem f.arg1) ++ (fileBytes k.fs i).drop o' := by
  obtain ⟨rfl, hnr, rfl⟩ := hreads
  obtain ⟨d, i', n, hn, hread⟩ := syscall_read h stack hnr hret
  obtain rfl : d = (toInt32 f.arg0).toNat := Option.some.inj (hread.slot.symm.trans hopen.slot)
  obtain rfl : i' = i := Option.some.inj (hread.node.symm.trans hopen.node)
  -- the read stops at the end of the file at the latest
  have hle : n ≤ (k.fs.nodes i').size.toNat - o := by
    rw [← hopen.offset, hread.count]
    exact Nat.min_le_right _ _
  have hfile : ((syscall stack f k).2.tables k.current).files (toInt32 f.arg0).toNat
      = { (k.tables k.current).files (toInt32 f.arg0).toNat with
          offset := ((k.tables k.current).files (toInt32 f.arg0).toNat).offset
            + BitVec.ofNat 64 n } := by
    rw [hread.moved, setFile_file, if_pos rfl]
  have hbytes : (List.range n).map (byteAt (syscall stack f k).2.mem f.arg1)
      = (List.range n).map fun j => k.fs.data ((k.fs.nodes i').dataOffset.toNat + (o + j)) := by
    refine List.map_congr_left (fun j hj => ?_)
    rw [hread.bytes j (List.mem_range.mp hj), hopen.offset]
  refine ⟨o + n, ⟨?_, ?_, ?_⟩, ?_⟩
  · have hslot := hopen.slot
    rw [mcsFdGet] at hslot ⊢
    rw [hfile]
    exact hslot
  · rw [hfile]
    exact hopen.node
  · rw [hfile]
    have hoffset := hopen.offset
    have hsize := (k.fs.nodes i').size.isLt
    bv_omega
  · rw [hn, Int.toNat_natCast, hbytes]
    exact fileBytes_drop hle

/-- A read that fails leaves the descriptors alone, unless it loses its bytes. -/
theorem read_refused {stack : Nat → U8} {f : SyscallFrame}
    (hnr : f.nr = MCSOS_SYS_READ)
    (hno : ∀ d i, ¬ LosesBytes k.config k.state f.arg0 f.arg1 f.arg2 d i)
    (hret : (syscall stack f k).1 < 0) (p : U64) :
    (syscall stack f k).2.tables p = k.tables p := by
  have hdispatch : dispatchFrame k.config stack f k.state
      = sysRead k.config stack f.arg0 f.arg1 f.arg2 f.arg3 f.arg4 f.arg5 k.state :=
    dispatchFrame_eq hnr (by decide) rfl
  have hsys : syscall stack f k = ((dispatchFrame k.config stack f k.state).ret,
    k.after (dispatchFrame k.config stack f k.state)) := rfl
  rw [hsys, hdispatch] at hret ⊢
  have htable : (sysRead k.config stack f.arg0 f.arg1 f.arg2 f.arg3 f.arg4 f.arg5
      k.state).state.table = k.state.table := by
    by_cases hfile : ∃ d i, ReadsFile k.config k.state f.arg0 f.arg2 d i
    · -- the file was reached, so it is the buffer that was refused
      obtain ⟨d, i, hreads⟩ := hfile
      have hbad := (sysRead_file stack f.arg1 f.arg3 f.arg4 f.arg5 hreads).2.mp hret
      exact absurd ((losesBytes_iff hreads).mpr hbad) (hno d i)
    · exact (sysRead_refused stack f.arg1 f.arg3 f.arg4 f.arg5 hfile).1
  show Function.update k.tables k.current _ p = _
  rw [htable]
  exact congrFun (Function.update_eq_self k.current k.tables) p

/-- **STEP**: one step of the kernel delivers a piece of the file, or none, and leaves the
    reader's descriptor right behind it. -/
theorem step_streams (h : KernelInv k) (hopen : OpenAt p fd i k o) {op : KernelOp}
    (hop : StreamStep p fd i k op) :
    ∃ o', OpenAt p fd i (kernelStep k op).2 o' ∧
      (fileBytes k.fs i).drop o = deliveredStep p fd k op ++ (fileBytes k.fs i).drop o' := by
  -- the reader's own reads move its descriptor; nothing else does
  have hstays : ((kernelStep k op).2.tables p).files fd.toNat = (k.tables p).files fd.toNat →
      deliveredStep p fd k op = [] →
      ∃ o', OpenAt p fd i (kernelStep k op).2 o' ∧
        (fileBytes k.fs i).drop o = deliveredStep p fd k op ++ (fileBytes k.fs i).drop o' := by
    intro hfile hnone
    exact ⟨o, hopen.congr hfile, by rw [hnone, List.nil_append]⟩
  cases op with
  | call stack f =>
      by_cases hreads : ReadsStream p fd k f
      · have hno := hop.own stack f rfl hreads.1
        rw [if_pos hreads] at hno
        by_cases hret : 0 ≤ (syscall stack f k).1
        · rw [deliveredStep, if_pos hreads]
          exact read_streams h hopen hreads hret
        · have hneg : (syscall stack f k).1 < 0 := Int.not_le.mp hret
          refine hstays ?_ ?_
          · show ((syscall stack f k).2.tables p).files fd.toNat = _
            rw [read_refused hreads.2.1 hno hneg]
          · rw [deliveredStep, if_pos hreads, Int.toNat_of_nonpos (Int.le_of_lt hneg)]
            rfl
      · refine hstays ?_ (if_neg hreads)
        by_cases hcurrent : k.current = p
        · have hfile := hop.own stack f rfl hcurrent
          rw [if_neg hreads] at hfile
          exact hfile
        · have htable : (syscall stack f k).2.tables p = k.tables p :=
            Function.update_of_ne (Ne.symm hcurrent) _ _
          show ((syscall stack f k).2.tables p).files fd.toNat = _
          rw [htable]
  | prepareThread trampoline q entry base size =>
      refine hstays ?_ rfl
      have hne : p ≠ q := by
        rintro rfl
        exact hop.kept trampoline entry base size rfl
      show ((prepareThread trampoline q entry base size k).tables p).files fd.toNat = _
      rw [prepareThread]
      split
      · rename_i threads _
        have htable : ((k.setThreads threads).clearTable q).tables p = k.tables p :=
          Function.update_of_ne hne _ _
        rw [htable]
      · rfl
  | compute | enqueue | yield | blockCurrent | markReady | tick | setUserRegion | seedFile =>
      exact hstays rfl rfl

/-- **RUN**: the pieces that the steps deliver join up, by induction on the run. -/
theorem run_streams (ops : List KernelOp) :
    ∀ {k : Kernel} {o : Nat}, KernelInv k → OpenAt p fd i k o → StreamRun p fd i k ops →
      ∃ o', OpenAt p fd i (Machine.exec kernelStep k ops) o' ∧
        (fileBytes k.fs i).drop o = delivered p fd k ops ++ (fileBytes k.fs i).drop o' := by
  induction ops with
  | nil => intro k o _ hopen _; exact ⟨o, hopen, rfl⟩
  | cons op ops ih =>
      intro k o h hopen hrun
      obtain ⟨o₁, hopen₁, hstep⟩ := step_streams h hopen hrun.1
      obtain ⟨o₂, hopen₂, hrest⟩ := ih (kernelStep_inv h op) hopen₁ hrun.2
      rw [hrun.1.file] at hrest
      refine ⟨o₂, hopen₂, ?_⟩
      rw [hstep, hrest, delivered, List.append_assoc]

/-- **STREAM**: thread `p` reads file `i` through descriptor `fd`, starting at offset `o`.
    Whatever other threads do in between that leaves the contents of the file alone, and as
    long as none of its reads is refused at the buffer it gives, its reads deliver the rest
    of the file in order: no byte is lost, none comes twice. -/
theorem reader_stream {k₀ : Kernel} (hblank : Blank k₀) {boot : U64} (hboot : boot ≠ 0)
    (before ops : List KernelOp)
    (hopen : OpenAt p fd i (Machine.exec kernelStep (kernelInit boot k₀) before) o)
    (hrun : StreamRun p fd i (Machine.exec kernelStep (kernelInit boot k₀) before) ops) :
    ∃ o', OpenAt p fd i (Machine.exec kernelStep (kernelInit boot k₀) (before ++ ops)) o' ∧
      (fileBytes (Machine.exec kernelStep (kernelInit boot k₀) before).fs i).drop o
        = delivered p fd (Machine.exec kernelStep (kernelInit boot k₀) before) ops
          ++ (fileBytes (Machine.exec kernelStep (kernelInit boot k₀) before).fs i).drop o' := by
  rw [Machine.exec_append]
  exact run_streams ops (kernel_inv hblank hboot before) hopen hrun

/-- `read(0, 0x500000, len)`. -/
def readOp (len : U64) : KernelOp := .call (fun _ => 0) ⟨MCSOS_SYS_READ, 0, 0x500000, len, 0, 0, 0⟩

/-- The two threads of `twoThreadRun` take turns, each with a read of one byte; in between
    one read is refused because it asks for too much. -/
def turns : List KernelOp := [readOp 1, .yield, readOp 1, .yield, readOp 5000, readOp 1]

/-- One byte fits into a buffer that passes the check, and 5000 are refused before it. -/
theorem readOp_keeps {len : U64} (hlen : len = 1 ∨ 4096 < len)
    (hbuf : mcsosUserCheckRange k.region 0x500000 1 = true) (d i : Nat) :
    ¬ LosesBytes k.config k.state 0 0x500000 len d i := by
  intro hloses
  rcases hlen with rfl | hlong
  · have hone : mcsMinSize 1 ((k.state.fs.nodes i).size - (k.state.table.files d).offset) = 1 := by
      have hmore := hloses.more
      rw [mcsMinSize]
      split
      · rfl
      · bv_omega
    rcases hloses.refused with hnull | hcheck
    · exact absurd hnull (by decide)
    · rw [hone] at hcheck
      exact Bool.false_ne_true (hcheck.symm.trans hbuf)
  · exact BitVec.not_lt.mpr hloses.short hlong

/-- Reading into the example's buffer is such a step, also with a length that is refused. -/
theorem streamStep_readOp {len : U64} (hlen : len = 1 ∨ 4096 < len)
    (hfile : fileBytes (kernelStep k (readOp len)).2.fs i = fileBytes k.fs i)
    (hown : toInt32 0 = fd ∧ mcsosUserCheckRange k.region 0x500000 1 = true) :
    StreamStep p fd i k (readOp len) := by
  refine ⟨hfile, ?_, ?_⟩
  · intro stack f h hcurrent
    cases h
    rw [if_pos ⟨hcurrent, rfl, hown.1⟩]
    exact readOp_keeps hlen hown.2
  · intro _ _ _ _ h
    cases h

/-- A yield is such a step. -/
theorem streamStep_yield : StreamStep p fd i k .yield := by
  refine ⟨rfl, ?_, ?_⟩
  · intro stack f h
    cases h
  · intro _ _ _ _ h
    cases h

/-- Two threads take turns; the reader gets both bytes of the file, although one of its reads is
    refused. -/
theorem reader_stream_turns :
    delivered 0x20 0 (Machine.exec kernelStep (kernelInit 0x10 emptyKernel) twoThreadRun) turns
      = [slash, 0x61] ∧
    ∃ o', OpenAt 0x20 0 1 (Machine.exec kernelStep (kernelInit 0x10 emptyKernel)
      (twoThreadRun ++ turns)) o' ∧
      (fileBytes (Machine.exec kernelStep (kernelInit 0x10 emptyKernel) twoThreadRun).fs 1).drop 0
        = [slash, 0x61]
          ++ (fileBytes (Machine.exec kernelStep (kernelInit 0x10 emptyKernel) twoThreadRun).fs
            1).drop o' := by
  have hopen : OpenAt 0x20 0 1
      (Machine.exec kernelStep (kernelInit 0x10 emptyKernel) twoThreadRun) 0 :=
    ⟨by decide +kernel, by decide +kernel, by decide +kernel⟩
  have hrun : StreamRun 0x20 0 1
      (Machine.exec kernelStep (kernelInit 0x10 emptyKernel) twoThreadRun) turns :=
    ⟨streamStep_readOp (by decide) (by decide +kernel) (by decide +kernel), streamStep_yield,
      streamStep_readOp (by decide) (by decide +kernel) (by decide +kernel), streamStep_yield,
      streamStep_readOp (by decide) (by decide +kernel) (by decide +kernel),
      streamStep_readOp (by decide) (by decide +kernel) (by decide +kernel), trivial⟩
  have hall : delivered 0x20 0
      (Machine.exec kernelStep (kernelInit 0x10 emptyKernel) twoThreadRun) turns
        = [slash, 0x61] := by
    decide +kernel
  obtain ⟨o', hopen', hrest⟩ := reader_stream emptyKernel_blank (show (0x10 : U64) ≠ 0 by decide)
    twoThreadRun turns hopen hrun
  rw [hall] at hrest
  exact ⟨hall, o', hopen', hrest⟩

end KernelStream
