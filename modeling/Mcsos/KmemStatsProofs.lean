import Mcsos.KmemCoalesceProofs

/-! # When a request is served

    `kmem_get_stats` walks the block list on its own and reports the size of the
    largest free block.  A request is served exactly if its size, rounded up, is
    no larger than that.  It takes the first free block that is large enough,
    and what is left of that block stays one free block unless it is too small
    to be worth a header.

    The request that wraps (`KmemWrap`) is served as well, but leaves behind it a
    block that does not exist. -/

namespace KmemStats

open Word ByteMemory KmemModel KmemHeader KmemList KmemAlloc KmemFree KmemInit KmemRunModel KmemRun
open KmemWrap KmemCoalesce

variable {lo hi : Nat} {s : KmemState} {bs : List Block} {b : Block} {m : Mem} {p : U64}
variable {c : KmemSys} {n : U64}

/-! ## The statistics -/

/-- The walk of `kmem_get_stats`, over the blocks of the list. -/
def countBlocks (out : KmemModel.KmemStats) (bs : List Block) : KmemModel.KmemStats :=
  bs.foldl (fun out b => countBlock out b.size b.free) out

/-- The loop counts the blocks that the headers link. -/
theorem statsLoop_eq (rounds : Nat) (out : KmemModel.KmemStats) (hL : Layout lo hi bs)
    (hs : Seg m p bs 0) (hr : bs.length < rounds) :
    statsLoop m rounds (nextAddr bs 0) out = some (countBlocks out bs) := by
  induction bs generalizing lo p rounds out with
  | nil =>
      cases rounds with
      | zero => exact absurd hr (Nat.not_lt_zero _)
      | succ rounds => exact if_pos rfl
  | cons b bs ih =>
      cases rounds with
      | zero => exact absurd hr (Nat.not_lt_zero _)
      | succ rounds =>
          have hf := header_fields hs.1
          show statsLoop m (rounds + 1) b.addr out = _
          rw [statsLoop, if_neg (hL.ne_zero (List.mem_cons_self ..)), hf.next, hf.size,
              decide_free hf, ih rounds _ hL.tail hs.2 (Nat.lt_of_succ_lt_succ hr)]
          rfl

/-- `kmem_get_stats` ends, with the counts of the blocks. -/
theorem kmemGetStats_eq (h : Heap s bs) :
    kmemGetStats s = some (countBlocks ⟨s.gHeapEnd - s.gHeapBase, 0, 0, 0, 0, 0⟩ bs) := by
  rw [kmemGetStats, h.init, if_neg (by decide), ← h.nextAddr_eq]
  exact statsLoop_eq ROUNDS _ h.layout h.linked h.layout.length_lt

/-- A block that serves a request for `wanted` bytes. -/
def Serves (wanted : Nat) (b : Block) : Prop := b.free = true ∧ wanted ≤ b.size.toNat

/-- The largest free payload so far. -/
theorem le_countBlock (out : KmemModel.KmemStats) (b : Block) (wanted : Nat) :
    wanted ≤ (countBlock out b.size b.free).largestFree.toNat ↔
      wanted ≤ out.largestFree.toNat ∨ Serves wanted b := by
  rw [countBlock, Serves]
  cases b.free with
  | false => simp
  | true =>
      by_cases hlarge : b.size > out.largestFree
      · have hlt : out.largestFree.toNat < b.size.toNat := hlarge
        simp only [if_true, if_pos hlarge, true_and]
        omega
      · have hle : b.size.toNat ≤ out.largestFree.toNat := Nat.le_of_not_lt hlarge
        simp only [if_true, if_neg hlarge, true_and]
        omega

/-- **LARGEST FREE**: it is the size of the largest block that serves anything. -/
theorem le_largestFree (out : KmemModel.KmemStats) (bs : List Block) (wanted : Nat) :
    wanted ≤ (countBlocks out bs).largestFree.toNat ↔
      wanted ≤ out.largestFree.toNat ∨ ∃ b ∈ bs, Serves wanted b := by
  induction bs generalizing out with
  | nil => simp [countBlocks]
  | cons b bs ih =>
      refine (ih (countBlock out b.size b.free)).trans ?_
      rw [le_countBlock, List.exists_mem_cons_iff, or_assoc]

/-- The walk starts with no free block at all. -/
theorem le_largestFree_fresh {wanted : Nat} (hpos : 16 ≤ wanted) (total : U64) (bs : List Block) :
    wanted ≤ (countBlocks ⟨total, 0, 0, 0, 0, 0⟩ bs).largestFree.toNat ↔
      ∃ b ∈ bs, Serves wanted b := by
  rw [le_largestFree, or_iff_right]
  have hzero : (0 : U64).toNat = 0 := rfl
  show ¬ wanted ≤ (0 : U64).toNat
  omega

/-! ## A request that is served -/

/-- The size a request is rounded up to. -/
def rounded (n : U64) : Nat := (n.toNat + 15) / 16 * 16

/-- What is put in the place of the block `b`: the block handed out, and behind it
    what is left of `b`, if that is worth a header. -/
structure Placement (wanted : Nat) (b taken : Block) (rest : List Block) : Prop where
  addr : taken.addr = b.addr
  used : taken.free = false
  lower : wanted ≤ taken.size.toNat
  upper : taken.size.toNat ≤ wanted + 80
  rest : (rest = [] ∧ taken.size = b.size) ∨
    ∃ r : Block, rest = [r] ∧ r.free = true ∧
      r.addr.toNat = taken.addr.toNat + 48 + taken.size.toNat ∧ 48 ≤ r.size.toNat ∧
      taken.size.toNat + 48 + r.size.toNat = b.size.toNat

/-- A request for `n` bytes does what the statistics say. -/
def AllocExact (s : KmemState) (n : U64) : Prop :=
  ∃ stats bs p s', kmemGetStats s = some stats ∧ kmemBlocks s = some bs ∧
    kmemAlloc s n = some (p, s') ∧
    (p ≠ 0 ↔ 0 < n.toNat ∧ n.toNat ≤ 2 ^ 64 - 1 - 15 ∧
      rounded n ≤ stats.largestFree.toNat) ∧
    (p = 0 → s' = s) ∧
    (p ≠ 0 → ∃ pre b post taken rest, bs = pre ++ b :: post ∧ p = kmemPayload b.addr ∧
      Serves (rounded n) b ∧ (∀ d ∈ bs, Serves (rounded n) d → b.addr.toNat ≤ d.addr.toNat) ∧
      Placement (rounded n) b taken rest ∧
      kmemBlocks s' = some (pre ++ (taken :: rest ++ post)))

/-- A request is rounded up to a multiple of 16. -/
theorem request_rounded {wanted : U64} (h : Request n wanted) :
    0 < n.toNat ∧ n.toNat ≤ 2 ^ 64 - 1 - 15 ∧ wanted.toNat = KmemStats.rounded n := by
  have hpos := h.pos
  have heq := h.eq
  rcases kmemAlignUpSize_cases n with ⟨-, hzero⟩ | ⟨hle, hval⟩
  · rw [heq, hzero] at hpos
    exact absurd hpos (by decide)
  · rw [← heq] at hval
    refine ⟨?_, by omega, hval⟩
    omega

/-- Every size but 0 and the fifteen largest is a request. -/
theorem request_of_le (hpos : 0 < n.toNat) (hle : n.toNat ≤ 2 ^ 64 - 1 - 15) :
    Request n (kmemAlignUpSize n KMEM_ALIGN) := by
  rcases kmemAlignUpSize_cases n with ⟨hbig, -⟩ | ⟨-, hval⟩
  · omega
  · exact ⟨show _ % 16 = 0 by omega, by omega, by omega, rfl⟩

/-- What the allocator puts in place is a placement. -/
theorem placement_placed {wanted : U64} (hL : Layout lo hi (b :: bs)) (hw : Aligned wanted)
    (hle : wanted.toNat ≤ b.size.toNat) :
    ∃ rest, placed b wanted = taken b wanted :: rest ∧
      Placement wanted.toNat b (taken b wanted) rest := by
  have hw' : wanted.toNat % 16 = 0 := hw
  have hsize := hL.sizes b (List.mem_cons_self ..)
  have hmem := hL.mem (List.mem_cons_self ..)
  have htop := hL.top
  -- a rest of up to 80 bytes stays with the block
  by_cases hsmall : b.size.toNat ≤ wanted.toNat + 80
  · refine ⟨[], by rw [placed, taken, if_pos hsmall, if_pos hsmall], taken_addr b wanted,
      taken_free b wanted, ?_, ?_, Or.inl ⟨rfl, ?_⟩⟩
    · exact le_taken_size (show wanted ≤ b.size from hle)
    · rw [taken, if_pos hsmall]
      exact hsmall
    · rw [taken, if_pos hsmall]
  · have hnew : (b.addr + 48 + wanted).toNat = b.addr.toNat + 48 + wanted.toNat := by bv_omega
    have hrest : (b.size - wanted - 48).toNat = b.size.toNat - wanted.toNat - 48 := by bv_omega
    refine ⟨[⟨b.addr + HEADER + wanted, b.size - wanted - HEADER, true⟩],
      by rw [placed, taken, if_neg hsmall, if_neg hsmall], taken_addr b wanted,
      taken_free b wanted, ?_, ?_, Or.inr ⟨_, rfl, rfl, ?_⟩⟩
    · exact le_taken_size (show wanted ≤ b.size from hle)
    · rw [taken, if_neg hsmall]
      exact Nat.le_add_right _ _
    · rw [taken, if_neg hsmall]
      refine ⟨hnew, ?_, ?_⟩
      · show 48 ≤ (b.size - wanted - 48).toNat
        omega
      · show wanted.toNat + 48 + (b.size - wanted - 48).toNat = b.size.toNat
        omega

/-- The first block that serves is the lowest. -/
theorem lowest_of_first {pre post : List Block} (hL : Layout lo hi (pre ++ b :: post))
    {wanted : Nat} (hpre : ∀ d ∈ pre, ¬ Serves wanted d) {d : Block} (hd : d ∈ pre ++ b :: post)
    (hserves : Serves wanted d) : b.addr.toNat ≤ d.addr.toNat := by
  obtain ⟨mid, -, hmid, -, -⟩ := hL.split
  have hb : b.addr.toNat = mid := hmid.tiles.1
  rcases List.mem_append.mp hd with hd | hd
  · exact absurd hserves (hpre d hd)
  · have hmem := hmid.mem hd
    omega

/-- **SERVED AS REPORTED**, on a heap that is in order. -/
theorem allocExact_of_not_wraps (h : Heap c.heap bs) (howned : Owned c.live bs)
    (hno : ¬ Wraps c n) : AllocExact c.heap n := by
  rcases kmemAlloc_cases h n with ⟨hrun, hnone⟩ |
    ⟨pre, b, post, wanted, rfl, hreq, hpre, hfit, hrun⟩
  · refine ⟨_, bs, 0, c.heap, kmemGetStats_eq h, kmemBlocks_eq h, hrun, ?_, fun _ => rfl,
      fun hne => absurd rfl hne⟩
    refine iff_of_false (fun hne => hne rfl) ?_
    rintro ⟨hpos, hle, hlarge⟩
    have hreq := request_of_le hpos hle
    have hval := (request_rounded hreq).2.2
    rw [← hval] at hlarge
    obtain ⟨b, hb, hserves⟩ := (le_largestFree_fresh hreq.pos _ bs).mp hlarge
    exact hnone _ hreq b hb hserves
  · have hb : b ∈ pre ++ b :: post := List.mem_append_right pre (List.mem_cons_self ..)
    obtain ⟨hpos, hle, hval⟩ := request_rounded hreq
    -- with this the addresses of the split do not wrap
    have hnowrap : wanted.toNat < 2 ^ 64 - 80 := by
      by_contra hwrap
      exact hno (alloc_wrap h howned hb hreq hfit hwrap).2.2
    obtain ⟨mid, -, hmid, -, -⟩ := h.layout.split
    obtain ⟨rest, hplaced, hplacement⟩ := placement_placed hmid hreq.aligned hfit.2
    obtain ⟨hheap', -⟩ := h.take hreq hfit hnowrap
    have hne : kmemPayload b.addr ≠ 0 := by
      have hpay := payload_toNat h hb
      bv_omega
    refine ⟨_, _, _, _, kmemGetStats_eq h, kmemBlocks_eq h, hrun, ?_, fun heq => absurd heq hne,
      fun _ => ⟨pre, b, post, taken b wanted, rest, rfl, rfl, ?_, ?_, ?_, ?_⟩⟩
    · refine iff_of_true hne ⟨hpos, hle, ?_⟩
      rw [← hval]
      exact (le_largestFree_fresh hreq.pos _ _).mpr ⟨b, hb, hfit⟩
    · rw [← hval]
      exact hfit
    · rw [← hval]
      exact fun d hd hserves => lowest_of_first h.layout hpre hd hserves
    · rw [← hval]
      exact hplacement
    · rw [kmemBlocks_eq hheap', hplaced]

/-! ## The request that wraps -/

/-- A walk of one block has found no link behind it. -/
theorem next_of_single {taken : Block} (h : kmemBlocks s = some [taken]) :
    hdrNext s.mem s.gHead = 0 := by
  obtain ⟨rounds, hrounds⟩ : ∃ rounds, ROUNDS = rounds + 1 + 1 := ⟨2 ^ 64 - 2, by decide⟩
  rw [kmemBlocks, hrounds, walkBlocks] at h
  by_cases hhead : s.gHead = 0
  · rw [if_pos hhead] at h
    cases h
  rw [if_neg hhead] at h
  obtain ⟨rest, hrest, heq⟩ := Option.map_eq_some_iff.mp h
  obtain ⟨-, rfl⟩ := List.cons.inj heq
  rw [walkBlocks] at hrest
  by_contra hnext
  rw [if_neg hnext] at hrest
  obtain ⟨rest', -, heq'⟩ := Option.map_eq_some_iff.mp hrest
  cases heq'

/-- What takes the place of a block is that block alone, if it has the size asked for. -/
theorem Placement.whole {wanted : Nat} {taken : Block} {rest : List Block}
    (h : Placement wanted b taken rest) (hsize : b.size.toNat ≤ wanted) : rest = [] := by
  rcases h.rest with ⟨hnil, -⟩ | ⟨r, -, -, -, -, hsum⟩
  · exact hnil
  · have hlower := h.lower
    omega

/-- A request that wraps leaves a heap that is not what the answer says. -/
theorem not_allocExact_of_wraps (h : Heap c.heap bs) (howned : Owned c.live bs)
    (hw : Wraps c n) : ¬ AllocExact c.heap n := by
  obtain ⟨rfl, hbase, htop⟩ := blocks_of_wraps h howned hw
  have hreq := request_of_wraps hw
  obtain ⟨-, -, hval⟩ := request_rounded hreq
  rintro ⟨stats, bs, p, s', -, hblocks, halloc, -, -, hserved⟩
  obtain rfl := Option.some.inj ((kmemBlocks_eq h).symm.trans hblocks)
  rw [kmemAlloc_of_wraps h htop hreq] at halloc
  obtain ⟨rfl, rfl⟩ := Prod.mk.inj (Option.some.inj halloc)
  obtain ⟨pre, b, post, taken, rest, hsplit, -, -, -, hplace, hafter⟩ :=
    hserved (show kmemPayload 16 ≠ 0 by decide)
  obtain ⟨hpre, hb, hpost⟩ : pre = [] ∧ b = ⟨16, ALL, true⟩ ∧ post = [] := by
    simpa [List.append_eq_singleton_iff] using hsplit.symm
  -- the block was taken whole, so that nothing should follow it
  have hsize : b.size = ALL := by rw [hb]
  have hrest : rest = [] := hplace.whole (by rw [hsize, hval])
  rw [hpre, hrest, hpost] at hafter
  have hlast := next_of_single hafter
  have hnext : hdrNext (takeBlock TOP c.heap.mem 16 ALL) c.heap.gHead = 0 := hlast
  have hf := header_fields h.linked.1
  obtain ⟨-, -, -, -, hlink⟩ := fields_of_readHeader (readHeader_wrap hf.size hf.prev hf.next)
  have hhead : c.heap.gHead = 16 := h.head.trans hbase
  rw [hhead, hlink] at hnext
  exact absurd hnext (show TOP ≠ 0 by decide)

/-- **THE STATISTICS DECIDE**: in every run without a call that wraps, a request
    is served exactly if the largest free block can hold it, by the lowest block
    that can and with what is left of it behind, and otherwise nothing changes;
    exactly if that request does not wrap. -/
theorem kmem_alloc_follows_stats {base bytes : U64} {c : KmemSys}
    (h : Run (fun c call => ¬ CallWraps c call) base bytes c) (n : U64) :
    AllocExact c.heap n ↔ ¬ Wraps c n := by
  obtain ⟨bs, hheap, howned⟩ := run_inOrder h
  exact ⟨fun hexact hw => not_allocExact_of_wraps hheap howned hw hexact,
    allocExact_of_not_wraps hheap howned⟩

/-- A fresh page reports 4048 bytes; a request for more is refused. -/
theorem kmem_alloc_follows_stats_page :
    AllocExact smallStart.heap 4048 ∧ AllocExact smallStart.heap 4049 ∧
    (kmemGetStats smallStart.heap).map (fun stats => stats.largestFree) = some 4048 := by
  have hrun : Run (fun c call => ¬ CallWraps c call) 4096 4096 smallStart :=
    fresh_run 0 (by decide) (by decide)
  refine ⟨(kmem_alloc_follows_stats hrun 4048).mpr (fun hw => ?_),
    (kmem_alloc_follows_stats hrun 4049).mpr (fun hw => ?_), by decide +kernel⟩
  · exact absurd hw.large (by decide)
  · exact absurd hw.large (by decide)

/-- **A BLOCK THAT IS NOT THERE**: the heap that fills the address space reports
    that a request for all of it can be served, but two blocks follow the one
    that is handed out; the statistics then report 2^64 - 48 bytes free, and not
    even 16 are. -/
theorem kmem_alloc_stats_wrap :
    Reachable 16 0xffffffffffffffe0 wrapStart ∧
    (kmemGetStats wrapStart.heap).map (fun stats => stats.largestFree) = some ALL ∧
    (kmemAlloc wrapStart.heap ALL).map (fun r => (r.1, kmemBlocks r.2))
      = some (64, some [⟨16, ALL, false⟩, ⟨TOP, 0 - HEADER, true⟩, ⟨ALL, 0, false⟩]) ∧
    (kmemGetStats (afterAlloc wrapStart ALL).heap).map (fun stats => stats.largestFree)
      = some (0 - HEADER) ∧
    (kmemAlloc (afterAlloc wrapStart ALL).heap 16).map Prod.fst = some 0 := by
  refine ⟨run_wrapStart, ?_, ?_, ?_, ?_⟩
  · decide +kernel
  · decide +kernel
  · decide +kernel
  · decide +kernel

end KmemStats
