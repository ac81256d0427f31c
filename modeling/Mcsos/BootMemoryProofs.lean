import Mcsos.BootModel
import Mcsos.FrameConfineProofs
import Mcsos.PmmBootMapProofs
import Mcsos.PmmHistoryProofs

/-! # Frames from the bootloader's map

    `kernel_memory_init` reads the first 64 entries of the map and tries one frame;
    `kernel_vmm_init` takes a frame for the root of the page tables.  Which of their
    panics a map leads to is exact, and what they leave is a frame manager and
    page tables as the runs of `KernelVmmModel` start from.

    If the map is as the bootloader promises, with usable entries apart from all
    others, then in every such run no frame of the page tables or of a client
    shares a byte with memory of another kind, also not with an entry that was
    left out. -/

namespace BootMemory

open Word ByteMemory LogModel BootModel PmmModel PmmFrame PmmRange PmmInvariant PmmBootMap
open VmmModel VmmTable VmmTree VmmRefinement KernelVmmModel FrameOwnership FrameConfine

/-! ## Running boot code -/

section Runs

variable {α β : Type} {f : Boot α} {g : α → Boot β} {log log' : List U8}

/-- A panic ends the code and keeps the log. -/
theorem runs_panic (line : U32) (reason : String) (code : U64) :
    runs (kernelPanic line reason code : Boot α) log = (.error (.panic line reason code), log) :=
  rfl

/-- What is said stands at the end of the log. -/
theorem runs_say (cs : List U8) (g : Unit → Boot β) :
    runs (say cs >>= g) log = runs (g ()) (log ++ cs) := rfl

/-- A loop that ends goes on with its result. -/
theorem runs_ended (a : α) (g : α → Boot β) : runs (ended (some a) >>= g) log = runs (g a) log :=
  rfl

/-- The code behind a part that has come to its end. -/
theorem runs_ok {a : α} (h : runs f log = (.ok a, log')) :
    runs (f >>= g) log = runs (g a) log' := by
  have hbind : runs (f >>= g) log = match runs f log with
      | (.ok a, log) => runs (g a) log
      | (.error e, log) => (.error e, log) := by
    show (ExceptT.bindCont g (runs f log).1) (runs f log).2 = _
    cases hr : runs f log with
    | mk r l =>
        cases r with
        | ok a => rfl
        | error e => rfl
  rw [hbind, h]

/-- Nothing runs behind a part that has stopped. -/
theorem runs_error {e : Stop} (h : runs f log = (.error e, log')) :
    runs (f >>= g) log = (.error e, log') := by
  show (ExceptT.bindCont g (runs f log).1) (runs f log).2 = _
  rw [h]
  rfl

end Runs

/-! ## The frame manager -/

variable {entries : List LimineMemmapEntry} {log : List U8}

/-- The array is empty for an empty map only. -/
theorem bootRegions_eq_nil : bootRegions entries = [] ↔ entries = [] := by
  rw [bootRegions, List.map_eq_nil_iff, List.take_eq_nil_iff]
  exact or_iff_right (by decide)

/-- `pmm_init_from_map` accepts every map with an entry. -/
theorem init_accepts (pmm : PmmState) (hne : entries ≠ []) :
    ∃ s, pmmInitFromMap pmm (bootRegions entries) pmm.bitmap PMM_BITMAP_BYTES PMM_MAX_PHYS_BYTES
      = some s := by
  have hlimit : ¬ (PMM_MAX_PHYS_BYTES = 0 ∨ (PMM_MAX_PHYS_BYTES &&& (PMM_PAGE_SIZE - 1)) ≠ 0) := by
    decide
  have hroom : ¬ PMM_BITMAP_BYTES < (PMM_MAX_PHYS_BYTES / PMM_PAGE_SIZE + 7) / 8 := by decide
  rw [pmmInitFromMap, if_neg (fun h => hne (bootRegions_eq_nil.mp h)), if_neg hlimit, if_neg hroom]
  exact ⟨_, rfl⟩

/-- The frames below 64 GiB that the map opens. -/
def BootFrame (entries : List LimineMemmapEntry) (n : Nat) : Prop :=
  n < 2 ^ 24 ∧ InitFree (bootRegions entries) n

/-- The frame manager has just the frames of `P`. -/
structure Offers (P : Nat → Prop) (s : PmmState) : Prop where
  reachable : PmmReachable s
  limit : s.maxPhys = PMM_MAX_PHYS_BYTES
  count : s.frameCount.toNat = 2 ^ 24
  clear : ∀ n, n < 2 ^ 24 → (Clear s n ↔ P n)

/-- The manager's invariant holds. -/
theorem Offers.inv {P : Nat → Prop} {s : PmmState} (h : Offers P s) : PmmInv s :=
  PmmReachable.inv h.reachable

/-- One more call. -/
theorem reachable_step {s : PmmState} (h : PmmReachable s) (op : PmmOp) :
    PmmReachable (pmmStep s op).2 := by
  obtain ⟨garbage, s₀, regions, storage, bytes, limit, ops, hinit, rfl⟩ := h
  refine ⟨garbage, s₀, regions, storage, bytes, limit, ops ++ [op], hinit, ?_⟩
  rw [Machine.exec_append]
  rfl

/-- A manager that was initialized from the map offers the frames the map opens. -/
theorem init_offers {pmm s : PmmState}
    (h : pmmInitFromMap pmm (bootRegions entries) pmm.bitmap PMM_BITMAP_BYTES PMM_MAX_PHYS_BYTES
      = some s) : Offers (InitFree (bootRegions entries)) s := by
  obtain ⟨hcore, -, hmax, -, -, hclear⟩ := pmmInitFromMap_spec h
  have hlimit : PMM_MAX_PHYS_BYTES.toNat = 2 ^ 24 * 4096 := by decide
  have hcount : s.frameCount.toNat = 2 ^ 24 := by
    have hframes := hcore.frames
    rw [hmax] at hframes
    omega
  exact ⟨⟨pmm, s, _, _, _, _, [], h, rfl⟩, hmax, hcount, fun n hn => hclear n (hcount ▸ hn)⟩

/-- Nothing to offer, or the least frame is handed out. -/
theorem Offers.alloc {P : Nat → Prop} {s : PmmState} (h : Offers P s) :
    ((∀ n, n < 2 ^ 24 → ¬ P n) ∧ pmmAllocFrame s = (PMM_INVALID_FRAME, s)) ∨
    ∃ k, k < 2 ^ 24 ∧ P k ∧ (∀ n, n < k → ¬ P n) ∧ (pmmAllocFrame s).1.toNat = 4096 * k ∧
      Offers (fun n => P n ∧ n ≠ k) (pmmAllocFrame s).2 := by
  rcases pmmAllocFrame_spec h.inv with ⟨hnone, heq⟩ | ⟨k, hk, heq⟩
  · exact Or.inl ⟨fun n hn hP => hnone n (h.count ▸ hn) ((h.clear n hn).mpr hP), heq⟩
  · obtain ⟨haddr, -, hlay, hclear⟩ := takeFrame_spec h.inv hk
    obtain ⟨hlt, hfree, hleast⟩ := hk
    rw [h.count] at hlt
    refine Or.inr ⟨k.toNat, hlt, (h.clear _ hlt).mp hfree,
      fun n hn hP => hleast n hn ((h.clear n (by omega)).mpr hP), ?_, ?_⟩
    · rw [heq]
      exact haddr
    · have hreach : PmmReachable (pmmAllocFrame s).2 := reachable_step h.reachable .allocFrame
      rw [heq] at hreach ⊢
      refine ⟨hreach, hlay.maxPhys.trans h.limit, by rw [hlay.frameCount, h.count], fun n hn => ?_⟩
      rw [hclear n (h.count ▸ hn), h.clear n hn]

/-- The frame just handed out is taken back. -/
theorem Offers.free {P : Nat → Prop} {s : PmmState} {k : Nat} {a : U64}
    (h : Offers (fun n => P n ∧ n ≠ k) s) (hk : k < 2 ^ 24) (hP : P k) (h0 : k ≠ 0)
    (ha : a.toNat = 4096 * k) :
    (pmmFreeFrame s a).1 = true ∧ Offers P (pmmFreeFrame s a).2 := by
  have hdiv : a.toNat / 4096 = k := by omega
  have hlimit : PMM_MAX_PHYS_BYTES.toNat = 2 ^ 24 * 4096 := by decide
  -- the frame was taken, so its bit is set and the free succeeds
  have hfreeable : Freeable s a := by
    refine ⟨by omega, ?_, ?_, ?_⟩
    · rintro rfl
      exact h0 (by rw [← hdiv]; rfl)
    · rw [BitVec.lt_def, h.limit]
      omega
    · rw [hdiv, h.clear k hk]
      exact fun hself => hself.2 rfl
  rcases pmmFreeFrame_spec h.inv a with ⟨-, hok, -, hlay, hclear⟩ | ⟨hnot, -⟩
  · refine ⟨hok, reachable_step h.reachable (.freeFrame a), hlay.maxPhys.trans h.limit,
      by rw [hlay.frameCount, h.count], fun n hn => ?_⟩
    rw [hclear n (h.count ▸ hn), h.clear n hn, hdiv]
    constructor
    · rintro (hn | rfl)
      · exact hn.1
      · exact hP
    · intro hn
      by_cases hnk : n = k
      · exact Or.inr hnk
      · exact Or.inl ⟨hn, hnk⟩
  · exact absurd hfreeable hnot

/-! ## `kernel_memory_init` -/

section MemoryInit

variable (pmm : PmmState) (log : List U8)

/-- Without a map there is nothing to manage. -/
theorem memoryInit_null :
    runs (kernelMemoryInit none pmm) log
      = (.error (.panic 112 "limine memmap response is NULL" 0), log) := rfl

/-- With an empty map the initialisation fails. -/
theorem memoryInit_empty :
    runs (kernelMemoryInit (some []) pmm) log
      = (.error (.panic 139 "pmm_init_from_map failed" 0), log) := rfl

/-- **MEMORY INIT**: a map without a frame is found out by the trial; any other leaves the
    frames it opens. -/
theorem memoryInit_cases (hne : entries ≠ []) :
    ((∀ n, ¬ BootFrame entries n) ∧ ∃ log', runs (kernelMemoryInit (some entries) pmm) log
      = (.error (.panic 150 "pmm_alloc_frame returned invalid frame" 0), log')) ∨
    ((∃ n, BootFrame entries n) ∧ ∃ s log', runs (kernelMemoryInit (some entries) pmm) log
      = (.ok s, log') ∧ Offers (InitFree (bootRegions entries)) s) := by
  obtain ⟨s, hs⟩ := init_accepts pmm hne
  have hoffers := init_offers hs
  unfold kernelMemoryInit
  dsimp only
  rw [hs]
  dsimp only
  rw [runs_say, runs_say, runs_say, runs_say]
  rcases hoffers.alloc with ⟨hnone, heq⟩ | ⟨k, hk, hP, -, haddr, halloc⟩
  · refine Or.inl ⟨fun n hn => hnone n hn.1 hn.2, ?_⟩
    rw [heq, if_pos rfl]
    exact ⟨_, runs_panic ..⟩
  · -- a frame's address is a multiple of 4096, the invalid one is not
    have hvalid : (pmmAllocFrame s).1 ≠ PMM_INVALID_FRAME := by
      intro h
      rw [h] at haddr
      have hodd : PMM_INVALID_FRAME.toNat % 4096 = 4095 := by decide
      omega
    have h0 : k ≠ 0 := hP.1
    obtain ⟨hfreed, hagain⟩ := halloc.free hk hP h0 haddr
    refine Or.inr ⟨⟨k, hk, hP⟩, (pmmFreeFrame (pmmAllocFrame s).2 (pmmAllocFrame s).1).2, ?_⟩
    rw [if_neg hvalid, runs_say, hfreed, if_neg (by decide), runs_say]
    exact ⟨_, rfl, hagain⟩

end MemoryInit

/-! ## `kernel_vmm_init` -/

/-- The root takes the least frame; its page is zero. -/
theorem vmmInit_ok {P : Nat → Prop} {pmm : PmmState} (h : Offers P pmm)
    (hsome : ∃ n, n < 2 ^ 24 ∧ P n) (offset : U64) (mem : Mem) (log : List U8) :
    ∃ k root log', k < 2 ^ 24 ∧ P k ∧ (∀ n, n < k → ¬ P n) ∧ root.toNat = 4096 * k ∧
      Offers (fun n => P n ∧ n ≠ k) (pmmAllocFrame pmm).2 ∧
      pmmAllocFrame pmm = (root, (pmmAllocFrame pmm).2) ∧
      runs (BootModel.kernelVmmInit (some offset) mem pmm) log
        = (.ok (kernelSpace offset root,
            ⟨memset mem (offset + root) 0 4096, ⟨(pmmAllocFrame pmm).2, ∅, ∅, ∅⟩⟩), log') := by
  rcases h.alloc with ⟨hnone, -⟩ | ⟨k, hk, hP, hleast, haddr, halloc⟩
  · obtain ⟨n, hn, hPn⟩ := hsome
    exact absurd hPn (hnone n hn)
  have hal : (pmmAllocFrame pmm).1.toNat % 4096 = 0 := by omega
  refine ⟨k, (pmmAllocFrame pmm).1, ?_⟩
  unfold BootModel.kernelVmmInit
  dsimp only
  rw [runs_say, kernelVmmInit_ok rfl hal]
  dsimp only
  rw [runs_say, runs_say]
  exact ⟨_, hk, hP, hleast, haddr, halloc, rfl, rfl⟩

/-! ## The bootloader's promise -/

/-- The physical addresses of an entry. -/
def Covers (e : LimineMemmapEntry) (a : Nat) : Prop :=
  e.base.toNat ≤ a ∧ a < e.base.toNat + e.length.toNat

/-- Usable entries have no address in common with entries of another kind, and none in
    the last page of the address space. -/
structure LimineMap (entries : List LimineMemmapEntry) : Prop where
  apart : ∀ e ∈ entries, ∀ e' ∈ entries, e.type = .usable → e'.type ≠ .usable →
    ∀ a, Covers e a → ¬ Covers e' a
  low : ∀ e ∈ entries, e.type = .usable → e.base.toNat + e.length.toNat ≤ 2 ^ 64 - 4096

/-- The map calls the address usable, and nothing else. -/
def Usable (entries : List LimineMemmapEntry) (a : Nat) : Prop :=
  (∃ e ∈ entries, e.type = .usable ∧ Covers e a) ∧
  ∀ e ∈ entries, e.type ≠ .usable → ¬ Covers e a

/-- All the addresses of the page from `p` on. -/
def UsablePage (entries : List LimineMemmapEntry) (p : Nat) : Prop :=
  ∀ a, p ≤ a → a < p + 4096 → Usable entries a

/-- Only usable entries become usable regions. -/
theorem usable_type (t : LimineType) : limineTypeToBootMem t = BOOT_MEM_USABLE ↔ t = .usable := by
  cases t with
  | usable => exact ⟨fun _ => rfl, fun _ => rfl⟩
  | other type =>
      have hreserved : BOOT_MEM_RESERVED ≠ BOOT_MEM_USABLE := by decide
      exact ⟨fun h => absurd h hreserved, fun h => by cases h⟩
  | _ => exact ⟨fun h => absurd h (by decide), fun h => by cases h⟩

/-- A region is an entry that was read. -/
theorem mem_bootRegions {r : BootMemRegion} (h : r ∈ bootRegions entries) :
    ∃ e ∈ entries, r = ⟨e.base, e.length, limineTypeToBootMem e.type⟩ := by
  obtain ⟨e, he, rfl⟩ := List.mem_map.mp h
  exact ⟨e, List.mem_of_mem_take he, rfl⟩

/-- A frame that the map opens is usable; entries that were not read are apart anyway. -/
theorem usablePage_of_initFree (hmap : LimineMap entries) {n : Nat} (hn : n < 2 ^ 24)
    (h : InitFree (bootRegions entries) n) : UsablePage entries (4096 * n) := by
  obtain ⟨-, hopen, -⟩ := (initFree_iff (by omega)).mp h
  rcases hopen with ⟨r, hr, htype, ⟨hlo, hhi⟩, -⟩ | ⟨r, hr, htype, -, hbase, hend⟩
  · obtain ⟨e, he, rfl⟩ := mem_bootRegions hr
    have hu := (usable_type e.type).mp htype
    intro a ha1 ha2
    have hcov : Covers e a := ⟨hlo.trans ha1, ha2.trans_le hhi⟩
    exact ⟨⟨e, he, hu, hcov⟩, fun e' he' hu' => hmap.apart e he e' he' hu hu' a hcov⟩
  · obtain ⟨e, he, rfl⟩ := mem_bootRegions hr
    have hlow := hmap.low e he ((usable_type e.type).mp htype)
    have hbase : 2 ^ 64 - 4096 < e.base.toNat := hbase
    omega

variable {mem : Mem} {garbage pmm : PmmState} {offset : U64} {log' : List U8}
  {space : VmmSpace FrameLedger} {w₀ w : VmmWorld FrameLedger}

/-- A frame manager that came out of `kernel_memory_init`. -/
theorem memoryInit_offers
    (h : (runs (kernelMemoryInit (some entries) garbage) log).1 = .ok pmm) :
    Offers (InitFree (bootRegions entries)) pmm := by
  by_cases hne : entries = []
  · rw [hne, memoryInit_empty] at h
    cases h
  · rcases memoryInit_cases garbage log hne with
      ⟨-, log₁, hrun⟩ | ⟨-, s, log₁, hrun, hoffers⟩
    · rw [hrun] at h
      cases h
    · rw [hrun] at h
      obtain rfl := Except.ok.inj h
      exact hoffers

/-- A `kernel_vmm_init` that succeeds has allocated a root and cleared its page. -/
theorem vmmInit_inv {P : Nat → Prop} (h : Offers P pmm)
    (hrun : (runs (BootModel.kernelVmmInit (some offset) mem pmm) log).1 = .ok (space, w₀)) :
    ∃ root t, pmmAllocFrame pmm = (root, t) ∧ root.toNat % 4096 = 0 ∧
      space = kernelSpace offset root ∧
      w₀ = ⟨memset mem (offset + root) 0 4096, ⟨t, ∅, ∅, ∅⟩⟩ := by
  by_cases hsome : ∃ n, n < 2 ^ 24 ∧ P n
  · obtain ⟨k, root, log₁, -, -, -, haddr, -, heq, hok⟩ := vmmInit_ok h hsome offset mem log
    rw [hok] at hrun
    obtain ⟨hspace, hw⟩ := Prod.mk.inj (Except.ok.inj hrun)
    exact ⟨root, _, heq, by omega, hspace.symm, hw.symm⟩
  · rcases h.alloc with ⟨-, heq⟩ | ⟨k, hk, hP, -⟩
    · unfold BootModel.kernelVmmInit at hrun
      dsimp only at hrun
      rw [runs_say, KernelVmmModel.kernelVmmInit, heq, if_pos rfl] at hrun
      cases hrun
    · exact absurd ⟨k, hk, hP⟩ hsome

/-- **USABLE MEMORY ONLY**: on a map as the bootloader promises, of any length, in
    every interleaving of the walker and clients that keep to their own frames, each
    page table, each frame a client has and the frame it would be given next are usable
    memory only; and every byte that differs from the memory before `kernel_vmm_init`
    is the direct map's byte of a usable address. -/
theorem boot_frames_usable (hmap : LimineMap entries)
    (hdirect : DirectMap offset PMM_MAX_PHYS_BYTES)
    (hmem : (runs (kernelMemoryInit (some entries) garbage) log).1 = .ok pmm)
    (hvmm : (runs (BootModel.kernelVmmInit (some offset) mem pmm) log').1 = .ok (space, w₀))
    (hreach : FrameReach offset space w₀ w) :
    (∀ d t, TableAt (kernelVmmPhysToVirt offset) w.mem space.rootPaddr d t →
      UsablePage entries t.toNat) ∧
    (∀ a ∈ w.ctx.held, UsablePage entries a.toNat) ∧
    ((clientAlloc w.ctx).1 = PMM_INVALID_FRAME ∨
      UsablePage entries (clientAlloc w.ctx).1.toNat) ∧
    ∀ x, w.mem x ≠ mem x → ∃ a : U64, x = offset + a ∧ Usable entries a.toNat := by
  have hoffers := memoryInit_offers hmem
  obtain ⟨root, t, heq, hal, rfl, rfl⟩ := vmmInit_inv hoffers hvmm
  have hlimit : pmm.maxPhys.toNat ≤ 2 ^ 36 := by
    rw [hoffers.limit]
    decide
  have hdirect' : DirectMap offset pmm.maxPhys := hoffers.limit ▸ hdirect
  have hfree : ∀ n, n < pmm.frameCount.toNat → Clear pmm n → UsablePage entries (4096 * n) := by
    intro n hn hc
    rw [hoffers.count] at hn
    exact usablePage_of_initFree hmap hn ((hoffers.clear n hn).mp hc)
  have hvalid : root ≠ PMM_INVALID_FRAME := by
    rintro rfl
    exact absurd hal (by decide)
  obtain ⟨⟨M, tab, hT, hA⟩, hsame⟩ := reach_within hdirect' hlimit hal
    (within_start hoffers.inv hdirect' hfree heq hvalid) hreach
  -- the pages are known by frame number
  have hpage : ∀ {p : U64}, p.toNat % 4096 = 0 → UsablePage entries (4096 * (p.toNat / 4096)) →
      UsablePage entries p.toNat := by
    intro p hp hpage
    rwa [Nat.mul_div_cancel' (Nat.dvd_of_mod_eq_zero hp)] at hpage
  refine ⟨?_, ?_, ?_, ?_⟩
  · intro d t ht
    obtain ⟨p, -, hp⟩ := tableAt_path hT ht
    obtain ⟨⟨hal, -⟩, hP⟩ := hT.stored p t hp
    exact hpage hal hP
  · intro a ha
    exact hpage (hA.books.held a ha).1 (hA.held a ha)
  · rcases alloc_cases hA.books.pmm with hnone | ⟨n, t, hsome, -, -, -, hal, -⟩
    · exact Or.inl (congrArg Prod.fst hnone)
    · refine Or.inr (hpage ?_ (hA.alloc_frame.resolve_left ?_))
      · rw [KernelVmmModel.clientAlloc, hsome]
        exact hal
      · rw [hsome]
        rintro rfl
        exact absurd hal (by decide)
  · intro x hx
    have hin : ¬ VmmFootprint.Elsewhere (kernelVmmPhysToVirt offset)
        (FrameOf pmm.maxPhys fun n => UsablePage entries (4096 * n)) x :=
      fun helse => hx (hsame x helse)
    simp only [VmmFootprint.Elsewhere, not_forall, not_not] at hin
    obtain ⟨p, ⟨hF, hP⟩, hrange⟩ := hin
    have hj : (x - (offset + p)).toNat < 4096 := hrange
    have hsum : (x - offset).toNat = p.toNat + (x - (offset + p)).toNat := by
      have hlt := hF.2.2
      rw [BitVec.lt_def] at hlt
      rw [show x - offset = p + (x - (offset + p)) from by bv_omega, BitVec.toNat_add,
        Nat.mod_eq_of_lt (by omega)]
    exact ⟨x - offset, by bv_omega, hpage hF.1 hP _ (by omega) (by omega)⟩

/-- A map that does not fit the array: the kernel's entry comes behind 64 others. -/
def longMap : List LimineMemmapEntry :=
  (List.range 64).map (fun i => ⟨BitVec.ofNat 64 (0x100000 + 0x2000 * i), 0x1000, .usable⟩) ++
    [⟨0x101000, 0x1000, .kernelAndModules⟩]

/-- The entries of the example map. -/
theorem mem_longMap {e : LimineMemmapEntry} (h : e ∈ longMap) :
    (∃ i, i < 64 ∧ e = ⟨BitVec.ofNat 64 (0x100000 + 0x2000 * i), 0x1000, .usable⟩) ∨
    e = ⟨0x101000, 0x1000, .kernelAndModules⟩ := by
  rcases List.mem_append.mp h with h | h
  · obtain ⟨i, hi, rfl⟩ := List.mem_map.mp h
    exact Or.inl ⟨i, List.mem_range.mp hi, rfl⟩
  · exact Or.inr (List.mem_singleton.mp h)

/-- The example map is as the bootloader promises. -/
theorem longMap_promise : LimineMap longMap := by
  constructor
  · intro e he e' he' hu hu' a ha ha'
    rcases mem_longMap he with ⟨i, hi, rfl⟩ | rfl
    · rcases mem_longMap he' with ⟨j, hj, rfl⟩ | rfl
      · exact hu' rfl
      · obtain ⟨h1, h2⟩ := ha
        obtain ⟨h3, h4⟩ := ha'
        dsimp only at h1 h2 h3 h4
        bv_omega
    · cases hu
  · intro e he hu
    rcases mem_longMap he with ⟨i, hi, rfl⟩ | rfl
    · dsimp only
      bv_omega
    · cases hu

/-- The first entry of the example's map opens frame 256. -/
theorem longMap_frame : BootFrame longMap 256 := by
  have hfirst : ⟨0x100000, 0x1000, BOOT_MEM_USABLE⟩ ∈ bootRegions longMap := by decide +kernel
  have husable : ∀ r ∈ bootRegions longMap, r.type = BOOT_MEM_USABLE := by decide +kernel
  refine ⟨by decide, (initFree_iff (by decide)).mpr ⟨by decide, Or.inl ⟨_, hfirst, rfl, ?_⟩, ?_⟩⟩
  · exact ⟨⟨by decide, by decide⟩, by decide⟩
  · intro r hr hother
    exact absurd (husable r hr) hother

/-- A direct map in the upper half does not wrap. -/
theorem high_directMap : DirectMap 0xffff800000000000 PMM_MAX_PHYS_BYTES := by
  rintro p ⟨-, -, hlt⟩
  have hlimit : PMM_MAX_PHYS_BYTES = 0x1000000000 := by decide
  rw [hlimit] at hlt
  rw [kernelVmmPhysToVirt]
  exact ⟨by bv_omega, by bv_omega⟩

/-- The entry that was not read is the kernel's own page; no run changes it. -/
theorem boot_frames_usable_long :
    ∃ pmm space w₀, (runs (kernelMemoryInit (some longMap) smallState) []).1 = .ok pmm ∧
      (runs (BootModel.kernelVmmInit (some 0xffff800000000000) (fun _ => 0xff) pmm) []).1
        = .ok (space, w₀) ∧
      ∀ w, FrameReach 0xffff800000000000 space w₀ w →
        ∀ x, InRange 0xffff800000101000 0x1000 x → w.mem x = 0xff := by
  rcases memoryInit_cases smallState [] (by decide : longMap ≠ []) with
    ⟨hnone, -⟩ | ⟨⟨n, hn⟩, pmm, log₁, hmem, hoffers⟩
  · exact absurd longMap_frame (hnone 256)
  obtain ⟨k, root, log₂, -, -, -, -, -, -, hvmm⟩ := vmmInit_ok hoffers ⟨n, hn⟩
    0xffff800000000000 (fun _ => 0xff) []
  refine ⟨pmm, _, _, congrArg Prod.fst hmem, congrArg Prod.fst hvmm, fun w hw x hx => ?_⟩
  have h := boot_frames_usable longMap_promise high_directMap (congrArg Prod.fst hmem)
    (congrArg Prod.fst hvmm) hw
  -- a byte that changed would be the direct map's byte of a usable address
  by_contra hne
  obtain ⟨a, rfl, -, hother⟩ := h.2.2.2 x hne
  have hkernel : (⟨0x101000, 0x1000, .kernelAndModules⟩ : LimineMemmapEntry) ∈ longMap := by
    decide +kernel
  refine hother _ hkernel (by decide) ?_
  have hx : (0xffff800000000000 + a - 0xffff800000101000 : U64).toNat < 0x1000 := hx
  constructor
  · show 0x101000 ≤ a.toNat
    bv_omega
  · show a.toNat < 0x101000 + 0x1000
    bv_omega

end BootMemory
