import Mcsos.BootMemoryProofs
import Mcsos.KmemCoalesceProofs
import Mcsos.KmemFootprintProofs
import Mcsos.KmemStatsProofs

/-! # The heap at boot

    `m8_heap_bootstrap` sets the heap up in an array of the image, takes a block and
    gives it back.  Wherever the linker has put the array, no check of it fails, and
    the heap is one free block again. -/

namespace BootHeap

open Word ByteMemory BootModel BootMemory KmemModel KmemHeader KmemList KmemAlloc KmemFree KmemInit
open KmemRunModel KmemRun KmemCoalesce KmemFootprint

variable {heap : U64} {s : KmemState}

/-- The runs in which no request wraps. -/
abbrev Ordinary (c : KmemSys) (call : KmemCall) : Prop := ¬ CallWraps c call

/-- An array of zeros that ends below the top of the address space. -/
structure Arena (heap : U64) (m : Mem) : Prop where
  ne_zero : heap ≠ 0
  fits : heap.toNat + 65536 < 2 ^ 64
  zero : ∀ x, InRange heap 65536 x → m x = 0

theorem heapSize : M8_BOOT_HEAP_SIZE.toNat = 65536 := by decide

/-- `kmem_init` takes the array. -/
theorem Arena.admitted (h : Arena heap s.mem) : Admitted heap M8_BOOT_HEAP_SIZE := by
  have hfits := h.fits
  have hsize := heapSize
  exact ⟨h.ne_zero, by omega, by omega⟩

/-- `kmem_init` accepts the array. -/
theorem init_run (h : Arena heap s.mem) :
    ∃ s₀, kmemInit s heap M8_BOOT_HEAP_SIZE = (0, s₀) ∧
      Run Ordinary heap M8_BOOT_HEAP_SIZE ⟨s₀, []⟩ ∧ 65488 ≤ (totalBytes s₀).toNat ∧
      ∀ x, ¬ InRange heap 65536 x → s₀.mem x = s.mem x := by
  have hadm := h.admitted
  have hfits := h.fits
  have hsize := heapSize
  have hu := hadm.usable (by omega)
  have hvalid := kmemValidate_initialHeap (m := s.mem) hu
  have htotal := totalBytes_initialHeap s.mem (arenaStart heap) (arenaUsable heap M8_BOOT_HEAP_SIZE)
  rcases kmemInit_cases s heap M8_BOOT_HEAP_SIZE with ⟨hno, -⟩ | ⟨-, hrun⟩
  · exact absurd hadm hno
  rw [hvalid] at hrun
  refine ⟨_, hrun, .init hrun ?_, ?_, ?_⟩
  · -- the array is zero, so no magic word stands behind the first header
    intro a _ hlo hhi hm
    have hlo : (arenaStart heap).toNat + 48 ≤ a.toNat := hlo
    have habove := hu.above
    have hbelow := hu.below
    rw [htotal] at hhi
    have hhi : a.toNat < (arenaStart heap).toNat + _ := hhi
    have hzero := h.zero a ((inRange_iff (by omega) a).mpr (by omega))
    rw [magic_low_byte hm] at hzero
    exact absurd hzero (by decide)
  · rw [htotal]
    have hstart := arenaStart_toNat hadm.start_fits
    have huse := arenaUsable_toNat M8_BOOT_HEAP_SIZE hadm.start_fits (by omega)
    omega
  · -- only the header is written, and it lies in the array
    intro x hx
    refine onlyAt_writeHeader s.mem (arenaStart heap) _ x (fun hin => hx ?_)
    have habove := hu.above
    have hbelow := hu.below
    have hlarge := hu.large
    have hnowrap := hu.no_wrap
    have hin' := (inRange_iff (by omega) x).mp hin
    exact (inRange_iff (by omega) x).mpr (by omega)

/-- What a heap with nothing in use is asked for first, and gets back. -/
theorem probe_run {base bytes : U64} {s₀ : KmemState} (h : Run Ordinary base bytes ⟨s₀, []⟩)
    (htotal : 65488 ≤ (totalBytes s₀).toNat) :
    ∃ p s₁ s₂, kmemAlloc s₀ 128 = some (p, s₁) ∧ p ≠ 0 ∧ kmemFreeChecked s₁ p = some (0, s₂) ∧
      Run Ordinary base bytes ⟨s₂, []⟩ ∧ ∀ x, Outside s₀ x → s₂.mem x = s₀.mem x := by
  obtain ⟨bs, hheap, howned⟩ := run_inOrder h
  obtain rfl := idle_blocks hheap howned rfl
  have hok : Ordinary ⟨s₀, []⟩ (.alloc 128) := fun hw => absurd hw.large (by decide)
  obtain ⟨p, s₁, halloc, -, hkeeps⟩ :=
    safe_alloc (run_safe (w := False) (fun _ _ hok => hok) h) 128 hok
  -- the heap is one free block, which 128 bytes fit in
  have hp : p ≠ 0 := by
    rcases kmemAlloc_cases hheap 128 with ⟨-, hno⟩ | ⟨pre, b, post, wanted, hbs, -, -, -, hrun⟩
    · have hfits : Fits 128 ⟨s₀.gHeapBase, totalBytes s₀ - HEADER, true⟩ := by
        refine ⟨rfl, ?_⟩
        show (128 : U64) ≤ totalBytes s₀ - 48
        bv_omega
      have hreq : Request 128 128 := ⟨by decide, by decide, by decide, by decide⟩
      exact absurd hfits (hno 128 hreq _ (List.mem_singleton_self _))
    · rw [halloc] at hrun
      obtain ⟨rfl, -⟩ := Prod.mk.inj (Option.some.inj hrun)
      have hb : b ∈ pre ++ b :: post := List.mem_append_right pre (List.mem_cons_self ..)
      rw [hbs] at hheap
      have hpay := payload_toNat hheap hb
      bv_omega
  have hlive : handOut [] p 128 = [(p, 128)] := if_neg hp
  have hrun₁ : Run Ordinary base bytes ⟨s₁, [(p, 128)]⟩ := hlive ▸ h.step hok (.alloc halloc)
  obtain ⟨bs₁, hheap₁, howned₁⟩ := run_inOrder hrun₁
  obtain ⟨d, hd, hused, hptr, -⟩ := howned₁.block _ (List.mem_singleton_self _)
  -- the pointer is the payload of a used block, so the free is accepted
  rcases kmemFreeChecked_spec hheap₁ p with ⟨b, -, -, -, m', bs', hfree, -⟩ | ⟨hno, -⟩
  · have hback : giveBack [(p, (128 : U64))] p = [] := by simp [giveBack]
    have hstep : KmemStep ⟨s₁, [(p, 128)]⟩ (.free p) ⟨{ s₁ with mem := m' }, _⟩ := .free hfree
    have hok₁ : Ordinary ⟨s₁, [(p, 128)]⟩ (.free p) := fun hw => hw
    have hrun₂ : Run Ordinary base bytes ⟨{ s₁ with mem := m' }, []⟩ :=
      hback ▸ hrun₁.step hok₁ hstep
    obtain ⟨bs₂, hheap₂, howned₂⟩ := run_inOrder hrun₂
    obtain rfl := idle_blocks hheap₂ howned₂ rfl
    rw [kmemValidate_eq hheap₂ (show 1 ≤ 1048576 by decide)] at hfree
    refine ⟨p, s₁, _, halloc, hp, hfree, hrun₂, fun x hx => ?_⟩
    have hx₁ : Outside s₁ x := by
      rw [Outside, hkeeps.base, hkeeps.top]
      exact hx
    exact (free_outside hheap₁ hfree hx₁).trans (alloc_outside hheap howned hok halloc hx)
  · exact absurd hptr (hno d hd hused)

/-- **HEAP**: the bootstrap comes to its end with one free block, and has written the
    array only. -/
theorem heapBootstrap_ok (h : Arena heap s.mem) (log : List U8) :
    ∃ s' log', runs (m8HeapBootstrap heap s) log = (.ok s', log') ∧
      Run Ordinary heap M8_BOOT_HEAP_SIZE ⟨s', []⟩ ∧
      ∀ x, ¬ InRange heap 65536 x → s'.mem x = s.mem x := by
  obtain ⟨s₀, hinit, hrun₀, htotal, hout₀⟩ := init_run h
  obtain ⟨p, s₁, s₂, halloc, hp, hfree, hrun₂, hout₂⟩ := probe_run hrun₀ htotal
  obtain ⟨bs, hheap, -⟩ := run_inOrder hrun₂
  have hstats := KmemStats.kmemGetStats_eq hheap
  have hfits := h.fits
  have hsize := heapSize
  obtain ⟨hlo, hhi⟩ := run_bounds hrun₀
  refine ⟨s₂, ?_⟩
  unfold m8HeapBootstrap
  dsimp only
  rw [hinit, if_neg (not_not_intro rfl), halloc, runs_ended, if_neg hp, hfree, runs_ended,
    if_neg (not_not_intro rfl), hstats, runs_ended]
  -- outside the array neither the setup nor the probe has written
  refine ⟨_, rfl, hrun₂, fun x hx => ?_⟩
  rw [inRange_iff (by omega)] at hx
  refine (hout₂ x ?_).trans (hout₀ x ((inRange_iff (by omega) x).not.mpr hx))
  dsimp only at hlo hhi
  rw [Outside, BitVec.lt_def, BitVec.le_def]
  omega

/-- Others may write outside the array. -/
theorem idle_elsewhere (h : Run Ordinary heap M8_BOOT_HEAP_SIZE ⟨s, []⟩)
    (hfits : heap.toNat + 65536 < 2 ^ 64) {m : Mem}
    (hsame : ∀ x, InRange heap 65536 x → m x = s.mem x) :
    Run Ordinary heap M8_BOOT_HEAP_SIZE ⟨{ s with mem := m }, []⟩ := by
  obtain ⟨hlo, hhi⟩ := run_bounds h
  dsimp only at hlo hhi
  rw [heapSize] at hhi
  have hinside : ∀ x : U64, s.gHeapBase.toNat ≤ x.toNat → x.toNat < s.gHeapEnd.toNat →
      m x = s.mem x :=
    fun x h1 h2 => hsame x ((inRange_iff (by omega) x).mpr (by omega))
  have hstore : Ordinary ⟨s, []⟩ .store := fun hw => hw
  refine h.step hstore (.store (c := ⟨s, []⟩) ?_ ?_)
  · intro x hx
    have hx : ¬ (x < s.gHeapBase ∨ s.gHeapEnd ≤ x ∨ _) := hx
    rw [not_or, not_or, BitVec.lt_def, BitVec.le_def] at hx
    exact hinside x (by omega) (by omega)
  · -- the heap is one block, so it ends at an aligned address
    obtain ⟨bs, hheap, howned⟩ := run_inOrder h
    obtain rfl := idle_blocks hheap howned rfl
    obtain ⟨-, htop⟩ : _ ∧ _ = s.gHeapEnd.toNat := hheap.layout.tiles
    have hsize := (hheap.layout.sizes _ (List.mem_singleton_self _)).1
    have hbase := hheap.layout.aligned
    intro a ha h1 h2 hm
    have ha : a.toNat % 16 = 0 := ha
    have h1 : s.gHeapBase.toNat ≤ a.toNat := h1
    have h2 : a.toNat < s.gHeapEnd.toNat := h2
    have hload : load64 m a = load64 s.mem a := by
      refine load64_congr (fun j hj => hinside _ ?_ ?_)
      · bv_omega
      · bv_omega
    rw [← hload]
    exact hm

end BootHeap
