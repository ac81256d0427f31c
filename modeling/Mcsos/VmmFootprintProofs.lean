import Mcsos.VmmWalkProofs

/-! # What the walker writes

    The three calls of `vmm.c` store through pointers they have read from memory.
    On a tree whose tables are frames of `F`, all those stores are inside pages of
    such frames: a byte elsewhere is as it was, whatever the calls answer. -/

namespace VmmFootprint

open Word Loop ByteMemory VmmModel VmmTable VmmTree VmmRefinement VmmWalk

/-- `x` is no byte of a frame of `F`. -/
def Elsewhere (p2v : U64 → U64) (F : U64 → Prop) (x : U64) : Prop :=
  ∀ t, F t → ¬ InRange (p2v t) 4096 x

variable {Ctx : Type} {space : VmmSpace Ctx} {p2v : U64 → U64} {F : U64 → Prop}
  {A : Ctx → (U64 → Prop) → Prop} {w : VmmWorld Ctx} {M : PageMap} {x : U64}

/-- An entry is stored in its table's page. -/
theorem store_elsewhere (hs : Storage p2v F) (hx : Elsewhere p2v F x) {t i : U64} (ht : F t)
    (hi : i.toNat < 512) (mem : Mem) (v : U64) :
    store64 mem (entryAddr (p2v t) i) v x = mem x := by
  refine storeBytes_outside (fun hin => hx t ht ?_)
  have hfit := hs.fits t ht
  have haddr := hs.entryAddr_toNat ht hi
  rw [inRange_iff (by omega)] at hin
  rw [inRange_iff hfit]
  omega

/-- A page is cleared in place. -/
theorem zeroPage_elsewhere (hs : Storage p2v F) (hx : Elsewhere p2v F x) {t : U64} (ht : F t)
    (mem : Mem) : vmmZeroPage mem (p2v t) x = mem x := by
  rw [vmmZeroPage]
  apply forUpTo_induct (fun _ (m : Mem) => m x = mem x)
  · decide
  · decide
  · exact Nat.one_dvd _
  · rfl
  · intro i m _ hi _ hm
    rw [store_elsewhere hs hx ht (by bv_omega), hm]

/-- **LEVEL**: a missing table is a frame of `F`, and so is the one it is linked in. -/
theorem getOrAllocNextTable_elsewhere (hE : Env space p2v F A) (hx : Elsewhere p2v F x)
    {p : List U64} {table i : U64} (h : At space p2v F A w M p table) (hi : i.toNat < 512) :
    (getOrAllocNextTable space w table i).2.mem x = w.mem x := by
  obtain ⟨tab, t, hT, hA, ht, rfl⟩ := h
  have hF := hT.stored p t ht
  rw [getOrAllocNextTable]
  dsimp only
  split
  · split
    · rfl
    · split <;> rfl
  · cases halloc : space.allocFrame with
    | none => rfl
    | some allocFrame =>
        dsimp only
        split
        · rfl
        · rename_i hvalid
          split
          · cases space.freeFrame <;> rfl
          · rcases hE.fresh allocFrame halloc w.ctx _ hA with ⟨hinvalid, -⟩ | ⟨hal, -, hnew, -⟩
            · exact absurd (Or.inl hinvalid) hvalid
            · dsimp only
              -- a new table: its own page is cleared and the link is stored
              rw [store_elsewhere hE.storage hx hF hi, hE.tableFromPhys_eq hal,
                zeroPage_elsewhere hE.storage hx hnew]

/-- A walk that opens tables stays at a table, or fails. -/
theorem openPath_elsewhere (hE : Env space p2v F A) (hx : Elsewhere p2v F x) (path : List U64) :
    ∀ {w : VmmWorld Ctx} {p : List U64} {table : U64}, At space p2v F A w M p table →
      p.length + path.length ≤ 3 → (∀ i ∈ path, i.toNat < 512) →
      (openPath space w table path).2.mem x = w.mem x ∧
      ∀ pt, (openPath space w table path).1 = .ok pt →
        At space p2v F A (openPath space w table path).2 M (p ++ path) pt := by
  induction path with
  | nil =>
      intro w p table h _ _
      refine ⟨rfl, ?_⟩
      rintro pt ⟨⟩
      rw [List.append_nil]
      exact h
  | cons i path ih =>
      intro w p table h hlen hpath
      have hi := hpath i List.mem_cons_self
      rw [List.length_cons] at hlen
      have hsame := getOrAllocNextTable_elsewhere hE hx h hi
      have hspec := getOrAllocNextTable_spec hE h (by omega) hi
      rw [openPath]
      generalize getOrAllocNextTable space w table i = r at hsame hspec ⊢
      rcases r with ⟨e | next, w'⟩
      · refine ⟨hsame, ?_⟩
        rintro pt ⟨⟩
      · rcases hspec with ⟨_, ⟨⟩, hnext⟩ | ⟨hfail, -⟩
        · have hlen' : (p ++ [i]).length + path.length ≤ 3 := by
            rw [List.length_append, List.length_singleton]
            omega
          -- each level stores to table pages only, and ends at the next one
          obtain ⟨hrest, hat⟩ := ih hnext hlen' (fun j hj => hpath j (List.mem_cons_of_mem i hj))
          rw [← List.append_cons] at hat
          exact ⟨hrest.trans hsame, hat⟩
        · cases hfail

/-- `vmm_map_page` writes to table pages only. -/
theorem vmmMapPage_elsewhere (hE : Env space p2v F A) (h : Holds space p2v F A w M)
    (hx : Elsewhere p2v F x) (vaddr paddr flags : U64) :
    (vmmMapPage space w vaddr paddr flags).2.mem x = w.mem x := by
  by_cases hguard : (!vmmIsCanonical vaddr) = true ∨ (!vmmIsAligned4k vaddr) = true ∨
      (!vmmIsAligned4k paddr) = true
  · rw [vmmMapPage, if_pos hguard]
  simp only [Bool.not_eq_true', not_or, Bool.not_eq_false] at hguard
  obtain ⟨hcanonical, haligned, hframe⟩ := hguard
  have hroot := h.at_root hE
  obtain ⟨hwalk, hat⟩ := openPath_elsewhere hE hx (ptPath vaddr) hroot (by exact Nat.le_refl 3)
    (ptPath_lt vaddr)
  rw [vmmMapPage_openPath ⟨hcanonical, haligned⟩ hframe (hroot.nonnull hE), rootTable]
  generalize openPath space w (tableFromPhys space space.rootPaddr) (ptPath vaddr) = r
    at hwalk hat ⊢
  rcases r with ⟨e | pt, w'⟩
  · exact hwalk
  · rw [mapLeaf]
    dsimp only
    split
    · exact hwalk
    · obtain ⟨tab, t, hT, -, ht, rfl⟩ := hat pt rfl
      dsimp only
      rw [store_elsewhere hE.storage hx (hT.stored _ t ht) (idxPt_lt vaddr)]
      exact hwalk

/-- `vmm_unmap_page` writes to table pages only. -/
theorem vmmUnmapPage_elsewhere (hE : Env space p2v F A) (h : Holds space p2v F A w M)
    (hx : Elsewhere p2v F x) (vaddr : U64) :
    (vmmUnmapPage space w vaddr).2.mem x = w.mem x := by
  rw [vmmUnmapPage]
  by_cases hv : Valid vaddr
  · obtain ⟨tab, hT, -⟩ := h
    rw [walkToPt_spec hE hT hv]
    cases ht : tab (ptPath vaddr) with
    | none => rfl
    | some t =>
        simp only [Option.elim_some]
        split
        · rfl
        · exact store_elsewhere hE.storage hx (hT.stored _ t ht) (idxPt_lt vaddr) ..
  · rw [walkToPt_invalid hv]

/-- **FOOTPRINT**: a call of the walker changes bytes of frames of `F` only. -/
theorem vmmStep_elsewhere (hE : Env space p2v F A) (h : Holds space p2v F A w M)
    (hx : Elsewhere p2v F x) (op : VmmOp) : (vmmStep space w op).2.mem x = w.mem x := by
  cases op with
  | map vaddr paddr flags => exact vmmMapPage_elsewhere hE h hx vaddr paddr flags
  | unmap vaddr => exact vmmUnmapPage_elsewhere hE h hx vaddr

end VmmFootprint
