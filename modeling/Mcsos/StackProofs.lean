import Mcsos.ByteMemoryProofs

/-! # Registers saved on a stack

    A processor with named 64-bit registers, one of them the stack pointer, and
    byte memory.  Words are pushed below the stack pointer and popped from it;
    `Holds m a ws` says which words lie from `a` upwards.

    Three rules carry a routine that saves registers, lets other code run and
    restores them.  Whatever is pushed is described by one record, `Pushed`, and
    such records compose (`Pushed.trans`): the words lie in front of those that
    were there, and nothing but the new stretch of stack is written.  The words
    stay as long as their bytes do (`Holds.congr`).  Popping registers gives them
    the words that lie at the stack pointer (`restoreAll_regs`). -/

namespace Stack

open Word ByteMemory

/-- The registers and the memory. -/
@[ext] structure Core (R : Type) where
  regs : R → U64
  mem : Mem

/-- The words from `a` upwards. -/
def Holds (m : Mem) : U64 → List U64 → Prop
  | _, [] => True
  | a, w :: ws => load64 m a = w ∧ Holds m (a + 8) ws

/-- The size of `n` words, as a distance between addresses. -/
def words (n : Nat) : U64 := BitVec.ofNat 64 (8 * n)

theorem words_zero : words 0 = 0#64 := rfl

theorem words_succ (n : Nat) : words (n + 1) = 8 + words n := by
  rw [words, words]
  bv_omega

/-- The bytes of the `n` words below `sp`. -/
def Below (sp : U64) (n : Nat) (x : U64) : Prop := InRange (sp - words n) (8 * n) x

/-- A longer stretch below the stack pointer contains a shorter one. -/
theorem Below.mono {sp x : U64} {n k : Nat} (h : Below sp n x) (hle : n ≤ k) :
    Below sp k x := by
  have h' : (x - (sp - words n)).toNat < 8 * n := h
  show (x - (sp - words k)).toNat < 8 * k
  rw [words] at h' ⊢
  by_cases heq : n = k
  · rw [← heq]
    exact h'
  · bv_omega

/-- The words below `sp - 8 n` are among the words below `sp`. -/
theorem Below.shift {sp x : U64} {n k : Nat} (h : Below (sp - words n) k x) :
    Below sp (n + k) x := by
  have h' : (x - (sp - words n - words k)).toNat < 8 * k := h
  show (x - (sp - words (n + k))).toNat < 8 * (n + k)
  have hsum : sp - words n - words k = sp - words (n + k) := by
    rw [words, words, words]
    bv_omega
  rw [hsum] at h'
  omega

section Offsets

variable {a x : U64} {i j k n room : Nat}

end Offsets

/-! ## Words in memory -/

/-- Only the bytes of the words matter. -/
theorem Holds.congr {m m' : Mem} {a : U64} {ws : List U64} (h : Holds m a ws)
    (hlen : 8 * ws.length ≤ 2 ^ 64)
    (heq : ∀ x, InRange a (8 * ws.length) x → m' x = m x) : Holds m' a ws := by
  induction ws generalizing a with
  | nil => trivial
  | cons w ws ih =>
      rw [List.length_cons] at hlen heq
      obtain ⟨hw, hws⟩ := h
      refine ⟨?_, ih hws (by omega) (fun x hx => heq x ?_)⟩
      · rw [← hw]
        refine load64_congr (fun i hi => heq _ ?_)
        show (a + BitVec.ofNat 64 i - a).toNat < 8 * (ws.length + 1)
        bv_omega
      · have hx' : (x - (a + 8)).toNat < 8 * ws.length := hx
        show (x - a).toNat < 8 * (ws.length + 1)
        bv_omega

/-- A word pushed in front. -/
theorem Holds.push {m : Mem} {a : U64} {ws : List U64} (h : Holds m a ws) (v : U64)
    (hlen : 8 * (ws.length + 1) ≤ 2 ^ 64) : Holds (store64 m (a - 8) v) (a - 8) (v :: ws) := by
  refine ⟨load64_store64 m (a - 8) v, ?_⟩
  rw [BitVec.sub_add_cancel]
  refine h.congr (by omega) (fun x hx => storeBytes_outside (fun hin => ?_))
  have hx' : (x - a).toNat < 8 * ws.length := hx
  have hin' : (x - (a - 8)).toNat < 8 := hin
  bv_omega

/-- The word at an index. -/
theorem Holds.load {m : Mem} {a : U64} {ws : List U64} (h : Holds m a ws) {i : Nat} {w : U64}
    (hi : ws[i]? = some w) : load64 m (a + words i) = w := by
  induction ws generalizing a i with
  | nil => cases hi
  | cons v ws ih =>
      cases i with
      | zero =>
          rw [words, Nat.mul_zero, BitVec.add_zero, h.1]
          exact Option.some.inj hi
      | succ i =>
          rw [words_succ, ← BitVec.add_assoc]
          exact ih h.2 hi

/-- The words behind the first ones. -/
theorem Holds.drop {m : Mem} {a : U64} (vs : List U64) {ws : List U64}
    (h : Holds m a (vs ++ ws)) : Holds m (a + words vs.length) ws := by
  induction vs generalizing a with
  | nil =>
      rw [List.length_nil, words, BitVec.add_zero]
      exact h
  | cons v vs ih =>
      rw [List.length_cons, words_succ, ← BitVec.add_assoc]
      exact ih h.2

/-! ## Words stored one above the other -/

/-- Store words from word `i` above `a` on. -/
def storeAll (m : Mem) (a : U64) (i : Nat) : List U64 → Mem
  | [] => m
  | w :: ws => storeAll (store64 m (a + words i) w) a (i + 1) ws

/-- Storing words changes their bytes only. -/
theorem storeAll_outside {m : Mem} {a : U64} {i : Nat} {ws : List U64} {x : U64}
    (hlen : 8 * (i + ws.length) ≤ 2 ^ 64)
    (h : ¬ InRange (a + words i) (8 * ws.length) x) : storeAll m a i ws x = m x := by
  induction ws generalizing m i with
  | nil => rfl
  | cons w ws ih =>
      rw [List.length_cons] at hlen h
      have hx : ¬ (x - (a + words i)).toNat < 8 * (ws.length + 1) := h
      -- the first word's bytes, and those of the rest
      have htail : ¬ InRange (a + words (i + 1)) (8 * ws.length) x := by
        intro hin
        have hin' : (x - (a + words (i + 1))).toNat < 8 * ws.length := hin
        rw [words] at hx hin'
        bv_omega
      have hhead : ¬ InRange (a + words i) 8 x := by
        intro hin
        have hin' : (x - (a + words i)).toNat < 8 := hin
        omega
      rw [storeAll, ih (by omega) htail]
      exact storeBytes_outside hhead

/-- The words stored lie in front of those above them. -/
theorem storeAll_holds {m : Mem} {a : U64} {i : Nat} {ws vs : List U64}
    (hlen : 8 * (i + ws.length + vs.length) ≤ 2 ^ 64)
    (h : Holds m (a + words (i + ws.length)) vs) :
    Holds (storeAll m a i ws) (a + words i) (ws ++ vs) := by
  induction ws generalizing m i with
  | nil => exact h
  | cons w ws ih =>
      rw [List.length_cons] at hlen h
      have hnext : a + words i + 8 = a + words (i + 1) := by
        rw [words_succ, BitVec.add_assoc, BitVec.add_comm (words i)]
      have habove : Holds (store64 m (a + words i) w) (a + words (i + 1 + ws.length)) vs := by
        rw [show i + 1 + ws.length = i + (ws.length + 1) by omega]
        refine h.congr (by omega) (fun x hx => storeBytes_outside (fun hin => ?_))
        have hx' : (x - (a + words (i + (ws.length + 1)))).toNat < 8 * vs.length := hx
        have hin' : (x - (a + words i)).toNat < 8 := hin
        rw [words] at hx' hin'
        bv_omega
      refine ⟨?_, ?_⟩
      · -- the words above do not reach the first one
        have hself : load64 (store64 m (a + words i) w) (a + words i) = w := load64_store64 m _ w
        have htail : 8 * (i + 1 + ws.length) ≤ 2 ^ 64 := by omega
        refine Eq.trans (load64_congr (fun k hk => ?_)) hself
        refine storeAll_outside htail (fun hin => ?_)
        have hin' : (a + words i + BitVec.ofNat 64 k - (a + words (i + 1))).toNat
            < 8 * ws.length := hin
        rw [words, words] at hin'
        bv_omega
      · rw [hnext]
        exact ih (by omega) habove

/-! ## Pushing and popping -/

variable {R : Type} [DecidableEq R] (sp : R)

/-- An assignment to a register. -/
def Core.setReg (c : Core R) (r : R) (v : U64) : Core R :=
  { c with regs := Function.update c.regs r v }

/-- A push. -/
def Core.push (c : Core R) (v : U64) : Core R :=
  { regs := Function.update c.regs sp (c.regs sp - 8)
    mem := store64 c.mem (c.regs sp - 8) v }

/-- The word at the stack pointer, and what is left. -/
def Core.pop (c : Core R) : U64 × Core R :=
  (load64 c.mem (c.regs sp), c.setReg sp (c.regs sp + 8))

/-- A pop into a register. -/
def Core.popTo (c : Core R) (r : R) : Core R := (c.pop sp).2.setReg r (c.pop sp).1

/-- One push after another. -/
def Core.pushAll (c : Core R) : List U64 → Core R
  | [] => c
  | v :: vs => (c.push sp v).pushAll vs

/-- Push the registers, the first one first. -/
def Core.saveAll (c : Core R) : List R → Core R
  | [] => c
  | r :: rs => (c.push sp (c.regs r)).saveAll rs

/-- Pop the registers, the first one first. -/
def Core.restoreAll (c : Core R) : List R → Core R
  | [] => c
  | r :: rs => (c.popTo sp r).restoreAll rs

variable {sp} {c d : Core R} {rs : List R} {ws : List U64}

@[simp] theorem regs_setReg_self (c : Core R) (r : R) (v : U64) : (c.setReg r v).regs r = v :=
  Function.update_self ..

theorem regs_setReg_of_ne (c : Core R) {r r' : R} (v : U64) (h : r' ≠ r) :
    (c.setReg r v).regs r' = c.regs r' :=
  Function.update_of_ne h ..

@[simp] theorem mem_setReg (c : Core R) (r : R) (v : U64) : (c.setReg r v).mem = c.mem := rfl

theorem regs_push_sp (c : Core R) (v : U64) : (c.push sp v).regs sp = c.regs sp - 8 :=
  Function.update_self ..

theorem regs_push_of_ne (c : Core R) (v : U64) {r : R} (hr : r ≠ sp) :
    (c.push sp v).regs r = c.regs r :=
  Function.update_of_ne hr ..

/-- What pushing some words does: the stack pointer moves, the words lie below where it
    was, in front of those already there, and no other byte is written. -/
structure Pushed (sp : R) (c : Core R) (vs : List U64) (d : Core R) : Prop where
  pointer : d.regs sp = c.regs sp - words vs.length
  others : ∀ r, r ≠ sp → d.regs r = c.regs r
  holds : ∀ ws, Holds c.mem (c.regs sp) ws → 8 * (vs.length + ws.length) ≤ 2 ^ 64 →
    Holds d.mem (d.regs sp) (vs.reverse ++ ws)
  frame : ∀ x, ¬ Below (c.regs sp) vs.length x → d.mem x = c.mem x

omit [DecidableEq R] in
theorem Pushed.nil (c : Core R) : Pushed sp c [] c where
  pointer := by rw [List.length_nil, words, Nat.mul_zero, BitVec.sub_zero]
  others := fun _ _ => rfl
  holds := fun ws h _ => h
  frame := fun _ _ => rfl

theorem push_pushed (c : Core R) (v : U64) : Pushed sp c [v] (c.push sp v) where
  pointer := regs_push_sp c v
  others := fun _ hr => regs_push_of_ne c v hr
  holds := by
    intro ws hws hlen
    rw [List.length_singleton] at hlen
    rw [regs_push_sp]
    exact hws.push v (by omega)
  frame := fun _ hx => storeBytes_outside hx

omit [DecidableEq R] in
/-- **COMPOSE**: words pushed after words. -/
theorem Pushed.trans {e : Core R} {vs us : List U64} (h : Pushed sp c vs d)
    (h' : Pushed sp d us e) : Pushed sp c (vs ++ us) e where
  pointer := by
    rw [h'.pointer, h.pointer, List.length_append, words, words, words]
    bv_omega
  others := fun r hr => (h'.others r hr).trans (h.others r hr)
  holds := by
    intro ws hws hlen
    rw [List.length_append] at hlen
    have hd := h.holds ws hws (by omega)
    have he := h'.holds _ hd (by rw [List.length_append, List.length_reverse]; omega)
    rw [List.reverse_append, List.append_assoc]
    exact he
  frame := by
    intro x hx
    rw [List.length_append] at hx
    -- the later words lie below the earlier ones
    have hlow : ¬ Below (d.regs sp) us.length x := by
      intro hb
      rw [h.pointer] at hb
      exact hx hb.shift
    have hhigh : ¬ Below (c.regs sp) vs.length x :=
      fun hb => hx (hb.mono (Nat.le_add_right _ _))
    rw [h'.frame x hlow, h.frame x hhigh]

/-- One push after another. -/
theorem pushAll_pushed (c : Core R) (vs : List U64) : Pushed sp c vs (c.pushAll sp vs) := by
  induction vs generalizing c with
  | nil => exact Pushed.nil c
  | cons v vs ih => exact (push_pushed c v).trans (ih _)

/-- **SAVE**: the registers as they were when the first one was pushed. -/
theorem saveAll_pushed (c : Core R) {rs : List R} (hsp : sp ∉ rs) :
    Pushed sp c (rs.map c.regs) (c.saveAll sp rs) := by
  induction rs generalizing c with
  | nil => exact Pushed.nil c
  | cons r rs ih =>
      obtain ⟨hr, hrs⟩ := List.ne_and_not_mem_of_not_mem_cons hsp
      have hnext := ih (c.push sp (c.regs r)) hrs
      have hsame : rs.map (c.push sp (c.regs r)).regs = rs.map c.regs :=
        List.map_congr_left (fun r' hr' =>
          regs_push_of_ne c _ (fun h => hrs (h ▸ hr')))
      rw [hsame] at hnext
      exact (push_pushed c (c.regs r)).trans hnext

/-- The registers after a pop. -/
theorem regs_popTo (c : Core R) (r r' : R) :
    (c.popTo sp r).regs r' = if r' = r then load64 c.mem (c.regs sp)
      else if r' = sp then c.regs sp + 8 else c.regs r' := by
  show Function.update (Function.update c.regs sp (c.regs sp + 8)) r
    (load64 c.mem (c.regs sp)) r' = _
  rw [Function.update_apply, Function.update_apply]

/-- **RESTORE**: the registers get the words that lie at the stack pointer, and the
    memory stays. -/
theorem restoreAll_regs {f : R → U64} (hsp : sp ∉ rs)
    (h : Holds c.mem (c.regs sp) (rs.map f ++ ws)) (r : R) :
    (c.restoreAll sp rs).regs r = if r = sp then c.regs sp + words rs.length
      else if r ∈ rs then f r else c.regs r := by
  induction rs generalizing c with
  | nil =>
      rw [List.length_nil, words, Nat.mul_zero, BitVec.add_zero, if_neg (List.not_mem_nil)]
      by_cases hr : r = sp
      · rw [if_pos hr, hr]
        rfl
      · rw [if_neg hr]
        rfl
  | cons q rs ih =>
      obtain ⟨hq, hrs⟩ := List.ne_and_not_mem_of_not_mem_cons hsp
      have hptr : (c.popTo sp q).regs sp = c.regs sp + 8 := by
        rw [regs_popTo, if_neg hq, if_pos rfl]
      -- the words behind the first are on top of the stack now
      have hrest : Holds (c.popTo sp q).mem ((c.popTo sp q).regs sp) (rs.map f ++ ws) := by
        rw [hptr]
        exact h.2
      rw [Core.restoreAll, ih hrs hrest, hptr, List.length_cons, words_succ, BitVec.add_assoc]
      by_cases hr : r = sp
      · rw [if_pos hr, if_pos hr]
      · rw [if_neg hr, if_neg hr]
        by_cases hmem : r ∈ rs
        · rw [if_pos hmem, if_pos (List.mem_cons_of_mem q hmem)]
        · rw [if_neg hmem, regs_popTo, if_neg hr]
          by_cases heq : r = q
          · rw [if_pos heq, if_pos (heq ▸ List.mem_cons_self), heq]
            exact h.1
          · rw [if_neg heq, if_neg (List.not_mem_cons_of_ne_of_not_mem heq hmem)]

/-- Pops leave the memory alone. -/
theorem restoreAll_mem (c : Core R) (rs : List R) : (c.restoreAll sp rs).mem = c.mem := by
  induction rs generalizing c with
  | nil => rfl
  | cons r rs ih => exact ih _

end Stack
