import Mcsos.VfsPathProofs

/-! # What a lookup reads

    `mcs_ramfs_lookup` once more, with its pointers as positions and every read of
    an array through a function that has no value outside the array: the path
    string ends with its terminator, a name has 32 bytes, the node table 64
    nodes.  A loop that does not end has no value either.

    The result always has a value, that of the lookup (`lookupReads_eq`), so no
    read leaves its array.  Each loop is compared with the function over the rest
    of the string that models it. -/

namespace VfsReads

open Word Loop VfsModel VfsTree VfsString VfsPath

/-! ## Reads -/

/-- `fs->nodes[i]`. -/
def readNode (fs : Ramfs) (i : Nat) : Option Vnode :=
  if i < MCS_MAX_NODES then some (fs.nodes i) else none

/-- `node->name[k]`. -/
def readName (node : Vnode) (k : Nat) : Option U8 :=
  if k < MCS_MAX_NAME then some (node.name k) else none

/-- The loop of `mcs_strlen`, and those that look for the end of a segment: the first
    position from `i` on with a character to stop at. -/
def scan (str : Path) (stop : U8 → Bool) : Nat → Nat → Option Nat
  | 0, _ => none
  | fuel + 1, i => do
      let c ← str[i]?
      if stop c then some i else scan str stop fuel (i + 1)

/-- `mcs_streq_n` from character `i` on, with `k` characters to go. -/
def streqFrom (str : Path) (seg : Nat) (node : Vnode) : Nat → Nat → Option Bool
  | i, 0 => do
      let b ← readName node i
      some (b = 0)
  | i, k + 1 => do
      let a ← str[seg + i]?
      let b ← readName node i
      if a ≠ b then some false else streqFrom str seg node (i + 1) k

/-- The loop of `mcs_find_child` from node `i` on, with `k` nodes to go. -/
def findFrom (fs : Ramfs) (str : Path) (parent : U32) (seg segLen : Nat) :
    Nat → Nat → Option (Except VfsErr Nat)
  | _, 0 => some (.error .enoent)
  | i, k + 1 => do
      let node ← readNode fs i
      if node.used && node.parent = parent then do
        let same ← streqFrom str seg node 0 segLen
        if same then some (.ok i) else findFrom fs str parent seg segLen (i + 1) k
      else findFrom fs str parent seg segLen (i + 1) k

/-- The loop of `mcs_ramfs_lookup` from position `seg` on. -/
def lookupFrom (fs : Ramfs) (str : Path) : Nat → Nat → Nat → Option (Except VfsErr Nat)
  | 0, _, _ => none
  | rounds + 1, cur, seg => do
      let first ← str[seg]?
      if first = 0 then some (.error .einval)
      else do
        let next ← scan str (fun c => c = slash ∨ c = 0) str.length seg
        let segLen := next - seg
        if segLen = 0 ∨ segLen ≥ MCS_MAX_NAME then some (.error .einval)
        else do
          let node ← readNode fs cur
          match ← findFrom fs str node.id seg segLen 0 fs.nodeCount.toNat with
          | .error rc => some (.error rc)
          | .ok cur => do
              let last ← str[next]?
              if last = 0 then some (.ok cur)
              else do
                let node ← readNode fs cur
                if node.type ≠ .dir then some (.error .enotdir)
                else lookupFrom fs str rounds cur (next + 1)

/-- `mcs_ramfs_lookup` over the array `str`. -/
def lookupReads (fs : Ramfs) (str : Path) : Option (Except VfsErr Nat) := do
  let c ← str[0]?
  if c ≠ slash then some (.error .einval)
  else do
    let len ← scan str (· = 0) str.length 0
    if len ≥ MCS_MAX_PATH then some (.error .enametoolong)
    else do
      let c ← str[1]?
      if c = 0 then some (.ok 0) else lookupFrom fs str str.length 0 1

/-! ## The loops -/

variable {fs : Ramfs} {s : Path}

/-- Up to the terminator, a read gives the character the pointer is at. -/
theorem read_char {i : Nat} (hi : i ≤ s.length) :
    (s ++ [0])[i]? = some (deref (s.drop i)) := by
  rw [deref, List.headD_eq_head?_getD, List.head?_drop]
  by_cases hlt : i < s.length
  · rw [List.getElem?_append_left hlt, List.getElem?_eq_getElem hlt]
    rfl
  · obtain rfl : i = s.length := by omega
    rw [List.getElem?_append_right (Nat.le_refl _), Nat.sub_self,
      List.getElem?_eq_none (Nat.le_refl _)]
    rfl

theorem drop_cons {i : Nat} (hi : i < s.length) :
    s.drop i = deref (s.drop i) :: s.drop (i + 1) := by
  have hdrop := List.drop_eq_getElem_cons hi
  rw [hdrop]
  rfl

/-- A scan that stops at NUL at the latest goes as far as a function over the rest of
    the string says that counts the characters before the stop. -/
theorem scan_eq {stop : U8 → Bool} {count : Path → Nat} (hzero : stop 0 = true)
    (hnil : count [] = 0) (hcons : ∀ c t, count (c :: t) = if stop c then 0 else count t + 1) :
    ∀ fuel i, i ≤ s.length → s.length < i + fuel →
      scan (s ++ [0]) stop fuel i = some (i + count (s.drop i)) := by
  intro fuel
  induction fuel with
  | zero =>
      intro i hi hfuel
      omega
  | succ fuel ih =>
      intro i hi hfuel
      rw [scan, read_char hi]
      show (if stop (deref (s.drop i)) = true then some i else _) = _
      -- behind the characters is the terminator, where every scan stops
      by_cases hlt : i < s.length
      · by_cases hstop : stop (deref (s.drop i)) = true
        · rw [if_pos hstop, drop_cons hlt, hcons, if_pos hstop]
          rfl
        · rw [if_neg hstop, ih (i + 1) hlt (by omega), drop_cons hlt, hcons, if_neg hstop]
          congr 1
          omega
      · rw [List.drop_eq_nil_of_le (by omega), hnil]
        exact if_pos hzero

/-- The length is found at the terminator. -/
theorem scan_strlen : scan (s ++ [0]) (· = 0) (s ++ [0]).length 0 = some (mcsStrlen s) := by
  have hscan : scan (s ++ [0]) (· = 0) (s ++ [0]).length 0 = some (0 + mcsStrlen (s.drop 0)) :=
    scan_eq rfl rfl (fun c t => by simp only [mcsStrlen, decide_eq_true_eq])
      (s ++ [0]).length 0 (Nat.zero_le _)
      (by rw [List.length_append, List.length_singleton]; omega)
  rw [hscan, Nat.zero_add, List.drop_zero]

/-- A segment's end is found at a slash or at the terminator. -/
theorem scan_segLen {seg : Nat} (hseg : seg ≤ s.length) :
    scan (s ++ [0]) (fun c => c = slash ∨ c = 0) (s ++ [0]).length seg
      = some (seg + segLen (s.drop seg)) :=
  scan_eq (by decide) rfl (fun c t => by simp only [segLen, decide_eq_true_eq])
    (s ++ [0]).length seg hseg (by rw [List.length_append, List.length_singleton]; omega)

theorem readName_eq (node : Vnode) {k : Nat} (hk : k < 32) :
    readName node k = some (node.name k) := if_pos hk

/-- One character of a comparison. -/
theorem mcsStreqN_succ (a : Path) (b : Nat → U8) (k : Nat) :
    mcsStreqN a b (k + 1)
      = (decide (deref a = b 0) && mcsStreqN (a.drop 1) (fun j => b (j + 1)) k) := by
  rw [Bool.eq_iff_iff, Bool.and_eq_true, mcsStreqN_iff, mcsStreqN_iff, decide_eq_true_eq]
  have hget : ∀ j, (a.drop 1).getD j 0 = a.getD (j + 1) 0 := by
    intro j
    cases a with
    | nil => rfl
    | cons c a => rfl
  have hfirst : a.getD 0 0 = deref a := by
    cases a with
    | nil => rfl
    | cons c a => rfl
  constructor
  · rintro ⟨heq, hend⟩
    refine ⟨hfirst ▸ heq 0 (Nat.succ_pos k), fun j hj => ?_, hend⟩
    rw [hget]
    exact heq (j + 1) (Nat.succ_lt_succ hj)
  · rintro ⟨h0, heq, hend⟩
    refine ⟨fun j hj => ?_, hend⟩
    cases j with
    | zero => rw [hfirst, h0]
    | succ j =>
        rw [← hget]
        exact heq j (Nat.lt_of_succ_lt_succ hj)

/-- **COMPARE**: a comparison of a segment of less than 32 characters reads within the
    segment and the name, terminator included. -/
theorem streqFrom_eq (node : Vnode) {seg : Nat} :
    ∀ k i, i + k < 32 → seg + i + k ≤ s.length →
      streqFrom (s ++ [0]) seg node i k
        = some (mcsStreqN (s.drop (seg + i)) (fun j => node.name (i + j)) k) := by
  intro k
  induction k with
  | zero =>
      intro i hi _
      rw [streqFrom, readName_eq node (show i < 32 from hi)]
      rfl
  | succ k ih =>
      intro i hi hseg
      rw [streqFrom, read_char (by omega), readName_eq node (by omega), mcsStreqN_succ]
      -- the rest of the name, from the next character on
      have hshift : (fun j => node.name (i + (j + 1))) = fun j => node.name (i + 1 + j) := by
        funext j
        rw [Nat.add_assoc i 1 j, Nat.add_comm 1 j]
      show (if deref (s.drop (seg + i)) ≠ node.name i then some false else _)
        = some (decide (deref (s.drop (seg + i)) = node.name i) && _)
      by_cases hsame : deref (s.drop (seg + i)) = node.name i
      · rw [if_neg (not_not_intro hsame), ih (i + 1) (by omega) (by omega), List.drop_drop,
          decide_eq_true hsame, Bool.true_and, hshift, Nat.add_assoc]
      · rw [if_pos hsame, decide_eq_false hsame, Bool.false_and]

/-- **SEARCH**: the search for a child reads names of nodes of the table only. -/
theorem findFrom_eq (parent : U32) {seg m : Nat} (hm : m < 32) (hseg : seg + m ≤ s.length) :
    ∀ k i, i + k ≤ 64 →
      findFrom fs (s ++ [0]) parent seg m i k
        = some (((List.range' i k).find? (fun j => (fs.nodes j).used &&
            (fs.nodes j).parent = parent && mcsStreqN (s.drop seg) (fs.nodes j).name m)).elim
          (.error .enoent) .ok) := by
  intro k
  induction k with
  | zero =>
      intro i _
      rfl
  | succ k ih =>
      intro i hi
      have hnode : readNode fs i = some (fs.nodes i) := if_pos (show i < 64 by omega)
      -- the name is compared only for a child of the right parent
      have hstreq := streqFrom_eq (s := s) (fs.nodes i) m 0 (by omega) (by omega)
      simp only [Nat.zero_add, Nat.add_zero] at hstreq
      rw [findFrom, hnode, List.range'_succ, List.find?_cons]
      show (if ((fs.nodes i).used && decide ((fs.nodes i).parent = parent)) = true then _ else _)
        = _
      rw [hstreq, ih (i + 1) (by omega)]
      by_cases hcand : ((fs.nodes i).used && decide ((fs.nodes i).parent = parent)) = true
      · rw [if_pos hcand, hcand, Bool.true_and]
        cases mcsStreqN (s.drop seg) (fs.nodes i).name m with
        | true => rfl
        | false => rfl
      · rw [if_neg hcand, Bool.eq_false_iff.mpr hcand, Bool.false_and]

/-- The whole search is that of `mcs_find_child`. -/
theorem findFrom_child (hbound : fs.nodeCount.toNat ≤ MCS_MAX_NODES) (parent : U32) {seg m : Nat}
    (hproper : ¬ (m = 0 ∨ m ≥ MCS_MAX_NAME)) (hseg : seg + m ≤ s.length) :
    findFrom fs (s ++ [0]) parent seg m 0 fs.nodeCount.toNat
      = some (mcsFindChild fs parent (s.drop seg) m) := by
  have hm : m < 32 := by
    rw [not_or, Nat.not_le] at hproper
    exact hproper.2
  have hbound' : 0 + fs.nodeCount.toNat ≤ 64 := by
    rw [Nat.zero_add]
    exact hbound
  rw [findFrom_eq parent hm hseg _ 0 hbound', mcsFindChild, if_neg hproper,
    List.range_eq_range']
  cases (List.range' 0 fs.nodeCount.toNat).find? _ with
  | none => rfl
  | some i => rfl

/-- **WALK**: the loop of the lookup. -/
theorem lookupFrom_eq (hbound : fs.nodeCount.toNat ≤ MCS_MAX_NODES) :
    ∀ rounds cur seg, seg ≤ s.length → cur < fs.nodeCount.toNat →
      (s.drop seg).length < rounds →
      lookupFrom fs (s ++ [0]) rounds cur seg = some (lookupLoop fs rounds cur (s.drop seg)) := by
  intro rounds
  induction rounds with
  | zero =>
      intro cur seg _ _ hrounds
      omega
  | succ rounds ih =>
      intro cur seg hseg hcur hrounds
      have hnode : ∀ i, i < fs.nodeCount.toNat → readNode fs i = some (fs.nodes i) :=
        fun i hi => if_pos (Nat.lt_of_lt_of_le hi hbound)
      rw [lookupFrom, lookupLoop, read_char hseg]
      show (if deref (s.drop seg) = 0 then _ else _) = _
      by_cases hstart : deref (s.drop seg) = 0
      · rw [if_pos hstart, if_pos hstart]
      rw [if_neg hstart, if_neg hstart, scan_segLen hseg]
      show (if seg + segLen (s.drop seg) - seg = 0 ∨
          seg + segLen (s.drop seg) - seg ≥ MCS_MAX_NAME then _ else _) = _
      rw [Nat.add_sub_cancel_left]
      by_cases hlen : segLen (s.drop seg) = 0 ∨ segLen (s.drop seg) ≥ MCS_MAX_NAME
      · simp only [if_pos hlen]
      have hle := segLen_le (s.drop seg)
      rw [List.length_drop] at hle
      have hnext : seg + segLen (s.drop seg) ≤ s.length := by omega
      rw [hnode cur hcur]
      simp only [if_neg hlen, Option.bind_eq_bind, Option.bind_some]
      rw [findFrom_child hbound _ hlen hnext, read_char hnext, List.drop_drop]
      simp only [Option.bind_some]
      cases hfind : mcsFindChild fs (fs.nodes cur).id (s.drop seg) (segLen (s.drop seg)) with
      | error rc => rfl
      | ok i =>
          have hi := (mcsFindChild_ok hfind).1
          dsimp only
          by_cases hend : deref (s.drop (seg + segLen (s.drop seg))) = 0
          · rw [if_pos hend, if_pos hend]
          rw [if_neg hend, if_neg hend, hnode i hi]
          -- another character is there, so the next segment starts within the string
          have hlt : seg + segLen (s.drop seg) < s.length := by
            by_contra hge
            rw [List.drop_eq_nil_of_le (Nat.not_lt.mp hge)] at hend
            exact hend rfl
          show (if (fs.nodes i).type ≠ .dir then _ else _) = _
          by_cases hdir : (fs.nodes i).type ≠ .dir
          · rw [if_pos hdir, if_pos hdir]
          rw [if_neg hdir, if_neg hdir, List.drop_drop]
          refine ih i _ hlt hi ?_
          rw [List.length_drop] at hrounds ⊢
          omega

/-- **READS**: with the array of the string, terminator included, and nothing else, the
    lookup has a value, and it is the value of the lookup. -/
theorem lookupReads_eq (h : FsTree fs) (path : Path) :
    lookupReads fs (cstr path ++ [0]) = some (mcsRamfsLookup fs (some path)) := by
  rw [← mcsRamfsLookup_cstr]
  generalize cstr path = s
  rw [lookupReads, mcsRamfsLookup, read_char (Nat.zero_le _)]
  show (if deref s ≠ slash then _ else _) = _
  by_cases habs : deref s ≠ slash
  · rw [if_pos habs, if_pos habs]
  rw [if_neg habs, if_neg habs, scan_strlen]
  -- there is a slash, so the character behind it may be read
  have hpos : 1 ≤ s.length := by
    cases s with
    | nil => exact absurd (not_not.mp habs) (by decide)
    | cons c s => exact Nat.succ_pos _
  show (if mcsStrlen s ≥ MCS_MAX_PATH then _ else _) = _
  by_cases hlong : mcsStrlen s ≥ MCS_MAX_PATH
  · rw [if_pos hlong, if_pos hlong]
  rw [if_neg hlong, if_neg hlong, read_char hpos]
  show (if deref (s.drop 1) = 0 then _ else _) = _
  by_cases hroot : deref (s.drop 1) = 0
  · rw [if_pos hroot, if_pos hroot]
  rw [if_neg hroot, if_neg hroot, List.length_append]
  refine lookupFrom_eq h.bound _ 0 1 hpos h.pos ?_
  rw [List.length_drop]
  omega

/-- **PATH GRAMMAR**: a lookup succeeds exactly on the strings that resolve, with the one
    node that they resolve to, and it reads the path string up to its terminator, names
    of 32 bytes and nodes of the table, and nothing beside them. -/
theorem lookup_grammar (h : WellFormed fs) (path : Path) :
    (∀ n, mcsRamfsLookup fs (some path) = .ok n ↔ Resolves fs (cstr path) n) ∧
    (∀ n m, Resolves fs (cstr path) n → Resolves fs (cstr path) m → n = m) ∧
    lookupReads fs (cstr path ++ [0]) = some (mcsRamfsLookup fs (some path)) := by
  refine ⟨lookup_resolves_iff h path, ?_, lookupReads_eq h.tree path⟩
  intro n m hn hm
  rw [← lookup_resolves_iff h] at hn hm
  rw [hn] at hm
  exact Except.ok.inj hm

/-- `/d` with something behind the terminator names the directory; `/d/` names nothing. -/
theorem lookup_grammar_dir :
    Resolves dirFs [slash, 0x64] 1 ∧ (∀ n, ¬ Resolves dirFs [slash, 0x64, slash] n) ∧
    lookupReads dirFs [slash, 0x64, 0] = some (.ok 1) := by
  obtain ⟨hfound, -, hreads⟩ := lookup_grammar dirFs_wellFormed [slash, 0x64, 0, 0x61]
  obtain ⟨hnone, -, -⟩ := lookup_grammar dirFs_wellFormed [slash, 0x64, slash]
  have hlook : mcsRamfsLookup dirFs (some [slash, 0x64, 0, 0x61]) = .ok 1 := by decide
  refine ⟨(hfound 1).mp hlook, fun n hn => ?_, ?_⟩
  · have hbad : mcsRamfsLookup dirFs (some [slash, 0x64, slash]) = .error .einval := by decide
    have hok := (hnone n).mpr hn
    rw [hbad] at hok
    cases hok
  · rw [hlook] at hreads
    exact hreads

end VfsReads
