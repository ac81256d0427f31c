import Mcsos.KmemInitProofs

/-! # Runs of the heap and its clients

    The clients of the heap hold allocations: a pointer that `kmem_alloc` or
    `kmem_calloc` returned is live, for the number of bytes asked for, until it
    is passed to `kmem_free_checked`.  Between the calls they store what they
    like to the payloads they hold, but not the magic number at an aligned
    address.  A run starts with a `kmem_init` that succeeded and takes any such
    steps in any order. -/

namespace KmemRunModel

open Word ByteMemory KmemModel KmemHeader KmemInit

/-- The heap, and the live allocations with the bytes asked for. -/
structure KmemSys where
  heap : KmemState
  live : List (U64 × U64)

/-- The bytes of an allocation. -/
def InBytes (e : U64 × U64) (x : U64) : Prop := InRange e.1 e.2.toNat x

/-- The payload that belongs to a pointer, as its header says. -/
def InOwned (s : KmemState) (ptr x : U64) : Prop :=
  InRange ptr (hdrSize s.mem (kmemHeaderFromPayload ptr)).toNat x

/-- Where a client may store: in the payloads that are live, and anywhere
    outside the heap. -/
def MayStore (c : KmemSys) (x : U64) : Prop :=
  x < c.heap.gHeapBase ∨ c.heap.gHeapEnd ≤ x ∨ ∃ e ∈ c.live, InOwned c.heap e.1 x

/-- A store puts the magic number at no aligned address of the heap. -/
def PlacesNoMagic (s : KmemState) (m' : Mem) : Prop :=
  ∀ a, Aligned a → s.gHeapBase ≤ a → a < s.gHeapEnd →
    load64 m' a = KMEM_MAGIC → load64 s.mem a = KMEM_MAGIC

/-- The live allocations once a request for `n` bytes returned `p`. -/
def handOut (live : List (U64 × U64)) (p n : U64) : List (U64 × U64) :=
  if p = 0 then live else (p, n) :: live

/-- The live allocations once `ptr` was passed to `kmem_free_checked`. -/
def giveBack (live : List (U64 × U64)) (ptr : U64) : List (U64 × U64) :=
  live.filter (fun e => e.1 ≠ ptr)

/-- What happens next: a call, or a store of a client. -/
inductive KmemCall where
  | alloc (n : U64)
  | calloc (count bytes : U64)
  | free (ptr : U64)
  | store

/-- A call on the heap, or a store by its clients, with what is live afterwards. -/
inductive KmemStep (c : KmemSys) : KmemCall → KmemSys → Prop where
  | alloc {n p : U64} {s : KmemState} (h : kmemAlloc c.heap n = some (p, s)) :
      KmemStep c (.alloc n) ⟨s, handOut c.live p n⟩
  | calloc {count bytes p : U64} {s : KmemState} (h : kmemCalloc c.heap count bytes = some (p, s)) :
      KmemStep c (.calloc count bytes) ⟨s, handOut c.live p (count * bytes)⟩
  | free {ptr : U64} {rc : Int} {s : KmemState} (h : kmemFreeChecked c.heap ptr = some (rc, s)) :
      KmemStep c (.free ptr) ⟨s, giveBack c.live ptr⟩
  | store {m' : Mem} (hframe : ∀ x, ¬ MayStore c x → m' x = c.heap.mem x)
      (hmagic : PlacesNoMagic c.heap m') : KmemStep c .store ⟨{ c.heap with mem := m' }, c.live⟩

/-- A request for the one block of the heap that fills the address space: the
    sum in `kmem_split_if_useful` wraps for it. -/
structure Wraps (c : KmemSys) (n : U64) : Prop where
  whole : totalBytes c.heap = 0xffffffffffffffe0
  idle : c.live = []
  large : 2 ^ 64 - 96 < n.toNat
  fits : n.toNat ≤ 2 ^ 64 - 80

/-- The call asks for an allocation whose rounded size wraps around. -/
def CallWraps (c : KmemSys) : KmemCall → Prop
  | .alloc n => Wraps c n
  | .calloc count bytes => count.toNat * bytes.toNat < 2 ^ 64 ∧ Wraps c (count * bytes)
  | .free _ => False
  | .store => False

/-- The states reached from a successful `kmem_init`, on an arena that holds no
    stray magic number, by steps that all satisfy `ok`. -/
inductive Run (ok : KmemSys → KmemCall → Prop) (base bytes : U64) : KmemSys → Prop where
  | init {s₀ s : KmemState} (h : kmemInit s₀ base bytes = (0, s))
      (hstray : NoStray s₀.mem s.gHeapBase (totalBytes s)) : Run ok base bytes ⟨s, []⟩
  | step {c c' : KmemSys} {call : KmemCall} (h : Run ok base bytes c) (hok : ok c call)
      (hstep : KmemStep c call c') : Run ok base bytes c'

/-- The states reached by any steps at all. -/
abbrev Reachable (base bytes : U64) (c : KmemSys) : Prop := Run (fun _ _ => True) base bytes c

/-- A condition on the calls makes for fewer runs. -/
theorem Run.reachable {ok : KmemSys → KmemCall → Prop} {base bytes : U64} {c : KmemSys}
    (h : Run ok base bytes c) : Reachable base bytes c := by
  induction h with
  | init h hstray => exact .init h hstray
  | step _ _ hstep ih => exact .step ih trivial hstep

end KmemRunModel
