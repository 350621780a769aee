import MemAlloc.EventRing
import MemAlloc.NewDelete

set_option autoImplicit false

namespace MemAlloc

open Malloc (Heap)
open SingleThreadAllocator (kArenaPointer)

/-- The storage of a `std::vector`. The buffer is the null pointer before the first
element. -/
structure VectorStorage where
  buffer : Nat
  size : Nat
  capacity : Nat
deriving DecidableEq, Repr

namespace NewDelete

def pointerBytes : Nat := 8

end NewDelete

namespace RingStorage

/-- `sizeof(EventRing)`: the mutex, the slots and the two cursors. -/
def ringBytes (mutexBytes : Nat) : Nat := mutexBytes + EventRing.kCapacity * 32 + 16

end RingStorage

namespace OverrideCalls

open NewDelete (pointerBytes)

/-- The vectors whose buffers come from `operator new`. -/
inductive Vector where
  | chunks
  | live
  | liveAllocators
  | retired
  | alignedScratch (t : Nat)
  | externalSlabs (t : Nat) (i : SizeClass)
deriving DecidableEq

/-- Size of an element: a pointer, a snapshot of the six counters, or a pair of words. -/
def Vector.elementBytes : Vector → Nat
  | .chunks => pointerBytes
  | .live => pointerBytes
  | .liveAllocators => pointerBytes
  | .retired => 48
  | .alignedScratch _ => 2 * pointerBytes
  | .externalSlabs _ _ => 2 * pointerBytes

/-- The function-local statics that point to an object which is never deleted. -/
inductive Static where
  | ring
  | threadIds
deriving DecidableEq

def Static.bytes (mutexBytes : Nat) : Static → Nat
  | .ring => RingStorage.ringBytes mutexBytes
  | .threadIds => 4

end OverrideCalls

/-- How a call ends, with the calls it leads to. An exception comes with the state it leaves
behind. `terminates` is an exception at a `noexcept` boundary inside the call, and `reenters`
means that `instance()` is called again on a thread that it constructs the allocator of. -/
inductive CallEnd (α : Type) where
  | returns (x : α)
  | throws (e : Exn) (w : NewDelete)
  | writesNull
  | terminates
  | reenters

namespace CallEnd

variable {α β : Type}

def bind : CallEnd α → (α → CallEnd β) → CallEnd β
  | .returns x, f => f x
  | .throws e w, _ => .throws e w
  | .writesNull, _ => .writesNull
  | .terminates, _ => .terminates
  | .reenters, _ => .reenters

instance : Monad CallEnd where
  pure := .returns
  bind := bind

/-- The body of a function that is `noexcept`. -/
def noexcept : CallEnd α → CallEnd α
  | .throws _ _ => .terminates
  | c => c

def Returns (c : CallEnd α) : Prop := ∃ x, c = .returns x

def Throws (c : CallEnd α) : Prop := ∃ e w, c = .throws e w

/-- `Q` holds of what the call returns, if it returns. -/
def After (c : CallEnd α) (Q : α → Prop) : Prop := ∀ x, c = .returns x → Q x

@[simp] theorem returns_bind (x : α) (f : α → CallEnd β) : (CallEnd.returns x >>= f) = f x := rfl

@[simp] theorem throws_bind (e : Exn) (w : NewDelete) (f : α → CallEnd β) :
    (CallEnd.throws e w >>= f) = .throws e w := rfl

@[simp] theorem writesNull_bind (f : α → CallEnd β) :
    (CallEnd.writesNull >>= f) = .writesNull := rfl

@[simp] theorem terminates_bind (f : α → CallEnd β) :
    (CallEnd.terminates >>= f) = .terminates := rfl

@[simp] theorem reenters_bind (f : α → CallEnd β) : (CallEnd.reenters >>= f) = .reenters := rfl

@[simp] theorem pure_eq (x : α) : (pure x : CallEnd α) = .returns x := rfl

@[simp] theorem returns_returns (x : α) : (CallEnd.returns x).Returns := ⟨x, rfl⟩

@[simp] theorem returns_not_throws (x : α) : ¬ (CallEnd.returns x).Throws := by
  rintro ⟨e, w, impossible⟩
  cases impossible

@[simp] theorem writesNull_not_returns : ¬ (CallEnd.writesNull : CallEnd α).Returns := by
  rintro ⟨x, impossible⟩
  cases impossible

@[simp] theorem writesNull_not_throws : ¬ (CallEnd.writesNull : CallEnd α).Throws := by
  rintro ⟨e, w, impossible⟩
  cases impossible

@[simp] theorem after_writesNull (Q : α → Prop) : (CallEnd.writesNull : CallEnd α).After Q := by
  intro x impossible
  cases impossible

@[simp] theorem after_throws (e : Exn) (w : NewDelete) (Q : α → Prop) :
    (CallEnd.throws e w : CallEnd α).After Q := by
  intro x impossible
  cases impossible

@[simp] theorem after_true (c : CallEnd α) : c.After (fun _ => True) := fun _ _ => trivial

@[simp] theorem after_returns (x : α) (Q : α → Prop) : (CallEnd.returns x).After Q ↔ Q x := by
  constructor
  · intro after
    exact after x rfl
  · intro holds y same
    cases same
    exact holds

theorem bind_returns {c : CallEnd α} {f : α → CallEnd β} :
    (c >>= f).Returns ↔ c.Returns ∧ c.After (fun x => (f x).Returns) := by
  cases c with
  | returns x => simp
  | throws e w => simp [Returns]
  | writesNull => simp [Returns]
  | terminates => simp [Returns]
  | reenters => simp [Returns]

theorem bind_throws {c : CallEnd α} {f : α → CallEnd β} :
    (c >>= f).Throws ↔ c.Throws ∨ ∃ x, c = .returns x ∧ (f x).Throws := by
  cases c with
  | returns x => simp
  | throws e w => simp [Throws]
  | writesNull => simp [Throws]
  | terminates => simp [Throws]
  | reenters => simp [Throws]

theorem bind_after {c : CallEnd α} {f : α → CallEnd β} {Q : β → Prop} :
    (c >>= f).After Q ↔ c.After (fun x => (f x).After Q) := by
  cases c with
  | returns x => simp
  | throws e w => simp [After]
  | writesNull => simp [After]
  | terminates => simp [After]
  | reenters => simp [After]

theorem After.mono {c : CallEnd α} {Q Q' : α → Prop} (after : c.After Q)
    (weaker : ∀ x, Q x → Q' x) : c.After Q' := fun x same => weaker x (after x same)

theorem noexcept_returns {c : CallEnd α} : c.noexcept.Returns ↔ c.Returns := by
  cases c <;> simp [noexcept, Returns]

theorem noexcept_after {c : CallEnd α} {Q : α → Prop} : c.noexcept.After Q ↔ c.After Q := by
  cases c <;> simp [noexcept, After]

theorem noexcept_not_throws (c : CallEnd α) : ¬ c.noexcept.Throws := by
  cases c <;> simp [noexcept, Throws]

end CallEnd

/-- The environment's answers to what the constructor of an allocator requests: its slabs, its
arena, and a buffer for each of the two vectors of the registry. -/
structure ConstructionReplies where
  slabs : SizeClass → SlabReply
  arena : Option Nat
  live : Replies
  liveAllocators : Replies

/-- The environment's answers to all requests that one call may lead to. -/
structure CallReplies where
  own : Replies
  threadIds : Replies
  construction : ConstructionReplies
  chunks : Replies
  externalSlabs : Replies
  alignedScratch : Replies
  ring : Replies

namespace NewDelete

/-- The state in which the members have just been built. -/
def withMembers (w : NewDelete) (t : Nat) (h' : Heap Owner) (m' : ByteMemory) : NewDelete :=
  { w with
    sys := { w.sys.setHeap h' with
      mem := m'
      nextThreadId := (w.sys.nextThreadId + 1) % 4294967296 }
    constructing := Function.update w.constructing t true }

/-- The members of the allocator, in the state in which it is registered next. -/
def constructMembers (P : Platform) (c : ConstructionReplies) (t : Nat) (w : NewDelete) :
    CallEnd (SingleThreadAllocator × NewDelete) :=
  match SingleThreadAllocator.new P (.slab t) (.arena t) c.slabs c.arena w.sys.shared.heap
      w.sys.mem with
  | (.error e, h') => .throws e
      { w with sys := { w.sys.setHeap h' with
        nextThreadId := (w.sys.nextThreadId + 1) % 4294967296 } }
  | (.ok (a, m'), h') => .returns (a, w.withMembers t h' m')

theorem constructMembers_ok {P : Platform} {c : ConstructionReplies} {t : Nat} {w : NewDelete}
    {a : SingleThreadAllocator} {m' : ByteMemory} {h' : Heap Owner}
    (made : SingleThreadAllocator.new P (.slab t) (.arena t) c.slabs c.arena
      w.sys.shared.heap w.sys.mem = (.ok (a, m'), h')) :
    w.constructMembers P c t = .returns (a, w.withMembers t h' m') := by
  unfold constructMembers
  rw [made]

/-- The deletion gets as far as `instance()`. -/
def Consults (w : NewDelete) (t p : Nat) : Prop :=
  p ≠ 0 ∧ (∀ e ∈ w.alignedScratch t, e.payload ≠ p) ∧ w.ready = true ∧ w.allocatorGone t = false

instance (w : NewDelete) (t p : Nat) : Decidable (w.Consults t p) :=
  inferInstanceAs (Decidable (_ ∧ _ ∧ _ ∧ _))

/-- The deletion gets as far as `deallocate_containing`, on a thread with an allocator. -/
def deallocates (w : NewDelete) (t p : Nat) : Bool :=
  match w.sys.threads t with
  | .live pool _ =>
      decide (w.Consults t p ∧ pool.classify p ≠ 0 ∧ pool.classify p ≠ kArenaPointer)
  | _ => false

theorem allocatorGone_iff {w : NewDelete} {t : Nat} :
    w.allocatorGone t = true ↔ w.sys.threads t = .exited := by
  unfold allocatorGone
  cases w.sys.threads t <;> simp

section Routes

variable {w : NewDelete} {t p : Nat}

theorem stash_none (unstashed : ∀ e ∈ w.alignedScratch t, e.payload ≠ p) :
    (w.alignedScratch t).find? (fun e => decide (e.payload = p)) = none := by
  rw [List.find?_eq_none]
  intro e member
  simpa using unstashed e member

theorem doDelete_spared (spared : ¬ w.Consults t p) :
    ∃ freed w', w.doDelete t p = some (freed, w') := by
  unfold doDelete
  split
  · exact ⟨_, _, rfl⟩
  · rename_i nonnull
    split
    · exact ⟨_, _, rfl⟩
    · rename_i missed
      have unstashed : ∀ e ∈ w.alignedScratch t, e.payload ≠ p := by
        intro e member
        simpa using List.find?_eq_none.mp missed e member
      split
      · exact ⟨_, _, rfl⟩
      · rename_i ready
        have isReady : w.ready = true := by simpa using ready
        have gone : w.sys.threads t = .exited := by
          apply allocatorGone_iff.mp
          apply Classical.byContradiction
          intro present
          exact spared ⟨nonnull, unstashed, isReady, by simpa using present⟩
        rw [gone]
        exact ⟨_, _, rfl⟩

theorem doDelete_unborn (consults : w.Consults t p) (unborn : w.sys.threads t = .unborn) :
    w.doDelete t p = none := by
  obtain ⟨nonnull, unstashed, ready, _⟩ := consults
  rw [doDelete, if_neg nonnull, stash_none unstashed, unborn]
  simp [ready]

/-- On a thread without an allocator, only the route to `instance()` does not return. -/
theorem doDelete_none_iff (unborn : w.sys.threads t = .unborn) :
    w.doDelete t p = none ↔ w.Consults t p := by
  constructor
  · intro stuck
    apply Classical.byContradiction
    intro spared
    obtain ⟨freed, w', done⟩ := doDelete_spared spared
    rw [stuck] at done
    cases done
  · intro consults
    exact doDelete_unborn consults unborn

end Routes

end NewDelete

/-- The override with the storage of its containers, the statics that have been created, and
whether recording is enabled. The calls of one thread run here with all calls they lead to;
what the ring stores is left out. -/
structure CallState where
  w : NewDelete
  vectors : OverrideCalls.Vector → VectorStorage
  created : OverrideCalls.Static → Bool
  enabled : Bool

namespace CallState

open OverrideCalls (Static)

def setVector (s : CallState) (v : OverrideCalls.Vector) (storage : VectorStorage) : CallState :=
  { s with vectors := Function.update s.vectors v storage }

def create (s : CallState) (x : Static) : CallState :=
  { s with created := Function.update s.created x true }

/-- What `new` creates for a container or a static. `active` tells whether the guard is set.
The result is not tested before it is written to. -/
def request (P : Platform) (r : Replies) (active : Bool) (t bytes : Nat) (s : CallState) :
    CallEnd (Nat × CallState) :=
  match s.w.doNew P r active t bytes with
  | none => .reenters
  | some (.error e, w') => .throws e w'
  | some (.ok none, _) => .writesNull
  | some (.ok (some p), w') => .returns (p, { s with w := w' })

/-- The buffer that a full vector needs. `growth` is the library's policy for the next
capacity. -/
def vectorBytes (growth : Nat → Nat) (v : OverrideCalls.Vector) (s : CallState) : Nat :=
  v.elementBytes * growth (s.vectors v).capacity

def dropBuffer (drop : Nat → CallState → CallEnd CallState) (buffer : Nat) (s : CallState) :
    CallEnd CallState :=
  if buffer = 0 then return s else drop buffer s

/-- `push_back`. `drop` is the deletion of the buffer that the vector has outgrown. -/
def pushBack (P : Platform) (growth : Nat → Nat) (drop : Nat → CallState → CallEnd CallState)
    (r : Replies) (active : Bool) (t : Nat) (v : OverrideCalls.Vector) (s : CallState) :
    CallEnd CallState :=
  let old := s.vectors v
  if old.size < old.capacity then return s.setVector v { old with size := old.size + 1 }
  else do
    let (buffer, s) ← s.request P r active t (s.vectorBytes growth v)
    let s ← s.dropBuffer drop old.buffer
    return s.setVector v ⟨buffer, old.size + 1, growth old.capacity⟩

/-- `static T* x = new T()`, evaluated with the guard set. -/
def staticPointer (P : Platform) (mutexBytes : Nat) (r : Replies) (t : Nat) (x : Static)
    (s : CallState) : CallEnd CallState :=
  if s.created x then return s
  else do
    let (_, s) ← s.request P r true t (x.bytes mutexBytes)
    return s.create x

/-- A deletion on a thread that is inside the constructor of its allocator. -/
def deleteInside (t p : Nat) (s : CallState) : CallEnd CallState :=
  match s.w.doDelete t p with
  | none => .reenters
  | some (_, w') => .returns { s with w := w' }

def registerStats (P : Platform) (growth : Nat → Nat) (c : ConstructionReplies) (t : Nat)
    (s : CallState) : CallEnd CallState := do
  let s ← s.pushBack P growth (deleteInside t) c.live true t .live
  s.pushBack P growth (deleteInside t) c.liveAllocators true t .liveAllocators

/-- The constructor of the thread's allocator has returned. -/
def becomeLive (s : CallState) (t : Nat) (a : SingleThreadAllocator) (threadId : Nat) : CallState :=
  { s with w := { s.w with
    sys := s.w.sys.setThread t (.live ⟨a, 0, 0, threadId⟩ Client.none)
    constructing := Function.update s.w.constructing t false } }

/-- The constructor of `ThreadPoolAlloc` on a thread that has none. -/
def constructAllocator (P : Platform) (growth : Nat → Nat) (mutexBytes : Nat) (c : CallReplies)
    (t : Nat) (s : CallState) : CallEnd CallState := do
  let s ← s.staticPointer P mutexBytes c.threadIds t .threadIds
  let threadId := s.w.sys.nextThreadId
  let (a, w) ← s.w.constructMembers P c.construction t
  let s ← { s with w := w }.registerStats P growth c.construction t
  return s.becomeLive t a threadId

/-- `ThreadPoolAlloc::instance()`. -/
def allocatorInstance (P : Platform) (growth : Nat → Nat) (mutexBytes : Nat) (c : CallReplies)
    (t : Nat) (s : CallState) : CallEnd CallState :=
  match s.w.sys.threads t with
  | .unborn =>
      if s.w.constructing t then .reenters else s.constructAllocator P growth mutexBytes c t
  | _ => return s

/-- `viz::ring()`, evaluated where an event is recorded. `happened` tells whether there is
one. -/
def record (P : Platform) (mutexBytes : Nat) (r : Replies) (t : Nat) (happened : Bool)
    (s : CallState) : CallEnd CallState :=
  if s.enabled && happened then s.staticPointer P mutexBytes r t .ring else return s

/-- As far as `instance()`, if the deletion gets there. -/
def reachAllocator (P : Platform) (growth : Nat → Nat) (mutexBytes : Nat) (c : CallReplies)
    (t p : Nat) (s : CallState) : CallEnd CallState :=
  if s.w.Consults t p then s.allocatorInstance P growth mutexBytes c t else return s

/-- `do_delete` before its `noexcept` boundary. The assertions of the pool are the only other
way to fail. -/
def deleteCall (P : Platform) (growth : Nat → Nat) (mutexBytes : Nat) (c : CallReplies) (t p : Nat)
    (s : CallState) : CallEnd (List Nat × CallState) := do
  let s ← s.reachAllocator P growth mutexBytes c t p
  match s.w.doDelete t p with
  | none => .throws .assertion s.w
  | some (freed, w') =>
      let s ← { s with w := w' }.record P mutexBytes c.ring t (s.w.deallocates t p)
      return (freed, s)

end CallState

end MemAlloc
