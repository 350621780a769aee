import MemAlloc.Construction
import MemAlloc.EventRing
import MemAlloc.ThreadPoolAlloc
import MemAlloc.Lib.Runs

set_option autoImplicit false

namespace MemAlloc.EventLedgers

open Malloc (Heap)
open Runs (Run Transition)
open SingleThreadAllocator (FreeForm)

/-- What the calls of an allocator reach outside its own members while recording is enabled.
`history` only remembers what has been pushed. -/
structure Feed where
  shared : Shared
  ring : EventRing
  history : List AllocEvent

def Feed.push (f : Feed) (e : AllocEvent) : Feed where
  shared := f.shared
  ring := f.ring.push e
  history := f.history ++ [e]

/-- The environment's answers to one request, and what `now_ns()` reads. -/
structure Answers where
  chunk : SlabReply
  chunkRecorded : Bool
  slabRecorded : Bool
  chunkNs : Nat
  ns : Nat

/-- The chunk source with recording enabled: `user` is the id that tags the chunk event. -/
def acquireChunkCb (P : Platform) (user : Nat) (r : Answers) : ChunkSource Feed :=
  fun sizeClassBytes f m =>
    match f.shared.acquireChunk P (some user) r.chunk r.chunkRecorded sizeClassBytes m with
    | (.error x, g, m') => (.error x, ⟨g, f.ring, f.history⟩, m')
    | (.ok body, g, m') =>
        (.ok (some body),
          Feed.push ⟨g, f.ring, f.history⟩
            ⟨r.chunkNs, CentralHeap.chunkSize, body, user, kEventChunk⟩,
          m')

/-- `allocate` with recording enabled. -/
def allocate (P : Platform) (r : Answers) (t : ThreadPoolAlloc) (n : Nat) (f : Feed)
    (m : ByteMemory) : Except Exn (Option Nat) × ThreadPoolAlloc × Feed × ByteMemory :=
  match t.allocate P (acquireChunkCb P t.threadId r) r.slabRecorded n f m with
  | (.ok (some p), t', f', m') =>
      (.ok (some p), t', f'.push ⟨r.ns, n, p, t.threadId, kEventAlloc⟩, m')
  | (x, t', f', m') => (x, t', f', m')

/-- Both forms of free with recording enabled, for a pointer that is not null. -/
def free (form : FreeForm) (ns : Nat) (t : ThreadPoolAlloc) (p n : Nat) (f : Feed)
    (m : ByteMemory) : Except Exn (ThreadPoolAlloc × Feed × ByteMemory) :=
  match t.free form m p n with
  | .error x => .error x
  | .ok (t', m') => .ok (t', f.push ⟨ns, n, p, t.threadId, kEventFree⟩, m')

structure World where
  pool : ThreadPoolAlloc
  feed : Feed
  mem : ByteMemory

inductive Event where
  | allocate (n : Nat) (r : Answers) (result : Except Exn (Option Nat))
  | allocateAligned (n alignment : Nat) (result : Option Nat)
  | free (form : FreeForm) (p n : Nat)
  | elsewhere

/-- The calls on one allocator, in any order. Between them, other threads may push their own
events, and the program and the other threads may write memory. -/
inductive Step (P : Platform) : World → Event → World → Prop
  | allocate {w : World} {n : Nat} {r : Answers} {x : Except Exn (Option Nat)}
      {t' : ThreadPoolAlloc} {f' : Feed} {m' : ByteMemory}
      (done : EventLedgers.allocate P r w.pool n w.feed w.mem = (x, t', f', m')) :
      Step P w (.allocate n r x) ⟨t', f', m'⟩
  | allocateAligned {w : World} {n alignment : Nat} {x : Option Nat} {t' : ThreadPoolAlloc}
      (power : Words.PowerOfTwo alignment)
      (done : w.pool.allocateAligned n alignment = (x, t')) :
      Step P w (.allocateAligned n alignment x) ⟨t', w.feed, w.mem⟩
  | free {w : World} {form : FreeForm} {ns p n : Nat} {t' : ThreadPoolAlloc} {f' : Feed}
      {m' : ByteMemory} (nonnull : p ≠ 0)
      (done : EventLedgers.free form ns w.pool p n w.feed w.mem = .ok (t', f', m')) :
      Step P w (.free form p n) ⟨t', f', m'⟩
  | elsewhere {w : World} (g : Shared) (m : ByteMemory) (events : List AllocEvent)
      (others : ∀ e ∈ events, e.threadId ≠ w.pool.threadId) :
      Step P w .elsewhere ⟨w.pool, events.foldl Feed.push ⟨g, w.feed.ring, w.feed.history⟩, m⟩

def start (a : SingleThreadAllocator) (threadId : Nat) (g : Shared) (m : ByteMemory) : World :=
  ⟨⟨a, 0, 0, threadId⟩, ⟨g, EventRing.new, []⟩, m⟩

/-- One operation counted three times: in the event ring, in `stats()` and in the front end. -/
structure Tally where
  events : Nat
  stats : Nat
  calls : Nat

namespace Tally

variable {t : Tally}

def Agrees (t : Tally) : Prop := t.events = t.stats ∧ t.events = t.calls

def recorded (t : Tally) : Tally := ⟨t.events + 1, Words.add t.stats 1, Words.add t.calls 1⟩

/-- Only the front end has counted the call. -/
def failed (t : Tally) : Tally := ⟨t.events, t.stats, Words.add t.calls 1⟩

/-- Only `stats()` has counted the call. -/
def unrecorded (t : Tally) : Tally := ⟨t.events, Words.add t.stats 1, t.calls⟩

/-- `stats()` has not counted the call. -/
def ignored (t : Tally) : Tally := ⟨t.events + 1, t.stats, Words.add t.calls 1⟩

theorem Agrees.recorded (agrees : t.Agrees) (room : t.events < EventRing.kCapacity) :
    t.recorded.Agrees := by
  obtain ⟨stats, calls⟩ := agrees
  have word : t.events + 1 < Words.radix := by
    simp only [EventRing.kCapacity, Words.radix] at room ⊢
    omega
  constructor
  · show t.events + 1 = Words.add t.stats 1
    rw [← stats, Words.add_of_lt word]
  · show t.events + 1 = Words.add t.calls 1
    rw [← calls, Words.add_of_lt word]

theorem add_one_ne (x : Nat) : Words.add x 1 ≠ x := by
  simp only [Words.add, Words.radix]
  omega

theorem not_failed (agrees : t.Agrees) : ¬ t.failed.Agrees := by
  intro after
  apply add_one_ne t.calls
  exact after.2.symm.trans agrees.2

theorem not_unrecorded (agrees : t.Agrees) : ¬ t.unrecorded.Agrees := by
  intro after
  apply add_one_ne t.stats
  exact after.1.symm.trans agrees.1

theorem not_ignored (agrees : t.Agrees) : ¬ t.ignored.Agrees := by
  intro after
  have before : t.events = t.stats := agrees.1
  have same : t.events + 1 = t.stats := after.1
  omega

end Tally

/-- The events of `kind` that carry the id. -/
def eventsOf (threadId kind : Nat) (events : List AllocEvent) : Nat :=
  events.countP (fun e => e.threadId = threadId ∧ e.kind = kind)

namespace World

def allocTally (w : World) : Tally :=
  ⟨eventsOf w.pool.threadId kEventAlloc w.feed.history, w.pool.alloc.stats.allocCount,
    w.pool.allocCount⟩

def freeTally (w : World) : Tally :=
  ⟨eventsOf w.pool.threadId kEventFree w.feed.history, w.pool.alloc.stats.freeCount,
    w.pool.freeCount⟩

/-- `snapshot()` shows as many events of the thread as `stats()` and the front end count. -/
def LedgersAgree (w : World) : Prop :=
  ∃ stored, EventRing.snapshot w.feed.ring w.feed.ring = some stored ∧
    eventsOf w.pool.threadId kEventAlloc stored = w.pool.alloc.stats.allocCount ∧
    eventsOf w.pool.threadId kEventAlloc stored = w.pool.allocCount ∧
    eventsOf w.pool.threadId kEventFree stored = w.pool.alloc.stats.freeCount ∧
    eventsOf w.pool.threadId kEventFree stored = w.pool.freeCount

end World

/-- The operation as its event describes it: kind, size and address. A failed one has none. -/
def Event.operation : Event → List (Nat × Nat × Nat)
  | .allocate n _ (.ok (some p)) => [(kEventAlloc, n, p)]
  | .allocate _ _ _ => []
  | .allocateAligned n _ (some p) => [(kEventAlloc, n, p)]
  | .allocateAligned _ _ none => []
  | .free _ p n => [(kEventFree, n, p)]
  | .elsewhere => []

/-- The thread's operations among the events, oldest first. Refills are no operations. -/
def operations (threadId : Nat) (events : List AllocEvent) : List (Nat × Nat × Nat) :=
  (events.filter (fun e => e.threadId = threadId ∧ e.kind ≠ kEventChunk)).map
    (fun e => (e.kind, e.size, e.ptr))

/-- The step pushes its operation once when it succeeds, and not at all when it fails. -/
def RecordedOnce (x : Transition World Event) : Prop :=
  ∃ pushed, x.after.feed.history = x.before.feed.history ++ pushed ∧
    operations x.before.pool.threadId pushed = x.event.operation

section Requests

variable {P : Platform} {user n : Nat} {r : Answers} {a a' : SingleThreadAllocator} {f f' : Feed}
  {m m' : ByteMemory} {x : Except Exn (Option Nat)} {i : SizeClass}

/-- The sum that `Arena::allocate` compares with the capacity. -/
def Admits (a : Arena) (size alignment : Nat) : Prop :=
  Words.add (Words.add a.used
    (Words.sub (Words.alignUp (Words.add a.base a.used) alignment) (Words.add a.base a.used)))
    size ≤ a.capacity

theorem arena_admits {a : Arena} {size alignment : Nat} (admits : Admits a size alignment) :
    ∃ p a', a.allocate size alignment = (some p, a') := by
  rw [Arena.allocate]
  rw [if_neg (Nat.not_lt.mpr admits)]
  exact ⟨_, _, rfl⟩

theorem arena_refuses {a : Arena} {size alignment : Nat} (refuses : ¬ Admits a size alignment) :
    a.allocate size alignment = (none, a) := by
  rw [Arena.allocate]
  rw [if_pos (Nat.not_le.mp refuses)]

theorem arenaAllocate_admits {alignment : Nat} (admits : Admits a.arena n alignment) :
    ∃ p a', a.arenaAllocate n alignment = (some p, a') ∧
      a'.stats.allocCount = Words.add a.stats.allocCount 1 ∧
      a'.stats.freeCount = a.stats.freeCount := by
  obtain ⟨p, arena, served⟩ := arena_admits admits
  rw [SingleThreadAllocator.arenaAllocate, served]
  exact ⟨_, _, rfl, rfl, rfl⟩

theorem arenaAllocate_refuses {alignment : Nat} (refuses : ¬ Admits a.arena n alignment) :
    a.arenaAllocate n alignment = (none, a) := by
  rw [SingleThreadAllocator.arenaAllocate, arena_refuses refuses]
  rfl

/-- The system has a region for a chunk, and `chunks_` has room for it. -/
def ChunkGranted (P : Platform) (r : Answers) (f : Feed) : Prop :=
  (allocateSlab P f.shared.heap Owner.chunk CentralHeap.chunkSize CentralHeap.chunkSize
    r.chunk).1 ≠ none ∧ r.chunkRecorded = true

/-- A request of `n` bytes can be met: the class has a free block or gets a chunk that its
pool can record, or the arena has room. -/
def Served (P : Platform) (r : Answers) (a : SingleThreadAllocator) (f : Feed) (n : Nat) : Prop :=
  if small : n ≤ maxSmall then
    (a.pools (sizeClassOf n small)).head ≠ 0 ∨ ChunkGranted P r f ∧ r.slabRecorded = true
  else Admits a.arena n P.maxAlign

/-- Only `chunks` have been pushed. -/
structure Feed.Adds (f f' : Feed) (chunks : List AllocEvent) : Prop where
  ring : f'.ring = f.ring.pushAll chunks
  history : f'.history = f.history ++ chunks

theorem Feed.adds_none (f : Feed) (g : Shared) : f.Adds ⟨g, f.ring, f.history⟩ [] :=
  ⟨rfl, (List.append_nil _).symm⟩

theorem Feed.adds_one (f : Feed) (g : Shared) (e : AllocEvent) :
    f.Adds (Feed.push ⟨g, f.ring, f.history⟩ e) [e] := ⟨rfl, rfl⟩

theorem Feed.Adds.push {chunks : List AllocEvent} (adds : f.Adds f' chunks) (e : AllocEvent) :
    f.Adds (f'.push e) (chunks ++ [e]) := by
  constructor
  · show f'.ring.push e = f.ring.pushAll (chunks ++ [e])
    rw [adds.ring, EventRing.pushAll, EventRing.pushAll, List.foldl_append]
    rfl
  · show f'.history ++ [e] = f.history ++ (chunks ++ [e])
    rw [adds.history, List.append_assoc]

/-- A chunk comes with one chunk event; a refusal pushes nothing. -/
theorem acquireChunkCb_cases (P : Platform) (user bytes : Nat) (r : Answers) (f : Feed)
    (m : ByteMemory) :
    (ChunkGranted P r f ∧ ∃ body e f' m', 0 < body ∧ e.kind = kEventChunk ∧ f.Adds f' [e] ∧
      acquireChunkCb P user r bytes f m = (.ok (some body), f', m')) ∨
    (¬ ChunkGranted P r f ∧ ∃ f' m', f.Adds f' [] ∧
      acquireChunkCb P user r bytes f m = (.error .badAlloc, f', m')) := by
  simp only [acquireChunkCb, Shared.acquireChunk, CentralHeap.acquireChunk, ChunkGranted]
  cases allocateSlab P f.shared.heap Owner.chunk CentralHeap.chunkSize CentralHeap.chunkSize
      r.chunk with
  | mk region h =>
      cases region with
      | none =>
          right
          exact ⟨fun granted => granted.1 rfl, _, _, f.adds_none _, rfl⟩
      | some s =>
          cases r.chunkRecorded with
          | false =>
              right
              exact ⟨fun granted => Bool.false_ne_true granted.2, _, _, f.adds_none _, rfl⟩
          | true =>
              left
              have positive : 0 < s.aligned + CentralHeap.kHeaderOffset :=
                Nat.lt_of_lt_of_le (by decide) (Nat.le_add_left _ _)
              exact ⟨⟨Option.some_ne_none s, rfl⟩, _, _, _, _, positive, rfl, f.adds_one _ _, rfl⟩

/-- What a request leaves behind when it is met, and when it is not. -/
structure RequestEnds (served : Prop) (a a' : SingleThreadAllocator)
    (x : Except Exn (Option Nat)) : Prop where
  frees : a'.stats.freeCount = a.stats.freeCount
  met : served → (∃ p, x = .ok (some p)) ∧
    a'.stats.allocCount = Words.add a.stats.allocCount 1
  unmet : ¬ served → (∀ p, x ≠ .ok (some p)) ∧ a'.stats.allocCount = a.stats.allocCount

theorem RequestEnds.served {served : Prop} {p : Nat} (holds : served)
    (allocs : a'.stats.allocCount = Words.add a.stats.allocCount 1)
    (frees : a'.stats.freeCount = a.stats.freeCount) :
    RequestEnds served a a' (.ok (some p)) :=
  ⟨frees, fun _ => ⟨⟨p, rfl⟩, allocs⟩, fun not => absurd holds not⟩

theorem RequestEnds.refused {served : Prop} (fails : ¬ served) (unmet : ∀ p, x ≠ .ok (some p))
    (stats : a'.stats = a.stats) : RequestEnds served a a' x :=
  ⟨by rw [stats], fun holds => absurd holds fails, fun _ => ⟨unmet, by rw [stats]⟩⟩

theorem poolAllocate_hit (nonempty : (a.pools i).head ≠ 0) :
    ∃ p a', a.poolAllocate i m = (some p, a') ∧ a'.stats = a.stats := by
  simp only [SingleThreadAllocator.poolAllocate, BlockPool.allocate, if_neg nonempty]
  exact ⟨_, _, rfl, rfl⟩

theorem poolAllocate_miss (empty : (a.pools i).head = 0) :
    ∃ a', a.poolAllocate i m = (none, a') ∧ a'.stats = a.stats := by
  simp only [SingleThreadAllocator.poolAllocate, BlockPool.allocate, if_pos empty]
  exact ⟨_, rfl, rfl⟩

theorem poolAddExternalSlab_head {body : Nat} (positive : 0 < body) :
    ∃ a' m', a.poolAddExternalSlab i m body true = (.ok (), a', m') ∧ a'.stats = a.stats ∧
      (a'.pools i).head ≠ 0 := by
  have accepted := SingleThreadAllocator.chunk_accepted i positive
  simp only [SingleThreadAllocator.poolAddExternalSlab, BlockPool.addExternalSlab,
    if_pos accepted]
  refine ⟨_, _, rfl, rfl, ?_⟩
  simp [SingleThreadAllocator.setPool]
  omega

theorem poolAddExternalSlab_lost {body : Nat} (positive : 0 < body) :
    ∃ a' m', a.poolAddExternalSlab i m body false = (.error .badAlloc, a', m') ∧
      a'.stats = a.stats := by
  have accepted := SingleThreadAllocator.chunk_accepted i positive
  simp only [SingleThreadAllocator.poolAddExternalSlab, BlockPool.addExternalSlab,
    if_pos accepted]
  exact ⟨_, _, rfl, rfl⟩

theorem error_ne (x : Exn) : ∀ p, (.error x : Except Exn (Option Nat)) ≠ .ok (some p) := by
  intro p same
  cases same

theorem none_ne : ∀ p, (.ok none : Except Exn (Option Nat)) ≠ .ok (some p) := by
  intro p same
  cases same

/-- The slow path is met exactly when the chunk is there and both vectors can record it. -/
theorem refill_ends (done : a.refill (acquireChunkCb P user r) r.slabRecorded n i f m =
      (x, a', f', m')) :
    RequestEnds (ChunkGranted P r f ∧ r.slabRecorded = true) a a' x ∧
      ∃ chunks, (∀ e ∈ chunks, e.kind = kEventChunk) ∧ f.Adds f' chunks := by
  rw [SingleThreadAllocator.refill] at done
  rcases acquireChunkCb_cases P user i.bytes r f m with
    ⟨granted, body, e, f₁, m₁, positive, chunk, adds, answer⟩ | ⟨refused, f₁, m₁, adds, answer⟩
  · rw [answer] at done
    have chunks : ∀ d ∈ [e], d.kind = kEventChunk := by
      intro d member
      rw [List.mem_singleton.mp member]
      exact chunk
    by_cases recorded : r.slabRecorded = true
    · obtain ⟨a₁, m₂, linked, stats, nonempty⟩ := poolAddExternalSlab_head (a := a) (i := i)
        (m := m₁) positive
      obtain ⟨p, a₂, popped, same⟩ := poolAllocate_hit (m := m₂) nonempty
      simp only [recorded, linked, popped] at done
      cases done
      refine ⟨.served ⟨granted, recorded⟩ ?_ ?_, [e], chunks, adds⟩
      · show Words.add a₂.stats.allocCount 1 = _
        rw [same, stats]
      · show a₂.stats.freeCount = _
        rw [same, stats]
    · obtain ⟨a₁, m₂, lost, stats⟩ := poolAddExternalSlab_lost (a := a) (i := i) (m := m₁)
        positive
      simp only [Bool.eq_false_of_not_eq_true recorded, lost] at done
      cases done
      exact ⟨.refused (fun both => recorded both.2) (error_ne _) stats, [e], chunks, adds⟩
  · rw [answer] at done
    cases done
    exact ⟨.refused (fun both => refused both.1) (error_ne _) rfl, [],
      fun _ member => (List.not_mem_nil member).elim, adds⟩

theorem allocate_ends (done : a.allocate P (acquireChunkCb P user r) r.slabRecorded n f m =
      (x, a', f', m')) :
    RequestEnds (Served P r a f n) a a' x ∧
      ∃ chunks, (∀ e ∈ chunks, e.kind = kEventChunk) ∧ f.Adds f' chunks := by
  have silent : ∃ chunks, (∀ e ∈ chunks, e.kind = kEventChunk) ∧ f.Adds f chunks :=
    ⟨[], fun _ member => (List.not_mem_nil member).elim, f.adds_none f.shared⟩
  unfold Served
  by_cases small : n ≤ maxSmall
  · rw [SingleThreadAllocator.allocate, dif_pos small] at done
    simp only [dif_pos small]
    generalize sizeClassOf n small = i at done ⊢
    dsimp only at done
    by_cases empty : (a.pools i).head = 0
    · obtain ⟨a₁, missed, stats⟩ := poolAllocate_miss (m := m) empty
      rw [missed] at done
      obtain ⟨ends, adds⟩ := refill_ends done
      refine ⟨⟨ends.frees.trans (by rw [stats]), ?_, ?_⟩, adds⟩
      · intro served
        have refilled := served.resolve_left (fun nonempty => nonempty empty)
        rw [← stats]
        exact ends.met refilled
      · intro unserved
        rw [← stats]
        exact ends.unmet (fun refilled => unserved (Or.inr refilled))
    · obtain ⟨p, a₁, popped, stats⟩ := poolAllocate_hit (m := m) empty
      rw [popped] at done
      cases done
      refine ⟨.served (Or.inl empty) ?_ ?_, silent⟩
      · show Words.add a₁.stats.allocCount 1 = _
        rw [stats]
      · show a₁.stats.freeCount = _
        rw [stats]
  · have large : maxSmall < n := Nat.lt_of_not_le small
    simp only [dif_neg small]
    by_cases admits : Admits a.arena n P.maxAlign
    · obtain ⟨p, a₁, called, allocs, frees⟩ := arenaAllocate_admits admits
      rw [SingleThreadAllocator.allocate_large a _ _ f m large called] at done
      cases done
      exact ⟨.served admits allocs frees, silent⟩
    · have called := arenaAllocate_refuses admits
      rw [SingleThreadAllocator.allocate_large a _ _ f m large called] at done
      cases done
      exact ⟨.refused admits none_ne rfl, silent⟩

end Requests

section Counting

variable {threadId kind : Nat} {events : List AllocEvent}

theorem eventsOf_append (threadId kind : Nat) (first second : List AllocEvent) :
    eventsOf threadId kind (first ++ second) =
      eventsOf threadId kind first + eventsOf threadId kind second := List.countP_append

theorem operations_append (threadId : Nat) (first second : List AllocEvent) :
    operations threadId (first ++ second) =
      operations threadId first ++ operations threadId second := by
  simp only [operations, List.filter_append, List.map_append]

theorem eventsOf_chunks (chunks : ∀ e ∈ events, e.kind = kEventChunk)
    (different : kind ≠ kEventChunk) : eventsOf threadId kind events = 0 := by
  apply List.countP_eq_zero.mpr
  intro e member counted
  simp only [decide_eq_true_eq] at counted
  apply different
  rw [← counted.2, chunks e member]

theorem operations_chunks (chunks : ∀ e ∈ events, e.kind = kEventChunk) :
    operations threadId events = [] := by
  rw [operations, List.map_eq_nil_iff, List.filter_eq_nil_iff]
  intro e member
  simp [chunks e member]

theorem eventsOf_others (others : ∀ e ∈ events, e.threadId ≠ threadId) :
    eventsOf threadId kind events = 0 := by
  apply List.countP_eq_zero.mpr
  intro e member
  simp [others e member]

theorem operations_others (others : ∀ e ∈ events, e.threadId ≠ threadId) :
    operations threadId events = [] := by
  rw [operations, List.map_eq_nil_iff, List.filter_eq_nil_iff]
  intro e member
  simp [others e member]

end Counting

section Steps

variable {P : Platform} {w w' : World} {e : Event} {r : Answers} {n : Nat}

def Feed.Mirrors (f : Feed) : Prop := f.ring = EventRing.new.pushAll f.history

theorem Feed.Adds.mirrors {f f' : Feed} {events : List AllocEvent} (adds : f.Adds f' events)
    (mirrors : f.Mirrors) : f'.Mirrors := by
  rw [Feed.Mirrors, adds.ring, adds.history, mirrors, EventRing.pushAll, EventRing.pushAll,
    EventRing.pushAll, List.foldl_append]

theorem Feed.pushes_adds (events : List AllocEvent) (f : Feed) :
    f.Adds (events.foldl Feed.push f) events := by
  induction events generalizing f with
  | nil => exact f.adds_none f.shared
  | cons e events ih =>
      have rest := ih (f.push e)
      constructor
      · exact rest.ring
      · show (events.foldl Feed.push (f.push e)).history = f.history ++ e :: events
        rw [rest.history, Feed.push, List.append_assoc]
        rfl

theorem allocate_pushes {x : Except Exn (Option Nat)} {t' : ThreadPoolAlloc} {f' : Feed}
    {m' : ByteMemory} (done : allocate P r w.pool n w.feed w.mem = (x, t', f', m')) :
    t'.threadId = w.pool.threadId ∧ t'.freeCount = w.pool.freeCount ∧
      t'.allocCount = Words.add w.pool.allocCount 1 ∧
      RequestEnds (Served P r w.pool.alloc w.feed n) w.pool.alloc t'.alloc x ∧
      ∃ chunks, (∀ e ∈ chunks, e.kind = kEventChunk) ∧
        ((∃ p, x = .ok (some p) ∧ w.feed.Adds f'
          (chunks ++ [⟨r.ns, n, p, w.pool.threadId, kEventAlloc⟩])) ∨
        ((∀ p, x ≠ .ok (some p)) ∧ w.feed.Adds f' chunks)) := by
  rw [allocate, ThreadPoolAlloc.allocate] at done
  generalize run : w.pool.alloc.allocate P (acquireChunkCb P w.pool.threadId r) r.slabRecorded n
    w.feed w.mem = served at done
  obtain ⟨y, a', f₁, m₁⟩ := served
  obtain ⟨ends, chunks, kinds, adds⟩ := allocate_ends run
  dsimp only at done
  split at done
  · rename_i p t₁ f₂ m₂ called
    cases called
    cases done
    exact ⟨rfl, rfl, rfl, ends, chunks, kinds, Or.inl ⟨p, rfl, adds.push _⟩⟩
  · rename_i unserved called
    cases called
    cases done
    exact ⟨rfl, rfl, rfl, ends, chunks, kinds, Or.inr ⟨unserved, adds⟩⟩

theorem allocate_served {x : Except Exn (Option Nat)} {t' : ThreadPoolAlloc} {f' : Feed}
    {m' : ByteMemory} (done : allocate P r w.pool n w.feed w.mem = (x, t', f', m'))
    (served : Served P r w.pool.alloc w.feed n) :
    World.allocTally ⟨t', f', m'⟩ = w.allocTally.recorded ∧
      World.freeTally ⟨t', f', m'⟩ = w.freeTally ∧
      RecordedOnce ⟨w, .allocate n r x, ⟨t', f', m'⟩⟩ := by
  obtain ⟨id, frees, calls, ends, chunks, kinds, pushed⟩ := allocate_pushes done
  obtain ⟨⟨p, answer⟩, allocs⟩ := ends.met served
  subst answer
  rcases pushed with ⟨q, same, adds⟩ | ⟨failed, _⟩
  · cases same
    refine ⟨?_, ?_, _, adds.history, ?_⟩
    · simp only [World.allocTally, Tally.recorded, id, calls, allocs, adds.history,
        eventsOf_append, eventsOf_chunks kinds (show kEventAlloc ≠ kEventChunk by decide)]
      simp [eventsOf]
    · simp only [World.freeTally, id, frees, ends.frees, adds.history, eventsOf_append,
        eventsOf_chunks kinds (show kEventFree ≠ kEventChunk by decide)]
      simp [eventsOf, kEventAlloc, kEventFree]
    · rw [operations_append, operations_chunks kinds]
      simp [operations, Event.operation, kEventAlloc, kEventChunk]
  · exact absurd rfl (failed p)

theorem allocate_unserved {x : Except Exn (Option Nat)} {t' : ThreadPoolAlloc} {f' : Feed}
    {m' : ByteMemory} (done : allocate P r w.pool n w.feed w.mem = (x, t', f', m'))
    (unserved : ¬ Served P r w.pool.alloc w.feed n) :
    World.allocTally ⟨t', f', m'⟩ = w.allocTally.failed := by
  obtain ⟨id, _, calls, ends, chunks, kinds, pushed⟩ := allocate_pushes done
  obtain ⟨failed, allocs⟩ := ends.unmet unserved
  rcases pushed with ⟨p, answer, _⟩ | ⟨_, adds⟩
  · exact absurd answer (failed p)
  · simp only [World.allocTally, Tally.failed, id, calls, allocs, adds.history, eventsOf_append,
      eventsOf_chunks kinds (show kEventAlloc ≠ kEventChunk by decide), Nat.add_zero]

theorem allocateAligned_admits {alignment : Nat} {x : Option Nat} {t' : ThreadPoolAlloc}
    (done : w.pool.allocateAligned n alignment = (x, t'))
    (admits : Admits w.pool.alloc.arena n alignment) :
    World.allocTally ⟨t', w.feed, w.mem⟩ = w.allocTally.unrecorded := by
  obtain ⟨p, a', called, allocs, _⟩ := arenaAllocate_admits admits
  simp only [ThreadPoolAlloc.allocateAligned, SingleThreadAllocator.allocateAligned, called] at done
  cases done
  simp only [World.allocTally, Tally.unrecorded, allocs]

theorem allocateAligned_refuses {alignment : Nat} {x : Option Nat} {t' : ThreadPoolAlloc}
    (done : w.pool.allocateAligned n alignment = (x, t'))
    (refuses : ¬ Admits w.pool.alloc.arena n alignment) : x = none ∧ t' = w.pool := by
  have called := arenaAllocate_refuses refuses
  simp only [ThreadPoolAlloc.allocateAligned, SingleThreadAllocator.allocateAligned, called] at done
  cases done
  exact ⟨rfl, rfl⟩

/-- What a free that returns has done to the members. -/
theorem free_pushes {form : FreeForm} {ns p : Nat} {t' : ThreadPoolAlloc} {f' : Feed}
    {m' : ByteMemory} (done : free form ns w.pool p n w.feed w.mem = .ok (t', f', m')) :
    form.call w.pool.alloc w.mem p n = .ok (t'.alloc, m') ∧ t'.threadId = w.pool.threadId ∧
      t'.allocCount = w.pool.allocCount ∧ t'.freeCount = Words.add w.pool.freeCount 1 ∧
      f' = w.feed.push ⟨ns, n, p, w.pool.threadId, kEventFree⟩ := by
  rw [free] at done
  split at done
  · cases done
  · rename_i t₁ m₁ freed
    cases done
    rw [ThreadPoolAlloc.free] at freed
    split at freed
    · cases freed
    · rename_i a₁ m₂ called
      cases freed
      exact ⟨called, rfl, rfl, rfl, rfl⟩

/-- A free counts in `stats()` exactly when the size names a class. -/
theorem freeCall_stats {form : FreeForm} {a a' : SingleThreadAllocator} {m m' : ByteMemory}
    {p : Nat} (done : form.call a m p n = .ok (a', m')) :
    a'.stats.allocCount = a.stats.allocCount ∧
      (n ≤ maxSmall → a'.stats.freeCount = Words.add a.stats.freeCount 1) ∧
      (maxSmall < n → a'.stats.freeCount = a.stats.freeCount) := by
  by_cases small : n ≤ maxSmall
  · have stats : a'.stats = a.stats.recordFree n (sizeClassOf n small).bytes := by
      cases form with
      | start =>
          simp only [FreeForm.call, SingleThreadAllocator.deallocate, dif_pos small,
            SingleThreadAllocator.poolDeallocate] at done
          split at done
          · cases done
          · cases done
            rfl
      | containing =>
          simp only [FreeForm.call, SingleThreadAllocator.deallocateContaining, dif_pos small,
            SingleThreadAllocator.poolDeallocateContaining] at done
          split at done
          · cases done
          · cases done
            rfl
    rw [stats]
    exact ⟨rfl, fun _ => rfl, fun large => absurd small (Nat.not_le.mpr large)⟩
  · rw [form.call_large _ _ (Nat.lt_of_not_le small)] at done
    cases done
    exact ⟨rfl, fun fits => absurd fits small, fun _ => rfl⟩

/-- The step leaves the ledgers in agreement: a request that can be met, an over-aligned one
that the arena refuses, or a free of a pool block. -/
def Clean (P : Platform) (w : World) : Event → Prop
  | .allocate n r _ => Served P r w.pool.alloc w.feed n
  | .allocateAligned n alignment _ => ¬ Admits w.pool.alloc.arena n alignment
  | .free _ _ n => n ≤ maxSmall
  | .elsewhere => True

def Tally.Follows (t t' : Tally) : Prop := t' = t ∨ t' = t.recorded

theorem step_clean (taken : Step P w e w') (clean : Clean P w e) :
    w.allocTally.Follows w'.allocTally ∧ w.freeTally.Follows w'.freeTally ∧
      RecordedOnce ⟨w, e, w'⟩ := by
  cases taken with
  | allocate done =>
      obtain ⟨allocs, frees, recorded⟩ := allocate_served done clean
      exact ⟨Or.inr allocs, Or.inl frees, recorded⟩
  | allocateAligned power done =>
      obtain ⟨rfl, rfl⟩ := allocateAligned_refuses done clean
      exact ⟨Or.inl rfl, Or.inl rfl, [], (List.append_nil _).symm, rfl⟩
  | @free form ns p n t' f' m' nonnull done =>
      obtain ⟨called, id, calls, frees, rfl⟩ := free_pushes done
      obtain ⟨allocStats, small, _⟩ := freeCall_stats called
      have freeStats := small clean
      refine ⟨Or.inl ?_, Or.inr ?_, _, rfl, ?_⟩
      · simp only [World.allocTally, id, calls, allocStats, Feed.push, eventsOf_append]
        simp [eventsOf, kEventAlloc, kEventFree]
      · simp only [World.freeTally, Tally.recorded, id, frees, freeStats, Feed.push,
          eventsOf_append]
        simp [eventsOf]
      · simp [operations, Event.operation, kEventFree, kEventChunk]
  | elsewhere g m events others =>
      have adds := Feed.pushes_adds events ⟨g, w.feed.ring, w.feed.history⟩
      refine ⟨Or.inl ?_, Or.inl ?_, _, adds.history, operations_others others⟩
      · simp only [World.allocTally, adds.history, eventsOf_append, eventsOf_others others,
          Nat.add_zero]
      · simp only [World.freeTally, adds.history, eventsOf_append, eventsOf_others others,
          Nat.add_zero]

theorem step_unclean (taken : Step P w e w') (unclean : ¬ Clean P w e) :
    w'.allocTally = w.allocTally.failed ∨ w'.allocTally = w.allocTally.unrecorded ∨
      w'.freeTally = w.freeTally.ignored := by
  cases taken with
  | allocate done => exact Or.inl (allocate_unserved done unclean)
  | allocateAligned power done =>
      exact Or.inr (Or.inl (allocateAligned_admits done (Classical.not_not.mp unclean)))
  | @free form ns p n t' f' m' nonnull done =>
      obtain ⟨called, id, calls, frees, rfl⟩ := free_pushes done
      have freeStats := (freeCall_stats called).2.2 (Nat.lt_of_not_le unclean)
      right
      right
      simp only [World.freeTally, Tally.ignored, id, frees, freeStats, Feed.push, eventsOf_append]
      simp [eventsOf]
  | elsewhere g m events others => exact absurd trivial unclean

theorem step_adds (taken : Step P w e w') : ∃ events, w.feed.Adds w'.feed events := by
  cases taken with
  | allocate done =>
      obtain ⟨_, _, _, _, chunks, _, ⟨p, _, adds⟩ | ⟨_, adds⟩⟩ := allocate_pushes done
      · exact ⟨_, adds⟩
      · exact ⟨_, adds⟩
  | allocateAligned power done => exact ⟨[], w.feed.adds_none w.feed.shared⟩
  | free nonnull done =>
      obtain ⟨_, _, _, _, rfl⟩ := free_pushes done
      exact ⟨_, w.feed.adds_one w.feed.shared _⟩
  | elsewhere g m events others =>
      have adds := Feed.pushes_adds events ⟨g, w.feed.ring, w.feed.history⟩
      exact ⟨events, adds.ring, adds.history⟩

end Steps

section Run

variable {P : Platform} {w w₀ : World} {trace : List (Transition World Event)}

def World.TalliesAgree (w : World) : Prop := w.allocTally.Agrees ∧ w.freeTally.Agrees

theorem eventsOf_le (threadId kind : Nat) (events : List AllocEvent) :
    eventsOf threadId kind events ≤ events.length := List.countP_le_length

theorem Tally.Follows.agrees {t t' : Tally} (follows : t.Follows t') (agrees : t.Agrees)
    (room : t'.events ≤ EventRing.kCapacity) : t'.Agrees := by
  rcases follows with rfl | rfl
  · exact agrees
  · apply agrees.recorded
    have count : t.events + 1 ≤ EventRing.kCapacity := room
    omega

/-- While the ring has not wrapped, `snapshot()` shows the whole history. -/
theorem ledgersAgree_iff (mirrors : w.feed.Mirrors)
    (bounded : w.feed.history.length ≤ EventRing.kCapacity) : w.LedgersAgree ↔ w.TalliesAgree := by
  have ring := EventRing.represents_before w.feed.history
  have shown : EventRing.snapshot w.feed.ring w.feed.ring = some w.feed.history := by
    have copied := EventRing.snapshot_eq w.feed.history []
    have count : (EventRing.new.pushAll w.feed.history).count = w.feed.history.length := by
      rw [ring.count, Nat.min_eq_left bounded]
    have whole : 0 + w.feed.history.length ≤ w.feed.history.length := by omega
    have window := ring.slots.window whole (by omega)
    rw [mirrors]
    simp only [EventRing.pushAll, List.foldl_nil] at copied ⊢
    rw [copied, ← EventRing.pushAll, count, Nat.sub_self, window, List.drop_zero,
      List.take_length]
  constructor
  · intro agree
    obtain ⟨stored, read, allocStats, allocCalls, freeStats, freeCalls⟩ := agree
    rw [shown] at read
    cases read
    exact ⟨⟨allocStats, allocCalls⟩, freeStats, freeCalls⟩
  · intro agree
    obtain ⟨⟨allocStats, allocCalls⟩, freeStats, freeCalls⟩ := agree
    exact ⟨_, shown, allocStats, allocCalls, freeStats, freeCalls⟩

/-- The step ends with the three ledgers in agreement, and has recorded its operation. -/
def Faithful (x : Transition World Event) : Prop := x.after.LedgersAgree ∧ RecordedOnce x

theorem run_faithful (mirrors : w₀.feed.Mirrors) (agrees : w₀.TalliesAgree)
    (run : Run (Step P) w₀ trace w) (bounded : w.feed.history.length ≤ EventRing.kCapacity) :
    w.feed.Mirrors ∧
      ((∀ x ∈ trace, Clean P x.before x.event) → w.TalliesAgree ∧ ∀ x ∈ trace, Faithful x) ∧
      ((∀ x ∈ trace, Faithful x) → w.TalliesAgree ∧ ∀ x ∈ trace, Clean P x.before x.event) := by
  induction run with
  | nil => exact ⟨mirrors, fun _ => ⟨agrees, fun _ member => (List.not_mem_nil member).elim⟩,
      fun _ => ⟨agrees, fun _ member => (List.not_mem_nil member).elim⟩⟩
  | @snoc trace s t e run taken ih =>
      obtain ⟨events, adds⟩ := step_adds taken
      have earlier : s.feed.history.length ≤ EventRing.kCapacity := by
        rw [adds.history, List.length_append] at bounded
        omega
      obtain ⟨before, forward, backward⟩ := ih earlier
      have after : t.feed.Mirrors := adds.mirrors before
      have shows := ledgersAgree_iff after bounded
      refine ⟨after, ?_, ?_⟩
      · intro clean
        obtain ⟨agree, faithful⟩ := forward (fun x member =>
          clean x (List.mem_append_left _ member))
        obtain ⟨allocs, frees, recorded⟩ := step_clean taken (clean ⟨s, e, t⟩ (by simp))
        have now : t.TalliesAgree :=
          ⟨allocs.agrees agree.1 (Nat.le_trans (eventsOf_le _ _ _) bounded),
            frees.agrees agree.2 (Nat.le_trans (eventsOf_le _ _ _) bounded)⟩
        refine ⟨now, ?_⟩
        intro x member
        rcases List.mem_append.mp member with old | new
        · exact faithful x old
        · obtain rfl := List.mem_singleton.mp new
          exact ⟨shows.mpr now, recorded⟩
      · intro faithful
        obtain ⟨agree, clean⟩ := backward (fun x member =>
          faithful x (List.mem_append_left _ member))
        have now : t.TalliesAgree := shows.mp (faithful ⟨s, e, t⟩ (by simp)).1
        refine ⟨now, ?_⟩
        intro x member
        rcases List.mem_append.mp member with old | new
        · exact clean x old
        · obtain rfl := List.mem_singleton.mp new
          apply Classical.byContradiction
          intro unclean
          rcases step_unclean taken unclean with failed | unrecorded | ignored
          · exact Tally.not_failed agree.1 (failed ▸ now.1)
          · exact Tally.not_unrecorded agree.1 (unrecorded ▸ now.1)
          · exact Tally.not_ignored agree.2 (ignored ▸ now.2)

variable {τ : Type} {owner : SizeClass → τ} {arenaOwner : τ} {reply : SizeClass → SlabReply}
  {arenaReply : Option Nat} {h h' : Heap τ} {m₀ m : ByteMemory} {a : SingleThreadAllocator}

theorem start_agrees (different : Function.Injective owner) (apart : ∀ i, owner i ≠ arenaOwner)
    (built : SingleThreadAllocator.new P owner arenaOwner reply arenaReply h m₀ =
      (.ok (a, m), h')) (threadId : Nat) (g : Shared) : (start a threadId g m).TalliesAgree := by
  have stats := (SingleThreadAllocator.new_ok different apart built).2.2.1
  simp only [World.TalliesAgree, World.allocTally, World.freeTally, start, stats]
  exact ⟨⟨rfl, rfl⟩, rfl, rfl⟩

/-- While at most `kCapacity` events are pushed, the event ring, `stats()` and the front end
agree after every step and every operation is recorded once, exactly when no request fails,
the arena serves no over-aligned request, and only pool blocks are freed. -/
theorem ledgers_agree_iff (different : Function.Injective owner)
    (apart : ∀ i, owner i ≠ arenaOwner)
    (built : SingleThreadAllocator.new P owner arenaOwner reply arenaReply h m₀ =
      (.ok (a, m), h')) (threadId : Nat) (g : Shared)
    (run : Run (Step P) (start a threadId g m) trace w)
    (bounded : w.feed.history.length ≤ EventRing.kCapacity) :
    (∀ x ∈ trace, Faithful x) ↔ ∀ x ∈ trace, Clean P x.before x.event := by
  have mirrors : (start a threadId g m).feed.Mirrors := rfl
  obtain ⟨_, forward, backward⟩ :=
    run_faithful mirrors (start_agrees different apart built threadId g) run bounded
  exact ⟨fun faithful => (backward faithful).2, fun clean => (forward clean).2⟩

/-- A large request that the arena admits pushes its one event. -/
theorem allocate_admits {n : Nat} (r : Answers) (t : ThreadPoolAlloc) (f : Feed) (m : ByteMemory)
    (large : maxSmall < n) (admits : Admits t.alloc.arena n P.maxAlign) :
    ∃ p t' f', allocate P r t n f m = (.ok (some p), t', f', m) ∧
      f'.history.length = f.history.length + 1 := by
  obtain ⟨p, a', called, _⟩ := arenaAllocate_admits admits
  rw [allocate, ThreadPoolAlloc.allocate_large t _ _ f m large called]
  exact ⟨_, _, _, rfl, List.length_append⟩

/-- A newly constructed allocator with its arena at 16 MiB. -/
theorem start_possible : ∃ (a : SingleThreadAllocator) (m : ByteMemory)
    (h' : Heap (Option SizeClass)), SingleThreadAllocator.new desktop some none (spreadReply 0)
      (some (0 + 16777216)) Heap.empty (fun _ => 0) = (.ok (a, m), h') ∧
      a.arena = Arena.ofRegion 16777216 kArenaCapacity := by
  obtain ⟨a, m, h', built, _, arena, _⟩ := SingleThreadAllocator.new_possible some none
    (fun _ => 0) Heap.empty (Nat.dvd_zero _) (by decide) (fun b member => by cases member)
  exact ⟨a, m, h', built, arena⟩

theorem some_apart : ∀ i : SizeClass, some i ≠ none := fun i => Option.some_ne_none i

/-- A large request leaves the three ledgers in agreement. -/
theorem ledgers_agree_large : ∃ (a : SingleThreadAllocator) (g : Shared) (m : ByteMemory)
    (trace : List (Transition World Event)) (w : World),
    Run (Step desktop) (start a 7 g m) trace w ∧ trace.length = 1 ∧
      ∀ x ∈ trace, Faithful x := by
  obtain ⟨a, m, h', built, arena⟩ := start_possible
  let g : Shared := ⟨Heap.empty, CentralHeap.empty, []⟩
  let r : Answers := ⟨⟨none, none⟩, true, true, 0, 5⟩
  have admits : Admits a.arena 2000 desktop.maxAlign := by
    rw [arena]
    show _ ≤ _
    decide
  have served : Served desktop r a ⟨g, EventRing.new, []⟩ 2000 := by
    rw [Served, dif_neg (by decide)]
    exact admits
  obtain ⟨p, t', f', done, events⟩ :=
    allocate_admits r ⟨a, 0, 0, 7⟩ ⟨g, EventRing.new, []⟩ m (by decide) admits
  have bounded : f'.history.length ≤ EventRing.kCapacity := by
    rw [events]
    decide
  have first : Step desktop (start a 7 g m) (.allocate 2000 r (.ok (some p))) ⟨t', f', m⟩ :=
    .allocate done
  refine ⟨a, g, m, _, _, Run.nil.snoc first, rfl, ?_⟩
  apply (ledgers_agree_iff (Option.some_injective _) some_apart built 7 g (Run.nil.snoc first)
    bounded).mpr
  intro x member
  obtain rfl := List.mem_singleton.mp member
  exact served

/-- An over-aligned block is counted by `stats()` alone and never recorded. -/
theorem ledgers_not_always_agree : ∃ (a : SingleThreadAllocator) (g : Shared) (m : ByteMemory)
    (h' : Heap (Option SizeClass)) (trace : List (Transition World Event)) (w : World),
    SingleThreadAllocator.new desktop some none (spreadReply 0)
      (some (0 + 16777216)) Heap.empty (fun _ => 0) = (.ok (a, m), h') ∧
      Run (Step desktop) (start a 7 g m) trace w ∧
      w.feed.history.length ≤ EventRing.kCapacity ∧ ¬ ∀ x ∈ trace, Faithful x := by
  obtain ⟨a, m, h', built, arena⟩ := start_possible
  let g : Shared := ⟨Heap.empty, CentralHeap.empty, []⟩
  have admits : Admits a.arena 64 64 := by
    rw [arena]
    show _ ≤ _
    decide
  obtain ⟨p, t', done⟩ : ∃ p t', (start a 7 g m).pool.allocateAligned 64 64 = (p, t') :=
    ⟨_, _, rfl⟩
  have power : Words.PowerOfTwo 64 := ⟨6, by decide, rfl⟩
  have unrecorded := allocateAligned_admits (w := start a 7 g m) done admits
  refine ⟨a, g, m, h', _, _, built, Run.nil.snoc (.allocateAligned power done), Nat.zero_le _, ?_⟩
  intro faithful
  have agree := (faithful _ (List.mem_append_right _ (List.mem_singleton.mpr rfl))).1
  have mirrors : (start a 7 g m).feed.Mirrors := rfl
  have tallies := ((ledgersAgree_iff (w := ⟨t', (start a 7 g m).feed, (start a 7 g m).mem⟩)
    mirrors (Nat.zero_le _)).mp agree).1
  rw [unrecorded] at tallies
  exact Tally.not_unrecorded
    (start_agrees (Option.some_injective _) some_apart built 7 g).1 tallies

end Run

end MemAlloc.EventLedgers
