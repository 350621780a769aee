import MemAlloc.RingStorage

set_option autoImplicit false

/- The single steps that the functions of the override take between two calls of each other. -/
namespace MemAlloc.OverrideCalls

open NewDelete (takesFallback)
open SingleThreadAllocator (FreeForm)

inductive StaticState where
  | absent
  | initialising (t : Nat)
  | stored (p : Nat)

inductive Mutex where
  | centralHeap
  | statsRegistry
  | ring
deriving DecidableEq

/-- What the calls do to the C heap, to the records of the override and to the allocators. -/
inductive Primitive where
  | mallocFallback (size : Nat)
  | mallocOverAligned (size alignment : Nat)
  | stash (raw payload : Nat)
  | unstash (p : Nat)
  | freeRegistered (p : Nat)
  | setReady
  | isConstructed
  | takeThreadId
  | buildMembers
  | becomeLive (a : SingleThreadAllocator) (threadId : Nat)
  | markGone
  | destroyMembers (a : SingleThreadAllocator)
  | countAlloc
  | poolAllocate (i : SizeClass) (n : Nat)
  | arenaAllocate (n : Nat)
  | arenaAllocateAligned (n alignment : Nat)
  | linkSlab (i : SizeClass) (body : Nat)
  | recordSlab (i : SizeClass) (body : Nat)
  | free (form : FreeForm) (p n : Nat)
  | classify (p : Nat)
  | threadId
  | allocateChunk (sizeClassBytes : Nat)
  | recordChunk (slab : SlabAlloc) (sizeClassBytes : Nat) (user : Option Nat)

abbrev Primitive.Reply : Primitive → Type
  | .mallocFallback _ => Nat
  | .mallocOverAligned _ _ => Nat
  | .unstash _ => Bool
  | .isConstructed => Bool
  | .takeThreadId => Nat
  | .buildMembers => Option SingleThreadAllocator
  | .markGone => SingleThreadAllocator
  | .poolAllocate _ _ => Nat
  | .arenaAllocate _ => Nat
  | .arenaAllocateAligned _ _ => Nat
  | .classify _ => Nat
  | .threadId => Nat
  | .allocateChunk _ => Option SlabAlloc
  | _ => Unit

/-- The single steps of a function between two calls. -/
inductive Action where
  | proceed
  | terminate
  | testFallback
  | testReady
  | testGone
  | testDying
  | testEnabled
  | enterGuard
  | leaveGuard (previous : Bool)
  | lock (m : Mutex)
  | unlock (m : Mutex)
  | enterStatic (x : Static)
  | storeStatic (x : Static) (p : Nat)
  | abandonStatic (x : Static)
  | room (v : Vector)
  | append (v : Vector)
  | newBytes (v : Vector)
  | moveTo (v : Vector) (buffer : Nat)
  | install (v : Vector) (buffer : Nat)
  | release (v : Vector)
  | erase (v : Vector)
  | pushEvent (kind size ptr threadId : Nat)
  | primitive (a : Primitive)

abbrev Action.Reply : Action → Type
  | .testFallback => Bool
  | .testReady => Bool
  | .testGone => Bool
  | .testDying => Bool
  | .testEnabled => Bool
  | .enterGuard => Bool
  | .enterStatic _ => Option Nat
  | .room _ => Bool
  | .newBytes _ => Nat
  | .moveTo _ _ => Nat
  | .release _ => Nat
  | .primitive a => a.Reply
  | _ => Unit

/-- What all threads see. `active` and `w.sys.threads` have a value for each thread. -/
structure State where
  w : NewDelete
  active : Nat → Bool
  enabled : Bool
  ring : EventRing
  statics : Static → StaticState
  mutexes : Mutex → Option Nat
  vectors : Vector → VectorStorage

namespace State

def setMutex (s : State) (m : Mutex) (holder : Option Nat) : State :=
  { s with mutexes := Function.update s.mutexes m holder }

def setStatic (s : State) (x : Static) (x' : StaticState) : State :=
  { s with statics := Function.update s.statics x x' }

def setVector (s : State) (v : Vector) (storage : VectorStorage) : State :=
  { s with vectors := Function.update s.vectors v storage }

def setActive (s : State) (t : Nat) (active : Bool) : State :=
  { s with active := Function.update s.active t active }

end State

def pointer (p : Option Nat) : Nat := p.getD 0

/-- Looks for a stashed payload; a stashed one is freed and forgotten. -/
def takeStash (t p : Nat) (w : NewDelete) : Bool × NewDelete :=
  match (w.alignedScratch t).find? (fun e => decide (e.payload = p)) with
  | some e =>
      let stash := (w.alignedScratch t).eraseP (fun e => decide (e.payload = p))
      (true, { w.safeFree e.raw with alignedScratch := Function.update w.alignedScratch t stash })
  | none => (false, w)

/-- Hands out an over-aligned pointer and remembers what to free for it. -/
def putStash (t raw payload : Nat) (w : NewDelete) : NewDelete :=
  let stash := w.alignedScratch t ++ [⟨raw, payload⟩]
  let w' := { w with alignedScratch := Function.update w.alignedScratch t stash }
  w'.issue (t, .overAligned raw) payload

def setPool (t : Nat) (pool : ThreadPoolAlloc) (client : Client) (w : NewDelete) : NewDelete :=
  { w with sys := w.sys.setThread t (.live pool client) }

/-- The effects on thread `t`, and the answers. An assertion that fails has none. -/
inductive Primitive.Does (P : Platform) (t : Nat) :
    (a : Primitive) → NewDelete → a.Reply → NewDelete → Prop
  | mallocFallback {w w' : NewDelete} {size : Nat} {r : Replies} {p : Option Nat}
      (done : w.fallbackNew P r t size = (.ok p, w')) :
      Does P t (.mallocFallback size) w (pointer p) w'
  | mallocOverAligned {w w' : NewDelete} {size alignment : Nat} {reply raw : Option Nat}
      (done : w.malloc P .overAligned (Words.add size alignment) reply = (raw, w')) :
      Does P t (.mallocOverAligned size alignment) w (pointer raw) w'
  | stash {w : NewDelete} {raw payload : Nat} :
      Does P t (.stash raw payload) w () (putStash t raw payload w)
  | unstash {w : NewDelete} {p : Nat} :
      Does P t (.unstash p) w (takeStash t p w).1 (takeStash t p w).2
  | freeRegistered {w : NewDelete} {p : Nat} :
      Does P t (.freeRegistered p) w () (w.freeRegistered p).2
  | setReady {w : NewDelete} : Does P t .setReady w () { w with ready := true }
  | constructed {w : NewDelete} {pool : ThreadPoolAlloc} {client : Client}
      (live : w.sys.threads t = .live pool client) : Does P t .isConstructed w true w
  | unconstructed {w : NewDelete} (unborn : w.sys.threads t = .unborn) :
      Does P t .isConstructed w false w
  | takeThreadId {w : NewDelete} :
      Does P t .takeThreadId w w.sys.nextThreadId
        { w with sys := { w.sys with nextThreadId := (w.sys.nextThreadId + 1) % 4294967296 } }
  | buildMembers {w : NewDelete} {slabs : SizeClass → SlabReply} {arena : Option Nat}
      {a : SingleThreadAllocator} {m' : ByteMemory} {h' : Malloc.Heap Owner}
      (done : SingleThreadAllocator.new P (.slab t) (.arena t) slabs arena w.sys.shared.heap
        w.sys.mem = (.ok (a, m'), h')) :
      Does P t .buildMembers w (some a) { w with sys := { w.sys.setHeap h' with mem := m' } }
  | buildFails {w : NewDelete} {slabs : SizeClass → SlabReply} {arena : Option Nat} {x : Exn}
      {h' : Malloc.Heap Owner}
      (done : SingleThreadAllocator.new P (.slab t) (.arena t) slabs arena w.sys.shared.heap
        w.sys.mem = (.error x, h')) :
      Does P t .buildMembers w none { w with sys := w.sys.setHeap h' }
  | becomeLive {w : NewDelete} {a : SingleThreadAllocator} {threadId : Nat} :
      Does P t (.becomeLive a threadId) w () (setPool t ⟨a, 0, 0, threadId⟩ Client.none w)
  | markGone {w : NewDelete} {pool : ThreadPoolAlloc} {client : Client}
      (live : w.sys.threads t = .live pool client) :
      Does P t .markGone w pool.alloc { w with sys := w.sys.setThread t .exited }
  | destroyMembers {w : NewDelete} {a : SingleThreadAllocator} :
      Does P t (.destroyMembers a) w ()
        { w with sys := w.sys.setHeap (a.destroy w.sys.shared.heap) }
  | countAlloc {w : NewDelete} {pool : ThreadPoolAlloc} {client : Client}
      (live : w.sys.threads t = .live pool client) :
      Does P t .countAlloc w ()
        (setPool t { pool with allocCount := Words.add pool.allocCount 1 } client w)
  | poolAllocate {w : NewDelete} {pool : ThreadPoolAlloc} {client : Client} {i : SizeClass}
      {n p : Nat} {a : SingleThreadAllocator} (live : w.sys.threads t = .live pool client)
      (done : pool.alloc.poolAllocate i w.sys.mem = (some p, a)) :
      Does P t (.poolAllocate i n) w p
        (setPool t { pool with alloc := a.recordAlloc n i.bytes } (client.gainBlock i p) w)
  | poolExhausted {w : NewDelete} {pool : ThreadPoolAlloc} {client : Client} {i : SizeClass}
      {n : Nat} {a : SingleThreadAllocator} (live : w.sys.threads t = .live pool client)
      (done : pool.alloc.poolAllocate i w.sys.mem = (none, a)) :
      Does P t (.poolAllocate i n) w 0 (setPool t { pool with alloc := a } client w)
  | arenaAllocate {w : NewDelete} {pool : ThreadPoolAlloc} {client : Client} {n : Nat}
      {p : Option Nat} {a : SingleThreadAllocator} (live : w.sys.threads t = .live pool client)
      (done : pool.alloc.arenaAllocate n P.maxAlign = (p, a)) :
      Does P t (.arenaAllocate n) w (pointer p)
        (setPool t { pool with alloc := a } (client.gainAligned n p) w)
  | arenaAllocateAligned {w : NewDelete} {pool pool' : ThreadPoolAlloc} {client : Client}
      {n alignment : Nat} {p : Option Nat} (live : w.sys.threads t = .live pool client)
      (done : pool.allocateAligned n alignment = (p, pool')) :
      Does P t (.arenaAllocateAligned n alignment) w (pointer p)
        (setPool t pool' (client.gainAligned n p) w)
  | linkSlab {w : NewDelete} {pool : ThreadPoolAlloc} {client : Client} {i : SizeClass}
      {body : Nat} {a : SingleThreadAllocator} {m' : ByteMemory}
      (live : w.sys.threads t = .live pool client)
      (done : pool.alloc.poolAddExternalSlab i w.sys.mem body false = (.error .badAlloc, a, m')) :
      Does P t (.linkSlab i body) w ()
        { w with sys := { w.sys.setThread t (.live { pool with alloc := a } client) with
          mem := m' } }
  | recordSlab {w : NewDelete} {pool : ThreadPoolAlloc} {client : Client} {i : SizeClass}
      {body : Nat} (live : w.sys.threads t = .live pool client) :
      Does P t (.recordSlab i body) w ()
        (setPool t { pool with alloc := pool.alloc.setPool i { pool.alloc.pools i with
          externalSlabs := (pool.alloc.pools i).externalSlabs ++
            [⟨body, SingleThreadAllocator.maxBlocks i⟩] } } client w)
  | free {w : NewDelete} {pool pool' : ThreadPoolAlloc} {client : Client} {form : FreeForm}
      {p n : Nat} {m' : ByteMemory} (live : w.sys.threads t = .live pool client)
      (done : pool.free form w.sys.mem p n = .ok (pool', m')) :
      Does P t (.free form p n) w ()
        { w with sys := { w.sys.setThread t (.live pool' (client.releaseAt n p)) with
          mem := m' } }
  | classify {w : NewDelete} {pool : ThreadPoolAlloc} {client : Client} {p : Nat}
      (live : w.sys.threads t = .live pool client) :
      Does P t (.classify p) w (pool.classify p) w
  | threadId {w : NewDelete} {pool : ThreadPoolAlloc} {client : Client}
      (live : w.sys.threads t = .live pool client) : Does P t .threadId w pool.threadId w
  | allocateChunk {w : NewDelete} {sizeClassBytes : Nat} {reply : SlabReply} {slab : SlabAlloc}
      {h' : Malloc.Heap Owner}
      (done : allocateSlab P w.sys.shared.heap .chunk CentralHeap.chunkSize CentralHeap.chunkSize
        reply = (some slab, h')) :
      Does P t (.allocateChunk sizeClassBytes) w (some slab)
        { w with sys := { w.sys.setHeap h' with
          mem := CentralHeap.writeHeader w.sys.mem slab.aligned sizeClassBytes } }
  | chunkRefused {w : NewDelete} {sizeClassBytes : Nat} {reply : SlabReply}
      {h' : Malloc.Heap Owner}
      (done : allocateSlab P w.sys.shared.heap .chunk CentralHeap.chunkSize CentralHeap.chunkSize
        reply = (none, h')) :
      Does P t (.allocateChunk sizeClassBytes) w none { w with sys := w.sys.setHeap h' }
  | recordChunk {w : NewDelete} {slab : SlabAlloc} {sizeClassBytes : Nat} {user : Option Nat} :
      Does P t (.recordChunk slab sizeClassBytes user) w ()
        { w with sys := { w.sys with shared := { w.sys.shared with
          central := ⟨w.sys.shared.central.chunks ++ [slab.raw],
            Words.add w.sys.shared.central.totalChunks 1⟩
          carved := w.sys.shared.carved ++ [⟨slab.aligned, user, sizeClassBytes⟩] } } }

/-- The effects on thread `t`, and the answers. A mutex that is held, a static that is being
initialised and a write through the null pointer have none, nor has `std::terminate`. -/
inductive Action.Does (P : Platform) (growth : Nat → Nat) (t : Nat) :
    (a : Action) → State → a.Reply → State → Prop
  | proceed {s : State} : Does P growth t .proceed s () s
  | testFallback {s : State} :
      Does P growth t .testFallback s
        (takesFallback s.w.ready (s.active t) (s.w.allocatorGone t)) s
  | testReady {s : State} : Does P growth t .testReady s s.w.ready s
  | testGone {s : State} : Does P growth t .testGone s (s.w.allocatorGone t) s
  | testDying {s : State} : Does P growth t .testDying s (s.w.allocatorGone t) s
  | testEnabled {s : State} : Does P growth t .testEnabled s s.enabled s
  | enterGuard {s : State} : Does P growth t .enterGuard s (s.active t) (s.setActive t true)
  | leaveGuard {s : State} {previous : Bool} :
      Does P growth t (.leaveGuard previous) s () (s.setActive t previous)
  | lock {s : State} {m : Mutex} (free : s.mutexes m = none) :
      Does P growth t (.lock m) s () (s.setMutex m (some t))
  | unlock {s : State} {m : Mutex} : Does P growth t (.unlock m) s () (s.setMutex m none)
  | firstEntry {s : State} {x : Static} (absent : s.statics x = .absent) :
      Does P growth t (.enterStatic x) s none (s.setStatic x (.initialising t))
  | laterEntry {s : State} {x : Static} {p : Nat} (stored : s.statics x = .stored p) :
      Does P growth t (.enterStatic x) s (some p) s
  | storeStatic {s : State} {x : Static} {p : Nat} (nonnull : p ≠ 0) :
      Does P growth t (.storeStatic x p) s () (s.setStatic x (.stored p))
  | abandonStatic {s : State} {x : Static} :
      Does P growth t (.abandonStatic x) s () (s.setStatic x .absent)
  | room {s : State} {v : Vector} :
      Does P growth t (.room v) s (decide ((s.vectors v).size < (s.vectors v).capacity)) s
  | append {s : State} {v : Vector} :
      Does P growth t (.append v) s ()
        (s.setVector v { s.vectors v with size := (s.vectors v).size + 1 })
  | newBytes {s : State} {v : Vector} :
      Does P growth t (.newBytes v) s (v.elementBytes * growth (s.vectors v).capacity) s
  | moveTo {s : State} {v : Vector} {buffer : Nat} (nonnull : buffer ≠ 0) :
      Does P growth t (.moveTo v buffer) s (s.vectors v).buffer s
  | install {s : State} {v : Vector} {buffer : Nat} :
      Does P growth t (.install v buffer) s ()
        (s.setVector v ⟨buffer, (s.vectors v).size + 1, growth (s.vectors v).capacity⟩)
  | release {s : State} {v : Vector} :
      Does P growth t (.release v) s (s.vectors v).buffer (s.setVector v ⟨0, 0, 0⟩)
  | erase {s : State} {v : Vector} :
      Does P growth t (.erase v) s ()
        (s.setVector v { s.vectors v with size := (s.vectors v).size - 1 })
  | pushEvent {s : State} {kind size ptr threadId tsNs : Nat} :
      Does P growth t (.pushEvent kind size ptr threadId) s ()
        { s with ring := s.ring.push ⟨tsNs, size, ptr, threadId, kind⟩ }
  | primitive {s : State} {a : Primitive} {r : a.Reply} {w' : NewDelete}
      (done : a.Does P t s.w r w') : Does P growth t (.primitive a) s r { s with w := w' }

/-- What the rest of the program does: it turns the recording on and off, uses the C heap and
writes where it may. -/
inductive Elsewhere (P : Platform) : State → State → Prop
  | setEnabled {s : State} (on : Bool) : Elsewhere P s { s with enabled := on }
  | malloc {s : State} {size : Nat} {x : Option Nat} {w' : NewDelete}
      (taken : NewDelete.Step P s.w (.malloc size x) w') : Elsewhere P s { s with w := w' }
  | mfree {s : State} {p : Nat} {w' : NewDelete}
      (taken : NewDelete.Step P s.w (.mfree p) w') : Elsewhere P s { s with w := w' }
  | write {s : State} {a : Nat} {b : UInt8} {w' : NewDelete}
      (taken : NewDelete.Step P s.w (.write a b) w') : Elsewhere P s { s with w := w' }

end MemAlloc.OverrideCalls
