import MemAlloc.ThreadSystem

set_option autoImplicit false

namespace MemAlloc

open Malloc (Heap)
open SingleThreadAllocator (kArenaPointer)

/-- An entry of `g_aligned_scratch`. -/
structure Scratch where
  raw : Nat
  payload : Nat
deriving DecidableEq, Repr

/-- Where a pointer that `operator new` returned came from; `n` is the size requested, and at
least one. -/
inductive Origin where
  | pool (n : Nat)
  | arena
  | fallback
  | overAligned (raw : Nat)
deriving DecidableEq, Repr

/-- The path a request takes once the thread's allocator serves it. -/
def Origin.ofSize (n : Nat) : Origin := if n ≤ maxSmall then .pool n else .arena

/-- The pointer that `std::malloc` returned for the fallback pointer `p`. -/
def Origin.raw (p : Nat) : Origin → Option Nat
  | .fallback => some p
  | .overAligned raw => some raw
  | _ => none

/-- Takes the block of class `cls` that holds `p` back from the client. -/
def Client.releaseAt (c : Client) (cls p : Nat) : Client :=
  if small : cls ≤ maxSmall then
    let i := sizeClassOf cls small
    match (c.held i).find? (fun x => decide ((Span.mk x i.bytes).Holds p)) with
    | some x => c.release i x
    | .none => c
  else c

/-- The state behind the replaced `operator new` and `operator delete`. `constructing` marks
the threads that are inside the constructor of their allocator. `issued` records, by thread
and origin, the pointers that have been returned and not deleted; the program does not keep
it. Here all vectors get the memory they grow into and nothing is recorded; `CallState` has the
calls with both. -/
structure NewDelete where
  sys : Sys
  ready : Bool
  mallocRecs : List Nat
  alignedScratch : Nat → List Scratch
  constructing : Nat → Bool
  issued : Nat × Origin → List Nat

/-- The environment's answers to the requests one call may make. -/
structure Replies where
  block : Option Nat
  node : Option Nat
  chunk : SlabReply

namespace NewDelete

def initial (m : ByteMemory) (h : Heap Owner) : NewDelete :=
  ⟨Sys.initial m h, false, [], fun _ => [], fun _ => false, fun _ => []⟩

/-- `sizeof(MallocRec)`. -/
def mallocRecBytes : Nat := 16

def issue (w : NewDelete) (source : Nat × Origin) (p : Nat) : NewDelete :=
  { w with issued := Function.update w.issued source (p :: w.issued source) }

def retire (w : NewDelete) (source : Nat × Origin) (p : Nat) : NewDelete :=
  { w with issued := Function.update w.issued source ((w.issued source).erase p) }

def malloc (P : Platform) (use : Use) (n : Nat) (reply : Option Nat) (w : NewDelete) :
    Option Nat × NewDelete :=
  let answer := w.sys.shared.heap.malloc (.outside use) P.mallocAlign n reply
  (answer.1, { w with sys := w.sys.setHeap answer.2 })

/-- `std::free`. -/
def safeFree (w : NewDelete) (p : Nat) : NewDelete :=
  { w with sys := w.sys.setHeap (w.sys.shared.heap.free p) }

/-- The thread's allocator has been destroyed. -/
def allocatorGone (w : NewDelete) (t : Nat) : Bool :=
  match w.sys.threads t with
  | .exited => true
  | _ => false

/-- The test with which every form of `operator new` starts. -/
def takesFallback (ready active gone : Bool) : Bool := !ready || active || gone

/-- Registers `p`, unless there is no memory for the node. -/
def recordMallocPtr (P : Platform) (reply : Option Nat) (p : Nat) (w : NewDelete) : NewDelete :=
  match w.malloc P .node mallocRecBytes reply with
  | (none, w') => w'
  | (some _, w') => { w' with mallocRecs := p :: w'.mallocRecs }

def isRegisteredMallocPtr (w : NewDelete) (p : Nat) : Bool := decide (p ∈ w.mallocRecs)

def bootstrapAlignedNew (P : Platform) (r : Replies) (t size alignment : Nat) (w : NewDelete) :
    Except Exn (Option Nat) × NewDelete :=
  match w.malloc P .overAligned (Words.add size alignment) r.block with
  | (none, w') => (.error .badAlloc, w')
  | (some raw, w') =>
      let payload := Words.alignUp raw alignment
      let stash := w'.alignedScratch t ++ [⟨raw, payload⟩]
      let w'' := { w' with alignedScratch := Function.update w'.alignedScratch t stash }
      (.ok (some payload), w''.issue (t, .overAligned raw) payload)

/-- The fallback of `do_new`. A failed `malloc` is registered and returned like any other
answer. -/
def fallbackNew (P : Platform) (r : Replies) (t size : Nat) (w : NewDelete) :
    Except Exn (Option Nat) × NewDelete :=
  match w.malloc P .fallback size r.block with
  | (none, w') => (.ok none, w'.recordMallocPtr P r.node 0)
  | (some p, w') => (.ok (some p), (w'.recordMallocPtr P r.node p).issue (t, .fallback) p)

/-- `nullptr` from the allocator becomes an exception. -/
def orBadAlloc : Except Exn (Option Nat) → Except Exn (Option Nat)
  | .ok none => .error .badAlloc
  | x => x

/-- Hands what the allocator served to the caller. -/
def issueServed (w : NewDelete) (source : Nat × Origin) :
    Except Exn (Option Nat) → Except Exn (Option Nat) × NewDelete
  | .ok (some p) => (.ok (some p), w.issue source p)
  | x => (orBadAlloc x, w)

/-- The tables of the allocator and of the central heap grow through the fallback, which
never throws. -/
def poolNew (P : Platform) (r : Replies) (t size : Nat) (pool : ThreadPoolAlloc)
    (client : Client) (w : NewDelete) : Except Exn (Option Nat) × NewDelete :=
  let served := pool.allocate P (acquireChunkCb P t r.chunk true) true size w.sys.shared w.sys.mem
  let sys := { w.sys.setThread t (.live served.2.1 (client.gain size served.1)) with
    mem := served.2.2.2
    shared := served.2.2.1 }
  { w with sys := sys }.issueServed (t, Origin.ofSize size) served.1

def poolAlignedNew (t size alignment : Nat) (pool : ThreadPoolAlloc) (client : Client)
    (w : NewDelete) : Except Exn (Option Nat) × NewDelete :=
  let served := pool.allocateAligned size alignment
  let sys := w.sys.setThread t (.live served.2 (client.gainAligned size served.1))
  { w with sys := sys }.issueServed (t, .arena) (.ok served.1)

/-- `active` tells whether the guard is set, as in a call the allocator makes itself. The
call is left open when the thread's allocator has not been constructed. -/
def doNew (P : Platform) (r : Replies) (active : Bool) (t size : Nat) (w : NewDelete) :
    Option (Except Exn (Option Nat) × NewDelete) :=
  let size := if size = 0 then 1 else size
  if takesFallback w.ready active (w.allocatorGone t) then some (w.fallbackNew P r t size)
  else
    match w.sys.threads t with
    | .live pool client => some (w.poolNew P r t size pool client)
    | _ => none

def doAlignedNew (P : Platform) (r : Replies) (active : Bool) (t size alignment : Nat)
    (w : NewDelete) : Option (Except Exn (Option Nat) × NewDelete) :=
  let size := if size = 0 then 1 else size
  if alignment ≤ P.maxAlign then w.doNew P r active t size
  else if takesFallback w.ready active (w.allocatorGone t) then
    some (w.bootstrapAlignedNew P r t size alignment)
  else
    match w.sys.threads t with
    | .live pool client => some (w.poolAlignedNew t size alignment pool client)
    | _ => none

/-- The pointers handed to `std::free`, and the state after it. -/
def freeRegistered (w : NewDelete) (p : Nat) : List Nat × NewDelete :=
  if w.isRegisteredMallocPtr p then ([p], w.safeFree p) else ([], w)

/-- The tests come in the order of the source. The call is left open when it would need the
thread's allocator before that has been constructed, or fails an assertion. While an
allocator is dying it is also gone, so `is_dying` decides nothing of its own. -/
def doDelete (t p : Nat) (w : NewDelete) : Option (List Nat × NewDelete) :=
  if p = 0 then some ([], w)
  else
    match (w.alignedScratch t).find? (fun e => decide (e.payload = p)) with
    | some e =>
        let stash := (w.alignedScratch t).eraseP (fun e => decide (e.payload = p))
        some ([e.raw],
          { w.safeFree e.raw with alignedScratch := Function.update w.alignedScratch t stash })
    | none =>
        if w.ready = false then some (w.freeRegistered p)
        else
          match w.sys.threads t with
          | .exited => some (w.freeRegistered p)
          | .unborn => none
          | .live pool client =>
              let cls := pool.classify p
              if cls = 0 then some (w.freeRegistered p)
              else if cls = kArenaPointer then some ([], w)
              else
                match pool.deallocateContaining w.sys.mem p cls with
                | .error _ => none
                | .ok (pool', m') =>
                    let thread := Thread.live pool' (client.releaseAt cls p)
                    some ([], { w with sys := { w.sys.setThread t thread with mem := m' } })

inductive Event where
  | begin (t : Nat)
  | construct (t : Nat) (outcome : Except Exn Unit)
  | exit (t : Nat)
  | initAllocator (t : Nat)
  | new (t size : Nat) (nested : Bool) (result : Except Exn (Option Nat))
  | alignedNew (t size alignment : Nat) (nested : Bool) (result : Except Exn (Option Nat))
  | delete (t p : Nat) (source : Nat × Origin) (freed : Option (List Nat))
  | malloc (size : Nat) (result : Option Nat)
  | mfree (p : Nat)
  | write (a : Nat) (b : UInt8)

/-- One call on one thread, with the two ends of an allocator's construction as steps of
their own; a call that needs the allocator comes after them. A nested call is one that the
allocator makes for its own tables. Only pointers that have been returned and not deleted are
deleted, on any thread. The program may also use the C heap directly, and write where it
may. -/
inductive Step (P : Platform) : NewDelete → Event → NewDelete → Prop
  | begin {w : NewDelete} {t : Nat} (unborn : w.sys.threads t = .unborn)
      (first : w.constructing t = false) :
      Step P w (.begin t) { w with constructing := Function.update w.constructing t true }
  | construct {w : NewDelete} {t : Nat} {x : Except Exn Unit} {sys' : Sys}
      (begun : w.constructing t = true) (taken : Sys.Step P w.sys (.start t x) sys') :
      Step P w (.construct t x)
        { w with sys := sys', constructing := Function.update w.constructing t false }
  | exit {w : NewDelete} {t : Nat} {sys' : Sys} (taken : Sys.Step P w.sys (.exit t) sys') :
      Step P w (.exit t) { w with sys := sys' }
  | initAllocator {w : NewDelete} {t : Nat} {pool : ThreadPoolAlloc} {client : Client}
      (live : w.sys.threads t = .live pool client) :
      Step P w (.initAllocator t) { w with ready := true }
  | new {w w' : NewDelete} {t size : Nat} {nested : Bool} {r : Replies}
      {x : Except Exn (Option Nat)} (word : size < Words.radix)
      (done : w.doNew P r nested t size = some (x, w')) : Step P w (.new t size nested x) w'
  | alignedNew {w w' : NewDelete} {t size alignment : Nat} {nested : Bool} {r : Replies}
      {x : Except Exn (Option Nat)} (word : size < Words.radix)
      (power : Words.PowerOfTwo alignment)
      (done : w.doAlignedNew P r nested t size alignment = some (x, w')) :
      Step P w (.alignedNew t size alignment nested x) w'
  | delete {w w' : NewDelete} {t p : Nat} {source : Nat × Origin} {freed : List Nat}
      (out : p ∈ w.issued source) (done : w.doDelete t p = some (freed, w')) :
      Step P w (.delete t p source (some freed)) (w'.retire source p)
  | reenter {w : NewDelete} {t p : Nat} {source : Nat × Origin} (out : p ∈ w.issued source)
      (begun : w.constructing t = true) (stuck : w.doDelete t p = none) :
      Step P w (.delete t p source none) (w.retire source p)
  | malloc {w w' : NewDelete} {size : Nat} {reply x : Option Nat}
      (done : w.malloc P .program size reply = (x, w')) : Step P w (.malloc size x) w'
  | mfree {w : NewDelete} {b : Malloc.Block Owner} (member : b ∈ w.sys.shared.heap.blocks)
      (owner : b.owner = .outside .program) : Step P w (.mfree b.span.base) (w.safeFree b.span.base)
  | write {w : NewDelete} {a : Nat} {b : UInt8} {sys' : Sys}
      (taken : Sys.Step P w.sys (.write a b) sys') : Step P w (.write a b) { w with sys := sys' }

end NewDelete

end MemAlloc
