import MemAlloc.DeleteOutcomes

set_option autoImplicit false

namespace MemAlloc.CallState

open Malloc (Heap)
open NewDelete (takesFallback orBadAlloc)

/-- The deletion of a buffer that a vector has outgrown. -/
def deleteOld (P : Platform) (growth : Nat → Nat) (mutexBytes : Nat) (c : CallReplies) (t p : Nat)
    (s : CallState) : CallEnd CallState :=
  CallEnd.noexcept do
    let (_, s) ← s.deleteCall P growth mutexBytes c t p
    return s

/-- `push_back` outside the constructor of the thread's allocator. -/
def push (P : Platform) (growth : Nat → Nat) (mutexBytes : Nat) (c : CallReplies) (r : Replies)
    (active : Bool) (t : Nat) (v : OverrideCalls.Vector) (s : CallState) : CallEnd CallState :=
  s.pushBack P growth (deleteOld P growth mutexBytes c t) r active t v

/-- A member of the thread's allocator, which `instance()` has returned. -/
def onPool {α : Type} (t : Nat) (f : ThreadPoolAlloc → Client → CallEnd α) (s : CallState) :
    CallEnd α :=
  match s.w.sys.threads t with
  | .live pool client => f pool client
  | _ => .throws .assertion s.w

def setPool (s : CallState) (t : Nat) (pool : ThreadPoolAlloc) (client : Client) : CallState :=
  { s with w := { s.w with sys := s.w.sys.setThread t (.live pool client) } }

def countAlloc (t : Nat) (s : CallState) : CallEnd CallState :=
  s.onPool t fun pool client =>
    return s.setPool t { pool with allocCount := Words.add pool.allocCount 1 } client

def poolAllocate (t : Nat) (i : SizeClass) (n : Nat) (s : CallState) :
    CallEnd (Option Nat × CallState) :=
  s.onPool t fun pool client =>
    match pool.alloc.poolAllocate i s.w.sys.mem with
    | (some p, a) =>
        return (some p,
          s.setPool t { pool with alloc := a.recordAlloc n i.bytes } (client.gainBlock i p))
    | (none, a) => return (none, s.setPool t { pool with alloc := a } client)

def arenaAllocate (t n alignment : Nat) (s : CallState) : CallEnd (Option Nat × CallState) :=
  s.onPool t fun pool client =>
    let served := pool.alloc.arenaAllocate n alignment
    return (served.1, s.setPool t { pool with alloc := served.2 } (client.gainAligned n served.1))

/-- A chunk has been obtained, and its header written. -/
def withChunk (s : CallState) (bytes : Nat) (slab : SlabAlloc) (h' : Heap Owner) : CallState :=
  { s with w := { s.w with sys := { s.w.sys.setHeap h' with
    mem := CentralHeap.writeHeader s.w.sys.mem slab.aligned bytes } } }

def recordChunk (s : CallState) (t bytes : Nat) (slab : SlabAlloc) : CallState :=
  { s with w := { s.w with sys := { s.w.sys with shared := { s.w.sys.shared with
    central := ⟨s.w.sys.shared.central.chunks ++ [slab.raw],
      Words.add s.w.sys.shared.central.totalChunks 1⟩
    carved := s.w.sys.shared.carved ++ [⟨slab.aligned, some t, bytes⟩] } } } }

def acquireChunk (P : Platform) (growth : Nat → Nat) (mutexBytes : Nat) (c : CallReplies)
    (t bytes : Nat) (s : CallState) : CallEnd (Nat × CallState) :=
  match allocateSlab P s.w.sys.shared.heap .chunk CentralHeap.chunkSize CentralHeap.chunkSize
      c.own.chunk with
  | (none, h') => .throws .badAlloc { s.w with sys := s.w.sys.setHeap h' }
  | (some slab, h') => do
      let s ← (s.withChunk bytes slab h').push P growth mutexBytes c c.chunks true t .chunks
      let s ← (s.recordChunk t bytes slab).record P mutexBytes c.ring t true
      return (slab.aligned + CentralHeap.kHeaderOffset, s)

/-- The blocks of the chunk are linked in front of the free list. -/
def linkSlab (t : Nat) (i : SizeClass) (body : Nat) (s : CallState) : CallEnd CallState :=
  s.onPool t fun pool client =>
    match pool.alloc.poolAddExternalSlab i s.w.sys.mem body false with
    | (.error .badAlloc, a, m') =>
        let linked := s.setPool t { pool with alloc := a } client
        return { linked with w := { linked.w with sys := { linked.w.sys with mem := m' } } }
    | _ => .throws .assertion s.w

def recordSlab (t : Nat) (i : SizeClass) (body : Nat) (s : CallState) : CallEnd CallState :=
  s.onPool t fun pool client =>
    let slabs := (pool.alloc.pools i).externalSlabs ++ [⟨body, SingleThreadAllocator.maxBlocks i⟩]
    let a := pool.alloc.setPool i { pool.alloc.pools i with externalSlabs := slabs }
    return s.setPool t { pool with alloc := a } client

def addExternalSlab (P : Platform) (growth : Nat → Nat) (mutexBytes : Nat) (c : CallReplies)
    (t : Nat) (i : SizeClass) (body : Nat) (s : CallState) : CallEnd CallState := do
  let s ← s.linkSlab t i body
  let s ← s.push P growth mutexBytes c c.externalSlabs true t (.externalSlabs t i)
  s.recordSlab t i body

/-- The pool is refilled, and asked again. -/
def refill (P : Platform) (growth : Nat → Nat) (mutexBytes : Nat) (c : CallReplies) (t : Nat)
    (i : SizeClass) (n : Nat) (s : CallState) : CallEnd (Option Nat × CallState) := do
  let (body, s) ← s.acquireChunk P growth mutexBytes c t i.bytes
  let s ← s.addExternalSlab P growth mutexBytes c t i body
  s.poolAllocate t i n

/-- `SingleThreadAllocator::allocate`, with the central heap as its chunk source. -/
def singleAllocate (P : Platform) (growth : Nat → Nat) (mutexBytes : Nat) (c : CallReplies)
    (t n : Nat) (s : CallState) : CallEnd (Option Nat × CallState) :=
  if small : n ≤ maxSmall then do
    let (p, s) ← s.poolAllocate t (sizeClassOf n small) n
    match p with
    | some p => return (some p, s)
    | none => s.refill P growth mutexBytes c t (sizeClassOf n small) n
  else s.arenaAllocate t n P.maxAlign

def allocate (P : Platform) (growth : Nat → Nat) (mutexBytes : Nat) (c : CallReplies) (t n : Nat)
    (s : CallState) : CallEnd (Option Nat × CallState) := do
  let s ← s.countAlloc t
  let (p, s) ← s.singleAllocate P growth mutexBytes c t n
  let s ← s.record P mutexBytes c.ring t p.isSome
  return (p, s)

/-- `nullptr` from the allocator becomes an exception. -/
def issueServed (source : Nat × Origin) (p : Option Nat) (s : CallState) :
    CallEnd (Option Nat × CallState) :=
  match p with
  | some p => return (some p, { s with w := s.w.issue source p })
  | none => .throws .badAlloc s.w

def fallbackNew (P : Platform) (r : Replies) (t size : Nat) (s : CallState) :
    CallEnd (Option Nat × CallState) :=
  match s.w.fallbackNew P r t size with
  | (.ok p, w') => return (p, { s with w := w' })
  | (.error e, w') => .throws e w'

/-- `do_new`, with all calls that it leads to. -/
def newCall (P : Platform) (growth : Nat → Nat) (mutexBytes : Nat) (c : CallReplies)
    (active : Bool) (t size : Nat) (s : CallState) : CallEnd (Option Nat × CallState) :=
  let size := if size = 0 then 1 else size
  if takesFallback s.w.ready active (s.w.allocatorGone t) then s.fallbackNew P c.own t size
  else do
    let s ← s.allocatorInstance P growth mutexBytes c t
    let (p, s) ← s.allocate P growth mutexBytes c t size
    s.issueServed (t, Origin.ofSize size) p

def bootstrapAlignedNew (P : Platform) (growth : Nat → Nat) (mutexBytes : Nat) (c : CallReplies)
    (active : Bool) (t size alignment : Nat) (s : CallState) : CallEnd (Option Nat × CallState) :=
  match s.w.malloc P .overAligned (Words.add size alignment) c.own.block with
  | (none, w') => .throws .badAlloc w'
  | (some raw, w') => do
      let s ← CallState.push P growth mutexBytes c c.alignedScratch active t (.alignedScratch t)
        { s with w := w' }
      let payload := Words.alignUp raw alignment
      let stash := s.w.alignedScratch t ++ [⟨raw, payload⟩]
      let w := { s.w with alignedScratch := Function.update s.w.alignedScratch t stash }
      return (some payload, { s with w := w.issue (t, .overAligned raw) payload })

/-- `do_aligned_new`. -/
def alignedNewCall (P : Platform) (growth : Nat → Nat) (mutexBytes : Nat) (c : CallReplies)
    (active : Bool) (t size alignment : Nat) (s : CallState) :
    CallEnd (Option Nat × CallState) :=
  let size := if size = 0 then 1 else size
  if alignment ≤ P.maxAlign then s.newCall P growth mutexBytes c active t size
  else if takesFallback s.w.ready active (s.w.allocatorGone t) then
    s.bootstrapAlignedNew P growth mutexBytes c active t size alignment
  else do
    let s ← s.allocatorInstance P growth mutexBytes c t
    let (p, s) ← s.arenaAllocate t size alignment
    s.issueServed (t, .arena) p

end MemAlloc.CallState
