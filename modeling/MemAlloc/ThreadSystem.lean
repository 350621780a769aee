import MemAlloc.ThreadPoolAlloc
import MemAlloc.Construction
import MemAlloc.Client
import MemAlloc.Lib.Runs

set_option autoImplicit false

namespace MemAlloc

open Malloc (Heap Block addressLimit)
open ByteMemory (writeByte SameOutside SameInside)
open SingleThreadAllocator (Inv Homes FreeForm)

/-- A thread's `thread_local` allocator over the thread's life, with what the program
running on the thread holds. -/
inductive Thread where
  | unborn
  | live (pool : ThreadPoolAlloc) (client : Client)
  | exited

structure Sys where
  mem : ByteMemory
  shared : Shared
  threads : Nat → Thread
  nextThreadId : Nat

namespace Sys

def initial (m : ByteMemory) (h : Heap Owner) : Sys :=
  ⟨m, ⟨h, CentralHeap.empty, []⟩, fun _ => .unborn, 0⟩

def setThread (s : Sys) (t : Nat) (thread : Thread) : Sys :=
  { s with threads := Function.update s.threads t thread }

def setHeap (s : Sys) (h : Heap Owner) : Sys := { s with shared := { s.shared with heap := h } }

inductive Event where
  | start (t : Nat) (outcome : Except Exn Unit)
  | exit (t : Nat)
  | allocate (t n : Nat) (result : Except Exn (Option Nat))
  | allocateAligned (t n alignment : Nat) (result : Option Nat)
  | free (t : Nat) (form : FreeForm) (p n : Nat)
  | acquireChunk (sizeClassBytes : Nat) (result : Except Exn Nat)
  | write (a : Nat) (b : UInt8)
  | malloc (use : Use) (size : Nat) (result : Option Nat)
  | mfree (p : Nat)

/-- A request whose rounded-up size is still an address, and not an empty aligned one. -/
def Event.Bounded (P : Platform) : Event → Prop
  | .allocate _ n _ => n + P.maxAlign ≤ addressLimit
  | .allocateAligned _ n alignment _ => 1 ≤ n ∧ n + alignment ≤ addressLimit
  | _ => True

/-- The address is one the program may write to: inside a block that a live thread holds, the
body of a chunk it asked for itself, or memory that is nobody's region. -/
inductive Writable (s : Sys) (a : Nat) : Prop
  | block {t : Nat} {pool : ThreadPoolAlloc} {client : Client} {i : SizeClass} {x : Nat}
      (live : s.threads t = .live pool client) (out : x ∈ client.held i)
      (inside : (Span.mk x i.bytes).Holds a)
  | arena {t : Nat} {pool : ThreadPoolAlloc} {client : Client} {b : Span}
      (live : s.threads t = .live pool client) (out : b ∈ client.bumped) (inside : b.Holds a)
  | chunk {c : Chunk} (member : c ∈ s.shared.carved) (unused : c.user = none)
      (inside : (Span.mk c.body SingleThreadAllocator.chunkBody).Holds a)
  | outside {b : Block Owner} {use : Use} (member : b ∈ s.shared.heap.blocks)
      (owner : b.owner = .outside use) (inside : b.span.Holds a)

/-- One call by one thread, one request to the C heap for other uses, or one byte written
by the program. Blocks are freed by the thread that holds them. -/
inductive Step (P : Platform) : Sys → Event → Sys → Prop
  | start {s : Sys} {t : Nat} {reply : SizeClass → SlabReply} {arenaReply : Option Nat}
      {a : SingleThreadAllocator} {m' : ByteMemory} {h' : Heap Owner}
      (unborn : s.threads t = .unborn)
      (done : SingleThreadAllocator.new P (.slab t) (.arena t) reply arenaReply s.shared.heap
        s.mem = (.ok (a, m'), h')) :
      Step P s (.start t (.ok ()))
        { (s.setHeap h').setThread t (.live ⟨a, 0, 0, s.nextThreadId⟩ Client.none) with
          mem := m'
          nextThreadId := (s.nextThreadId + 1) % 4294967296 }
  | startFails {s : Sys} {t : Nat} {reply : SizeClass → SlabReply} {arenaReply : Option Nat}
      {x : Exn} {h' : Heap Owner} (unborn : s.threads t = .unborn)
      (done : SingleThreadAllocator.new P (.slab t) (.arena t) reply arenaReply s.shared.heap
        s.mem = (.error x, h')) :
      Step P s (.start t (.error x))
        { s.setHeap h' with nextThreadId := (s.nextThreadId + 1) % 4294967296 }
  | exit {s : Sys} {t : Nat} {pool : ThreadPoolAlloc} {client : Client}
      (live : s.threads t = .live pool client) :
      Step P s (.exit t) ((s.setHeap (pool.alloc.destroy s.shared.heap)).setThread t .exited)
  | allocate {s : Sys} {t n : Nat} {pool pool' : ThreadPoolAlloc} {client : Client}
      {reply : SlabReply} {chunkRecorded slabRecorded : Bool} {x : Except Exn (Option Nat)}
      {g' : Shared} {m' : ByteMemory} (live : s.threads t = .live pool client)
      (word : n < Words.radix)
      (done : pool.allocate P (acquireChunkCb P t reply chunkRecorded) slabRecorded n s.shared
        s.mem = (x, pool', g', m')) :
      Step P s (.allocate t n x)
        { s.setThread t (.live pool' (client.gain n x)) with mem := m', shared := g' }
  | allocateAligned {s : Sys} {t n alignment : Nat} {pool pool' : ThreadPoolAlloc}
      {client : Client} {x : Option Nat} (live : s.threads t = .live pool client)
      (word : n < Words.radix) (power : Words.PowerOfTwo alignment)
      (done : pool.allocateAligned n alignment = (x, pool')) :
      Step P s (.allocateAligned t n alignment x)
        (s.setThread t (.live pool' (client.gainAligned n x)))
  | free {s : Sys} {t x p n : Nat} {i : SizeClass} {form : FreeForm}
      {pool pool' : ThreadPoolAlloc} {client : Client} {m' : ByteMemory}
      (live : s.threads t = .live pool client) (out : x ∈ client.held i)
      (names : form.Names ⟨x, i.bytes⟩ p) (done : pool.free form s.mem p n = .ok (pool', m')) :
      Step P s (.free t form p n)
        { s.setThread t (.live pool' (client.release i x)) with mem := m' }
  | freeArena {s : Sys} {t p n : Nat} {b : Span} {form : FreeForm}
      {pool pool' : ThreadPoolAlloc} {client : Client} {m' : ByteMemory}
      (live : s.threads t = .live pool client) (out : b ∈ client.bumped)
      (names : form.Names b p) (done : pool.free form s.mem p n = .ok (pool', m')) :
      Step P s (.free t form p n)
        { s.setThread t (.live pool' { client with bumped := client.bumped.erase b }) with
          mem := m' }
  | acquireChunk {s : Sys} {bytes : Nat} {reply : SlabReply} {recorded : Bool}
      {x : Except Exn Nat} {g' : Shared} {m' : ByteMemory}
      (done : s.shared.acquireChunk P none reply recorded bytes s.mem = (x, g', m')) :
      Step P s (.acquireChunk bytes x) { s with mem := m', shared := g' }
  | write {s : Sys} {a : Nat} {b : UInt8} (writable : Writable s a) :
      Step P s (.write a b) { s with mem := writeByte s.mem a b }
  | malloc {s : Sys} {use : Use} {size : Nat} {reply : Option Nat} {x : Option Nat}
      {h' : Heap Owner}
      (done : s.shared.heap.malloc (.outside use) P.mallocAlign size reply = (x, h')) :
      Step P s (.malloc use size x) (s.setHeap h')
  | mfree {s : Sys} {b : Block Owner} {use : Use} (member : b ∈ s.shared.heap.blocks)
      (owner : b.owner = .outside use) :
      Step P s (.mfree b.span.base) (s.setHeap (s.shared.heap.free b.span.base))

end Sys

end MemAlloc
