import MemAlloc.Lib.Words
import MemAlloc.Lib.ByteMemory
import MemAlloc.Lib.Links
import MemAlloc.Lib.Malloc

set_option autoImplicit false

namespace MemAlloc

open Malloc (Heap)
open ByteMemory (readWord writeWord)

/- Pointer values are natural numbers; zero is `nullptr`. -/

/-- What the build target fixes: `alignof(std::max_align_t)`, the alignment of every
`std::malloc` result, and whether `::aligned_alloc` exists. -/
structure Platform where
  maxAlign : Nat
  mallocAlign : Nat
  hasAlignedAlloc : Bool

/-- How a call can end other than by returning. -/
inductive Exn where
  | badAlloc
  | assertion
deriving DecidableEq, Repr

structure SlabAlloc where
  aligned : Nat
  raw : Nat
deriving DecidableEq, Repr

/-- The environment's answers to the two requests `allocateSlab` may make. -/
structure SlabReply where
  alignedAlloc : Option Nat
  malloc : Option Nat

def tryAlignedAlloc {τ : Type} (P : Platform) (h : Heap τ) (owner : τ) (size alignment : Nat)
    (reply : SlabReply) : Option SlabAlloc × Heap τ :=
  if P.hasAlignedAlloc then
    match h.malloc owner alignment size reply.alignedAlloc with
    | (some p, h') => (some ⟨p, p⟩, h')
    | (none, h') => (none, h')
  else (none, h)

def allocateSlab {τ : Type} (P : Platform) (h : Heap τ) (owner : τ) (size alignment : Nat)
    (reply : SlabReply) : Option SlabAlloc × Heap τ :=
  match tryAlignedAlloc P h owner size alignment reply with
  | (some s, h') => (some s, h')
  | (none, h') =>
      match h'.malloc owner P.mallocAlign (Words.add size alignment) reply.malloc with
      | (none, h'') => (none, h'')
      | (some raw, h'') => (some ⟨Words.alignUp raw alignment, raw⟩, h'')

/-- A run of equally sized blocks: the constructor slab or an external one. -/
structure Slab where
  base : Nat
  numBlocks : Nat
deriving DecidableEq, Repr

namespace Slab

def span (BlockSize : Nat) (s : Slab) : Span := ⟨s.base, s.numBlocks * BlockSize⟩

def blocks (BlockSize : Nat) (s : Slab) : List Nat :=
  (List.range s.numBlocks).map (fun i => s.base + i * BlockSize)

/-- `addr >= begin && addr < end` for one region. -/
def contains (BlockSize : Nat) (s : Slab) (p : Nat) : Bool :=
  decide (s.base ≤ p ∧ p < s.base + s.numBlocks * BlockSize)

def ownsBlock (BlockSize : Nat) (s : Slab) (p : Nat) : Bool :=
  s.contains BlockSize p && decide ((p - s.base) % BlockSize = 0)

/-- Start of the block that holds `p`. -/
def blockOf (BlockSize : Nat) (s : Slab) (p : Nat) : Nat :=
  s.base + (p - s.base) / BlockSize * BlockSize

end Slab

/-- The walk both the constructor and `addExternalSlab` make: every block's first word
points to the next block, the last one's to `last`. -/
def linkBlocks (BlockSize : Nat) (m : ByteMemory) (b last : Nat) : Nat → ByteMemory
  | 0 => m
  | remaining + 1 =>
      linkBlocks BlockSize (writeWord m b (if remaining = 0 then last else b + BlockSize))
        (b + BlockSize) last remaining

structure BlockPool where
  slab : Nat
  raw : Nat
  head : Nat
  externalSlabs : List Slab
deriving DecidableEq, Repr

namespace BlockPool

/-- The constructor's body once `allocateSlab` has returned a region. -/
def ofSlab (BlockSize BlocksPerSlab : Nat) (m : ByteMemory) (s : SlabAlloc) :
    BlockPool × ByteMemory :=
  (⟨s.aligned, s.raw, s.aligned, []⟩, linkBlocks BlockSize m s.aligned 0 BlocksPerSlab)

def new {τ : Type} (P : Platform) (BlockSize BlocksPerSlab : Nat) (h : Heap τ) (owner : τ)
    (m : ByteMemory) (reply : SlabReply) : Except Exn (BlockPool × ByteMemory) × Heap τ :=
  match allocateSlab P h owner (BlocksPerSlab * BlockSize) BlockSize reply with
  | (none, h') => (.error .badAlloc, h')
  | (some s, h') => (.ok (ofSlab BlockSize BlocksPerSlab m s), h')

def allocate (m : ByteMemory) (pool : BlockPool) : Option Nat × BlockPool :=
  if pool.head = 0 then (none, pool)
  else (some pool.head, { pool with head := readWord m pool.head })

/-- `recorded` is false when growing the vector throws: the blocks are linked by then. -/
def addExternalSlab (BlockSize BlocksPerSlab : Nat) (m : ByteMemory) (pool : BlockPool)
    (base : Nat) (numBlocks : Nat) (recorded : Bool) :
    Except Exn Unit × BlockPool × ByteMemory :=
  if base ≠ 0 ∧ 0 < numBlocks ∧ numBlocks ≤ BlocksPerSlab then
    let linked := linkBlocks BlockSize m base pool.head numBlocks
    if recorded then
      (.ok (), { pool with head := base,
                           externalSlabs := pool.externalSlabs ++ [⟨base, numBlocks⟩] }, linked)
    else (.error .badAlloc, { pool with head := base }, linked)
  else (.error .assertion, pool, m)

/-- The regions a pool tests pointers against, the constructor slab first. -/
def slabs (BlocksPerSlab : Nat) (pool : BlockPool) : List Slab :=
  ⟨pool.slab, BlocksPerSlab⟩ :: pool.externalSlabs

def contains (BlockSize BlocksPerSlab : Nat) (pool : BlockPool) (p : Nat) : Bool :=
  (pool.slabs BlocksPerSlab).any (fun s => s.contains BlockSize p)

def ownsBlock (BlockSize BlocksPerSlab : Nat) (pool : BlockPool) (p : Nat) : Bool :=
  (pool.slabs BlocksPerSlab).any (fun s => s.ownsBlock BlockSize p)

/-- Fails when one of the two assertions does. -/
def deallocate (BlockSize BlocksPerSlab : Nat) (m : ByteMemory) (pool : BlockPool) (p : Nat) :
    Except Exn (BlockPool × ByteMemory) :=
  if p ≠ 0 ∧ pool.ownsBlock BlockSize BlocksPerSlab p = true then
    .ok ({ pool with head := p }, writeWord m p pool.head)
  else .error .assertion

def deallocateContaining (BlockSize BlocksPerSlab : Nat) (m : ByteMemory) (pool : BlockPool)
    (p : Nat) : Except Exn (BlockPool × ByteMemory) :=
  match (pool.slabs BlocksPerSlab).find? (fun s => s.contains BlockSize p) with
  | none => .error .assertion
  | some s => pool.deallocate BlockSize BlocksPerSlab m (s.blockOf BlockSize p)

/-- The loop of `free_count()`: `n` blocks counted, `p` to be tested next. Running out of
fuel means that the walk has not stopped yet. -/
def freeCountFrom (m : ByteMemory) : Nat → Nat → Nat → Option Nat
  | 0, _, _ => none
  | fuel + 1, p, n => if p = 0 then some n else freeCountFrom m fuel (readWord m p) (n + 1)

def freeCount (fuel : Nat) (m : ByteMemory) (pool : BlockPool) : Option Nat :=
  freeCountFrom m fuel pool.head 0

def totalBlocks (BlocksPerSlab : Nat) (pool : BlockPool) : Nat :=
  pool.externalSlabs.foldl (fun total s => total + s.numBlocks) BlocksPerSlab

end BlockPool

end MemAlloc
