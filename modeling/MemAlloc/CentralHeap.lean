import MemAlloc.BlockPool

set_option autoImplicit false

namespace MemAlloc

open Malloc (Heap)
open ByteMemory (readWord writeWord)

/-- The raw pointers to free at exit, and the number of chunks handed out. -/
structure CentralHeap where
  chunks : List Nat
  totalChunks : Nat
deriving DecidableEq, Repr

namespace CentralHeap

def chunkSize : Nat := 65536

def kHeaderOffset : Nat := 64

/-- Two words: `size_class` and `block_size`. -/
def headerBytes : Nat := 16

def blocksPerChunk (blockSize : Nat) : Nat := (chunkSize - kHeaderOffset) / blockSize

def empty : CentralHeap := ⟨[], 0⟩

/-- Writes the `ChunkHeader` at the chunk's base. -/
def writeHeader (m : ByteMemory) (base sizeClassBytes : Nat) : ByteMemory :=
  writeWord (writeWord m base sizeClassBytes) (base + 8) sizeClassBytes

/-- `recorded` is false when growing `chunks_` throws; the region is not released then. -/
def acquireChunk {τ : Type} (P : Platform) (owner : τ) (reply : SlabReply) (recorded : Bool)
    (sizeClassBytes : Nat) (c : CentralHeap) (h : Heap τ) (m : ByteMemory) :
    Except Exn Nat × Heap τ × CentralHeap × ByteMemory :=
  match allocateSlab P h owner chunkSize chunkSize reply with
  | (none, h') => (.error .badAlloc, h', c, m)
  | (some s, h') =>
      let m' := writeHeader m s.aligned sizeClassBytes
      if recorded then
        (.ok (s.aligned + kHeaderOffset), h',
          ⟨c.chunks ++ [s.raw], Words.add c.totalChunks 1⟩, m')
      else (.error .badAlloc, h', c, m')

def headerFor (p : Nat) : Nat := p &&& Words.complement (chunkSize - 1)

end CentralHeap

end MemAlloc
