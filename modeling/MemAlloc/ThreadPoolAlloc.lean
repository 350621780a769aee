import MemAlloc.AllocatorOperations

set_option autoImplicit false

namespace MemAlloc

open Malloc (Heap Block)
open SingleThreadAllocator (FreeForm)

/-- The per-thread front end. The two counters count calls, also failing ones. -/
structure ThreadPoolAlloc where
  alloc : SingleThreadAllocator
  allocCount : Nat
  freeCount : Nat
  threadId : Nat

namespace ThreadPoolAlloc

def allocate {σ : Type} (P : Platform) (source : ChunkSource σ) (recorded : Bool)
    (t : ThreadPoolAlloc) (n : Nat) (e : σ) (m : ByteMemory) :
    Except Exn (Option Nat) × ThreadPoolAlloc × σ × ByteMemory :=
  let served := t.alloc.allocate P source recorded n e m
  (served.1, { t with alloc := served.2.1, allocCount := Words.add t.allocCount 1 }, served.2.2)

def allocateAligned (t : ThreadPoolAlloc) (n alignment : Nat) : Option Nat × ThreadPoolAlloc :=
  let served := t.alloc.allocateAligned n alignment
  (served.1, { t with alloc := served.2 })

def free (form : FreeForm) (t : ThreadPoolAlloc) (m : ByteMemory) (p n : Nat) :
    Except Exn (ThreadPoolAlloc × ByteMemory) :=
  match form.call t.alloc m p n with
  | .error x => .error x
  | .ok (alloc, m') =>
      .ok ({ t with alloc := alloc, freeCount := Words.add t.freeCount 1 }, m')

def deallocate : ThreadPoolAlloc → ByteMemory → Nat → Nat →
    Except Exn (ThreadPoolAlloc × ByteMemory) := free .start

def deallocateContaining : ThreadPoolAlloc → ByteMemory → Nat → Nat →
    Except Exn (ThreadPoolAlloc × ByteMemory) := free .containing

def classify (t : ThreadPoolAlloc) (p : Nat) : Nat := t.alloc.classify p

theorem of_free {form : FreeForm} {t t' : ThreadPoolAlloc} {m m' : ByteMemory} {p n : Nat}
    (done : t.free form m p n = .ok (t', m')) :
    form.call t.alloc m p n = .ok (t'.alloc, m') := by
  rw [free] at done
  split at done
  · cases done
  · rename_i called
    cases done
    exact called

theorem allocate_large {σ : Type} {P : Platform} {n : Nat} {p : Option Nat}
    {a : SingleThreadAllocator} (t : ThreadPoolAlloc) (source : ChunkSource σ) (recorded : Bool)
    (e : σ) (m : ByteMemory) (large : maxSmall < n)
    (called : t.alloc.arenaAllocate n P.maxAlign = (p, a)) :
    t.allocate P source recorded n e m =
      (.ok p, { t with alloc := a, allocCount := Words.add t.allocCount 1 }, e, m) := by
  have inner := SingleThreadAllocator.allocate_large t.alloc source recorded e m large called
  rw [allocate, inner]

/-- A stocked pool serves a request from its free list. -/
theorem allocate_stocked {σ : Type} {P : Platform} {t : ThreadPoolAlloc}
    {m : ByteMemory} {n p : Nat} (source : ChunkSource σ) (recorded : Bool) (e : σ)
    (small : n ≤ maxSmall) (head : (t.alloc.pools (sizeClassOf n small)).head = p)
    (nonnull : p ≠ 0) :
    t.allocate P source recorded n e m =
      (.ok (some p),
        { t with
          alloc := (t.alloc.setPool (sizeClassOf n small)
            { t.alloc.pools (sizeClassOf n small) with
              head := ByteMemory.readWord m p }).recordAlloc n (sizeClassOf n small).bytes
          allocCount := Words.add t.allocCount 1 }, e, m) := by
  rw [allocate, SingleThreadAllocator.allocate_stocked source recorded e small head nonnull]

/-- An exhausted pool that gets a chunk and can record it hands out the chunk's first block. -/
theorem allocate_refilled {σ : Type} {P : Platform} {t : ThreadPoolAlloc}
    {m m' : ByteMemory} {n body : Nat} {source : ChunkSource σ} {e e' : σ} (small : n ≤ maxSmall)
    (empty : (t.alloc.pools (sizeClassOf n small)).head = 0)
    (answered : source (sizeClassOf n small).bytes e m = (.ok (some body), e', m'))
    (positive : 0 < body) :
    ∃ t' m'', t.allocate P source true n e m = (.ok (some body), t', e', m'') := by
  generalize class_ : sizeClassOf n small = i at empty answered
  have nonnull : body ≠ 0 := Nat.ne_of_gt positive
  have accepted := SingleThreadAllocator.chunk_accepted i positive
  have missed : t.alloc.poolAllocate i m = (none, t.alloc) := by
    rw [SingleThreadAllocator.poolAllocate, BlockPool.allocate_null empty]
    simp [SingleThreadAllocator.setPool]
  obtain ⟨a₁, m₁, linked, head⟩ : ∃ a₁ m₁,
      t.alloc.poolAddExternalSlab i m' body true = (.ok (), a₁, m₁) ∧
        (a₁.pools i).head = body := by
    simp only [SingleThreadAllocator.poolAddExternalSlab, BlockPool.addExternalSlab,
      if_pos accepted]
    exact ⟨_, _, rfl, by simp [SingleThreadAllocator.setPool]⟩
  obtain ⟨a₂, popped⟩ : ∃ a₂, a₁.poolAllocate i m₁ = (some body, a₂) := by
    rw [SingleThreadAllocator.poolAllocate,
      BlockPool.allocate_head (by rw [head]; exact nonnull), head]
    exact ⟨_, rfl⟩
  simp only [allocate, SingleThreadAllocator.allocate, dif_pos small, class_, missed,
    SingleThreadAllocator.refill, answered, linked, popped]
  exact ⟨_, _, rfl⟩

/-- A block of the pool goes back. -/
theorem free_owned {t : ThreadPoolAlloc} {m : ByteMemory} {p n : Nat} (small : n ≤ maxSmall)
    (nonnull : p ≠ 0) (owned : (t.alloc.pools (sizeClassOf n small)).ownsBlock
      (sizeClassOf n small).bytes blocksPerSlab p = true) :
    ∃ t' m', t.free .start m p n = .ok (t', m') := by
  obtain ⟨a', m', called⟩ := SingleThreadAllocator.deallocate_owned (m := m) small nonnull owned
  rw [free, FreeForm.call, called]
  exact ⟨_, _, rfl⟩

theorem allocateAligned_pools {pool pool' : ThreadPoolAlloc} {n alignment : Nat}
    {x : Option Nat} (called : pool.allocateAligned n alignment = (x, pool')) :
    pool'.alloc.pools = pool.alloc.pools := by
  obtain ⟨served, answered⟩ : ∃ served, pool.alloc.arenaAllocate n alignment = served := ⟨_, rfl⟩
  have pools := pool.alloc.arenaAllocate_pools n alignment
  simp only [allocateAligned, SingleThreadAllocator.allocateAligned, answered] at called
  rw [answered] at pools
  cases called
  exact pools

end ThreadPoolAlloc

/-- What a block obtained from `malloc` outside the allocator's regions is for. -/
inductive Use where
  | program
  | fallback
  | overAligned
  | node
deriving DecidableEq, Repr

/-- Who an outstanding block of the C heap belongs to. -/
inductive Owner where
  | slab (thread : Nat) (i : SizeClass)
  | arena (thread : Nat)
  | chunk
  | outside (use : Use)
deriving DecidableEq, Repr

/-- A chunk handed out by the central heap, and the thread whose pool asked for it. -/
structure Chunk where
  base : Nat
  user : Option Nat
  sizeClassBytes : Nat
deriving DecidableEq, Repr

namespace Chunk

def span (c : Chunk) : Span := ⟨c.base, CentralHeap.chunkSize⟩

def header (c : Chunk) : Span := ⟨c.base, CentralHeap.headerBytes⟩

def body (c : Chunk) : Nat := c.base + CentralHeap.kHeaderOffset

end Chunk

/-- What all threads share: the C heap and the central heap. `carved` only records which
chunks have been handed out; the program does not keep it. -/
structure Shared where
  heap : Heap Owner
  central : CentralHeap
  carved : List Chunk

namespace Shared

def acquireChunk (P : Platform) (user : Option Nat) (reply : SlabReply) (recorded : Bool)
    (sizeClassBytes : Nat) (g : Shared) (m : ByteMemory) :
    Except Exn Nat × Shared × ByteMemory :=
  match CentralHeap.acquireChunk P .chunk reply recorded sizeClassBytes g.central g.heap m with
  | (.error x, heap, central, m') => (.error x, ⟨heap, central, g.carved⟩, m')
  | (.ok body, heap, central, m') =>
      (.ok body,
        ⟨heap, central, g.carved ++ [⟨body - CentralHeap.kHeaderOffset, user, sizeClassBytes⟩]⟩,
        m')

end Shared

/-- The chunk source of every thread's allocator. -/
def acquireChunkCb (P : Platform) (thread : Nat) (reply : SlabReply) (recorded : Bool) :
    ChunkSource Shared :=
  fun sizeClassBytes g m =>
    let answer := g.acquireChunk P (some thread) reply recorded sizeClassBytes m
    (answer.1.map some, answer.2)

end MemAlloc
