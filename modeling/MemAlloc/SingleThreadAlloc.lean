import MemAlloc.SizeClass
import MemAlloc.Stats
import MemAlloc.Arena
import MemAlloc.CentralHeap

set_option autoImplicit false

namespace MemAlloc

open Malloc (Heap)

/-- `BlocksPerSlab` of every pool. -/
def blocksPerSlab : Nat := 256

def kArenaCapacity : Nat := 4194304

structure SingleThreadAllocator where
  pools : SizeClass → BlockPool
  arena : Arena
  stats : Stats

/-- Answers a request for a chunk of blocks of the given size, and may throw. The state `σ`
is whatever the source keeps. -/
abbrev ChunkSource (σ : Type) : Type :=
  Nat → σ → ByteMemory → Except Exn (Option Nat) × σ × ByteMemory

/-- `nullptr` as chunk source. -/
def ChunkSource.none {σ : Type} : ChunkSource σ := fun _ e m => (.ok Option.none, e, m)

namespace SingleThreadAllocator

/-- The pools of the listed classes, constructed in order; when one constructor throws,
those already built are destroyed. -/
def newPools {τ : Type} (P : Platform) (owner : SizeClass → τ) (reply : SizeClass → SlabReply) :
    List SizeClass → Heap τ → ByteMemory → (SizeClass → BlockPool) →
      Except Exn ((SizeClass → BlockPool) × ByteMemory) × Heap τ
  | [], h, m, pools => (.ok (pools, m), h)
  | i :: rest, h, m, pools =>
      match BlockPool.new P i.bytes blocksPerSlab h (owner i) m (reply i) with
      | (.error x, h') => (.error x, h')
      | (.ok (pool, m'), h') =>
          match newPools P owner reply rest h' m' (Function.update pools i pool) with
          | (.error x, h'') => (.error x, h''.free pool.raw)
          | (.ok built, h'') => (.ok built, h'')

def freePools {τ : Type} (pools : SizeClass → BlockPool) (h : Heap τ) : Heap τ :=
  (List.finRange 7).foldl (fun h i => h.free (pools i).raw) h

def new {τ : Type} (P : Platform) (owner : SizeClass → τ) (arenaOwner : τ)
    (reply : SizeClass → SlabReply) (arenaReply : Option Nat) (h : Heap τ) (m : ByteMemory) :
    Except Exn (SingleThreadAllocator × ByteMemory) × Heap τ :=
  match newPools P owner reply (List.finRange 7) h m (fun _ => ⟨0, 0, 0, []⟩) with
  | (.error x, h') => (.error x, h')
  | (.ok (pools, m'), h') =>
      match Arena.new P h' arenaOwner kArenaCapacity arenaReply with
      | (.error x, h'') => (.error x, freePools pools h'')
      | (.ok arena, h'') => (.ok (⟨pools, arena, Stats.zero⟩, m'), h'')

/-- Member destruction: the arena first, then the pools. -/
def destroy {τ : Type} (a : SingleThreadAllocator) (h : Heap τ) : Heap τ :=
  freePools a.pools (h.free a.arena.base)

def setPool (a : SingleThreadAllocator) (i : SizeClass) (pool : BlockPool) :
    SingleThreadAllocator :=
  { a with pools := Function.update a.pools i pool }

def recordAlloc (a : SingleThreadAllocator) (req got : Nat) : SingleThreadAllocator :=
  { a with stats := a.stats.recordAlloc req got }

def recordFree (a : SingleThreadAllocator) (req got : Nat) : SingleThreadAllocator :=
  { a with stats := a.stats.recordFree req got }

@[simp] theorem recordFree_pools (a : SingleThreadAllocator) (req got : Nat) :
    (a.recordFree req got).pools = a.pools := rfl

/-- At most what the pool's own slab holds and what fits inside a chunk. -/
def maxBlocks (i : SizeClass) : Nat :=
  min blocksPerSlab (CentralHeap.blocksPerChunk i.bytes)

def poolAllocate (a : SingleThreadAllocator) (i : SizeClass) (m : ByteMemory) :
    Option Nat × SingleThreadAllocator :=
  match (a.pools i).allocate m with
  | (p, pool) => (p, a.setPool i pool)

def poolAddExternalSlab (a : SingleThreadAllocator) (i : SizeClass) (m : ByteMemory)
    (body : Nat) (recorded : Bool) : Except Exn Unit × SingleThreadAllocator × ByteMemory :=
  match (a.pools i).addExternalSlab i.bytes blocksPerSlab m body (maxBlocks i) recorded with
  | (result, pool, m') => (result, a.setPool i pool, m')

/-- Takes over the arena's answer to a request of `n` bytes; a block is recorded with what
the cursor moved by. -/
def settleArena (a : SingleThreadAllocator) (n : Nat) :
    Option Nat × Arena → Option Nat × SingleThreadAllocator
  | (none, arena) => (none, { a with arena := arena })
  | (some p, arena) =>
      (some p, { a with arena := arena }.recordAlloc n (Words.sub arena.used a.arena.used))

def arenaAllocate (a : SingleThreadAllocator) (n alignment : Nat) :
    Option Nat × SingleThreadAllocator :=
  a.settleArena n (a.arena.allocate n alignment)

theorem arenaAllocate_pools (a : SingleThreadAllocator) (n alignment : Nat) :
    (a.arenaAllocate n alignment).2.pools = a.pools := by
  rw [arenaAllocate]
  cases a.arena.allocate n alignment with
  | mk p arena =>
      cases p with
      | none => rfl
      | some p => rfl

/-- The slow path: refill the exhausted pool with a fresh chunk, then retry. `recorded` is
false when the pool's vector of external slabs fails to grow. -/
def refill {σ : Type} (source : ChunkSource σ) (recorded : Bool) (a : SingleThreadAllocator)
    (n : Nat) (i : SizeClass) (e : σ) (m : ByteMemory) :
    Except Exn (Option Nat) × SingleThreadAllocator × σ × ByteMemory :=
  match source i.bytes e m with
  | (.error x, e', m') => (.error x, a, e', m')
  | (.ok none, e', m') => (.ok none, a, e', m')
  | (.ok (some chunk), e', m') =>
      match a.poolAddExternalSlab i m' chunk recorded with
      | (.error x, a', m'') => (.error x, a', e', m'')
      | (.ok (), a', m'') =>
          match a'.poolAllocate i m'' with
          | (none, a'') => (.ok none, a'', e', m'')
          | (some q, a'') => (.ok (some q), a''.recordAlloc n i.bytes, e', m'')

def allocate {σ : Type} (P : Platform) (source : ChunkSource σ) (recorded : Bool)
    (a : SingleThreadAllocator) (n : Nat) (e : σ) (m : ByteMemory) :
    Except Exn (Option Nat) × SingleThreadAllocator × σ × ByteMemory :=
  if small : n ≤ maxSmall then
    let i := sizeClassOf n small
    match a.poolAllocate i m with
    | (some p, a') => (.ok (some p), a'.recordAlloc n i.bytes, e, m)
    | (none, a') => a'.refill source recorded n i e m
  else
    let served := a.arenaAllocate n P.maxAlign
    (.ok served.1, served.2, e, m)

theorem allocate_large {σ : Type} {P : Platform} {n : Nat} {p : Option Nat}
    {a' : SingleThreadAllocator} (a : SingleThreadAllocator) (source : ChunkSource σ)
    (recorded : Bool) (e : σ) (m : ByteMemory) (large : maxSmall < n)
    (called : a.arenaAllocate n P.maxAlign = (p, a')) :
    a.allocate P source recorded n e m = (.ok p, a', e, m) := by
  rw [allocate, dif_neg (Nat.not_le.mpr large), called]

def allocateAligned (a : SingleThreadAllocator) (n alignment : Nat) :
    Option Nat × SingleThreadAllocator :=
  a.arenaAllocate n alignment

def poolDeallocate (a : SingleThreadAllocator) (i : SizeClass) (m : ByteMemory) (p : Nat) :
    Except Exn (SingleThreadAllocator × ByteMemory) :=
  match (a.pools i).deallocate i.bytes blocksPerSlab m p with
  | .error x => .error x
  | .ok (pool, m') => .ok (a.setPool i pool, m')

def poolDeallocateContaining (a : SingleThreadAllocator) (i : SizeClass) (m : ByteMemory)
    (p : Nat) : Except Exn (SingleThreadAllocator × ByteMemory) :=
  match (a.pools i).deallocateContaining i.bytes blocksPerSlab m p with
  | .error x => .error x
  | .ok (pool, m') => .ok (a.setPool i pool, m')

def deallocate (a : SingleThreadAllocator) (m : ByteMemory) (p n : Nat) :
    Except Exn (SingleThreadAllocator × ByteMemory) :=
  if small : n ≤ maxSmall then
    let i := sizeClassOf n small
    (a.recordFree n i.bytes).poolDeallocate i m p
  else .ok (a, m)

def deallocateContaining (a : SingleThreadAllocator) (m : ByteMemory) (p n : Nat) :
    Except Exn (SingleThreadAllocator × ByteMemory) :=
  if small : n ≤ maxSmall then
    let i := sizeClassOf n small
    (a.recordFree n i.bytes).poolDeallocateContaining i m p
  else .ok (a, m)

/-- `std::size_t(-1)`. -/
def kArenaPointer : Nat := 18446744073709551615

/-- The fold over the pools: the last one that contains `p` decides. -/
def classifyImpl (a : SingleThreadAllocator) (p : Nat) : Nat :=
  let found := (List.finRange 7).foldl
    (fun found i => if (a.pools i).contains i.bytes blocksPerSlab p then i.bytes else found) 0
  if found ≠ 0 then found
  else if a.arena.contains p then kArenaPointer
  else 0

def classify (a : SingleThreadAllocator) (p : Nat) : Nat :=
  if p = 0 then 0 else a.classifyImpl p

structure Occupancy where
  freeCount : SizeClass → Nat
  cap : SizeClass → Nat
  arenaUsed : Nat
  arenaCap : Nat

/-- Free blocks and blocks in total of every pool. Each free list is walked with the
given fuel. -/
def occupancy (a : SingleThreadAllocator) (fuel : Nat) (m : ByteMemory) : Option Occupancy :=
  if ∀ i, ((a.pools i).freeCount fuel m).isSome then
    some { freeCount := fun i => ((a.pools i).freeCount fuel m).getD 0
           cap := fun i => (a.pools i).totalBlocks blocksPerSlab
           arenaUsed := a.arena.used
           arenaCap := a.arena.capacity }
  else none

end SingleThreadAllocator

end MemAlloc
