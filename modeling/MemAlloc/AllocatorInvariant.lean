import MemAlloc.SingleThreadAlloc
import MemAlloc.BlockPoolInvariant

set_option autoImplicit false

namespace MemAlloc

open Malloc (addressLimit)
open ByteMemory (readWord writeWord writeByte SameOutside SameInside)
open Bump (Stacked)

/-- What an allocator has given out, class by class, and what it still has: free blocks,
blocks that are out, linked slabs, and the spans cut off the arena. -/
structure Ledger where
  free : SizeClass → List Nat
  held : SizeClass → List Nat
  linked : SizeClass → List Slab
  bumped : List Span

namespace Ledger

def setPool (L : Ledger) (i : SizeClass) (free held : List Nat) (linked : List Slab) : Ledger :=
  { L with free := Function.update L.free i free
           held := Function.update L.held i held
           linked := Function.update L.linked i linked }

def take (L : Ledger) (i : SizeClass) (p : Nat) (rest : List Nat) : Ledger :=
  L.setPool i rest (p :: L.held i) (L.linked i)

def giveBack (L : Ledger) (i : SizeClass) (p : Nat) : Ledger :=
  L.setPool i (p :: L.free i) ((L.held i).erase p) (L.linked i)

def leak (L : Ledger) (i : SizeClass) (p : Nat) : Ledger :=
  L.setPool i (L.free i) ((L.held i).erase p) (L.linked i)

def link (L : Ledger) (i : SizeClass) (s : Slab) : Ledger :=
  L.setPool i (s.blocks i.bytes ++ L.free i) (L.held i) (L.linked i ++ [s])

def bump (L : Ledger) (s : Span) : Ledger := { L with bumped := s :: L.bumped }

def drop (L : Ledger) (s : Span) : Ledger := { L with bumped := L.bumped.erase s }

theorem drop_bump (L : Ledger) (s : Span) : (L.bump s).drop s = L := by
  simp [drop, bump]

end Ledger

/-- The pool object after linking a slab, recorded or not, with a new head. -/
def BlockPool.grown (pool : BlockPool) (recorded : Bool) (s : Slab) (head : Nat) : BlockPool :=
  { pool with
    head := head
    externalSlabs := if recorded then pool.externalSlabs ++ [s] else pool.externalSlabs }

theorem BlockPool.grown_slabs (pool : BlockPool) (recorded : Bool) (s : Slab) (head N : Nat) :
    (pool.grown recorded s head).slabs N = pool.slabs N ++ (if recorded then [s] else []) := by
  cases recorded <;> simp [grown, slabs]

namespace SingleThreadAllocator

def arenaSpan (a : SingleThreadAllocator) : Span := ⟨a.arena.base, a.arena.capacity⟩

@[simp] theorem setPool_arenaSpan (a : SingleThreadAllocator) (i : SizeClass)
    (pool : BlockPool) : (a.setPool i pool).arenaSpan = a.arenaSpan := rfl

/-- The ledger is what memory and the allocator object represent. Slabs of different
pools, and the arena, never overlap. -/
structure Inv (m : ByteMemory) (a : SingleThreadAllocator) (L : Ledger) : Prop where
  pools : ∀ i, PoolInv i.bytes m (a.pools i).head (L.linked i) (L.free i) (L.held i)
  recorded : ∀ i, ((a.pools i).slabs blocksPerSlab).Sublist (L.linked i)
  apart : ∀ i j, i ≠ j → ∀ s ∈ L.linked i, ∀ t ∈ L.linked j,
    (s.span i.bytes).Apart (t.span j.bytes)
  arena : a.arena.Inv
  arenaApart : ∀ i, ∀ s ∈ L.linked i, (s.span i.bytes).Apart a.arenaSpan
  bumped : Stacked a.arena.base (a.arena.base + a.arena.used) L.bumped

def chunkBody : Nat := 65472

theorem maxBlocks_positive (i : SizeClass) : 0 < maxBlocks i := by
  revert i
  decide

theorem maxBlocks_le (i : SizeClass) : maxBlocks i ≤ blocksPerSlab := Nat.min_le_left _ _

/-- A chunk's body passes the check of `add_external_slab`. -/
theorem chunk_accepted (i : SizeClass) {body : Nat} (positive : 0 < body) :
    body ≠ 0 ∧ 0 < maxBlocks i ∧ maxBlocks i ≤ blocksPerSlab :=
  ⟨Nat.ne_of_gt positive, maxBlocks_positive i, maxBlocks_le i⟩

theorem maxBlocks_fit (i : SizeClass) : maxBlocks i * i.bytes ≤ chunkBody := by
  revert i
  decide

def chunkSlab (i : SizeClass) (body : Nat) : Slab := ⟨body, maxBlocks i⟩

theorem chunkSlab_inside (i : SizeClass) (body : Nat) :
    ((chunkSlab i body).span i.bytes).Inside ⟨body, chunkBody⟩ :=
  ⟨Nat.le_refl _, Nat.add_le_add_left (maxBlocks_fit i) body⟩

namespace Inv

variable {m m' : ByteMemory} {a : SingleThreadAllocator} {L : Ledger} {i : SizeClass}

theorem mem_linked (inv : Inv m a L) {x : Nat} (listed : x ∈ L.free i ++ L.held i) :
    ∃ s ∈ L.linked i, x ∈ s.blocks i.bytes :=
  mem_blocksOf.mp ((inv.pools i).member x listed)

theorem recorded_mem (inv : Inv m a L) {s : Slab}
    (member : s ∈ (a.pools i).slabs blocksPerSlab) : s ∈ L.linked i :=
  (inv.recorded i).subset member

theorem recorded_apart (inv : Inv m a L) :
    SlabsApart i.bytes ((a.pools i).slabs blocksPerSlab) :=
  (inv.pools i).apart.sublist (inv.recorded i)

/-- Replacing one pool, with writes that avoid the slabs of all others. -/
theorem setPool {pool : BlockPool} {free held : List Nat} {linked : List Slab}
    {touched : List Span} (inv : Inv m a L) (same : SameOutside m m' touched)
    (confined : ∀ t ∈ touched, ∀ j, i ≠ j → ∀ s ∈ L.linked j, t.Apart (s.span j.bytes))
    (poolInv : PoolInv i.bytes m' pool.head linked free held)
    (recorded : (pool.slabs blocksPerSlab).Sublist linked)
    (apart : ∀ j, i ≠ j → ∀ s ∈ linked, ∀ t ∈ L.linked j,
      (s.span i.bytes).Apart (t.span j.bytes))
    (arenaApart : ∀ s ∈ linked, (s.span i.bytes).Apart a.arenaSpan) :
    Inv m' (a.setPool i pool) (L.setPool i free held linked) where
  pools := by
    intro j
    by_cases same' : i = j
    · subst same'
      simpa [SingleThreadAllocator.setPool, Ledger.setPool] using poolInv
    · have kept := (inv.pools j).outside j.wide same (fun t written s member =>
        confined t written j same' s member)
      simpa [SingleThreadAllocator.setPool, Ledger.setPool, Function.update_of_ne (Ne.symm same')]
        using kept
  recorded := by
    intro j
    by_cases same' : i = j
    · subst same'
      simpa [SingleThreadAllocator.setPool, Ledger.setPool] using recorded
    · simpa [SingleThreadAllocator.setPool, Ledger.setPool, Function.update_of_ne (Ne.symm same')]
        using inv.recorded j
  apart := by
    intro j k different
    by_cases left : i = j
    · subst left
      simpa [Ledger.setPool, Function.update_of_ne (Ne.symm different)]
        using apart k different
    · by_cases right : i = k
      · subst right
        intro s sMember t tMember
        simp only [Ledger.setPool, Function.update_self, Function.update_of_ne different]
          at sMember tMember
        exact (apart j left t tMember s sMember).symm
      · simpa [Ledger.setPool, Function.update_of_ne (Ne.symm left),
          Function.update_of_ne (Ne.symm right)] using inv.apart j k different
  arena := inv.arena
  arenaApart := by
    intro j
    by_cases same' : i = j
    · subst same'
      simpa [Ledger.setPool] using arenaApart
    · simpa [Ledger.setPool, Function.update_of_ne (Ne.symm same')] using inv.arenaApart j
  bumped := inv.bumped

theorem recordAlloc (inv : Inv m a L) (req got : Nat) : Inv m (a.recordAlloc req got) L :=
  ⟨inv.pools, inv.recorded, inv.apart, inv.arena, inv.arenaApart, inv.bumped⟩

theorem recordFree (inv : Inv m a L) (req got : Nat) : Inv m (a.recordFree req got) L :=
  ⟨inv.pools, inv.recorded, inv.apart, inv.arena, inv.arenaApart, inv.bumped⟩

theorem outside {touched : List Span} (inv : Inv m a L) (same : SameOutside m m' touched)
    (separate : ∀ t ∈ touched, ∀ i, ∀ s ∈ L.linked i, t.Apart (s.span i.bytes)) : Inv m' a L :=
  ⟨fun i => (inv.pools i).outside i.wide same (fun t written => separate t written i),
    inv.recorded, inv.apart, inv.arena, inv.arenaApart, inv.bumped⟩

theorem sameInside (inv : Inv m a L)
    (same : ∀ i, ∀ s ∈ L.linked i, SameInside m m' [s.span i.bytes]) : Inv m' a L := by
  refine ⟨fun i => ?_, inv.recorded, inv.apart, inv.arena, inv.arenaApart, inv.bumped⟩
  have kept : SameInside m m' ((L.linked i).map (Slab.span i.bytes)) := by
    intro r listed
    obtain ⟨s, member, rfl⟩ := List.mem_map.mp listed
    exact same i s member _ List.mem_cons_self
  exact (inv.pools i).sameInside i.wide kept
    (fun s member => ⟨_, List.mem_map_of_mem member, Span.Inside.refl _⟩)

theorem block_apart (inv : Inv m a L) {x : Nat} (listed : x ∈ L.free i ++ L.held i)
    {j : SizeClass} (different : i ≠ j) {t : Slab} (member : t ∈ L.linked j) :
    (Span.mk x i.bytes).Apart (t.span j.bytes) := by
  obtain ⟨s, linked, block⟩ := inv.mem_linked listed
  exact (inv.apart i j different s linked t member).mono (Slab.block_inside block)
    (Span.Inside.refl _)

theorem liveWrite {touched : List Span} {x : Nat} (inv : Inv m a L) (out : x ∈ L.held i)
    (same : SameOutside m m' touched) (confined : ∀ t ∈ touched, t.Inside ⟨x, i.bytes⟩) :
    Inv m' a L := by
  refine ⟨fun j => ?_, inv.recorded, inv.apart, inv.arena, inv.arenaApart, inv.bumped⟩
  by_cases here : i = j
  · subst here
    exact (inv.pools i).liveWrite i.wide out same confined
  · refine (inv.pools j).outside j.wide same (fun t written s member => ?_)
    exact (inv.block_apart (List.mem_append_right _ out) here member).mono (confined t written)
      (Span.Inside.refl _)

theorem arenaWrite {touched : List Span} (inv : Inv m a L) (same : SameOutside m m' touched)
    (confined : ∀ t ∈ touched, t.Inside a.arenaSpan) : Inv m' a L :=
  inv.outside same (fun t written i s member =>
    (inv.arenaApart i s member).symm.mono (confined t written) (Span.Inside.refl _))

theorem bumped_inside (inv : Inv m a L) {s : Span} (member : s ∈ L.bumped) :
    s.Inside a.arenaSpan := by
  have bounds := inv.bumped.inside s member
  have within := inv.arena.within
  exact ⟨bounds.1, Nat.le_trans bounds.2 (Nat.add_le_add_left within a.arena.base)⟩

theorem head_null (inv : Inv m a L) : (a.pools i).head = 0 ↔ L.free i = [] :=
  (inv.pools i).links.head_eq_zero

theorem take (inv : Inv m a L) {p : Nat} {rest : List Nat} (stocked : L.free i = p :: rest) :
    ∃ head, a.poolAllocate i m = (some p, a.setPool i { a.pools i with head := head }) ∧
      Inv m (a.setPool i { a.pools i with head := head }) (L.take i p rest) := by
  have nonnull : (a.pools i).head ≠ 0 := by
    intro null
    rw [inv.head_null.mp null] at stocked
    cases stocked
  obtain ⟨tail, split, popped⟩ := (inv.pools i).pop nonnull
  rw [stocked] at split
  cases split
  refine ⟨readWord m (a.pools i).head, ?_, ?_⟩
  · rw [poolAllocate, BlockPool.allocate_head nonnull]
  · exact inv.setPool (SameOutside.refl m []) (by simp) popped
      (inv.recorded i) (fun j different => inv.apart i j different) (inv.arenaApart i)

theorem poolAllocate_empty (inv : Inv m a L) (empty : L.free i = []) :
    a.poolAllocate i m = (none, a) := by
  rw [poolAllocate, BlockPool.allocate_null (inv.head_null.mpr empty)]
  simp [SingleThreadAllocator.setPool]

/-- A chunk that avoids everything the allocator manages. -/
structure FreshChunk (a : SingleThreadAllocator) (linked : SizeClass → List Slab)
    (chunk : Span) : Prop where
  slabs : ∀ i, ∀ s ∈ linked i, chunk.Apart (s.span i.bytes)
  arena : chunk.Apart a.arenaSpan
  bounded : chunk.stop ≤ addressLimit

/-- Linking a chunk, recorded in the slab table or not. -/
theorem link {chunk : Span} {body : Nat} (inv : Inv m a L) (fresh : FreshChunk a L.linked chunk)
    (positive : 0 < body) (inside : (Span.mk body chunkBody).Inside chunk) (recorded : Bool) :
    ∃ m', a.poolAddExternalSlab i m body recorded =
        (if recorded then .ok () else .error .badAlloc,
          a.setPool i ((a.pools i).grown recorded (chunkSlab i body) body), m') ∧
      Inv m' (a.setPool i ((a.pools i).grown recorded (chunkSlab i body) body))
        (L.link i (chunkSlab i body)) ∧ SameOutside m m' [chunk] := by
  have linkedInside := (chunkSlab_inside i body).trans inside
  have accepted := chunk_accepted i positive
  have region : (chunkSlab i body).Region i.bytes := by
    refine ⟨positive, ?_⟩
    have high : body + maxBlocks i * i.bytes ≤ 9223372036854775808 :=
      Nat.le_trans linkedInside.2 fresh.bounded
    simp only [chunkSlab, Words.radix]
    omega
  have freshSlab : ∀ t ∈ L.linked i, (t.span i.bytes).Apart ((chunkSlab i body).span i.bytes) :=
    fun t member => (fresh.slabs i t member).symm.mono (Span.Inside.refl _) linkedInside
  have poolInv := (inv.pools i).link i.wide (maxBlocks_positive i) region freshSlab
  have touched : SameOutside m
      (linkBlocks i.bytes m body (a.pools i).head (maxBlocks i)) [chunk] := by
    apply (linkBlocks_outside i.bytes i.wide _ (maxBlocks i) m body).mono
    intro s member
    obtain rfl := List.mem_singleton.mp member
    exact ⟨chunk, List.mem_cons_self, linkedInside⟩
  refine ⟨linkBlocks i.bytes m body (a.pools i).head (maxBlocks i), ?_, ?_, touched⟩
  · cases recorded <;>
      simp [poolAddExternalSlab, BlockPool.addExternalSlab, accepted, chunkSlab, BlockPool.grown]
  · refine inv.setPool touched ?_ poolInv ?_ ?_ ?_
    · intro t written j _ s member
      obtain rfl := List.mem_singleton.mp written
      exact fresh.slabs j s member
    · rw [BlockPool.grown_slabs]
      refine (inv.recorded i).append ?_
      cases recorded with
      | true => exact List.Sublist.refl _
      | false => exact List.nil_sublist _
    · intro j different s member t other
      rcases List.mem_append.mp member with old | new
      · exact inv.apart i j different s old t other
      · rw [List.mem_singleton.mp new]
        exact (fresh.slabs j t other).mono linkedInside (Span.Inside.refl _)
    · intro s member
      rcases List.mem_append.mp member with old | new
      · exact inv.arenaApart i s old
      · rw [List.mem_singleton.mp new]
        exact fresh.arena.mono linkedInside (Span.Inside.refl _)

end Inv

end SingleThreadAllocator

end MemAlloc
