import MemAlloc.Lib.HeapShares
import MemAlloc.ThreadHomes

set_option autoImplicit false

namespace MemAlloc

open Malloc (Heap Block)
open Malloc.Heap (request)
open SingleThreadAllocator (SameRegions)

variable {τ : Type}

/-- A block for a request of `size` bytes, made with up to `slack` bytes of over-allocation. -/
def Sized (size slack : Nat) (b : Block τ) : Prop :=
  size ≤ b.span.size ∧ b.span.size ≤ size + slack

theorem tryAlignedAlloc_sized {P : Platform} {h h' : Heap τ} {owner : τ} {size alignment : Nat}
    {reply : SlabReply} {s : SlabAlloc} (positive : 0 < size)
    (done : tryAlignedAlloc P h owner size alignment reply = (some s, h')) :
    ∃ b, h'.blocks = b :: h.blocks ∧ b.owner = owner ∧ b.span.base = s.raw ∧
      b.span.size = size := by
  obtain ⟨raw, _, added⟩ := tryAlignedAlloc_some done
  exact ⟨_, added, rfl, raw.symm, Nat.max_eq_left positive⟩

/-- `allocate_slab` takes one block of the heap, and over-allocates by the alignment at most. -/
theorem allocateSlab_sized {P : Platform} {h h' : Heap τ} {owner : τ} {size alignment : Nat}
    {reply : SlabReply} {s : SlabAlloc} (positive : 0 < size)
    (word : size + alignment < Words.radix)
    (done : allocateSlab P h owner size alignment reply = (some s, h')) :
    ∃ b, h'.blocks = b :: h.blocks ∧ b.owner = owner ∧ b.span.base = s.raw ∧
      Sized size alignment b := by
  rw [allocateSlab] at done
  split at done
  · rename_i region grown direct
    cases done
    obtain ⟨b, added, owned, base, same⟩ := tryAlignedAlloc_sized positive direct
    exact ⟨b, added, owned, base, by simp [Sized, same]⟩
  · rename_i kept missed
    obtain rfl := tryAlignedAlloc_none missed
    split at done
    · cases done
    · rename_i raw grown granted
      cases done
      obtain ⟨_, added⟩ := Heap.of_malloc_some granted
      rw [Words.add_of_lt word] at added
      refine ⟨_, added, rfl, rfl, ?_⟩
      simp only [Sized, request]
      omega

namespace SingleThreadAllocator

/-- The block that a pool's constructor slab lies in. -/
structure SlabBlock (owner : SizeClass → τ) (pools : SizeClass → BlockPool) (i : SizeClass)
    (b : Block τ) : Prop where
  owner : b.owner = owner i
  base : b.span.base = (pools i).raw
  sized : Sized (blocksPerSlab * i.bytes) i.bytes b

theorem BlockPool.new_block {P : Platform} {h h' : Heap τ} {owner : τ} {i : SizeClass}
    {m m' : ByteMemory} {reply : SlabReply} {pool : BlockPool}
    (done : BlockPool.new P i.bytes blocksPerSlab h owner m reply = (.ok (pool, m'), h')) :
    ∃ b, h'.blocks = b :: h.blocks ∧ b.owner = owner ∧ b.span.base = pool.raw ∧
      Sized (blocksPerSlab * i.bytes) i.bytes b := by
  rw [BlockPool.new] at done
  split at done
  · cases done
  · rename_i s grown region
    cases done
    have positive : 0 < blocksPerSlab * i.bytes :=
      Nat.mul_pos (by decide) (Nat.lt_of_lt_of_le (by decide) i.wide)
    exact allocateSlab_sized positive (slab_word i) region

/-- The listed pools are built in one new block each. -/
theorem newPools_blocks {P : Platform} {owner : SizeClass → τ} {reply : SizeClass → SlabReply}
    {classes : List SizeClass} {h h' : Heap τ} {m m' : ByteMemory}
    {pools pools' : SizeClass → BlockPool} (distinct : classes.Nodup)
    (done : newPools P owner reply classes h m pools = (.ok (pools', m'), h')) :
    ∃ home : SizeClass → Block τ, h'.blocks = (classes.map home).reverse ++ h.blocks ∧
      ∀ i ∈ classes, SlabBlock owner pools' i (home i) := by
  induction classes generalizing h m pools with
  | nil =>
      cases done
      exact ⟨fun i => ⟨⟨0, 0⟩, owner i⟩, rfl, fun i member => by cases member⟩
  | cons i rest ih =>
      obtain ⟨absent, tailDistinct⟩ := List.nodup_cons.mp distinct
      rw [newPools] at done
      split at done
      · cases done
      · rename_i pool first grown built
        split at done
        · cases done
        · rename_i result last remaining
          cases done
          obtain ⟨b, added, owned, base, sized⟩ := BlockPool.new_block built
          obtain ⟨home, more, each⟩ := ih tailDistinct remaining
          have own : pools' i = pool := by
            rw [(newPools_ok tailDistinct remaining).2.2.1 i absent, Function.update_self]
          have others : rest.map (Function.update home i b) = rest.map home := by
            apply List.map_congr_left
            intro j later
            have different : j ≠ i := by
              rintro rfl
              exact absent later
            exact Function.update_of_ne different _ _
          refine ⟨Function.update home i b, ?_, ?_⟩
          · rw [more, added, List.map_cons, Function.update_self, others, List.reverse_cons,
              List.append_assoc, List.singleton_append]
          · intro j member
            by_cases same : j = i
            · subst same
              rw [Function.update_self]
              exact ⟨owned, by rw [own]; exact base, sized⟩
            · rw [Function.update_of_ne same]
              exact each j ((List.mem_cons.mp member).resolve_left same)

/-- When a pool cannot be built, the heap is as if none had been. -/
theorem newPools_undone {P : Platform} {owner : SizeClass → τ} {reply : SizeClass → SlabReply}
    {classes : List SizeClass} {h h' : Heap τ} {m : ByteMemory} {pools : SizeClass → BlockPool}
    {x : Exn} (done : newPools P owner reply classes h m pools = (.error x, h')) :
    h'.blocks = h.blocks := by
  induction classes generalizing h h' m pools with
  | nil => cases done
  | cons i rest ih =>
      rw [newPools] at done
      split at done
      · rename_i y kept failed
        cases done
        rw [BlockPool.new] at failed
        split at failed
        · rename_i same refused
          cases failed
          rw [allocateSlab_none refused]
        · cases failed
      · rename_i pool first grown built
        obtain ⟨b, added, _, base, _⟩ := BlockPool.new_block built
        split at done
        · rename_i y last remaining
          cases done
          have rest := ih remaining
          rw [added] at rest
          have starts : ∀ p, p ∈ [pool.raw] ↔ ∃ c ∈ [b], c.span.base = p := by
            simp [base, eq_comm]
          exact Heap.freeAll_added rest starts
        · cases done

def releases (a : SingleThreadAllocator) : List Nat :=
  a.arena.base :: (List.finRange 7).map (fun i => (a.pools i).raw)

theorem destroy_eq (a : SingleThreadAllocator) (h : Heap τ) :
    a.destroy h = h.freeAll a.releases := by
  simp only [destroy, freePools, releases, Heap.freeAll, List.foldl_cons, List.foldl_map]

theorem freePools_eq (pools : SizeClass → BlockPool) (h : Heap τ) :
    freePools pools h = h.freeAll ((List.finRange 7).map (fun i => (pools i).raw)) := by
  simp only [freePools, Heap.freeAll, List.foldl_map]

/-- The blocks an allocator was built in: the arena's, and a slab for each class. -/
structure Built (owner : SizeClass → τ) (arenaOwner : τ) (a : SingleThreadAllocator)
    (home : SizeClass → Block τ) (arena : Block τ) : Prop where
  slab : ∀ i, SlabBlock owner a.pools i (home i)
  arenaOwner : arena.owner = arenaOwner
  arenaBase : arena.span.base = a.arena.base
  arenaSize : arena.span.size = kArenaCapacity

def builtBlocks (home : SizeClass → Block τ) (arena : Block τ) : List (Block τ) :=
  arena :: ((List.finRange 7).map home).reverse

theorem mem_builtBlocks {home : SizeClass → Block τ} {arena b : Block τ} :
    b ∈ builtBlocks home arena ↔ b = arena ∨ ∃ i, home i = b := by
  simp [builtBlocks]

theorem Built.releases {owner : SizeClass → τ} {arenaOwner : τ} {a : SingleThreadAllocator}
    {home : SizeClass → Block τ} {arena : Block τ} (built : Built owner arenaOwner a home arena)
    (p : Nat) : p ∈ a.releases ↔ ∃ b ∈ builtBlocks home arena, b.span.base = p := by
  simp only [SingleThreadAllocator.releases, List.mem_cons, List.mem_map, List.mem_finRange,
    true_and, mem_builtBlocks]
  constructor
  · rintro (rfl | ⟨i, rfl⟩)
    · exact ⟨arena, Or.inl rfl, built.arenaBase⟩
    · exact ⟨home i, Or.inr ⟨i, rfl⟩, (built.slab i).base⟩
  · rintro ⟨b, rfl | ⟨i, rfl⟩, rfl⟩
    · exact Or.inl built.arenaBase
    · exact Or.inr ⟨i, (built.slab i).base.symm⟩

/-- The constructor takes eight blocks of the heap. -/
theorem new_blocks {P : Platform} {owner : SizeClass → τ} {arenaOwner : τ}
    {reply : SizeClass → SlabReply} {arenaReply : Option Nat} {h h' : Heap τ}
    {m m' : ByteMemory} {a : SingleThreadAllocator}
    (done : new P owner arenaOwner reply arenaReply h m = (.ok (a, m'), h')) :
    ∃ home arena, h'.blocks = builtBlocks home arena ++ h.blocks ∧
      Built owner arenaOwner a home arena := by
  rw [new] at done
  split at done
  · cases done
  · rename_i pools first middle built
    obtain ⟨home, grown, each⟩ := newPools_blocks (List.nodup_finRange 7) built
    split at done
    · cases done
    · rename_i made last arena
      cases done
      rw [Arena.new] at arena
      split at arena
      · cases arena
      · rename_i base final granted
        cases arena
        obtain ⟨_, added⟩ := Heap.of_malloc_some granted
        refine ⟨home, _, by rw [added, grown]; rfl, ?_, rfl, rfl, rfl⟩
        intro i
        exact each i (List.mem_finRange i)

/-- A constructor that throws leaves the heap as it was. -/
theorem new_undone {P : Platform} {owner : SizeClass → τ} {arenaOwner : τ}
    {reply : SizeClass → SlabReply} {arenaReply : Option Nat} {h h' : Heap τ}
    {m : ByteMemory} {x : Exn}
    (done : new P owner arenaOwner reply arenaReply h m = (.error x, h')) :
    h'.blocks = h.blocks := by
  rw [new] at done
  split at done
  · rename_i y last failed
    cases done
    exact newPools_undone failed
  · rename_i pools first middle built
    obtain ⟨home, grown, each⟩ := newPools_blocks (List.nodup_finRange 7) built
    split at done
    · rename_i y last made
      cases done
      rw [Arena.new] at made
      split at made
      · rename_i same refused
        cases made
        rw [freePools_eq, Heap.of_malloc_none refused]
        refine Heap.freeAll_added grown ?_
        intro p
        simp only [List.mem_map, List.mem_finRange, true_and, List.mem_reverse]
        constructor
        · rintro ⟨i, rfl⟩
          exact ⟨home i, ⟨i, rfl⟩, (each i (List.mem_finRange i)).base⟩
        · rintro ⟨b, ⟨i, rfl⟩, rfl⟩
          exact ⟨i, (each i (List.mem_finRange i)).base.symm⟩
      · cases made
    · cases done

theorem Built.moved {owner : SizeClass → τ} {arenaOwner : τ} {a a' : SingleThreadAllocator}
    {home : SizeClass → Block τ} {arena : Block τ} (built : Built owner arenaOwner a home arena)
    (regions : SameRegions a a') : Built owner arenaOwner a' home arena := by
  refine ⟨?_, built.arenaOwner, built.arenaBase.trans regions.base.symm, built.arenaSize⟩
  intro i
  obtain ⟨owned, base, sized⟩ := built.slab i
  exact ⟨owned, base.trans (regions.raw i).symm, sized⟩

/-- The chunk source is asked once at most, and what it throws is thrown on. -/
theorem allocate_asks {σ : Type} {P : Platform} {source : ChunkSource σ} {recorded : Bool}
    {n : Nat} {e e' : σ} {m m' : ByteMemory} {a a' : SingleThreadAllocator}
    {x : Except Exn (Option Nat)}
    (done : a.allocate P source recorded n e m = (x, a', e', m')) :
    e' = e ∨ ∃ i : SizeClass, (source i.bytes e m).2.1 = e' ∧
      ∀ y, (source i.bytes e m).1 = .error y → x = .error y := by
  rw [allocate] at done
  split at done
  · rename_i small
    generalize sizeClassOf n small = i at done
    simp only at done
    split at done
    · cases done
      exact Or.inl rfl
    · rename_i first popped
      refine Or.inr ⟨i, ?_⟩
      rw [refill] at done
      split at done
      · rename_i y e₁ m₁ answered
        cases done
        rw [answered]
        exact ⟨rfl, fun z same => by cases same; rfl⟩
      · rename_i e₁ m₁ answered
        cases done
        rw [answered]
        exact ⟨rfl, fun z same => by cases same⟩
      · rename_i chunk e₁ m₁ answered
        have kept : e' = e₁ := by
          split at done
          · cases done
            rfl
          · split at done
            · cases done
              rfl
            · cases done
              rfl
        rw [answered]
        exact ⟨kept.symm, fun z same => by cases same⟩
  · cases done
    exact Or.inl rfl

end SingleThreadAllocator

end MemAlloc
