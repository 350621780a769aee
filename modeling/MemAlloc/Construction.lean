import MemAlloc.AllocatorInvariant

set_option autoImplicit false

namespace MemAlloc

open Malloc (Heap Block)
open ByteMemory (SameOutside SameInside)

variable {τ : Type}

def spansOf (h : Heap τ) : List Span := h.blocks.map Block.span

theorem mem_spansOf {h : Heap τ} {b : Block τ} (member : b ∈ h.blocks) : b.span ∈ spansOf h :=
  List.mem_map_of_mem member

theorem new_block_apart {h h' : Heap τ} {b : Block τ} (added : h'.blocks = b :: h.blocks) :
    ∀ s ∈ spansOf h, b.span.Apart s := by
  intro s member
  obtain ⟨c, old, rfl⟩ := List.mem_map.mp member
  have apart := h'.apart
  rw [added] at apart
  exact (List.pairwise_cons.mp apart).1 c old

theorem new_base_ne {h h' : Heap τ} {b : Block τ} (added : h'.blocks = b :: h.blocks) :
    ∀ c ∈ h.blocks, c.span.base ≠ b.span.base := by
  intro c old same
  have new : b ∈ h'.blocks := added ▸ List.mem_cons_self
  have kept : c ∈ h'.blocks := added ▸ List.mem_cons_of_mem _ old
  have apart := new_block_apart added c.span (mem_spansOf old)
  exact apart.base_ne (h'.bounded b new).2.1 (h'.bounded c kept).2.1 same.symm

theorem tryAlignedAlloc_some {P : Platform} {h h' : Heap τ} {owner : τ} {size alignment : Nat}
    {reply : SlabReply} {s : SlabAlloc}
    (done : tryAlignedAlloc P h owner size alignment reply = (some s, h')) :
    s.raw = s.aligned ∧ alignment ∣ s.aligned ∧
      h'.blocks = ⟨Heap.request s.aligned size, owner⟩ :: h.blocks := by
  rw [tryAlignedAlloc] at done
  split at done
  · split at done
    · rename_i p grown granted
      cases done
      obtain ⟨fresh, added⟩ := Heap.of_malloc_some granted
      exact ⟨rfl, fresh.2.1, added⟩
    · cases done
  · cases done

theorem tryAlignedAlloc_none {P : Platform} {h h' : Heap τ} {owner : τ} {size alignment : Nat}
    {reply : SlabReply} (done : tryAlignedAlloc P h owner size alignment reply = (none, h')) :
    h' = h := by
  rw [tryAlignedAlloc] at done
  split at done
  · split at done
    · cases done
    · rename_i kept refused
      cases done
      exact Heap.of_malloc_none refused
  · cases done
    rfl

/-- The region `allocateSlab` returns: aligned, and inside one new block that starts at the
raw pointer. -/
theorem allocateSlab_some {P : Platform} {h h' : Heap τ} {owner : τ} {size alignment : Nat}
    {reply : SlabReply} {s : SlabAlloc} (power : Words.PowerOfTwo alignment)
    (word : size + alignment < Words.radix)
    (done : allocateSlab P h owner size alignment reply = (some s, h')) :
    ∃ b, h'.blocks = b :: h.blocks ∧ b.owner = owner ∧ b.span.base = s.raw ∧
      (Span.mk s.aligned size).Inside b.span ∧ alignment ∣ s.aligned := by
  rw [allocateSlab] at done
  split at done
  · rename_i region grown direct
    cases done
    obtain ⟨raw, aligned, added⟩ := tryAlignedAlloc_some direct
    refine ⟨_, added, rfl, raw.symm, ⟨Nat.le_refl _, ?_⟩, aligned⟩
    exact Nat.add_le_add_left (Nat.le_max_left _ _) _
  · rename_i kept missed
    obtain rfl := tryAlignedAlloc_none missed
    split at done
    · cases done
    · rename_i raw grown granted
      cases done
      obtain ⟨fresh, added⟩ := Heap.of_malloc_some granted
      have positive := power.positive
      rw [Words.add_of_lt word] at fresh added
      have room : raw + max (size + alignment) 1 ≤ 9223372036854775808 := fresh.2.2.1
      obtain ⟨low, high, multiple⟩ :=
        Words.alignUp_spec (x := raw) power (by simp only [Words.radix]; omega)
      refine ⟨_, added, rfl, rfl, ⟨low, ?_⟩, multiple⟩
      change Words.alignUp raw alignment + size ≤ raw + max (size + alignment) 1
      omega

theorem allocateSlab_none {P : Platform} {h h' : Heap τ} {owner : τ} {size alignment : Nat}
    {reply : SlabReply} (done : allocateSlab P h owner size alignment reply = (none, h')) :
    h' = h := by
  rw [allocateSlab] at done
  split at done
  · cases done
  · rename_i kept missed
    obtain rfl := tryAlignedAlloc_none missed
    split at done
    · rename_i same refused
      cases done
      exact Heap.of_malloc_none refused
    · cases done

/-- A constructed pool: its slab lies in a block of its own, and all its blocks are free. -/
structure NewPool (BlockSize BlocksPerSlab : Nat) (h' : Heap τ) (owner : τ) (m' : ByteMemory)
    (pool : BlockPool) (b : Block τ) : Prop where
  member : b ∈ h'.blocks
  tag : b.owner = owner
  raw : b.span.base = pool.raw
  inside : (Slab.span BlockSize ⟨pool.slab, BlocksPerSlab⟩).Inside b.span
  aligned : BlockSize ∣ pool.slab
  external : pool.externalSlabs = []
  inv : PoolInv BlockSize m' pool.head [⟨pool.slab, BlocksPerSlab⟩]
    (Slab.blocks BlockSize ⟨pool.slab, BlocksPerSlab⟩) []

theorem BlockPool.new_ok {P : Platform} {B N : Nat} {h h' : Heap τ} {owner : τ}
    {m m' : ByteMemory} {reply : SlabReply} {pool : BlockPool} (wide : 8 ≤ B)
    (power : Words.PowerOfTwo B) (nonempty : 0 < N) (word : N * B + B < Words.radix)
    (done : BlockPool.new P B N h owner m reply = (.ok (pool, m'), h')) :
    ∃ b, h'.blocks = b :: h.blocks ∧ NewPool B N h' owner m' pool b ∧
      SameInside m m' (spansOf h) := by
  rw [BlockPool.new] at done
  split at done
  · cases done
  · rename_i s grown region
    cases done
    obtain ⟨b, added, tagged, base, inside, aligned⟩ := allocateSlab_some power word region
    have member : b ∈ h'.blocks := added ▸ List.mem_cons_self
    have bounds := h'.bounded b member
    have high : b.span.stop ≤ 9223372036854775808 := bounds.2.2
    have start : b.span.base ≤ s.aligned := inside.1
    have limit : s.aligned + N * B ≤ b.span.stop := inside.2
    have real : Slab.Region B ⟨s.aligned, N⟩ := by
      refine ⟨Nat.lt_of_lt_of_le bounds.1 start, ?_⟩
      simp only [Words.radix]
      omega
    refine ⟨b, added, ⟨member, tagged, base, inside, aligned, rfl,
      PoolInv.ofSlab m s wide nonempty real⟩, ?_⟩
    apply SameInside.ofOutside (linkBlocks_outside B wide 0 N m s.aligned)
    intro t written u old
    obtain rfl := List.mem_singleton.mp written
    exact (new_block_apart added u old).mono inside (Span.Inside.refl _)

/-- A pool stays constructed while its own block is kept. -/
theorem NewPool.kept {B N : Nat} {h h' : Heap τ} {owner : τ} {m m' : ByteMemory}
    {pool : BlockPool} {b : Block τ} (wide : 8 ≤ B) (built : NewPool B N h owner m pool b)
    (grown : ∀ c ∈ h.blocks, c ∈ h'.blocks) (same : SameInside m m' (spansOf h)) :
    NewPool B N h' owner m' pool b := by
  refine ⟨grown b built.member, built.tag, built.raw, built.inside, built.aligned,
    built.external, built.inv.sameInside wide same ?_⟩
  intro s member
  obtain rfl := List.mem_singleton.mp member
  exact ⟨b.span, mem_spansOf built.member, built.inside⟩

namespace SingleThreadAllocator

theorem bytes_power (i : SizeClass) : Words.PowerOfTwo i.bytes :=
  ⟨i.val + 4, by omega, i.bytes_pow⟩

theorem slab_word (i : SizeClass) : blocksPerSlab * i.bytes + i.bytes < Words.radix := by
  have bound : i.bytes ≤ 1024 := i.bytes_le
  simp only [blocksPerSlab, Words.radix]
  omega

/-- The pools of the listed classes each have a slab in a block of their own. -/
theorem newPools_ok {P : Platform} {owner : SizeClass → τ} {reply : SizeClass → SlabReply}
    {classes : List SizeClass} {h h' : Heap τ} {m m' : ByteMemory}
    {pools pools' : SizeClass → BlockPool} (distinct : classes.Nodup)
    (done : newPools P owner reply classes h m pools = (.ok (pools', m'), h')) :
    (∀ b ∈ h.blocks, b ∈ h'.blocks) ∧ SameInside m m' (spansOf h) ∧
      (∀ i, i ∉ classes → pools' i = pools i) ∧
      (∀ i ∈ classes, ∃ b, NewPool i.bytes blocksPerSlab h' (owner i) m' (pools' i) b) ∧
      ∀ i ∈ classes, ∀ c ∈ h.blocks, c.span.base ≠ (pools' i).raw := by
  induction classes generalizing h m pools with
  | nil =>
      cases done
      exact ⟨fun _ member => member, SameInside.refl _ _, fun _ _ => rfl, by simp, by simp⟩
  | cons i rest ih =>
      obtain ⟨absent, tailDistinct⟩ := List.nodup_cons.mp distinct
      rw [newPools] at done
      split at done
      · cases done
      · rename_i pool first grown built
        split at done
        · cases done
        · rename_i result last remaining
          cases done
          obtain ⟨b, added, constructed, same⟩ :=
            BlockPool.new_ok i.wide (bytes_power i) (by decide) (slab_word i) built
          obtain ⟨growth, kept, untouched, each, distinctBases⟩ := ih tailDistinct remaining
          have older : ∀ c ∈ h.blocks, c ∈ grown.blocks :=
            fun c member => added ▸ List.mem_cons_of_mem _ member
          have own : pools' i = pool := by rw [untouched i absent, Function.update_self]
          refine ⟨fun c member => growth c (older c member), same.trans (kept.mono ?_), ?_, ?_,
            ?_⟩
          · intro s member
            obtain ⟨c, old, rfl⟩ := List.mem_map.mp member
            exact mem_spansOf (older c old)
          · intro j outside
            rw [untouched j (fun member => outside (List.mem_cons_of_mem _ member))]
            have elsewhere : j ≠ i := by
              rintro rfl
              exact outside List.mem_cons_self
            exact Function.update_of_ne elsewhere _ _
          · intro j member
            rcases List.mem_cons.mp member with rfl | later
            · exact ⟨b, own ▸ constructed.kept j.wide growth kept⟩
            · exact each j later
          · intro j member c old
            rcases List.mem_cons.mp member with rfl | later
            · rw [own, ← constructed.raw]
              exact new_base_ne added c old
            · exact distinctBases j later c (older c old)

theorem mem_foldl_free {pools : SizeClass → BlockPool} {classes : List SizeClass} {h : Heap τ}
    {b : Block τ} :
    b ∈ (classes.foldl (fun h i => h.free (pools i).raw) h).blocks ↔
      b ∈ h.blocks ∧ ∀ i ∈ classes, b.span.base ≠ (pools i).raw := by
  induction classes generalizing h with
  | nil => simp
  | cons i rest ih => simp [ih, Heap.mem_free, and_assoc]

theorem mem_freePools {pools : SizeClass → BlockPool} {h : Heap τ} {b : Block τ} :
    b ∈ (freePools pools h).blocks ↔ b ∈ h.blocks ∧ ∀ i, b.span.base ≠ (pools i).raw := by
  simp [freePools, mem_foldl_free]

theorem mem_destroy {a : SingleThreadAllocator} {h : Heap τ} {b : Block τ} :
    b ∈ (a.destroy h).blocks ↔
      b ∈ h.blocks ∧ b.span.base ≠ a.arena.base ∧ ∀ i, b.span.base ≠ (a.pools i).raw := by
  simp [destroy, mem_freePools, Heap.mem_free, and_assoc]

/-- A failing constructor releases only what it has obtained itself. -/
theorem newPools_error {P : Platform} {owner : SizeClass → τ} {reply : SizeClass → SlabReply}
    {classes : List SizeClass} {h h' : Heap τ} {m : ByteMemory} {pools : SizeClass → BlockPool}
    {x : Exn} (done : newPools P owner reply classes h m pools = (.error x, h')) :
    ∀ b ∈ h.blocks, b ∈ h'.blocks := by
  induction classes generalizing h h' m pools with
  | nil => cases done
  | cons i rest ih =>
      rw [newPools] at done
      split at done
      · rename_i y kept failed
        cases done
        rw [BlockPool.new] at failed
        split at failed
        · rename_i same refused
          cases failed
          rw [allocateSlab_none refused]
          exact fun _ member => member
        · cases failed
      · rename_i pool first grown built
        obtain ⟨b, added, constructed, _⟩ :=
          BlockPool.new_ok i.wide (bytes_power i) (by decide) (slab_word i) built
        split at done
        · rename_i y last remaining
          cases done
          intro c old
          refine Heap.mem_free.mpr ⟨ih remaining c (added ▸ List.mem_cons_of_mem _ old), ?_⟩
          rw [← constructed.raw]
          exact new_base_ne added c old
        · cases done

theorem new_error {P : Platform} {owner : SizeClass → τ} {arenaOwner : τ}
    {reply : SizeClass → SlabReply} {arenaReply : Option Nat} {h h' : Heap τ} {m : ByteMemory}
    {x : Exn} (done : new P owner arenaOwner reply arenaReply h m = (.error x, h')) :
    ∀ b ∈ h.blocks, b ∈ h'.blocks := by
  rw [new] at done
  split at done
  · rename_i y last failed
    cases done
    exact newPools_error failed
  · rename_i pools first middle built
    obtain ⟨growth, _, _, _, distinctBases⟩ := newPools_ok (List.nodup_finRange 7) built
    split at done
    · rename_i y last made
      cases done
      rw [Arena.new] at made
      split at made
      · rename_i same refused
        cases made
        rw [Heap.of_malloc_none refused]
        intro b old
        exact mem_freePools.mpr
          ⟨growth b old, fun i => distinctBases i (List.mem_finRange i) b old⟩
      · cases made
    · cases done

/-- The ledger of an allocator that has served nothing yet. -/
def newLedger (a : SingleThreadAllocator) : Ledger where
  free := fun i => Slab.blocks i.bytes ⟨(a.pools i).slab, blocksPerSlab⟩
  held := fun _ => []
  linked := fun i => [⟨(a.pools i).slab, blocksPerSlab⟩]
  bumped := []

/-- The blocks of the C heap that an allocator's slabs and arena lie in. -/
structure Homes (h : Heap τ) (owner : SizeClass → τ) (arenaOwner : τ)
    (a : SingleThreadAllocator) : Prop where
  slab : ∀ i, ∃ b ∈ h.blocks, b.owner = owner i ∧ b.span.base = (a.pools i).raw ∧
    (Slab.span i.bytes ⟨(a.pools i).slab, blocksPerSlab⟩).Inside b.span
  arena : ∃ b ∈ h.blocks, b.owner = arenaOwner ∧ b.span.base = a.arena.base ∧
    a.arenaSpan.Inside b.span

/-- The destructor releases no other blocks. -/
theorem Homes.survives {h : Heap τ} {owner : SizeClass → τ} {arenaOwner : τ}
    {a : SingleThreadAllocator} {b : Block τ} (homes : Homes h owner arenaOwner a)
    (member : b ∈ h.blocks) (slab : ∀ i, b.owner ≠ owner i) (arena : b.owner ≠ arenaOwner) :
    b ∈ (a.destroy h).blocks := by
  refine mem_destroy.mpr ⟨member, fun same => ?_, fun i same => ?_⟩
  · obtain ⟨c, block, owned, base, _⟩ := homes.arena
    obtain rfl := Heap.eq_of_base member block (same.trans base.symm)
    exact arena owned
  · obtain ⟨c, block, owned, base, _⟩ := homes.slab i
    obtain rfl := Heap.eq_of_base member block (same.trans base.symm)
    exact slab i owned

/-- The constructor establishes the invariant, in new blocks of the heap. -/
theorem new_ok {P : Platform} {owner : SizeClass → τ} {arenaOwner : τ}
    {reply : SizeClass → SlabReply} {arenaReply : Option Nat} {h h' : Heap τ}
    {m m' : ByteMemory} {a : SingleThreadAllocator} (different : Function.Injective owner)
    (apart : ∀ i, owner i ≠ arenaOwner)
    (done : new P owner arenaOwner reply arenaReply h m = (.ok (a, m'), h')) :
    Inv m' a a.newLedger ∧ Homes h' owner arenaOwner a ∧ a.stats = Stats.zero ∧
      a.arena.used = 0 ∧ (∀ i, (a.pools i).externalSlabs = []) ∧
      (∀ i, i.bytes ∣ (a.pools i).slab) ∧
      (∀ b ∈ h.blocks, b ∈ h'.blocks) ∧ SameInside m m' (spansOf h) := by
  rw [new] at done
  split at done
  · cases done
  · rename_i pools first middle built
    split at done
    · cases done
    · rename_i arena last made
      cases done
      obtain ⟨growth, kept, _, each, _⟩ := newPools_ok (List.nodup_finRange 7) built
      rw [Arena.new] at made
      split at made
      · cases made
      · rename_i base final granted
        cases made
        obtain ⟨fresh, added⟩ := Heap.of_malloc_some granted
        have member : (⟨Heap.request base kArenaCapacity, arenaOwner⟩ : Block τ) ∈ h'.blocks :=
          added ▸ List.mem_cons_self
        have older : ∀ c ∈ middle.blocks, c ∈ h'.blocks :=
          fun c old => added ▸ List.mem_cons_of_mem _ old
        have homes : ∀ i, ∃ b, NewPool i.bytes blocksPerSlab h' (owner i) m' (pools i) b := by
          intro i
          obtain ⟨b, constructed⟩ := each i (List.mem_finRange i)
          exact ⟨b, constructed.kept i.wide older (SameInside.refl _ _)⟩
        refine ⟨⟨?_, ?_, ?_, ?_, ?_, Bump.Stacked.nil _ _⟩, ⟨?_, ?_⟩, rfl, rfl, ?_, ?_,
          fun b old => older b (growth b old), kept⟩
        · intro i
          obtain ⟨b, constructed⟩ := homes i
          exact constructed.inv
        · intro i
          obtain ⟨b, constructed⟩ := homes i
          simp [BlockPool.slabs, constructed.external, newLedger]
        · intro i j distinct s left t right
          obtain rfl := List.mem_singleton.mp left
          obtain rfl := List.mem_singleton.mp right
          obtain ⟨b, first⟩ := homes i
          obtain ⟨c, second⟩ := homes j
          refine (Heap.apart_of_owner first.member second.member ?_).mono first.inside
            second.inside
          rw [first.tag, second.tag]
          exact fun same => distinct (different same)
        · exact Arena.Inv.ofRegion fresh.1 fresh.2.2.1
        · intro i s left
          obtain rfl := List.mem_singleton.mp left
          obtain ⟨b, constructed⟩ := homes i
          refine (Heap.apart_of_owner constructed.member member ?_).mono constructed.inside
            (Span.Inside.refl _)
          rw [constructed.tag]
          exact apart i
        · intro i
          obtain ⟨b, constructed⟩ := homes i
          exact ⟨b, constructed.member, constructed.tag, constructed.raw, constructed.inside⟩
        · exact ⟨_, member, rfl, rfl, Span.Inside.refl _⟩
        · intro i
          obtain ⟨b, constructed⟩ := homes i
          exact constructed.external
        · intro i
          obtain ⟨b, constructed⟩ := homes i
          exact constructed.aligned

end SingleThreadAllocator

/-- All outstanding blocks end at or below `limit`. -/
def Below (h : Heap τ) (limit : Nat) : Prop := ∀ b ∈ h.blocks, b.span.stop ≤ limit

/-- Above all outstanding blocks, a request can be granted anywhere. -/
theorem fresh_above {h : Heap τ} {limit align n p : Nat} (below : Below h limit)
    (above : limit ≤ p) (positive : 0 < p) (aligned : align ∣ p)
    (room : p + max n 1 ≤ Malloc.addressLimit) : h.Fresh align n p :=
  ⟨positive, aligned, room, fun b member => Or.inr (Nat.le_trans (below b member) above)⟩

/-- One mebibyte for each class. -/
def spreadAddress (base : Nat) (i : SizeClass) : Nat := base + (i.val + 1) * 1048576

def spreadReply (base : Nat) (i : SizeClass) : SlabReply := ⟨some (spreadAddress base i), none⟩

def desktop : Platform := ⟨16, 16, true⟩

theorem BlockPool.new_possible {h : Heap τ} {B N limit p : Nat} (owner : τ) (m : ByteMemory)
    (below : Below h limit) (above : limit ≤ p) (positive : 0 < p) (aligned : B ∣ p)
    (room : p + max (N * B) 1 ≤ Malloc.addressLimit) :
    ∃ pool m' h', BlockPool.new desktop B N h owner m ⟨some p, none⟩ = (.ok (pool, m'), h') ∧
      pool.slab = p ∧ h'.blocks = ⟨Heap.request p (N * B), owner⟩ :: h.blocks := by
  have fresh := fresh_above below above positive aligned room
  have granted := Heap.malloc_fresh owner fresh
  let built := BlockPool.ofSlab B N m ⟨p, p⟩
  refine ⟨built.1, built.2, h.add owner B (N * B) p fresh, ?_, rfl, rfl⟩
  simp only [BlockPool.new, allocateSlab, tryAlignedAlloc, desktop, ↓reduceIte, granted, built]

theorem tryAlignedAlloc_raw {P : Platform} {h h' : Heap τ} {owner : τ} {size alignment : Nat}
    {reply : SlabReply} {s : SlabAlloc}
    (done : tryAlignedAlloc P h owner size alignment reply = (some s, h')) :
    s.raw = s.aligned := by
  rw [tryAlignedAlloc] at done
  split at done
  · split at done
    · cases done
      rfl
    · cases done
  · cases done

theorem BlockPool.new_raw {P : Platform} {h h' : Heap τ} {B N : Nat} {owner : τ}
    {m m' : ByteMemory} {reply : SlabReply} {pool : BlockPool} (direct : reply.malloc = none)
    (built : BlockPool.new P B N h owner m reply = (.ok (pool, m'), h')) :
    pool.raw = pool.slab := by
  rw [BlockPool.new, allocateSlab] at built
  cases attempt : tryAlignedAlloc P h owner (N * B) B reply with
  | mk region grown =>
      rw [attempt] at built
      cases region with
      | some s =>
          cases built
          exact tryAlignedAlloc_raw attempt
      | none =>
          rw [direct] at built
          cases built

namespace SingleThreadAllocator

theorem spreadAddress_room {base : Nat} (i : SizeClass)
    (room : base + 33554432 ≤ Malloc.addressLimit) :
    spreadAddress base i + max (blocksPerSlab * i.bytes) 1 ≤ Malloc.addressLimit := by
  have limit : base + 33554432 ≤ 9223372036854775808 := room
  have small : i.bytes ≤ 1024 := i.bytes_le
  have index := i.isLt
  simp only [spreadAddress, blocksPerSlab]
  change _ ≤ 9223372036854775808
  omega

theorem newPools_cons {P : Platform} {owner : SizeClass → τ} {reply : SizeClass → SlabReply}
    {i : SizeClass} {rest : List SizeClass} {h h₁ h' : Heap τ} {m m₁ m' : ByteMemory}
    {pools pools' : SizeClass → BlockPool} {pool : BlockPool}
    (built : BlockPool.new P i.bytes blocksPerSlab h (owner i) m (reply i) = (.ok (pool, m₁), h₁))
    (run : newPools P owner reply rest h₁ m₁ (Function.update pools i pool) =
      (.ok (pools', m'), h')) :
    newPools P owner reply (i :: rest) h m pools = (.ok (pools', m'), h') := by
  rw [newPools, built]
  dsimp only
  rw [run]

/-- The slab of each class can be had at its own address, in a block that ends before the
next one's. -/
def SpreadGranted (P : Platform) (owner : SizeClass → τ) (reply : SizeClass → SlabReply)
    (base : Nat) : Prop :=
  ∀ (i : SizeClass) (h : Heap τ) (m : ByteMemory), Below h (spreadAddress base i) →
    ∃ pool m' h' b, BlockPool.new P i.bytes blocksPerSlab h (owner i) m (reply i) =
        (.ok (pool, m'), h') ∧ pool.slab = spreadAddress base i ∧ h'.blocks = b :: h.blocks ∧
      base ≤ b.span.base ∧ b.span.stop ≤ spreadAddress base i + 1048576

theorem spreadAddress_multiple {base : Nat} (aligned : 1048576 ∣ base) (i : SizeClass) :
    i.bytes ∣ spreadAddress base i := by
  have index := i.isLt
  have classes : i.bytes ∣ 1048576 := by
    have exponent : i.val + 4 ≤ 20 := by omega
    have mebibyte : 1048576 = 2 ^ 20 := by decide
    rw [i.bytes_pow, mebibyte]
    exact Nat.pow_dvd_pow 2 exponent
  exact (Nat.dvd_add_right (classes.trans aligned)).mpr (Dvd.dvd.mul_left classes _)

theorem spreadAddress_positive (base : Nat) (i : SizeClass) : 0 < spreadAddress base i := by
  simp only [spreadAddress]
  omega

theorem spreadGranted_desktop {base : Nat} (owner : SizeClass → τ) (aligned : 1048576 ∣ base)
    (room : base + 33554432 ≤ Malloc.addressLimit) :
    SpreadGranted desktop owner (spreadReply base) base := by
  intro i h m below
  have high := spreadAddress_room i room
  have small : i.bytes ≤ 1024 := i.bytes_le
  obtain ⟨pool, m₁, h₁, built, slab, added⟩ := BlockPool.new_possible (owner i) m below
    (Nat.le_refl _) (spreadAddress_positive base i) (spreadAddress_multiple aligned i) high
  refine ⟨pool, m₁, h₁, _, built, slab, added, Nat.le_add_right _ _, ?_⟩
  show spreadAddress base i + max (blocksPerSlab * i.bytes) 1 ≤ _
  simp only [blocksPerSlab]
  omega

/-- Where answers are spread out above everything outstanding, the pools can be built. -/
theorem newPools_possible {P : Platform} {base : Nat} {owner : SizeClass → τ}
    {reply : SizeClass → SlabReply} (granted : SpreadGranted P owner reply base)
    {classes : List SizeClass} (sorted : classes.Pairwise (· < ·)) (h : Heap τ) (m : ByteMemory)
    (pools : SizeClass → BlockPool)
    (below : ∀ i ∈ classes, Below h (spreadAddress base i)) (under : Below h (base + 16777216)) :
    ∃ pools' m' h', newPools P owner reply classes h m pools =
        (.ok (pools', m'), h') ∧ (∀ i ∈ classes, (pools' i).slab = spreadAddress base i) ∧
      (∀ i, i ∉ classes → pools' i = pools i) ∧ Below h' (base + 16777216) ∧
      ∀ b ∈ h'.blocks, b ∈ h.blocks ∨ base ≤ b.span.base := by
  induction classes generalizing h m pools with
  | nil => exact ⟨pools, m, h, rfl, by simp, by simp, under, fun b member => Or.inl member⟩
  | cons i rest ih =>
      obtain ⟨first, tail⟩ := List.pairwise_cons.mp sorted
      have index := i.isLt
      obtain ⟨pool, m₁, h₁, b, built, slab, added, start, stop⟩ :=
        granted i h m (below i List.mem_cons_self)
      have grows : ∀ limit, Below h limit → spreadAddress base i + 1048576 ≤ limit →
          Below h₁ limit := by
        intro limit older newer c member
        rw [added] at member
        rcases List.mem_cons.mp member with rfl | old
        · exact Nat.le_trans stop newer
        · exact older c old
      have order : ∀ j ∈ rest, spreadAddress base i + 1048576 ≤ spreadAddress base j := by
        intro j member
        have later : i.val < j.val := first j member
        simp only [spreadAddress]
        omega
      have last : spreadAddress base i + 1048576 ≤ base + 16777216 := by
        simp only [spreadAddress]
        omega
      obtain ⟨pools', m', h', run, slabs, others, under', origin⟩ :=
        ih tail h₁ m₁ (Function.update pools i pool)
          (fun j member => grows _ (below j (List.mem_cons_of_mem _ member)) (order j member))
          (grows _ under last)
      refine ⟨pools', m', h', ?_, ?_, ?_, under', ?_⟩
      · exact newPools_cons built run
      · intro j member
        by_cases later : j ∈ rest
        · exact slabs j later
        · have same : j = i := by
            rcases List.mem_cons.mp member with same | other
            · exact same
            · exact absurd other later
          rw [others j later, same, Function.update_self, slab]
      · intro j absent
        rw [others j (fun later => absent (List.mem_cons_of_mem _ later))]
        exact Function.update_of_ne (List.ne_of_not_mem_cons absent) _ _
      · intro c member
        rcases origin c member with old | high'
        · rw [added] at old
          rcases List.mem_cons.mp old with rfl | older
          · exact Or.inr start
          · exact Or.inl older
        · exact Or.inr high'

theorem arena_possible {P : Platform} {h : Heap τ} {capacity p : Nat} (owner : τ)
    (fresh : h.Fresh P.mallocAlign capacity p) :
    Arena.new P h owner capacity (some p) =
      (.ok (Arena.ofRegion p capacity), h.add owner P.mallocAlign capacity p fresh) := by
  rw [Arena.new, Heap.malloc_fresh owner fresh]

theorem new_of_parts {P : Platform} {owner : SizeClass → τ} {arenaOwner : τ}
    {reply : SizeClass → SlabReply} {arenaReply : Option Nat} {h h₁ h' : Heap τ}
    {m m' : ByteMemory} {pools : SizeClass → BlockPool} {arena : Arena}
    (run : newPools P owner reply (List.finRange 7) h m (fun _ => ⟨0, 0, 0, []⟩) =
      (.ok (pools, m'), h₁))
    (made : Arena.new P h₁ arenaOwner kArenaCapacity arenaReply = (.ok arena, h')) :
    new P owner arenaOwner reply arenaReply h m =
      (.ok (⟨pools, arena, Stats.zero⟩, m'), h') := by
  rw [new, run]
  dsimp only
  rw [made]

/-- Above everything outstanding, construction can succeed, with the slab of each class at
an address of its own. -/
theorem new_granted {P : Platform} {base : Nat} {owner : SizeClass → τ}
    {reply : SizeClass → SlabReply} (granted : SpreadGranted P owner reply base)
    (arenaOwner : τ) (m : ByteMemory) (h : Heap τ) (aligned : P.mallocAlign ∣ base + 16777216)
    (room : base + 33554432 ≤ Malloc.addressLimit) (below : Below h (base + 1048576)) :
    ∃ a m' h', new P owner arenaOwner reply (some (base + 16777216)) h m =
        (.ok (a, m'), h') ∧ (∀ i, (a.pools i).slab = spreadAddress base i) ∧
      a.arena = Arena.ofRegion (base + 16777216) kArenaCapacity ∧
      Below h' (base + 33554432) ∧ ∀ b ∈ h'.blocks, b ∈ h.blocks ∨ base ≤ b.span.base := by
  have wider : ∀ limit, base + 1048576 ≤ limit → Below h limit :=
    fun limit more b member => Nat.le_trans (below b member) more
  obtain ⟨pools, m', h₁, run, slabs, _, under, origin⟩ :=
    newPools_possible granted (List.pairwise_lt_finRange 7) h m
      (fun _ => ⟨0, 0, 0, []⟩)
      (fun i _ => wider _ (by simp only [spreadAddress]; omega)) (wider _ (by omega))
  generalize start : base + 16777216 = p at under aligned ⊢
  have fits : p + max kArenaCapacity 1 ≤ base + 33554432 := by
    simp only [kArenaCapacity]
    omega
  have positive : 0 < p := by omega
  have fresh := fresh_above under (Nat.le_refl _) positive aligned (Nat.le_trans fits room)
  refine ⟨_, m', _, new_of_parts run (arena_possible arenaOwner fresh),
    fun i => slabs i (List.mem_finRange i), rfl, ?_, ?_⟩
  · intro b member
    rcases List.mem_cons.mp member with rfl | old
    · exact fits
    · exact Nat.le_trans (under b old) (by omega)
  · intro b member
    rcases List.mem_cons.mp member with rfl | old
    · exact Or.inr (by simp only [Heap.request]; omega)
    · exact origin b old

/-- A region from `::aligned_alloc` needs no rounding up. -/
theorem newPools_raw {P : Platform} {owner : SizeClass → τ} {reply : SizeClass → SlabReply}
    (direct : ∀ i, (reply i).malloc = none) {classes : List SizeClass} {h h' : Heap τ}
    {m m' : ByteMemory} {pools pools' : SizeClass → BlockPool}
    (start : ∀ i, (pools i).raw = (pools i).slab)
    (run : newPools P owner reply classes h m pools = (.ok (pools', m'), h')) :
    ∀ i, (pools' i).raw = (pools' i).slab := by
  induction classes generalizing h m pools with
  | nil =>
      cases run
      exact start
  | cons i rest ih =>
      rw [newPools] at run
      split at run
      · cases run
      · rename_i pool m₁ h₁ built
        split at run
        · cases run
        · rename_i done final tail
          cases run
          refine ih (fun j => ?_) tail
          by_cases same : j = i
          · rw [same, Function.update_self]
            exact BlockPool.new_raw (direct i) built
          · rw [Function.update_of_ne same]
            exact start j

theorem new_raw {P : Platform} {owner : SizeClass → τ} {arenaOwner : τ}
    {reply : SizeClass → SlabReply} {arenaReply : Option Nat} {h h' : Heap τ}
    {m m' : ByteMemory} {a : SingleThreadAllocator} (direct : ∀ i, (reply i).malloc = none)
    (done : new P owner arenaOwner reply arenaReply h m = (.ok (a, m'), h')) (i : SizeClass) :
    (a.pools i).raw = (a.pools i).slab := by
  rw [new] at done
  split at done
  · cases done
  · rename_i pools first middle built
    split at done
    · cases done
    · cases done
      exact newPools_raw direct (fun _ => rfl) built i

/-- The free lists of a new allocator start with the first two blocks of the slabs. -/
theorem new_heads {P : Platform} {owner : SizeClass → τ} {arenaOwner : τ}
    {reply : SizeClass → SlabReply} {arenaReply : Option Nat} {h h' : Heap τ}
    {m m' : ByteMemory} {a : SingleThreadAllocator} (different : Function.Injective owner)
    (apart : ∀ i, owner i ≠ arenaOwner)
    (built : new P owner arenaOwner reply arenaReply h m = (.ok (a, m'), h')) (i : SizeClass) :
    (a.pools i).head = (a.pools i).slab ∧
      ByteMemory.readWord m' (a.pools i).slab = (a.pools i).slab + i.bytes := by
  have links := ((new_ok different apart built).1.pools i).links
  have first : (newLedger a).free i =
      (a.pools i).slab :: Slab.blocks i.bytes ⟨(a.pools i).slab + i.bytes, 255⟩ :=
    Slab.blocks_succ i.bytes (a.pools i).slab 255
  rw [first, Slab.blocks_succ i.bytes ((a.pools i).slab + i.bytes) 254] at links
  exact ⟨links.1, links.2.2.1⟩

theorem new_possible {base : Nat} (owner : SizeClass → τ) (arenaOwner : τ) (m : ByteMemory)
    (h : Heap τ) (aligned : 1048576 ∣ base) (room : base + 33554432 ≤ Malloc.addressLimit)
    (below : Below h (base + 1048576)) :
    ∃ a m' h', new desktop owner arenaOwner (spreadReply base) (some (base + 16777216)) h m =
        (.ok (a, m'), h') ∧ (∀ i, (a.pools i).slab = spreadAddress base i) ∧
      a.arena = Arena.ofRegion (base + 16777216) kArenaCapacity ∧
      Below h' (base + 33554432) ∧ ∀ b ∈ h'.blocks, b ∈ h.blocks ∨ base ≤ b.span.base := by
  have multiple : desktop.mallocAlign ∣ base + 16777216 := by
    obtain ⟨k, rfl⟩ := aligned
    change 16 ∣ _
    omega
  exact new_granted (spreadGranted_desktop owner aligned room) arenaOwner m h multiple room below

end SingleThreadAllocator

end MemAlloc
