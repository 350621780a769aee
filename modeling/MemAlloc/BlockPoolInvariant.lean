import MemAlloc.BlockPool

set_option autoImplicit false

namespace MemAlloc

open ByteMemory (readWord writeWord SameOutside SameInside wordBytes)
open Links (Linked)

namespace Slab

/-- The slab is real memory: it avoids null and ends inside the address space. -/
def Region (BlockSize : Nat) (s : Slab) : Prop :=
  0 < s.base ∧ s.base + s.numBlocks * BlockSize < Words.radix

theorem mem_blocks {B : Nat} {s : Slab} {x : Nat} :
    x ∈ s.blocks B ↔ ∃ i, i < s.numBlocks ∧ x = s.base + i * B := by
  simp only [blocks, List.mem_map, List.mem_range]
  constructor
  · rintro ⟨i, small, rfl⟩
    exact ⟨i, small, rfl⟩
  · rintro ⟨i, small, rfl⟩
    exact ⟨i, small, rfl⟩

@[simp] theorem blocks_zero (B : Nat) (b : Nat) : blocks B ⟨b, 0⟩ = [] := rfl

theorem blocks_succ (B : Nat) (b : Nat) (n : Nat) :
    blocks B ⟨b, n + 1⟩ = b :: blocks B ⟨b + B, n⟩ := by
  simp only [blocks, List.range_succ_eq_map, List.map_cons, List.map_map, Nat.zero_mul,
    Nat.add_zero]
  congr 1
  apply List.map_congr_left
  intro i _
  change b + (i + 1) * B = b + B + i * B
  rw [Nat.succ_mul]
  omega

@[simp] theorem length_blocks (B : Nat) (s : Slab) : (s.blocks B).length = s.numBlocks := by
  simp [blocks]

theorem block_inside {B : Nat} {s : Slab} {x : Nat} (member : x ∈ s.blocks B) :
    (Span.mk x B).Inside (s.span B) := by
  obtain ⟨i, small, rfl⟩ := mem_blocks.mp member
  have last : i * B + B ≤ s.numBlocks * B := by
    rw [← Nat.succ_mul]
    exact Nat.mul_le_mul_right B small
  constructor <;> simp only [span, Span.stop] <;> omega

theorem blocks_apart {B : Nat} {s : Slab} {x y : Nat} (left : x ∈ s.blocks B)
    (right : y ∈ s.blocks B) (different : x ≠ y) : (Span.mk x B).Apart ⟨y, B⟩ := by
  obtain ⟨i, _, rfl⟩ := mem_blocks.mp left
  obtain ⟨j, _, rfl⟩ := mem_blocks.mp right
  rcases Nat.lt_or_ge i j with less | more
  · have gap : i * B + B ≤ j * B := by
      rw [← Nat.succ_mul]
      exact Nat.mul_le_mul_right B less
    exact Or.inl (by simp only [Span.stop]; omega)
  · have strict : j < i := by
      rcases Nat.eq_or_lt_of_le more with rfl | less
      · exact absurd rfl different
      · exact less
    have gap : j * B + B ≤ i * B := by
      rw [← Nat.succ_mul]
      exact Nat.mul_le_mul_right B strict
    exact Or.inr (by simp only [Span.stop]; omega)

theorem contains_iff {B : Nat} {s : Slab} {p : Nat} :
    s.contains B p = true ↔ (s.span B).Holds p := by
  simp [contains, span, Span.Holds]

/-- The containing-block arithmetic recovers the block start from any address inside. -/
theorem blockOf_eq {B : Nat} {s : Slab} {x a : Nat} (member : x ∈ s.blocks B)
    (inside : (Span.mk x B).Holds a) : s.blockOf B a = x := by
  obtain ⟨i, _, rfl⟩ := mem_blocks.mp member
  obtain ⟨low, high⟩ := inside
  have low : s.base + i * B ≤ a := low
  have high : a < s.base + i * B + B := high
  have positive : 0 < B := by omega
  have quotient : (a - s.base) / B = i := by
    have split : a - s.base = B * i + (a - s.base - i * B) := by rw [Nat.mul_comm]; omega
    rw [split, Nat.mul_add_div positive, Nat.div_eq_of_lt (by omega), Nat.add_zero]
  rw [blockOf, quotient]

theorem blockOf_mem {B : Nat} {s : Slab} {p : Nat} (positive : 0 < B)
    (inside : (s.span B).Holds p) : s.blockOf B p ∈ s.blocks B := by
  obtain ⟨low, high⟩ := inside
  have low : s.base ≤ p := low
  have high : p < s.base + s.numBlocks * B := high
  apply mem_blocks.mpr
  exact ⟨(p - s.base) / B, (Nat.div_lt_iff_lt_mul positive).mpr (by omega), rfl⟩

theorem ownsBlock_iff {B : Nat} {s : Slab} {p : Nat} (positive : 0 < B) :
    s.ownsBlock B p = true ↔ p ∈ s.blocks B := by
  rw [ownsBlock, Bool.and_eq_true, contains_iff, decide_eq_true_eq, mem_blocks]
  simp only [span, Span.Holds, Span.stop]
  constructor
  · rintro ⟨⟨low, high⟩, multiple⟩
    have whole := Nat.div_add_mod (p - s.base) B
    rw [multiple, Nat.add_zero, Nat.mul_comm] at whole
    refine ⟨(p - s.base) / B, ?_, by omega⟩
    exact (Nat.div_lt_iff_lt_mul positive).mpr (by omega)
  · rintro ⟨i, small, rfl⟩
    have last : i * B + B ≤ s.numBlocks * B := by
      rw [← Nat.succ_mul]
      exact Nat.mul_le_mul_right B small
    exact ⟨⟨by omega, by omega⟩, by rw [Nat.add_sub_cancel_left, Nat.mul_mod_left]⟩

end Slab

def blocksOf (BlockSize : Nat) (slabs : List Slab) : List Nat :=
  slabs.flatMap (Slab.blocks BlockSize)

theorem mem_blocksOf {B : Nat} {slabs : List Slab} {x : Nat} :
    x ∈ blocksOf B slabs ↔ ∃ s ∈ slabs, x ∈ s.blocks B := List.mem_flatMap

/-- The slabs of one pool never overlap. -/
def SlabsApart (BlockSize : Nat) (slabs : List Slab) : Prop :=
  slabs.Pairwise (fun s t => (s.span BlockSize).Apart (t.span BlockSize))

theorem SlabsApart.apart {B : Nat} {slabs : List Slab} (apart : SlabsApart B slabs)
    {s t : Slab} (left : s ∈ slabs) (right : t ∈ slabs) (different : s ≠ t) :
    (s.span B).Apart (t.span B) :=
  Span.Apart.of_pairwise apart left right different

/-- Distinct blocks of a pool never overlap, whichever slabs they come from. -/
theorem SlabsApart.blocks_apart {B : Nat} {slabs : List Slab} (apart : SlabsApart B slabs)
    {x y : Nat} (left : x ∈ blocksOf B slabs) (right : y ∈ blocksOf B slabs)
    (different : x ≠ y) : (Span.mk x B).Apart ⟨y, B⟩ := by
  obtain ⟨s, sMember, xMember⟩ := mem_blocksOf.mp left
  obtain ⟨t, tMember, yMember⟩ := mem_blocksOf.mp right
  by_cases same : s = t
  · subst same
    exact Slab.blocks_apart xMember yMember different
  · exact (apart.apart sMember tMember same).mono (Slab.block_inside xMember)
      (Slab.block_inside yMember)

/-- At most one slab contains an address, so the first hit of a search is the only one. -/
theorem SlabsApart.find {B : Nat} {slabs : List Slab} (apart : SlabsApart B slabs) {s : Slab}
    {a : Nat} (member : s ∈ slabs) (held : (s.span B).Holds a) :
    slabs.find? (fun t => t.contains B a) = some s := by
  cases found : slabs.find? (fun t => t.contains B a) with
  | none =>
      have absent := List.find?_eq_none.mp found s member
      exact absurd (Slab.contains_iff.mpr held) absent
  | some t =>
      have accepted := List.find?_some found
      have hit : (t.span B).Holds a := Slab.contains_iff.mp accepted
      by_cases same : t = s
      · rw [same]
      · exact absurd held
          ((apart.apart (List.mem_of_find?_eq_some found) member same).not_holds hit)

/-- Linking touches only the bytes of the linked region. -/
theorem linkBlocks_outside (B : Nat) (wide : wordBytes ≤ B) (last : Nat) (n : Nat) :
    ∀ (m : ByteMemory) (b : Nat), SameOutside m (linkBlocks B m b last n) [⟨b, n * B⟩] := by
  induction n with
  | zero => exact fun m b => SameOutside.refl m _
  | succ n ih =>
      intro m b
      have size : (n + 1) * B = n * B + B := Nat.succ_mul n B
      have word : SameOutside m (writeWord m b (if n = 0 then last else b + B))
          [⟨b, (n + 1) * B⟩] := by
        apply (SameOutside.writeWord m b _).mono
        intro s member
        obtain rfl := List.mem_singleton.mp member
        refine ⟨_, List.mem_cons_self, ?_⟩
        constructor <;> simp only [Span.stop] <;> omega
      refine word.trans ((ih _ (b + B)).mono ?_)
      intro s member
      obtain rfl := List.mem_singleton.mp member
      refine ⟨_, List.mem_cons_self, ?_⟩
      constructor <;> simp only [Span.stop] <;> omega

/-- After the walk the chain from the region's start runs through its blocks in address
order and continues with whatever chain `last` headed. -/
theorem linkBlocks_linked (B : Nat) (wide : wordBytes ≤ B) (last : Nat) (rest : List Nat)
    (lastWord : last < Words.radix) (n : Nat) :
    ∀ (m : ByteMemory) (b : Nat), 0 < b → b + n * B < Words.radix →
      Linked (readWord m) last rest →
      (∀ x ∈ rest, (Span.mk b (n * B)).Apart ⟨x, wordBytes⟩) →
      Linked (readWord (linkBlocks B m b last n)) (if n = 0 then last else b)
        (Slab.blocks B ⟨b, n⟩ ++ rest) := by
  induction n with
  | zero =>
      intro m b _ _ linked _
      exact linked
  | succ n ih =>
      intro m b positive bounded linked apart
      have size : (n + 1) * B = n * B + B := Nat.succ_mul n B
      let target := if n = 0 then last else b + B
      have targetWord : target < Words.radix := by
        simp only [target]
        split <;> omega
      have restLinked : Linked (readWord (writeWord m b target)) last rest := by
        apply linked.congr
        intro x member
        apply ByteMemory.readWord_writeWord_apart
        have separate := apart x member
        simp only [Span.Apart, Span.stop] at separate
        omega
      have tail := ih (writeWord m b target) (b + B) (by omega) (by omega) restLinked (by
        intro x member
        have separate := apart x member
        simp only [Span.Apart, Span.stop] at separate ⊢
        omega)
      have first : readWord (linkBlocks B (writeWord m b target) (b + B) last n) b = target := by
        rw [(linkBlocks_outside B wide last n (writeWord m b target) (b + B)).readWord (by
          intro s member
          obtain rfl := List.mem_singleton.mp member
          exact Or.inr (by simp only [Span.stop]; omega))]
        exact ByteMemory.readWord_writeWord m b target targetWord
      rw [Slab.blocks_succ, List.cons_append, if_neg (Nat.succ_ne_zero n)]
      refine ⟨rfl, by omega, ?_⟩
      change Linked _ (readWord (linkBlocks B (writeWord m b target) (b + B) last n) b) _
      rw [first]
      exact tail

/-- The intrusive free list in memory spells `free`; `live` are the blocks handed out.
No block is listed twice and all of them lie in the disjoint regions `slabs`. -/
structure PoolInv (BlockSize : Nat) (m : ByteMemory) (head : Nat) (slabs : List Slab)
    (free live : List Nat) : Prop where
  links : Linked (readWord m) head free
  nodup : (free ++ live).Nodup
  member : ∀ x ∈ free ++ live, x ∈ blocksOf BlockSize slabs
  apart : SlabsApart BlockSize slabs
  region : ∀ s ∈ slabs, s.Region BlockSize

namespace PoolInv

variable {B : Nat} {m : ByteMemory} {head : Nat} {slabs : List Slab} {free live : List Nat}

theorem blocks_apart (inv : PoolInv B m head slabs free live) {x y : Nat}
    (left : x ∈ free ++ live) (right : y ∈ free ++ live) (different : x ≠ y) :
    (Span.mk x B).Apart ⟨y, B⟩ :=
  inv.apart.blocks_apart (inv.member x left) (inv.member y right) different

theorem free_not_live (inv : PoolInv B m head slabs free live) {x : Nat} (stocked : x ∈ free) :
    x ∉ live :=
  fun out => (List.nodup_append'.mp inv.nodup).2.2 stocked out

theorem block_bounds (inv : PoolInv B m head slabs free live) {x : Nat}
    (listed : x ∈ free ++ live) : 0 < x ∧ x + B < Words.radix := by
  obtain ⟨s, member, block⟩ := mem_blocksOf.mp (inv.member x listed)
  obtain ⟨positive, bounded⟩ := inv.region s member
  obtain ⟨low, high⟩ := Slab.block_inside block
  simp only [Slab.span, Span.stop] at low high
  omega

theorem head_lt (inv : PoolInv B m head slabs free live) : head < Words.radix := by
  by_cases null : head = 0
  · rw [null]
    decide
  · obtain ⟨rest, rfl, _⟩ := inv.links.of_head null
    have bounds := inv.block_bounds (x := head) (by simp)
    omega

theorem congr {m' : ByteMemory} (inv : PoolInv B m head slabs free live)
    (same : ∀ x ∈ free, readWord m' x = readWord m x) : PoolInv B m' head slabs free live :=
  ⟨inv.links.congr same, inv.nodup, inv.member, inv.apart, inv.region⟩

/-- Writes apart from every slab leave the pool alone. -/
theorem outside {m' : ByteMemory} {touched : List Span}
    (inv : PoolInv B m head slabs free live) (wide : wordBytes ≤ B)
    (same : SameOutside m m' touched)
    (separate : ∀ t ∈ touched, ∀ s ∈ slabs, t.Apart (s.span B)) :
    PoolInv B m' head slabs free live := by
  apply inv.congr
  intro x stocked
  apply same.readWord
  intro t written
  obtain ⟨s, member, block⟩ := mem_blocksOf.mp (inv.member x (List.mem_append_left _ stocked))
  apply (separate t written s member).mono (Span.Inside.refl t)
  obtain ⟨low, high⟩ := Slab.block_inside block
  simp only [Span.stop] at low high
  constructor <;> simp only [Span.stop] <;> omega

/-- What keeps the regions around all slabs keeps the pool. -/
theorem sameInside {m' : ByteMemory} {kept : List Span}
    (inv : PoolInv B m head slabs free live) (wide : wordBytes ≤ B)
    (same : SameInside m m' kept)
    (homes : ∀ s ∈ slabs, ∃ k ∈ kept, (s.span B).Inside k) :
    PoolInv B m' head slabs free live := by
  apply inv.congr
  intro x stocked
  obtain ⟨s, member, block⟩ := mem_blocksOf.mp (inv.member x (List.mem_append_left _ stocked))
  obtain ⟨k, home, inside⟩ := homes s member
  have word : (Span.mk x wordBytes).Inside ⟨x, B⟩ := ⟨Nat.le_refl _, Nat.add_le_add_left wide x⟩
  exact same.readWord home ((word.trans (Slab.block_inside block)).trans inside)

/-- Writes confined to a block that is out leave the pool alone. -/
theorem liveWrite {m' : ByteMemory} {x : Nat} {touched : List Span}
    (inv : PoolInv B m head slabs free live) (wide : wordBytes ≤ B) (out : x ∈ live)
    (same : SameOutside m m' touched) (confined : ∀ t ∈ touched, t.Inside ⟨x, B⟩) :
    PoolInv B m' head slabs free live := by
  apply inv.congr
  intro y stocked
  apply same.readWord
  intro t written
  have different : x ≠ y := fun equal => inv.free_not_live stocked (equal ▸ out)
  have separate := inv.blocks_apart (List.mem_append_right _ out) (List.mem_append_left _ stocked)
    different
  apply separate.mono (confined t written)
  constructor <;> simp only [Span.stop] <;> omega

/-- Forgetting that some blocks are out keeps the invariant: they are merely leaked. -/
theorem leak {live' : List Nat} (inv : PoolInv B m head slabs free live)
    (fewer : live'.Sublist live) : PoolInv B m head slabs free live' := by
  have sub : (free ++ live').Sublist (free ++ live) := fewer.append_left free
  exact ⟨inv.links, inv.nodup.sublist sub, fun x listed => inv.member x (sub.subset listed),
    inv.apart, inv.region⟩

/-- The constructor's slab is one address-ordered chain of its blocks. -/
theorem ofSlab {N : Nat} (m : ByteMemory) (s : SlabAlloc) (wide : wordBytes ≤ B)
    (nonempty : 0 < N) (region : Slab.Region B ⟨s.aligned, N⟩) :
    PoolInv B (BlockPool.ofSlab B N m s).2 s.aligned [⟨s.aligned, N⟩]
      (Slab.blocks B ⟨s.aligned, N⟩) [] := by
  have chain := linkBlocks_linked B wide 0 [] (by decide) N m s.aligned region.1 region.2
    rfl (by intro x member; cases member)
  rw [if_neg (Nat.ne_of_gt nonempty), List.append_nil] at chain
  refine ⟨chain, ?_, ?_, List.pairwise_singleton _ _, ?_⟩
  · rw [List.append_nil]
    exact chain.nodup
  · intro x listed
    rw [List.append_nil] at listed
    exact mem_blocksOf.mpr ⟨_, List.mem_cons_self, listed⟩
  · intro t member
    obtain rfl := List.mem_singleton.mp member
    exact region

theorem pop (inv : PoolInv B m head slabs free live) (nonnull : head ≠ 0) :
    ∃ rest, free = head :: rest ∧
      PoolInv B m (readWord m head) slabs rest (head :: live) := by
  obtain ⟨rest, rfl, tail⟩ := inv.links.of_head nonnull
  have moved : (rest ++ head :: live).Perm (head :: rest ++ live) := List.perm_middle
  exact ⟨rest, rfl, tail, moved.nodup_iff.mpr inv.nodup,
    fun x listed => inv.member x (moved.subset listed), inv.apart, inv.region⟩

/-- Pushing a block that is out writes only its own first word. -/
theorem push {p : Nat} (inv : PoolInv B m head slabs free live) (wide : wordBytes ≤ B)
    (out : p ∈ live) :
    PoolInv B (writeWord m p head) p slabs (p :: free) (live.erase p) := by
  have listed : p ∈ free ++ live := List.mem_append_right _ out
  have moved : (p :: free ++ live.erase p).Perm (free ++ live) :=
    List.perm_middle.symm.trans ((List.perm_cons_erase out).symm.append_left free)
  refine ⟨⟨rfl, Nat.ne_of_gt (inv.block_bounds listed).1, ?_⟩, moved.nodup_iff.mpr inv.nodup,
    fun x member => inv.member x (moved.subset member), inv.apart, inv.region⟩
  rw [ByteMemory.readWord_writeWord m p head inv.head_lt]
  apply inv.links.congr
  intro x stocked
  apply ByteMemory.readWord_writeWord_apart
  have different : p ≠ x := fun equal => inv.free_not_live stocked (equal ▸ out)
  have separate := inv.blocks_apart listed (List.mem_append_left _ stocked) different
  simp only [Span.Apart, Span.stop] at separate
  omega

/-- Linking a fresh region puts its blocks, in address order, on top of the free list. -/
theorem link {s : Slab} (inv : PoolInv B m head slabs free live) (wide : wordBytes ≤ B)
    (nonempty : 0 < s.numBlocks) (region : s.Region B)
    (fresh : ∀ t ∈ slabs, (t.span B).Apart (s.span B)) :
    PoolInv B (linkBlocks B m s.base head s.numBlocks) s.base (slabs ++ [s])
      (s.blocks B ++ free) live := by
  have chain := linkBlocks_linked B wide head free inv.head_lt s.numBlocks m s.base region.1
    region.2 inv.links (by
      intro x stocked
      obtain ⟨t, member, block⟩ := mem_blocksOf.mp (inv.member x (List.mem_append_left _ stocked))
      apply (fresh t member).symm.mono (Span.Inside.refl _)
      obtain ⟨low, high⟩ := Slab.block_inside block
      simp only [Span.stop] at low high
      constructor <;> simp only [Span.stop] <;> omega)
  rw [if_neg (Nat.ne_of_gt nonempty)] at chain
  have disjoint : ∀ x ∈ s.blocks B, ∀ y ∈ free ++ live, x ≠ y := by
    intro x new y old equal
    obtain ⟨t, member, block⟩ := mem_blocksOf.mp (inv.member y old)
    have separate := (fresh t member).mono (Slab.block_inside block) (Slab.block_inside new)
    have positive : 0 < B := Nat.lt_of_lt_of_le (by decide) wide
    subst equal
    simp only [Span.Apart, Span.stop] at separate
    omega
  refine ⟨chain, ?_, ?_, ?_, ?_⟩
  · rw [List.append_assoc]
    refine List.nodup_append'.mpr ⟨?_, inv.nodup, fun x new old => disjoint x new x old rfl⟩
    exact (List.nodup_append'.mp chain.nodup).1
  · intro x listed
    rw [List.append_assoc] at listed
    rcases List.mem_append.mp listed with new | old
    · exact mem_blocksOf.mpr ⟨s, by simp, new⟩
    · obtain ⟨t, member, block⟩ := mem_blocksOf.mp (inv.member x old)
      exact mem_blocksOf.mpr ⟨t, List.mem_append_left _ member, block⟩
  · exact List.pairwise_append.mpr ⟨inv.apart, List.pairwise_singleton _ _,
      fun t member u last => by rw [List.mem_singleton.mp last]; exact fresh t member⟩
  · intro t member
    rcases List.mem_append.mp member with old | last
    · exact inv.region t old
    · rw [List.mem_singleton.mp last]
      exact region

end PoolInv

namespace BlockPool

variable {B N : Nat} {m : ByteMemory} {pool : BlockPool}

theorem allocate_null (null : pool.head = 0) : pool.allocate m = (none, pool) := by
  simp [allocate, null]

theorem allocate_head (nonnull : pool.head ≠ 0) :
    pool.allocate m = (some pool.head, { pool with head := readWord m pool.head }) := by
  simp [allocate, nonnull]

theorem ownsBlock_slab (pool : BlockPool) (positive : 0 < B) (some : 0 < N) :
    pool.ownsBlock B N pool.slab = true := by
  simp only [ownsBlock, slabs, Slab.ownsBlock, Slab.contains, List.any_cons,
    Bool.or_eq_true, Bool.and_eq_true, decide_eq_true_eq]
  exact Or.inl ⟨⟨Nat.le_refl _, Nat.lt_add_of_pos_right (Nat.mul_pos some positive)⟩,
    by rw [Nat.sub_self, Nat.zero_mod]⟩

theorem ownsBlock_iff {p : Nat} (positive : 0 < B) :
    pool.ownsBlock B N p = true ↔ p ∈ blocksOf B (pool.slabs N) := by
  rw [ownsBlock, List.any_eq_true, mem_blocksOf]
  simp only [Slab.ownsBlock_iff positive]

/-- The assertions of `deallocate` accept every nonnull block of the recorded slabs. -/
theorem deallocate_ok {p : Nat} (positive : 0 < B) (nonnull : p ≠ 0)
    (block : p ∈ blocksOf B (pool.slabs N)) :
    pool.deallocate B N m p = .ok ({ pool with head := p }, writeWord m p pool.head) := by
  rw [deallocate, if_pos ⟨nonnull, (ownsBlock_iff positive).mpr block⟩]

theorem of_deallocate_ok {p : Nat} {pool' : BlockPool} {m' : ByteMemory} (positive : 0 < B)
    (done : pool.deallocate B N m p = .ok (pool', m')) :
    p ∈ blocksOf B (pool.slabs N) ∧ pool' = { pool with head := p } ∧
      m' = writeWord m p pool.head := by
  rw [deallocate] at done
  split at done
  · rename_i accepted
    cases done
    exact ⟨(ownsBlock_iff positive).mp accepted.2, rfl, rfl⟩
  · cases done

theorem deallocateContaining_eq {s : Slab} {x a : Nat} (apart : SlabsApart B (pool.slabs N))
    (member : s ∈ pool.slabs N) (block : x ∈ s.blocks B) (inside : (Span.mk x B).Holds a) :
    pool.deallocateContaining B N m a = pool.deallocate B N m x := by
  have held : (s.span B).Holds a := (Slab.block_inside block).holds inside
  simp only [deallocateContaining, apart.find member held, Slab.blockOf_eq block inside]

theorem totalBlocks_eq : pool.totalBlocks N = (blocksOf B (pool.slabs N)).length := by
  have folded : ∀ (slabs : List Slab) (start : Nat),
      slabs.foldl (fun total s => total + s.numBlocks) start =
        start + (blocksOf B slabs).length := by
    intro slabs
    induction slabs with
    | nil => intro start; rfl
    | cons s slabs ih =>
        intro start
        simp only [List.foldl_cons, ih, blocksOf, List.flatMap_cons, List.length_append,
          Slab.length_blocks]
        omega
  simp only [totalBlocks, folded, slabs, blocksOf, List.flatMap_cons, List.length_append,
    Slab.length_blocks]

/-- Enough fuel makes the counting loop return the length of the chain. -/
theorem freeCountFrom_linked {p n fuel : Nat} {xs : List Nat} (linked : Linked (readWord m) p xs)
    (enough : xs.length < fuel) : freeCountFrom m fuel p n = some (n + xs.length) := by
  induction xs generalizing p n fuel with
  | nil =>
      cases fuel with
      | zero => simp at enough
      | succ fuel => simp [freeCountFrom, (Links.linked_nil _ p).mp linked]
  | cons x xs ih =>
      obtain ⟨rfl, nonzero, rest⟩ := linked
      cases fuel with
      | zero => simp at enough
      | succ fuel =>
          rw [freeCountFrom, if_neg nonzero, ih rest (by simpa using enough)]
          simp only [List.length_cons, Option.some.injEq]
          omega

end BlockPool

end MemAlloc
