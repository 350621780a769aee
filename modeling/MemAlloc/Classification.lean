import MemAlloc.RefillFailures

set_option autoImplicit false

namespace MemAlloc.SingleThreadAllocator

section Fold

/-- The fold over classes of which at most one is hit. -/
theorem foldl_classes {hit : SizeClass → Bool} {i : SizeClass}
    (only : ∀ j, hit j = true ↔ j = i) (classes : List SizeClass) : ∀ start : Nat,
    classes.foldl (fun found j => if hit j then j.bytes else found) start =
      if i ∈ classes then i.bytes else start := by
  induction classes with
  | nil => intro start; rfl
  | cons j classes ih =>
      intro start
      rw [List.foldl_cons, ih]
      by_cases same : j = i
      · subst same
        simp [(only j).mpr rfl]
      · have missed : ¬ hit j = true := fun accepted => same ((only j).mp accepted)
        have different : i ≠ j := fun equal => same equal.symm
        simp [missed, List.mem_cons, different]

theorem foldl_no_class {hit : SizeClass → Bool} (none : ∀ j, hit j = false)
    (classes : List SizeClass) (start : Nat) :
    classes.foldl (fun found j => if hit j then j.bytes else found) start = start := by
  induction classes generalizing start with
  | nil => rfl
  | cons j classes ih =>
      rw [List.foldl_cons, none j]
      exact ih start

/-- What the fold finds has been hit. -/
theorem of_foldl_classes (hit : SizeClass → Bool) (classes : List SizeClass) : ∀ start : Nat,
    classes.foldl (fun found j => if hit j then j.bytes else found) start = start ∨
      ∃ j, hit j = true ∧
        classes.foldl (fun found j => if hit j then j.bytes else found) start = j.bytes := by
  induction classes with
  | nil => intro start; exact Or.inl rfl
  | cons j classes ih =>
      intro start
      rw [List.foldl_cons]
      rcases ih (if hit j then j.bytes else start) with same | found
      · by_cases accepted : hit j = true
        · rw [if_pos accepted] at same ⊢
          exact Or.inr ⟨j, accepted, same⟩
        · rw [if_neg accepted] at same ⊢
          exact Or.inl same
      · exact Or.inr found

end Fold

theorem contains_iff {a : SingleThreadAllocator} {i : SizeClass} {p : Nat} :
    (a.pools i).contains i.bytes blocksPerSlab p = true ↔
      ∃ s ∈ (a.pools i).slabs blocksPerSlab, (s.span i.bytes).Holds p := by
  rw [BlockPool.contains, List.any_eq_true]
  simp only [Slab.contains_iff]

theorem arenaPointer_ne (i : SizeClass) : i.bytes ≠ kArenaPointer := by
  revert i
  decide

theorem contains_of_classify {a : SingleThreadAllocator} {i : SizeClass} {p : Nat}
    (classified : a.classify p = i.bytes) :
    (a.pools i).contains i.bytes blocksPerSlab p = true := by
  have positive := i.bytes_positive
  rw [classify] at classified
  split at classified
  · omega
  · rw [classifyImpl] at classified
    rcases of_foldl_classes (fun j => (a.pools j).contains j.bytes blocksPerSlab p)
      (List.finRange 7) 0 with nothing | ⟨j, accepted, found⟩
    · simp only [nothing, ne_eq, not_true_eq_false, ↓reduceIte] at classified
      split at classified
      · exact absurd classified.symm (arenaPointer_ne i)
      · omega
    · have nonzero : j.bytes ≠ 0 := Nat.ne_of_gt j.bytes_positive
      simp only [found, ne_eq, nonzero, not_false_eq_true, ↓reduceIte] at classified
      obtain rfl := SizeClass.bytes_injective classified
      exact accepted

/-- The only answers of `classify`. -/
theorem classify_cases (a : SingleThreadAllocator) (p : Nat) :
    a.classify p = 0 ∨ a.classify p = kArenaPointer ∨ ∃ i : SizeClass, a.classify p = i.bytes := by
  rw [classify]
  split
  · exact Or.inl rfl
  · rw [classifyImpl]
    rcases of_foldl_classes (fun j => (a.pools j).contains j.bytes blocksPerSlab p)
      (List.finRange 7) 0 with nothing | ⟨j, _, found⟩
    · simp only [nothing, ne_eq, not_true_eq_false, ↓reduceIte]
      split
      · exact Or.inr (Or.inl rfl)
      · exact Or.inl rfl
    · have nonzero : j.bytes ≠ 0 := Nat.ne_of_gt j.bytes_positive
      simp only [found, ne_eq, nonzero, not_false_eq_true, ↓reduceIte]
      exact Or.inr (Or.inr ⟨j, rfl⟩)

theorem classify_pool {a : SingleThreadAllocator} {i : SizeClass} {p : Nat} (nonnull : p ≠ 0)
    (only : ∀ j, (a.pools j).contains j.bytes blocksPerSlab p = true ↔ j = i) :
    a.classify p = i.bytes := by
  have found := foldl_classes only (List.finRange 7) 0
  rw [if_pos (List.mem_finRange i)] at found
  have nonzero : i.bytes ≠ 0 := Nat.ne_of_gt i.bytes_positive
  rw [classify, if_neg nonnull, classifyImpl]
  simp only [found, ne_eq, nonzero, not_false_eq_true, ↓reduceIte]

theorem classify_no_pool {a : SingleThreadAllocator} {p : Nat} (nonnull : p ≠ 0)
    (outside : ∀ j, (a.pools j).contains j.bytes blocksPerSlab p = false) :
    a.classify p = if a.arena.contains p then kArenaPointer else 0 := by
  have found := foldl_no_class outside (List.finRange 7) 0
  rw [classify, if_neg nonnull, classifyImpl]
  simp only [found, ne_eq, not_true_eq_false, ↓reduceIte]

end MemAlloc.SingleThreadAllocator

namespace MemAlloc.AllocatorRuns

open ByteMemory (readWord writeWord)
open Runs (Run Transition)
open SingleThreadAllocator (Inv Granted kArenaPointer chunkSlab)

/-- The address lies in a block of the pool: of its own slab or of the linked part of a
chunk. -/
def InPool (w : World) (i : SizeClass) (p : Nat) : Prop :=
  ∃ s ∈ w.linked i, ∃ x ∈ s.blocks i.bytes, (Span.mk x i.bytes).Holds p

def usedSpan (w : World) : Span := ⟨w.alloc.arena.base, w.alloc.arena.used⟩

/-- Releasing by the start and the requested size, and releasing by an address inside the
block and the class it is given, both succeed and have the same effect, apart from the
counter of requested bytes. -/
def SameRelease (w : World) (x p : Nat) : Prop :=
  ∃ a₁ m₁ a₂ m₂, w.alloc.deallocate w.mem x (w.sizes x) = .ok (a₁, m₁) ∧
    w.alloc.deallocateContaining w.mem p (w.alloc.classify p) = .ok (a₂, m₂) ∧
    a₂.pools = a₁.pools ∧ m₂ = m₁ ∧ a₂.arena = a₁.arena ∧ a₂.stats.live = a₁.stats.live ∧
    a₂.stats.allocated = a₁.stats.allocated ∧ a₂.stats.freeCount = a₁.stats.freeCount

/-- Addresses are classified by the regions they lie in, which do not overlap, and every
block that is out can be released either way. -/
structure Classified (w : World) : Prop where
  pools : ∀ i p, w.alloc.classify p = i.bytes ↔ InPool w i p
  arena : ∀ p, w.alloc.classify p = kArenaPointer ↔ (usedSpan w).Holds p
  others : ∀ p, (∀ i, ¬ InPool w i p) → ¬ (usedSpan w).Holds p → w.alloc.classify p = 0
  apart : ∀ i j p, InPool w i p → InPool w j p → i = j
  arenaApart : ∀ i p, InPool w i p → ¬ (usedSpan w).Holds p
  blocks : ∀ i, ∀ x ∈ w.client.held i, ∀ p, (Span.mk x (blockFor (w.sizes x))).Holds p →
    w.alloc.classify p = blockFor (w.sizes x) ∧ SameRelease w x p

section State

variable {P : Platform} {w w' : World} {L : Ledger}

theorem inPool_iff {i : SizeClass} {p : Nat} :
    InPool w i p ↔ ∃ s ∈ w.linked i, (s.span i.bytes).Holds p := by
  constructor
  · rintro ⟨s, member, x, block, inside⟩
    exact ⟨s, member, (Slab.block_inside block).holds inside⟩
  · rintro ⟨s, member, held⟩
    have positive := i.bytes_positive
    obtain ⟨low, high⟩ := held
    simp only [Slab.span, Span.stop] at low high
    have whole := Nat.div_add_mod (p - s.base) i.bytes
    have rest := Nat.mod_lt (p - s.base) positive
    rw [Nat.mul_comm] at whole
    refine ⟨s, member, s.base + (p - s.base) / i.bytes * i.bytes, ?_, ?_, ?_⟩
    · refine Slab.mem_blocks.mpr ⟨_, ?_, rfl⟩
      exact (Nat.div_lt_iff_lt_mul positive).mpr (by omega)
    · change s.base + (p - s.base) / i.bytes * i.bytes ≤ p
      omega
    · change p < s.base + (p - s.base) / i.bytes * i.bytes + i.bytes
      omega

theorem contains_recorded (recorded : Recorded w) {i : SizeClass} {p : Nat} :
    (w.alloc.pools i).contains i.bytes blocksPerSlab p = true ↔ InPool w i p := by
  rw [SingleThreadAllocator.contains_iff, recorded i, inPool_iff]

theorem Consistent.pools_apart (consistent : Consistent w L) {i j : SizeClass} {p : Nat}
    (left : InPool w i p) (right : InPool w j p) : i = j := by
  apply Classical.byContradiction
  intro different
  obtain ⟨s, sMember, first⟩ := inPool_iff.mp left
  obtain ⟨t, tMember, second⟩ := inPool_iff.mp right
  rw [← consistent.linked] at sMember tMember
  exact (consistent.inv.apart i j different s sMember t tMember).not_holds first second

theorem Consistent.pool_arena (consistent : Consistent w L) {i : SizeClass} {p : Nat}
    (pooled : InPool w i p) : ¬ (usedSpan w).Holds p := by
  obtain ⟨s, member, held⟩ := inPool_iff.mp pooled
  rw [← consistent.linked] at member
  intro used
  have inside : (usedSpan w).Inside w.alloc.arenaSpan :=
    ⟨Nat.le_refl _, Nat.add_le_add_left consistent.inv.arena.within _⟩
  exact (consistent.inv.arenaApart i s member).not_holds held (inside.holds used)

theorem Consistent.pool_positive (consistent : Consistent w L) {i : SizeClass} {p : Nat}
    (pooled : InPool w i p) : p ≠ 0 := by
  obtain ⟨s, member, held⟩ := inPool_iff.mp pooled
  rw [← consistent.linked] at member
  have positive := ((consistent.inv.pools i).region s member).1
  exact Nat.ne_of_gt (Nat.lt_of_lt_of_le positive held.1)

theorem Consistent.classify_pool (consistent : Consistent w L) (recorded : Recorded w)
    {i : SizeClass} {p : Nat} (pooled : InPool w i p) : w.alloc.classify p = i.bytes := by
  refine SingleThreadAllocator.classify_pool (consistent.pool_positive pooled) (fun j => ?_)
  rw [contains_recorded recorded]
  constructor
  · intro other
    exact consistent.pools_apart other pooled
  · rintro rfl
    exact pooled

theorem Consistent.classify_arena (consistent : Consistent w L) (recorded : Recorded w)
    {p : Nat} : w.alloc.classify p = kArenaPointer ↔ (usedSpan w).Holds p := by
  by_cases pooled : ∃ i, InPool w i p
  · obtain ⟨i, inside⟩ := pooled
    rw [consistent.classify_pool recorded inside]
    constructor
    · intro same
      exact absurd same (SingleThreadAllocator.arenaPointer_ne i)
    · intro used
      exact absurd used (consistent.pool_arena inside)
  · have outside : ∀ j, (w.alloc.pools j).contains j.bytes blocksPerSlab p = false := by
      intro j
      rw [← Bool.not_eq_true, contains_recorded recorded]
      exact fun inside => pooled ⟨j, inside⟩
    by_cases null : p = 0
    · subst null
      have positive := consistent.inv.arena.positive
      constructor
      · intro same
        cases same
      · rintro ⟨low, _⟩
        exact absurd low (Nat.not_le.mpr positive)
    · rw [SingleThreadAllocator.classify_no_pool null outside]
      have member : w.alloc.arena.contains p = true ↔ (usedSpan w).Holds p := by
        simp [Arena.contains, usedSpan, Span.Holds, Span.stop]
      rw [← member]
      split
      · rename_i inside
        exact ⟨fun _ => inside, fun _ => rfl⟩
      · rename_i missed
        exact ⟨fun same => absurd same (by decide), fun inside => absurd inside missed⟩

theorem Consistent.classify_other (consistent : Consistent w L) (recorded : Recorded w)
    {p : Nat} (unpooled : ∀ i, ¬ InPool w i p) (unused : ¬ (usedSpan w).Holds p) :
    w.alloc.classify p = 0 := by
  by_cases null : p = 0
  · rw [SingleThreadAllocator.classify, if_pos null]
  · have outside : ∀ j, (w.alloc.pools j).contains j.bytes blocksPerSlab p = false := by
      intro j
      rw [← Bool.not_eq_true, contains_recorded recorded]
      exact unpooled j
    rw [SingleThreadAllocator.classify_no_pool null outside]
    split
    · rename_i inside
      have used := (consistent.classify_arena recorded).mp (by
        rw [SingleThreadAllocator.classify_no_pool null outside, if_pos inside])
      exact absurd used unused
    · rfl

theorem Consistent.sameRelease (consistent : Consistent w L) (recorded : Recorded w)
    {i : SizeClass} {x p : Nat} (out : x ∈ w.client.held i)
    (inside : (Span.mk x i.bytes).Holds p) : SameRelease w x p := by
  obtain ⟨small, cls⟩ := consistent.sized i x out
  have listed : x ∈ L.held i := consistent.held ▸ out
  have block : x ∈ blocksOf i.bytes ((w.alloc.pools i).slabs blocksPerSlab) := by
    rw [recorded i, ← consistent.linked]
    exact (consistent.inv.pools i).member x (List.mem_append_right _ listed)
  obtain ⟨s, member, start⟩ := mem_blocksOf.mp block
  rw [recorded i] at member
  have classified := consistent.classify_pool recorded ⟨s, member, x, start, inside⟩
  have direct := consistent.inv.deallocate_accepts listed block small cls
  have containing := consistent.inv.deallocateContaining_accepts listed block inside i.bytes_le
    (sizeClassOf_bytes i).symm
  refine ⟨_, _, w.alloc.afterFree i.bytes i x, _, direct, ?_, rfl, rfl, rfl, rfl, rfl, rfl⟩
  rw [classified]
  exact containing

theorem Consistent.classified (consistent : Consistent w L) (recorded : Recorded w) :
    Classified w := by
  refine ⟨fun i p => ⟨?_, fun pooled => consistent.classify_pool recorded pooled⟩,
    fun p => consistent.classify_arena recorded,
    fun p unpooled unused => consistent.classify_other recorded unpooled unused,
    fun i j p left right => consistent.pools_apart left right,
    fun i p pooled => consistent.pool_arena pooled, ?_⟩
  · intro same
    exact (contains_recorded recorded).mp (SingleThreadAllocator.contains_of_classify same)
  · intro i x out p inside
    obtain ⟨small, cls⟩ := consistent.sized i x out
    have size : blockFor (w.sizes x) = i.bytes := (blockFor_eq small).trans (by rw [cls])
    rw [size] at inside ⊢
    have listed : x ∈ L.held i := consistent.held ▸ out
    obtain ⟨s, member, start⟩ := consistent.inv.mem_linked (List.mem_append_right _ listed)
    rw [consistent.linked] at member
    exact ⟨consistent.classify_pool recorded ⟨s, member, x, start, inside⟩,
      consistent.sameRelease recorded out inside⟩

theorem grows_of_classified {e : Event} (consistent : Consistent w L)
    (power : Words.PowerOfTwo P.maxAlign) (noWrap : NoWrap P w e) (taken : Step P w e w')
    (classified : Classified w') : Grows e := by
  rcases grows_or_lost consistent power noWrap taken with grows | ⟨i, body, lost⟩
  · exact grows
  · have linked : (L.link i (chunkSlab i body)).linked i =
        L.linked i ++ [chunkSlab i body] := Function.update_self _ _ _
    have new : chunkSlab i body ∈ w'.linked i := by
      rw [← congrFun lost.after.linked i, linked]
      exact List.mem_append_right _ (List.mem_singleton_self _)
    have start : (Slab.span i.bytes (chunkSlab i body)).Holds body := by
      refine Span.Holds.base ?_
      exact Nat.mul_pos (SingleThreadAllocator.maxBlocks_positive i) i.bytes_positive
    have pooled := (classified.pools i body).mpr (inPool_iff.mpr ⟨_, new, start⟩)
    obtain ⟨s, member, held⟩ := SingleThreadAllocator.contains_iff.mp
      (SingleThreadAllocator.contains_of_classify pooled)
    -- The slab tables are those from before the call.
    have old : s ∈ (w.alloc.pools i).slabs blocksPerSlab := by
      rw [← lost.tables]
      exact member
    have apart := (lost.after.inv.pools i).apart
    rw [linked] at apart
    have separate := (List.pairwise_append.mp apart).2.2 s (consistent.inv.recorded_mem old) _
      (List.mem_singleton_self _)
    exact absurd start (separate.not_holds held)

end State

section Run

variable {τ : Type} {P : Platform} {owner : SizeClass → τ} {arenaOwner : τ}
  {reply : SizeClass → SlabReply} {arenaReply : Option Nat} {h h' : Malloc.Heap τ}
  {m₀ m : ByteMemory} {a : SingleThreadAllocator}

/-- In runs of a new allocator without wrapped arena sums, addresses are classified exactly
and blocks can be released either way in every state, if and only if the slab table grows
whenever a chunk has been obtained. -/
theorem classified_iff (power : Words.PowerOfTwo P.maxAlign)
    (different : Function.Injective owner) (apart : ∀ i, owner i ≠ arenaOwner)
    (built : SingleThreadAllocator.new P owner arenaOwner reply arenaReply h m₀ =
      (.ok (a, m), h'))
    {trace : List (Transition World Event)} {w : World}
    (run : Run (Step P) (World.start m a) trace w)
    (noWrap : ∀ x ∈ trace, NoWrap P x.before x.event) :
    ((∀ x ∈ trace, Classified x.before ∧ Classified x.after) ∧ Classified w) ↔
      ∀ x ∈ trace, Grows x.event := by
  obtain ⟨start, complete, _⟩ := Consistent.start different apart built
  constructor
  · rintro ⟨classified, _⟩ x member
    obtain ⟨_, _, _, _, taken⟩ := run.reached x member
    obtain ⟨_, before⟩ := (run_consistent power start run noWrap).2 x member
    exact grows_of_classified before power (noWrap x member) taken (classified x member).2
  · intro grows
    obtain ⟨⟨⟨_, last⟩, tables⟩, before⟩ := run_recorded power start complete run
      (fun x member => ⟨noWrap x member, grows x member⟩)
    refine ⟨?_, last.classified tables⟩
    intro x member
    obtain ⟨⟨_, consistent⟩, recorded⟩ := before x member
    obtain ⟨_, _, _, _, taken⟩ := run.reached x member
    obtain ⟨_, after⟩ := consistent.step power (noWrap x member) taken
    exact ⟨consistent.classified recorded, after.classified
      (step_grows consistent recorded power (noWrap x member) (grows x member) taken).1⟩

/-- All blocks of 128 bytes are taken and a refill serves the next request. -/
theorem classified_iff_first : ∃ (a : SingleThreadAllocator) (m : ByteMemory)
    (trace : List (Transition World Event)) (w : World), FirstBuilt a m ∧
    Run (Step desktop) (World.start m a) trace w ∧
      (∃ y ∈ trace, ∃ x, y.event = .allocate 100 (some 67108928) true x) ∧ Classified w := by
  obtain ⟨a, m, trace, w, ⟨h', built⟩, run, refilled, meets⟩ := grown_refill_possible
  have power : Words.PowerOfTwo desktop.maxAlign := ⟨4, by decide, rfl⟩
  have apart : ∀ i : SizeClass, some i ≠ none := fun i => Option.some_ne_none i
  exact ⟨a, m, trace, w, ⟨h', built⟩, run, refilled,
    ((classified_iff power (Option.some_injective _) apart built run
      fun y member => (meets y member).1).mpr fun y member => (meets y member).2).2⟩

/-- After a refill whose slab table fails to grow, the new blocks are on the free list but
not classified. -/
theorem not_always_classified : ∃ (a : SingleThreadAllocator) (m : ByteMemory)
    (trace : List (Transition World Event)) (w : World), FirstBuilt a m ∧
    Run (Step desktop) (World.start m a) trace w ∧ ¬ Classified w := by
  obtain ⟨a, m, w, w', L, trace, e, built, run, consistent, taken, noWrap, lost⟩ :=
    lost_refill_possible
  have power : Words.PowerOfTwo desktop.maxAlign := ⟨4, by decide, rfl⟩
  exact ⟨a, m, _, w', built, run,
    fun classified => lost (grows_of_classified consistent power noWrap taken classified)⟩

end Run

end MemAlloc.AllocatorRuns
