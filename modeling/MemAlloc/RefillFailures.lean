import MemAlloc.AllocatorRuns

set_option autoImplicit false

namespace MemAlloc.AllocatorRuns

open ByteMemory (readWord)
open Links (Linked)
open Runs (Run Transition)
open SingleThreadAllocator (Inv Granted chunkSlab)

/-- What the free list of the pool spells in memory. -/
def FreeList (w : World) (i : SizeClass) (xs : List Nat) : Prop :=
  Linked (readWord w.mem) (w.alloc.pools i).head xs

/-- Free lists, slab tables, block totals, the arena and the counters are the same. -/
structure Unchanged (w w' : World) : Prop where
  freeLists : ∀ i xs, FreeList w i xs ↔ FreeList w' i xs
  tables : ∀ i, (w'.alloc.pools i).slabs blocksPerSlab = (w.alloc.pools i).slabs blocksPerSlab
  totals : ∀ i, (w'.alloc.pools i).totalBlocks blocksPerSlab =
    (w.alloc.pools i).totalBlocks blocksPerSlab
  arena : w'.alloc.arena = w.alloc.arena
  stats : w'.alloc.stats = w.alloc.stats

/-- A small request that returns `nullptr` or throws changes nothing. -/
def FailsAtomically (x : Transition World Event) : Prop :=
  ∀ n body recorded result, x.event = .allocate n body recorded result → n ≤ maxSmall →
    (∀ p, result ≠ .ok (some p)) → Unchanged x.before x.after

/-- The walk of every free list ends, its blocks pass both tests of their pool, and it is
no longer than the pool has blocks. -/
def SoundPools (w : World) : Prop :=
  ∀ i, ∃ xs, FreeList w i xs ∧
    (∀ x ∈ xs, (w.alloc.pools i).contains i.bytes blocksPerSlab x = true ∧
      (w.alloc.pools i).ownsBlock i.bytes blocksPerSlab x = true) ∧
    (∃ fuel, (w.alloc.pools i).freeCount fuel w.mem = some xs.length) ∧
    xs.length ≤ (w.alloc.pools i).totalBlocks blocksPerSlab

section Steps

variable {P : Platform} {w w' : World} {L : Ledger}

theorem contains_of_block {pool : BlockPool} {B N x : Nat} (positive : 0 < B)
    (block : x ∈ blocksOf B (pool.slabs N)) : pool.contains B N x = true := by
  obtain ⟨s, member, start⟩ := mem_blocksOf.mp block
  refine List.any_eq_true.mpr ⟨s, member, Slab.contains_iff.mpr ?_⟩
  exact (Slab.block_inside start).holds (Span.Holds.base positive)

theorem Consistent.sound (consistent : Consistent w L) (recorded : Recorded w) :
    SoundPools w := by
  intro i
  have whole := consistent.whole i
  rw [consistent.linked, ← recorded i] at whole
  have total : (w.alloc.pools i).totalBlocks blocksPerSlab =
      (blocksOf i.bytes ((w.alloc.pools i).slabs blocksPerSlab)).length :=
    BlockPool.totalBlocks_eq
  have size := whole.length_eq
  rw [List.length_append, ← total] at size
  refine ⟨L.free i, (consistent.inv.pools i).links, ?_, ⟨(L.free i).length + 1, ?_⟩, by omega⟩
  · intro x stocked
    have block := whole.subset (List.mem_append_left _ stocked)
    exact ⟨contains_of_block i.bytes_positive block,
      (BlockPool.ownsBlock_iff i.bytes_positive).mpr block⟩
  · rw [BlockPool.freeCount, BlockPool.freeCountFrom_linked (consistent.inv.pools i).links
      (Nat.lt_succ_self _), Nat.zero_add]

/-- A step that records what it links keeps the tables complete. -/
theorem recorded_step {L' : Ledger} {n : Nat} {body : Option Nat} {grows : Bool}
    {a' : SingleThreadAllocator} {x : Except Exn (Option Nat)} {m' : ByteMemory}
    (granted : Granted P grows w.alloc L n body x a' L') (recorded : Recorded w)
    (linked : L.linked = w.linked) (grown : grows = true ∨ body = none) :
    Recorded ⟨m', a', w.client.gain n x, w.linkedAfter n body, w.sizesAfter n x⟩ := by
  have after : ∀ j, L'.linked j = w.linkedAfter n body j := by
    intro j
    rw [granted.linked j, linked]
    rfl
  intro j
  change (a'.pools j).slabs blocksPerSlab = w.linkedAfter n body j
  rw [← after j]
  exact granted.recorded (fun i => by rw [recorded i, linked]) grown j

theorem Unchanged.of_ledger {m' : ByteMemory} {client : Client} {linked : SizeClass → List Slab}
    {sizes : Nat → Nat} (before : Inv w.mem w.alloc L) (after : Inv m' w.alloc L) :
    Unchanged w ⟨m', w.alloc, client, linked, sizes⟩ := by
  refine ⟨?_, fun _ => rfl, fun _ => rfl, rfl, rfl⟩
  intro i xs
  constructor
  · intro spelled
    rw [spelled.unique (before.pools i).links]
    exact (after.pools i).links
  · intro spelled
    rw [spelled.unique (after.pools i).links]
    exact (before.pools i).links

/-- Each step keeps the tables complete and fails atomically when what it links is
recorded. -/
theorem step_grows {e : Event} (consistent : Consistent w L) (recorded : Recorded w)
    (power : Words.PowerOfTwo P.maxAlign) (noWrap : NoWrap P w e) (grows : Grows e)
    (taken : Step P w e w') : Recorded w' ∧ FailsAtomically ⟨w, e, w'⟩ := by
  cases taken with
  | @allocate σ _ n source env env' chunk grown x a' m' word sound done =>
      rw [← consistent.linked] at sound
      obtain ⟨_, _, _, _, L', body, run, granted, inv, _, _, obtained⟩ :=
        consistent.inv.allocate grown power word noWrap sound
      rw [done] at run
      cases run
      rw [Grows, ← obtained] at grows
      rw [← obtained]
      refine ⟨recorded_step granted recorded consistent.linked grows, ?_⟩
      intro _ _ _ _ same small failed
      cases same
      cases granted with
      | pool _ _ _ => exact absurd rfl (failed _)
      | refused _ _ _ _ => exact Unchanged.of_ledger consistent.inv inv
      | lost unrecorded _ _ _ =>
          rcases grows with recorded | missing
          · rw [unrecorded] at recorded
            cases recorded
          · cases missing
      | refilled _ _ _ _ _ => exact absurd rfl (failed _)
      | arena large _ => exact absurd small (Nat.not_le.mpr large)
      | arenaFull large _ => exact absurd small (Nat.not_le.mpr large)
  | allocateAligned nonempty word powerOfTwo done =>
      obtain ⟨_, _, pools, _⟩ := consistent.allocateAligned word powerOfTwo noWrap done
      refine ⟨fun i => ?_, fun _ _ _ _ same => by cases same⟩
      rw [pools]
      exact recorded i
  | @free _ i form x p n a' m' out names small cls done =>
      obtain ⟨rfl, _⟩ := consistent.free out names small done
      refine ⟨fun j => ?_, fun _ _ _ _ same => by cases same⟩
      by_cases same : j = i
      · subst same
        simpa [SingleThreadAllocator.afterFree, SingleThreadAllocator.setPool, BlockPool.slabs]
          using recorded j
      · simpa [SingleThreadAllocator.afterFree, SingleThreadAllocator.setPool, same]
          using recorded j
  | @freeArena _ form s p n a' m' out names large done =>
      rw [form.call_large _ _ large] at done
      cases done
      exact ⟨recorded, fun _ _ _ _ same => by cases same⟩
  | write out inside => exact ⟨recorded, fun _ _ _ _ same => by cases same⟩
  | writeArena out inside => exact ⟨recorded, fun _ _ _ _ same => by cases same⟩

/-- A small request throws after its chunk has been linked, for the slab table did not grow. -/
structure LostRefill (w w' : World) (L : Ledger) (e : Event) (i : SizeClass) (body : Nat) :
    Prop where
  failed : ∃ n obtained recorded x, e = .allocate n obtained recorded x ∧ n ≤ maxSmall ∧
    ∀ p, x ≠ .ok (some p)
  empty : L.free i = []
  after : Consistent w' (L.link i (chunkSlab i body))
  tables : (w'.alloc.pools i).slabs blocksPerSlab = (w.alloc.pools i).slabs blocksPerSlab

/-- Whatever a step links is recorded, unless a refill is lost. -/
theorem grows_or_lost {e : Event} (consistent : Consistent w L)
    (power : Words.PowerOfTwo P.maxAlign) (noWrap : NoWrap P w e) (taken : Step P w e w') :
    Grows e ∨ ∃ i body, LostRefill w w' L e i body := by
  cases taken with
  | @allocate σ _ n source env env' chunk grown x a' m' word sound done =>
      rw [← consistent.linked] at sound
      obtain ⟨_, _, _, _, L', body, run, granted, inv, _, _, obtained⟩ :=
        consistent.inv.allocate grown power word noWrap sound
      rw [done] at run
      cases run
      rw [Grows, ← obtained]
      have after := consistent.allocate granted inv
      cases granted with
      | @lost i body unrecorded small cls empty =>
          refine Or.inr ⟨i, body, ⟨_, _, _, _, rfl, small, by simp⟩, empty, after, ?_⟩
          simp [SingleThreadAllocator.setPool, BlockPool.grown_slabs]
      | pool _ _ _ => exact Or.inl (Or.inr rfl)
      | refused _ _ _ _ => exact Or.inl (Or.inr rfl)
      | refilled recorded _ _ _ _ => exact Or.inl (Or.inl recorded)
      | arena _ _ => exact Or.inl (Or.inr rfl)
      | arenaFull _ _ => exact Or.inl (Or.inr rfl)
  | allocateAligned _ _ _ _ => exact Or.inl trivial
  | free _ _ _ _ _ => exact Or.inl trivial
  | freeArena _ _ _ _ => exact Or.inl trivial
  | write _ _ => exact Or.inl trivial
  | writeArena _ _ => exact Or.inl trivial

theorem grows_of_atomic {e : Event} (consistent : Consistent w L)
    (power : Words.PowerOfTwo P.maxAlign) (noWrap : NoWrap P w e) (taken : Step P w e w')
    (atomic : FailsAtomically ⟨w, e, w'⟩) : Grows e := by
  rcases grows_or_lost consistent power noWrap taken with grows | ⟨i, body, lost⟩
  · exact grows
  · obtain ⟨n, obtained, grown, x, event, small, failed⟩ := lost.failed
    have same := (atomic n obtained grown x event small failed).freeLists i []
    have before : FreeList w i [] := (consistent.inv.head_null).mpr lost.empty
    have after := (same.mp before).unique (lost.after.inv.pools i).links
    have size := congrArg List.length after
    simp only [Ledger.link, Ledger.setPool, Function.update_self, List.length_append,
      Slab.length_blocks, List.length_nil, chunkSlab] at size
    have positive := SingleThreadAllocator.maxBlocks_positive i
    omega

end Steps

section Run

variable {τ : Type} {P : Platform} {owner : SizeClass → τ} {arenaOwner : τ}
  {reply : SizeClass → SlabReply} {arenaReply : Option Nat} {h h' : Malloc.Heap τ}
  {m₀ m : ByteMemory} {a : SingleThreadAllocator}

/-- Runs without wrapped arena sums in which every linked slab is recorded. -/
theorem run_recorded (power : Words.PowerOfTwo P.maxAlign) {w₀ w : World} {L₀ : Ledger}
    (start : Consistent w₀ L₀) (complete : Recorded w₀) {trace : List (Transition World Event)}
    (run : Run (Step P) w₀ trace w)
    (meets : ∀ x ∈ trace, NoWrap P x.before x.event ∧ Grows x.event) :
    ((∃ L, Consistent w L) ∧ Recorded w) ∧
      ∀ x ∈ trace, (∃ L, Consistent x.before L) ∧ Recorded x.before := by
  let inv : World → Prop := fun w => (∃ L, Consistent w L) ∧ Recorded w
  have keep : ∀ w e w', inv w → NoWrap P w e ∧ Grows e → Step P w e w' → inv w' := by
    rintro w e w' ⟨⟨_, consistent⟩, recorded⟩ ⟨noWrap, grows⟩ taken
    exact ⟨consistent.step power noWrap taken,
      (step_grows consistent recorded power noWrap grows taken).1⟩
  have first : inv w₀ := ⟨⟨_, start⟩, complete⟩
  exact ⟨run.invariantWhere first keep meets, run.invariantBefore first keep meets⟩

/-- In runs of a new allocator without wrapped arena sums: failing small requests change
nothing and all free blocks belong to their pools, if and only if the slab table grows
whenever a chunk has been obtained. -/
theorem refill_atomic_iff (power : Words.PowerOfTwo P.maxAlign)
    (different : Function.Injective owner) (apart : ∀ i, owner i ≠ arenaOwner)
    (built : SingleThreadAllocator.new P owner arenaOwner reply arenaReply h m₀ =
      (.ok (a, m), h'))
    {trace : List (Transition World Event)} {w : World}
    (run : Run (Step P) (World.start m a) trace w)
    (noWrap : ∀ x ∈ trace, NoWrap P x.before x.event) :
    ((∀ x ∈ trace, FailsAtomically x ∧ SoundPools x.before) ∧ SoundPools w) ↔
      ∀ x ∈ trace, Grows x.event := by
  obtain ⟨start, complete, _⟩ := Consistent.start different apart built
  constructor
  · rintro ⟨atomic, _⟩ x member
    obtain ⟨_, _, _, _, taken⟩ := run.reached x member
    obtain ⟨_, before⟩ := (run_consistent power start run noWrap).2 x member
    exact grows_of_atomic before power (noWrap x member) taken (atomic x member).1
  · intro grows
    obtain ⟨⟨⟨_, last⟩, tables⟩, before⟩ := run_recorded power start complete run
      (fun x member => ⟨noWrap x member, grows x member⟩)
    refine ⟨?_, last.sound tables⟩
    intro x member
    obtain ⟨⟨_, consistent⟩, recorded⟩ := before x member
    obtain ⟨_, _, _, _, taken⟩ := run.reached x member
    exact ⟨(step_grows consistent recorded power (noWrap x member) (grows x member) taken).2,
      consistent.sound recorded⟩

/-- A chunk source that has nothing to write. -/
theorem SoundReply.quiet {σ : Type} {a : SingleThreadAllocator} {linked : SizeClass → List Slab}
    {m : ByteMemory} {e : σ} :
    SingleThreadAllocator.SoundReply a linked m ⟨0, 0⟩
      ((.ok none, e, m) : Except Exn (Option Nat) × σ × ByteMemory) := by
  refine ⟨⟨fun i s _ => Or.inl (Nat.zero_le _), Or.inl (Nat.zero_le _), by decide⟩,
    ByteMemory.SameOutside.refl _ _, ?_⟩
  intro b answered
  cases answered

/-- A stocked pool serves a request whatever the chunk source does. -/
theorem stocked_step {w : World} {L : Ledger} {n p : Nat} {rest : List Nat}
    (power : Words.PowerOfTwo P.maxAlign) (consistent : Consistent w L) (small : n ≤ maxSmall)
    (stocked : L.free (sizeClassOf n small) = p :: rest) :
    ∃ body w', Step P w (.allocate n body true (.ok (some p))) w' ∧
      Consistent w' (L.take (sizeClassOf n small) p rest) ∧ w'.linked = w.linked ∧
      w'.alloc.arena = w.alloc.arena ∧ w'.client = w.client.gain n (.ok (some p)) ∧
      w'.sizes = w.sizesAfter n (.ok (some p)) := by
  have word : n < Words.radix :=
    Nat.lt_of_le_of_lt small (by simp only [maxSmall, Words.radix]; omega)
  have noWrap : maxSmall < n → w.alloc.arena.NoWrap n P.maxAlign :=
    fun large => absurd small (Nat.not_le.mpr large)
  have sound : ∀ small : n ≤ maxSmall, SingleThreadAllocator.SoundReply w.alloc L.linked w.mem
      ⟨0, 0⟩ (ChunkSource.none (sizeClassOf n small).bytes () w.mem) :=
    fun _ => SoundReply.quiet
  obtain ⟨x, a', e', m', L', body, run, granted, inv, _, _, obtained⟩ :=
    consistent.inv.allocate true power word noWrap sound
  have taken := Step.allocate (P := P) (w := w) word (fun _ => SoundReply.quiet) run
  rw [← obtained] at taken
  have after := consistent.allocate granted inv
  cases granted with
  | @pool i q head tail _ cls stock =>
      subst cls
      rw [stocked] at stock
      cases stock
      refine ⟨_, _, taken, after, ?_, rfl, rfl, rfl⟩
      funext j
      simp [World.linkedAfter]
  | refused _ cls empty _ =>
      subst cls
      rw [stocked] at empty
      cases empty
  | lost _ _ cls empty =>
      subst cls
      rw [stocked] at empty
      cases empty
  | refilled _ _ cls empty _ =>
      subst cls
      rw [stocked] at empty
      cases empty
  | arena large _ => exact absurd small (Nat.not_le.mpr large)
  | arenaFull large _ => exact absurd small (Nat.not_le.mpr large)

/-- A client can exhaust a pool. -/
theorem exhausted {n : Nat} (power : Words.PowerOfTwo P.maxAlign) (small : n ≤ maxSmall)
    (free : List Nat) : ∀ (w : World) (L : Ledger), Consistent w L →
      L.free (sizeClassOf n small) = free →
      ∃ trace w' L', Run (Step P) w trace w' ∧
        (∀ x ∈ trace, NoWrap P x.before x.event ∧ Grows x.event) ∧ Consistent w' L' ∧
        L'.free (sizeClassOf n small) = [] ∧ w'.linked = w.linked ∧
        w'.alloc.arena = w.alloc.arena := by
  induction free with
  | nil =>
      intro w L consistent stock
      exact ⟨[], w, L, .nil, by simp, consistent, stock, rfl, rfl⟩
  | cons p rest ih =>
      intro w L consistent stock
      obtain ⟨body, w₁, taken, after, linked, arena, _⟩ :=
        stocked_step power consistent small stock
      have left : (L.take (sizeClassOf n small) p rest).free (sizeClassOf n small) = rest := by
        simp [Ledger.take, Ledger.setPool]
      obtain ⟨trace, w', L', run, meets, last, empty, linked', arena'⟩ := ih w₁ _ after left
      refine ⟨[⟨w, _, w₁⟩] ++ trace, w', L', (Run.nil.snoc taken).append run, ?_, last, empty,
        linked'.trans linked, arena'.trans arena⟩
      intro x member
      rcases List.mem_append.mp member with first | later
      · obtain rfl := List.mem_singleton.mp first
        exact ⟨fun large => absurd small (Nat.not_le.mpr large), Or.inl rfl⟩
      · exact meets x later

/-- A slab of a new allocator near the start of the address space, and its arena, end below
64 MiB. -/
theorem far_chunk {w : World} {a : SingleThreadAllocator} {size : Nat}
    (slabs : ∀ i, (a.pools i).slab = spreadAddress 0 i)
    (arena : a.arena = Arena.ofRegion 16777216 kArenaCapacity)
    (linked : w.linked = a.newLedger.linked) (same : w.alloc.arena = a.arena)
    (bounded : size ≤ 1048576) :
    Inv.FreshChunk w.alloc w.linked ⟨67108864, size⟩ := by
  refine ⟨?_, ?_, ?_⟩
  · intro i s member
    rw [linked] at member
    obtain rfl := List.mem_singleton.mp member
    refine Or.inr ?_
    have small := i.bytes_le
    have index := i.isLt
    simp only [Slab.span, Span.stop, slabs, spreadAddress, blocksPerSlab, maxSmall] at small ⊢
    omega
  · refine Or.inr ?_
    simp only [SingleThreadAllocator.arenaSpan, same, arena, Arena.ofRegion, Span.stop,
      kArenaCapacity]
    omega
  · simp only [Span.stop, Malloc.addressLimit]
    omega

/-- The allocator that the first addresses of an empty C heap give. -/
def FirstBuilt (a : SingleThreadAllocator) (m : ByteMemory) : Prop :=
  ∃ h', SingleThreadAllocator.new desktop some none (spreadReply 0) (some 16777216)
    Malloc.Heap.empty (fun _ => 0) = (.ok (a, m), h')

/-- A refill can be reached, whether or not its slab table grows. -/
theorem refill_possible (recorded : Bool) : ∃ (a : SingleThreadAllocator) (m : ByteMemory)
    (w w' : World) (L : Ledger) (trace : List (Transition World Event))
    (x : Except Exn (Option Nat)), FirstBuilt a m ∧
    Run (Step desktop) (World.start m a)
      (trace ++ [⟨w, .allocate 100 (some 67108928) recorded x, w'⟩]) w' ∧ Consistent w L ∧
      Step desktop w (.allocate 100 (some 67108928) recorded x) w' ∧
      (∀ y ∈ trace, Grows y.event) ∧
      ∀ y ∈ trace ++ [⟨w, .allocate 100 (some 67108928) recorded x, w'⟩],
        NoWrap desktop y.before y.event := by
  obtain ⟨a, m, h', built, slabs, arena, _⟩ := SingleThreadAllocator.new_possible some none
    (fun _ => 0) Malloc.Heap.empty (Nat.dvd_zero _) (by decide) (fun b member => by cases member)
  have power : Words.PowerOfTwo desktop.maxAlign := ⟨4, by decide, rfl⟩
  have apart : ∀ i : SizeClass, some i ≠ none := fun i => Option.some_ne_none i
  obtain ⟨start, _, _⟩ := Consistent.start (P := desktop) (Option.some_injective _) apart built
  have small : 100 ≤ maxSmall := by decide
  obtain ⟨trace, w, L, run, meets, consistent, empty, linked, same⟩ :=
    exhausted power small _ _ _ start rfl
  let source : ChunkSource Unit := fun _ e m => (.ok (some 67108928), e, m)
  have sound : ∀ small : 100 ≤ maxSmall,
      SingleThreadAllocator.SoundReply w.alloc w.linked w.mem ⟨67108864, 65536⟩
        (source (sizeClassOf 100 small).bytes () w.mem) := by
    refine fun _ => ⟨far_chunk slabs arena linked same (by decide),
      ByteMemory.SameOutside.refl _ _, ?_⟩
    intro b answered
    cases answered
    exact ⟨by decide, by decide, by decide⟩
  have null : (w.alloc.pools (sizeClassOf 100 small)).head = 0 :=
    consistent.inv.head_null.mpr empty
  have obtained : w.alloc.obtains source 100 () w.mem = some 67108928 :=
    SingleThreadAllocator.obtains_empty small null
  rcases done : w.alloc.allocate desktop source recorded 100 () w.mem with ⟨x, a', e', m'⟩
  have taken := Step.allocate (P := desktop) (w := w) (by decide) sound done
  rw [obtained] at taken
  refine ⟨a, m, w, _, L, trace, x, ⟨h', built⟩, run.snoc taken, consistent, taken,
    fun y member => (meets y member).2, ?_⟩
  intro y member
  rcases List.mem_append.mp member with earlier | last
  · exact (meets y earlier).1
  · obtain rfl := List.mem_singleton.mp last
    exact fun large => absurd small (Nat.not_le.mpr large)

/-- A refill whose slab table fails to grow can be reached. -/
theorem lost_refill_possible : ∃ (a : SingleThreadAllocator) (m : ByteMemory) (w w' : World)
    (L : Ledger) (trace : List (Transition World Event)) (e : Event), FirstBuilt a m ∧
    Run (Step desktop) (World.start m a) (trace ++ [⟨w, e, w'⟩]) w' ∧ Consistent w L ∧
      Step desktop w e w' ∧ NoWrap desktop w e ∧ ¬ Grows e := by
  obtain ⟨a, m, w, w', L, trace, x, built, run, consistent, taken, _, noWrap⟩ :=
    refill_possible false
  have last := noWrap _ (List.mem_append_right _ (List.mem_singleton_self _))
  refine ⟨a, m, w, w', L, trace, _, built, run, consistent, taken, last, ?_⟩
  rintro (grown | missing)
  · cases grown
  · cases missing

/-- A refill whose slab table grows can be reached. -/
theorem grown_refill_possible : ∃ (a : SingleThreadAllocator) (m : ByteMemory)
    (trace : List (Transition World Event)) (w : World), FirstBuilt a m ∧
    Run (Step desktop) (World.start m a) trace w ∧
      (∃ y ∈ trace, ∃ x, y.event = .allocate 100 (some 67108928) true x) ∧
      ∀ y ∈ trace, NoWrap desktop y.before y.event ∧ Grows y.event := by
  obtain ⟨a, m, w, w', L, trace, x, built, run, _, _, grows, noWrap⟩ := refill_possible true
  refine ⟨a, m, _, w', built, run, ⟨_, List.mem_append_right _ (List.mem_singleton_self _),
    x, rfl⟩, fun y member => ⟨noWrap y member, ?_⟩⟩
  rcases List.mem_append.mp member with earlier | last
  · exact grows y earlier
  · obtain rfl := List.mem_singleton.mp last
    exact Or.inl rfl

/-- After the 256 blocks of a class are out, a refill whose slab table fails to grow throws
but leaves the blocks of the chunk on the free list. -/
theorem not_always_atomic : ∃ (a : SingleThreadAllocator) (m : ByteMemory)
    (trace : List (Transition World Event)) (w : World), FirstBuilt a m ∧
    Run (Step desktop) (World.start m a) trace w ∧
      ¬ ((∀ x ∈ trace, FailsAtomically x ∧ SoundPools x.before) ∧ SoundPools w) := by
  obtain ⟨a, m, w, w', L, trace, e, built, run, consistent, taken, noWrap, lost⟩ :=
    lost_refill_possible
  refine ⟨a, m, _, w', built, run, ?_⟩
  rintro ⟨atomic, _⟩
  have power : Words.PowerOfTwo desktop.maxAlign := ⟨4, by decide, rfl⟩
  exact lost (grows_of_atomic consistent power noWrap taken (atomic _ (by simp)).1)

/-- All blocks of 128 bytes are taken and a refill serves the next request. -/
theorem refill_atomic_iff_first : ∃ (a : SingleThreadAllocator) (m : ByteMemory)
    (trace : List (Transition World Event)) (w : World), FirstBuilt a m ∧
    Run (Step desktop) (World.start m a) trace w ∧
      (∃ y ∈ trace, ∃ x, y.event = .allocate 100 (some 67108928) true x) ∧ SoundPools w := by
  obtain ⟨a, m, trace, w, ⟨h', built⟩, run, refilled, meets⟩ := grown_refill_possible
  have power : Words.PowerOfTwo desktop.maxAlign := ⟨4, by decide, rfl⟩
  have apart : ∀ i : SizeClass, some i ≠ none := fun i => Option.some_ne_none i
  exact ⟨a, m, trace, w, ⟨h', built⟩, run, refilled,
    ((refill_atomic_iff power (Option.some_injective _) apart built run
      fun y member => (meets y member).1).mpr fun y member => (meets y member).2).2⟩

end Run

end MemAlloc.AllocatorRuns
