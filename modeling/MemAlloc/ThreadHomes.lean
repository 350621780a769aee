import MemAlloc.ThreadInvariant
import MemAlloc.Classification

set_option autoImplicit false

namespace MemAlloc

open Malloc (Heap Block)
open SingleThreadAllocator (Homes SameRegions chunkBody chunkSlab chunkSlab_inside)

namespace SingleThreadAllocator

/-- What a call leaves of the regions, whatever state it starts in: no slab moves, the arena
cursor stays inside, and only `new` slabs are added. -/
structure Extends (a a' : SingleThreadAllocator) (new : SizeClass → Slab → Prop) : Prop where
  regions : SameRegions a a'
  within : a.arena.used ≤ a.arena.capacity → a'.arena.used ≤ a'.arena.capacity
  slabs : ∀ i, ∀ s ∈ (a'.pools i).slabs blocksPerSlab,
    s ∈ (a.pools i).slabs blocksPerSlab ∨ new i s

namespace Extends

variable {a a' a'' : SingleThreadAllocator} {new : SizeClass → Slab → Prop} {i : SizeClass}

theorem refl (a : SingleThreadAllocator) (new : SizeClass → Slab → Prop) : Extends a a new :=
  ⟨SameRegions.refl a, fun within => within, fun _ _ member => Or.inl member⟩

theorem trans (first : Extends a a' new) (second : Extends a' a'' new) : Extends a a'' new := by
  obtain ⟨slab, raw, base, capacity⟩ := first.regions
  obtain ⟨slab', raw', base', capacity'⟩ := second.regions
  refine ⟨⟨fun i => (slab' i).trans (slab i), fun i => (raw' i).trans (raw i),
    base'.trans base, capacity'.trans capacity⟩, fun within => second.within (first.within within),
    ?_⟩
  intro i s member
  rcases second.slabs i s member with old | added
  · exact first.slabs i s old
  · exact Or.inr added

theorem recordAlloc (extended : Extends a a' new) (req got : Nat) :
    Extends a (a'.recordAlloc req got) new :=
  ⟨extended.regions.recordAlloc req got, extended.within, extended.slabs⟩

theorem setPool {pool : BlockPool} (slab : pool.slab = (a.pools i).slab)
    (raw : pool.raw = (a.pools i).raw)
    (external : ∀ s ∈ pool.externalSlabs, s ∈ (a.pools i).externalSlabs ∨ new i s) :
    Extends a (a.setPool i pool) new := by
  refine ⟨SameRegions.setPool slab raw, fun within => within, ?_⟩
  intro j s member
  by_cases same : j = i
  · subst same
    simp only [SingleThreadAllocator.setPool, Function.update_self, BlockPool.slabs,
      List.mem_cons, slab] at member ⊢
    rcases member with own | listed
    · exact Or.inl (Or.inl own)
    · exact (external s listed).imp_left Or.inr
  · simp only [SingleThreadAllocator.setPool, Function.update_of_ne same] at member
    exact Or.inl member

theorem head (new : SizeClass → Slab → Prop) (a : SingleThreadAllocator) (i : SizeClass)
    (x : Nat) : Extends a (a.setPool i { a.pools i with head := x }) new :=
  setPool rfl rfl (fun _ member => Or.inl member)

end Extends

variable {a a' : SingleThreadAllocator} {m m' : ByteMemory} {i : SizeClass}

theorem poolAllocate_extends (new : SizeClass → Slab → Prop) (a : SingleThreadAllocator)
    (i : SizeClass) (m : ByteMemory) : Extends a (a.poolAllocate i m).2 new := by
  simp only [poolAllocate, BlockPool.allocate]
  split
  · exact Extends.head new a i _
  · exact Extends.head new a i _

theorem poolAddExternalSlab_extends {new : SizeClass → Slab → Prop} {body : Nat} {r : Bool}
    (added : new i (chunkSlab i body)) :
    Extends a (a.poolAddExternalSlab i m body r).2.1 new := by
  simp only [poolAddExternalSlab, BlockPool.addExternalSlab]
  split
  · cases r with
    | false => exact Extends.head new a i _
    | true =>
        refine Extends.setPool rfl rfl ?_
        intro s member
        rcases List.mem_append.mp member with old | last
        · exact Or.inl old
        · rw [List.mem_singleton.mp last]
          exact Or.inr added
  · exact Extends.head new a i _

/-- The sum that admits a request is the new cursor, also where it wraps around. -/
theorem arena_allocate_within (arena : Arena) (n alignment : Nat) :
    (arena.allocate n alignment).2.base = arena.base ∧
      (arena.allocate n alignment).2.capacity = arena.capacity ∧
      (arena.used ≤ arena.capacity → (arena.allocate n alignment).2.used ≤ arena.capacity) := by
  obtain ⟨aligned, padding, call⟩ : ∃ aligned padding, arena.allocate n alignment =
      if arena.capacity < Words.add (Words.add arena.used padding) n then (none, arena)
      else
        (some aligned,
          { arena with used := Words.add arena.used (Words.add padding n),
                       requested := Words.add arena.requested n,
                       allocated := Words.add arena.allocated (Words.add padding n) }) :=
    ⟨_, _, rfl⟩
  rw [call, Words.add_assoc]
  by_cases refused : arena.capacity < Words.add arena.used (Words.add padding n)
  · rw [if_pos refused]
    exact ⟨rfl, rfl, fun within => within⟩
  · rw [if_neg refused]
    exact ⟨rfl, rfl, fun _ => Nat.le_of_not_lt refused⟩

theorem arenaAllocate_extends (new : SizeClass → Slab → Prop) (a : SingleThreadAllocator)
    (n alignment : Nat) : Extends a (a.arenaAllocate n alignment).2 new := by
  obtain ⟨base, capacity, within⟩ := arena_allocate_within a.arena n alignment
  have settled : (a.arenaAllocate n alignment).2.arena = (a.arena.allocate n alignment).2 ∧
      (a.arenaAllocate n alignment).2.pools = a.pools := by
    rw [arenaAllocate]
    cases a.arena.allocate n alignment with
    | mk answer arena =>
        cases answer with
        | none => exact ⟨rfl, rfl⟩
        | some p => exact ⟨rfl, rfl⟩
  obtain ⟨arena, pools⟩ := settled
  refine ⟨⟨fun _ => by rw [pools], fun _ => by rw [pools], by rw [arena, base],
    by rw [arena, capacity]⟩, ?_, fun i s member => Or.inl (by rwa [pools] at member)⟩
  rw [arena, capacity]
  exact within

/-- The source is asked at most once, and only what it answers is linked. -/
theorem allocate_extends {σ : Type} {P : Platform} {source : ChunkSource σ} {recorded : Bool}
    {n : Nat} {e e' : σ} {x : Except Exn (Option Nat)}
    (done : a.allocate P source recorded n e m = (x, a', e', m')) :
    (e' = e ∧ Extends a a' (fun _ _ => False)) ∨
      ∃ i, (source i.bytes e m).2.1 = e' ∧ Extends a a' (fun j s =>
        j = i ∧ ∃ body, (source i.bytes e m).1 = .ok (some body) ∧ s = chunkSlab i body) := by
  rw [allocate] at done
  split at done
  · rename_i small
    generalize sizeClassOf n small = i at done
    simp only at done
    split at done
    · rename_i p first popped
      cases done
      have popped' := poolAllocate_extends (fun _ _ => False) a i m
      rw [popped] at popped'
      exact Or.inl ⟨rfl, popped'.recordAlloc _ _⟩
    · rename_i first popped
      refine Or.inr ⟨i, ?_⟩
      have start := poolAllocate_extends (fun j s => j = i ∧
        ∃ body, (source i.bytes e m).1 = .ok (some body) ∧ s = chunkSlab i body) a i m
      rw [popped] at start
      rw [refill] at done
      split at done
      · rename_i answered
        cases done
        rw [answered]
        rw [answered] at start
        exact ⟨rfl, start⟩
      · rename_i answered
        cases done
        rw [answered]
        rw [answered] at start
        exact ⟨rfl, start⟩
      · rename_i chunk e₁ m₁ answered
        rw [answered]
        rw [answered] at start
        have linked := start.trans (poolAddExternalSlab_extends (m := m₁) (r := recorded)
          ⟨rfl, chunk, rfl, rfl⟩)
        split at done
        · rename_i grown
          cases done
          rw [grown] at linked
          exact ⟨rfl, linked⟩
        · rename_i a₁ m₂ grown
          rw [grown] at linked
          have again := linked.trans (poolAllocate_extends _ a₁ i m₂)
          split at done
          · rename_i retried
            cases done
            rw [retried] at again
            exact ⟨rfl, again⟩
          · rename_i retried
            cases done
            rw [retried] at again
            exact ⟨rfl, again.recordAlloc _ _⟩
  · cases done
    exact Or.inl ⟨rfl, arenaAllocate_extends _ a n P.maxAlign⟩

theorem afterFree_extends (new : SizeClass → Slab → Prop) (a : SingleThreadAllocator) (n : Nat)
    (i : SizeClass) (x : Nat) : Extends a (a.afterFree n i x) new := by
  have moved : SameRegions (a.recordFree n i.bytes) (a.afterFree n i x) :=
    SameRegions.setPool rfl rfl
  refine ⟨⟨moved.slab, moved.raw, moved.base, moved.capacity⟩, fun within => within, ?_⟩
  exact (Extends.head new (a.recordFree n i.bytes) i x).slabs

theorem call_extends {form : FreeForm} {p n : Nat} (done : form.call a m p n = .ok (a', m')) :
    Extends a a' (fun _ _ => False) := by
  cases form with
  | start =>
      rcases of_deallocate done with ⟨_, rfl, _⟩ | ⟨i, _, _, rfl, _⟩
      · exact Extends.refl a' _
      · exact afterFree_extends _ a n i p
  | containing =>
      rcases of_deallocateContaining done with ⟨_, rfl, _⟩ | ⟨i, _, s, _, _, _, rfl, _⟩
      · exact Extends.refl a' _
      · exact afterFree_extends _ a n i _

end SingleThreadAllocator

theorem ThreadPoolAlloc.allocateAligned_extends {pool pool' : ThreadPoolAlloc}
    {n alignment : Nat} {x : Option Nat} (called : pool.allocateAligned n alignment = (x, pool')) :
    pool.alloc.Extends pool'.alloc (fun _ _ => False) := by
  obtain ⟨served, answered⟩ : ∃ served, pool.alloc.arenaAllocate n alignment = served := ⟨_, rfl⟩
  have extended := SingleThreadAllocator.arenaAllocate_extends (fun _ _ => False) pool.alloc n
    alignment
  simp only [ThreadPoolAlloc.allocateAligned, SingleThreadAllocator.allocateAligned,
    answered] at called
  rw [answered] at extended
  cases called
  exact extended

/-- The block serves thread `t`: as a slab, the arena or a chunk. -/
def Owner.Serves (t : Nat) (o : Owner) : Prop := o.thread = some t ∨ o = .chunk

theorem Owner.Serves.inside {t : Nat} {o : Owner} (serves : o.Serves t) (use : Use) :
    o ≠ .outside use := by
  rintro rfl
  rcases serves with thread | chunk
  · cases thread
  · cases chunk

/-- The regions of a live thread's allocator lie in blocks that serve it, also when earlier
calls have gone wrong. -/
structure Housed (h : Heap Owner) (t : Nat) (a : SingleThreadAllocator) : Prop where
  homes : Homes h (.slab t) (.arena t) a
  slabs : ∀ i, ∀ s ∈ (a.pools i).slabs blocksPerSlab, ∃ b ∈ h.blocks,
    b.owner.Serves t ∧ (s.span i.bytes).Inside b.span
  within : a.arena.used ≤ a.arena.capacity

namespace Housed

variable {h h' : Heap Owner} {t : Nat} {a a' : SingleThreadAllocator}

theorem extend {new : SizeClass → Slab → Prop} (housed : Housed h t a)
    (extended : a.Extends a' new) (kept : ∀ b ∈ h.blocks, b.owner.Serves t → b ∈ h'.blocks)
    (added : ∀ i s, new i s → ∃ b ∈ h'.blocks, b.owner.Serves t ∧ (s.span i.bytes).Inside b.span) :
    Housed h' t a' := by
  obtain ⟨⟨slab, raw, base, capacity⟩, within, slabs⟩ := extended
  refine ⟨⟨fun i => ?_, ?_⟩, fun i s member => ?_, within housed.within⟩
  · obtain ⟨b, member, owner, start, inside⟩ := housed.homes.slab i
    refine ⟨b, kept b member (Or.inl (by rw [owner]; rfl)), owner, start.trans (raw i).symm, ?_⟩
    rw [slab i]
    exact inside
  · obtain ⟨b, member, owner, start, inside⟩ := housed.homes.arena
    refine ⟨b, kept b member (Or.inl (by rw [owner]; rfl)), owner, start.trans base.symm, ?_⟩
    simpa only [SingleThreadAllocator.arenaSpan, base, capacity] using inside
  · rcases slabs i s member with old | fresh
    · obtain ⟨b, block, serves, inside⟩ := housed.slabs i s old
      exact ⟨b, kept b block serves, serves, inside⟩
    · exact added i s fresh

theorem heap (housed : Housed h t a)
    (kept : ∀ b ∈ h.blocks, b.owner.Serves t → b ∈ h'.blocks) : Housed h' t a :=
  housed.extend (.refl a (fun _ _ => False)) kept (fun _ _ impossible => impossible.elim)

theorem new {P : Platform} {reply : SizeClass → SlabReply} {arenaReply : Option Nat}
    {m m' : ByteMemory}
    (done : SingleThreadAllocator.new P (.slab t) (.arena t) reply arenaReply h m =
      (.ok (a, m'), h')) :
    Housed h' t a ∧ ∀ b ∈ h.blocks, b ∈ h'.blocks := by
  have different : Function.Injective (Owner.slab t) := fun i j same => (Owner.slab.inj same).2
  have apart : ∀ i, Owner.slab t i ≠ .arena t := fun i same => by cases same
  obtain ⟨inv, homes, _, _, external, _, growth, _⟩ :=
    SingleThreadAllocator.new_ok different apart done
  refine ⟨⟨homes, ?_, inv.arena.within⟩, growth⟩
  intro i s member
  rw [BlockPool.slabs, external i, List.mem_singleton] at member
  subst member
  obtain ⟨b, block, owner, _, inside⟩ := homes.slab i
  exact ⟨b, block, Or.inl (by rw [owner]; rfl), inside⟩

theorem classify_outside (housed : Housed h t a) {b : Block Owner} (member : b ∈ h.blocks)
    (stranger : ¬ b.owner.Serves t) {p : Nat} (held : b.span.Holds p) : a.classify p = 0 := by
  have elsewhere : ∀ c ∈ h.blocks, c.owner.Serves t → ¬ c.span.Holds p := by
    intro c block serves inside
    obtain rfl := Heap.eq_of_holds member block held inside
    exact stranger serves
  have nonnull : p ≠ 0 := by
    have positive := (h.bounded b member).1
    exact Nat.ne_of_gt (Nat.lt_of_lt_of_le positive held.1)
  have outside : ∀ j, (a.pools j).contains j.bytes blocksPerSlab p = false := by
    intro j
    rw [← Bool.not_eq_true, SingleThreadAllocator.contains_iff]
    rintro ⟨s, listed, inside⟩
    obtain ⟨c, block, serves, within⟩ := housed.slabs j s listed
    exact elsewhere c block serves (within.holds inside)
  rw [SingleThreadAllocator.classify_no_pool nonnull outside, if_neg]
  intro contains
  rw [Arena.contains, decide_eq_true_iff] at contains
  obtain ⟨c, block, owner, _, within⟩ := housed.homes.arena
  have used : a.arenaSpan.Holds p :=
    ⟨contains.1, Nat.lt_of_lt_of_le contains.2 (Nat.add_le_add_left housed.within _)⟩
  exact elsewhere c block (Or.inl (by rw [owner]; rfl)) (within.holds used)

end Housed

theorem Sys.setThread_same (s : Sys) (t : Nat) (thread : Thread) :
    (s.setThread t thread).threads t = thread := Function.update_self _ _ _

theorem Sys.setThread_other (s : Sys) {t u : Nat} (thread : Thread) (different : u ≠ t) :
    (s.setThread t thread).threads u = s.threads u := Function.update_of_ne different _ _

/-- All live threads are housed, in whatever state their pools are. -/
structure SysHoused (s : Sys) : Prop where
  shared : SharedInv s.shared
  live : ∀ t pool client, s.threads t = .live pool client →
    Housed s.shared.heap t pool.alloc

namespace SysHoused

variable {P : Platform} {s s' : Sys} {t : Nat}

theorem initial (m : ByteMemory) (h : Heap Owner) : SysHoused (Sys.initial m h) := by
  refine ⟨(SysInv.initial m h).shared, ?_⟩
  intro t pool client live
  cases live

/-- Requests to the C heap keep everybody's regions, and so does releasing a block that
serves no thread. -/
theorem heap {h : Heap Owner} (housed : SysHoused s)
    (kept : ∀ b ∈ s.shared.heap.blocks, (∀ use, b.owner ≠ .outside use) → b ∈ h.blocks) :
    SysHoused (s.setHeap h) := by
  refine ⟨housed.shared.heap fun b member owner => kept b member ?_, ?_⟩
  · intro use same
    rw [owner] at same
    cases same
  · intro t pool client live
    exact (housed.live t pool client live).heap fun b member serves =>
      kept b member serves.inside

/-- One thread moves on; the heap keeps what serves the others. -/
theorem advance {thread : Thread} (housed : SysHoused s) (shared : SharedInv s'.shared)
    (threads : s'.threads = Function.update s.threads t thread)
    (own : ∀ pool client, thread = .live pool client → Housed s'.shared.heap t pool.alloc)
    (kept : ∀ u, u ≠ t → ∀ b ∈ s.shared.heap.blocks, b.owner.Serves u →
      b ∈ s'.shared.heap.blocks) : SysHoused s' := by
  refine ⟨shared, ?_⟩
  intro u pool client live
  rw [threads] at live
  by_cases same : u = t
  · subst same
    rw [Function.update_self] at live
    exact own pool client live
  · rw [Function.update_of_ne same] at live
    exact (housed.live u pool client live).heap (kept u same)

/-- One thread's allocator moves on in its own regions. -/
theorem extend {pool pool' : ThreadPoolAlloc} {client client' : Client} (housed : SysHoused s)
    (live : s.threads t = .live pool client) (shared : s'.shared = s.shared)
    (threads : s'.threads = Function.update s.threads t (.live pool' client'))
    (extended : pool.alloc.Extends pool'.alloc (fun _ _ => False)) : SysHoused s' := by
  have own : Housed s.shared.heap t pool'.alloc := (housed.live t pool client live).extend extended
    (fun _ member _ => member) (fun _ _ impossible => impossible.elim)
  rw [← shared] at own
  apply housed.advance (shared ▸ housed.shared) threads
  · intro pool₁ client₁ same
    obtain ⟨rfl, _⟩ := Thread.live.inj same
    exact own
  · intro u _ b member _
    rw [shared]
    exact member

theorem start {reply : SizeClass → SlabReply} {arenaReply : Option Nat}
    {a : SingleThreadAllocator} {m' : ByteMemory} {h' : Heap Owner} (housed : SysHoused s)
    (done : SingleThreadAllocator.new P (.slab t) (.arena t) reply arenaReply s.shared.heap
      s.mem = (.ok (a, m'), h')) {id next : Nat} :
    SysHoused { (s.setHeap h').setThread t (.live ⟨a, 0, 0, id⟩ Client.none) with
      mem := m'
      nextThreadId := next } := by
  obtain ⟨built, growth⟩ := Housed.new done
  refine housed.advance (t := t) (housed.shared.heap fun b old _ => growth b old) rfl ?_
    (fun _ _ b old _ => growth b old)
  intro pool client same
  obtain ⟨rfl, rfl⟩ := Thread.live.inj same
  exact built

/-- An exiting thread releases only its own blocks. -/
theorem exit {pool : ThreadPoolAlloc} {client : Client} (housed : SysHoused s)
    (live : s.threads t = .live pool client) :
    SysHoused ((s.setHeap (pool.alloc.destroy s.shared.heap)).setThread t .exited) ∧
      ∀ b ∈ s.shared.heap.blocks, b.owner.thread ≠ some t →
        b ∈ (pool.alloc.destroy s.shared.heap).blocks := by
  have homes := (housed.live t pool client live).homes
  have survives : ∀ b ∈ s.shared.heap.blocks, b.owner.thread ≠ some t →
      b ∈ (pool.alloc.destroy s.shared.heap).blocks :=
    fun b member stranger => Owner.survives homes member stranger
  refine ⟨housed.advance (t := t) ?_ rfl ?_ ?_, survives⟩
  · exact housed.shared.heap fun b member owner =>
      survives b member (by rw [owner]; simp [Owner.thread])
  · intro pool client impossible
    cases impossible
  · intro u other b member serves
    refine survives b member ?_
    rcases serves with thread | chunk
    · rw [thread]
      exact fun same => other (Option.some.inj same)
    · rw [chunk]
      simp [Owner.thread]

end SysHoused

/-- A request of any size keeps the thread housed and releases nothing. -/
theorem ThreadPoolAlloc.allocate_housed {P : Platform} {t n : Nat} {pool pool' : ThreadPoolAlloc}
    {reply : SlabReply} {chunkRecorded slabRecorded : Bool} {x : Except Exn (Option Nat)}
    {g g' : Shared} {m m' : ByteMemory} (shared : SharedInv g)
    (housed : Housed g.heap t pool.alloc)
    (done : pool.allocate P (acquireChunkCb P t reply chunkRecorded) slabRecorded n g m =
      (x, pool', g', m')) :
    Housed g'.heap t pool'.alloc ∧ SharedInv g' ∧ ∀ b ∈ g.heap.blocks, b ∈ g'.heap.blocks := by
  simp only [ThreadPoolAlloc.allocate] at done
  generalize run : pool.alloc.allocate P (acquireChunkCb P t reply chunkRecorded) slabRecorded n
    g m = served at done
  obtain ⟨x₁, a', g₁, m₁⟩ := served
  cases done
  rcases SingleThreadAllocator.allocate_extends run with ⟨rfl, extended⟩ | ⟨i, asked, extended⟩
  · exact ⟨housed.extend extended (fun _ member _ => member) (fun _ _ new => new.elim), shared,
      fun _ member => member⟩
  · obtain ⟨chunk, acquired⟩ := acquireChunk_acquired P (some t) reply chunkRecorded i.bytes m
      shared
    simp only [acquireChunkCb] at asked extended
    subst asked
    refine ⟨housed.extend extended (fun b member _ => acquired.kept b member) ?_,
      acquired.shared, acquired.kept⟩
    rintro j s ⟨rfl, body, answered, rfl⟩
    have granted : (g.acquireChunk P (some t) reply chunkRecorded j.bytes m).1 = .ok body := by
      cases outcome : (g.acquireChunk P (some t) reply chunkRecorded j.bytes m).1 with
      | error e =>
          rw [outcome] at answered
          cases answered
      | ok b =>
          rw [outcome] at answered
          cases answered
          rfl
    obtain ⟨c, rfl, _, _, _, _, carved⟩ := acquired.success body granted
    have listed : c ∈ (g.acquireChunk P (some t) reply chunkRecorded j.bytes m).2.1.carved := by
      rw [carved]
      exact List.mem_append_right _ (List.mem_singleton_self c)
    obtain ⟨b, block, owner, inside⟩ := acquired.shared.homes c listed
    exact ⟨b, block, Or.inr owner, (Shared.chunkSlab_body c).1.trans inside⟩

end MemAlloc
