import MemAlloc.ChunkCounts
import MemAlloc.RelativeAllocator

set_option autoImplicit false

namespace MemAlloc

open SingleThreadAllocator (Granted Released ArenaServed FreeForm Occupancy maxBlocks chunkSlab)

def Layout.of (linked : SizeClass → List Slab) (arena : Nat) : Layout :=
  ⟨fun i slab => ((linked i)[slab]?.map Slab.base).getD 0, arena⟩

theorem Layout.slab_of {linked : SizeClass → List Slab} {arena slab : Nat} {i : SizeClass}
    {s : Slab} (found : (linked i)[slab]? = some s) : (of linked arena).slab i slab = s.base := by
  simp [of, found]

theorem Layout.slab_prefix {linked linked' : SizeClass → List Slab} {arena slab : Nat}
    {i : SizeClass} (grown : linked i <+: linked' i) (known : slab < (linked i).length) :
    (of linked' arena).slab i slab = (of linked arena).slab i slab := by
  have here := List.getElem?_eq_getElem known
  have there := (List.prefix_iff_getElem?.mp grown) slab known
  rw [slab_of here, slab_of there]

namespace RelativeAllocator

/-- The allocator and its ledger are those of `r`, wherever their regions lie. -/
structure Represents (r : RelativeAllocator) (a : SingleThreadAllocator) (L : Ledger) : Prop where
  free : ∀ i, L.free i = (r.free i).map (fun b =>
    (Place.block i b.1 b.2).address (Layout.of L.linked a.arena.base))
  linked : ∀ i, (L.linked i).length = r.slabs i
  used : a.arena.used = r.used
  stats : a.stats = r.stats

/-- Slabs have only been added, and the arena is where it was. -/
structure Extended (a : SingleThreadAllocator) (L : Ledger) (a' : SingleThreadAllocator)
    (L' : Ledger) : Prop where
  linked : ∀ i, L.linked i <+: L'.linked i
  base : a'.arena.base = a.arena.base

variable {P : Platform} {r : RelativeAllocator} {a a' : SingleThreadAllocator} {L L' : Ledger}
  {n : Nat}

theorem Extended.same (linked : L'.linked = L.linked) (base : a'.arena.base = a.arena.base) :
    Extended a L a' L' := by
  refine ⟨fun i => ?_, base⟩
  rw [linked]

/-- A place that was known keeps its address. -/
theorem Represents.address (rep : r.Represents a L) (extended : Extended a L a' L') {place : Place}
    (known : r.Known place) :
    place.address (Layout.of L'.linked a'.arena.base) =
      place.address (Layout.of L.linked a.arena.base) := by
  cases place with
  | block i slab index =>
      have inside : slab < (L.linked i).length := by
        rw [rep.linked i]
        exact known
      have start : (Layout.of L'.linked a.arena.base).slab i slab =
          (Layout.of L.linked a.arena.base).slab i slab :=
        Layout.slab_prefix (extended.linked i) inside
      simp only [Place.address, extended.base, start]
  | arena offset =>
      show a'.arena.base + offset = a.arena.base + offset
      rw [extended.base]

theorem represents_new (a : SingleThreadAllocator) (used : a.arena.used = 0)
    (stats : a.stats = Stats.zero) : new.Represents a a.newLedger := by
  refine ⟨?_, ?_, used, stats⟩
  · intro i
    simp only [new, SingleThreadAllocator.newLedger, Slab.blocks, List.map_map]
    rfl
  · intro i
    rfl

/-- One class has changed, and no slab was linked. -/
theorem Represents.setFree {i : SizeClass} {free : List (Nat × Nat)} {list : List Nat}
    (rep : r.Represents a L) (pool : BlockPool) (held : List Nat)
    (listed : list = free.map (fun b =>
      (Place.block i b.1 b.2).address (Layout.of L.linked a.arena.base))) :
    (r.setFree i free).Represents (a.setPool i pool) (L.setPool i list held (L.linked i)) := by
  have linked : (L.setPool i list held (L.linked i)).linked = L.linked :=
    Function.update_eq_self i L.linked
  have arena : (a.setPool i pool).arena = a.arena := rfl
  refine ⟨?_, ?_, rep.used, rep.stats⟩
  · intro j
    rw [linked, arena]
    by_cases same : j = i
    · subst same
      simpa [Ledger.setPool, RelativeAllocator.setFree] using listed
    · simpa [Ledger.setPool, RelativeAllocator.setFree, same] using rep.free j
  · intro j
    rw [linked]
    exact rep.linked j

theorem Represents.recordAlloc (rep : r.Represents a L) (req got : Nat) :
    (r.recordAlloc req got).Represents (a.recordAlloc req got) L :=
  ⟨rep.free, rep.linked, rep.used, congrArg (fun s => Stats.recordAlloc s req got) rep.stats⟩

theorem Represents.recordFree (rep : r.Represents a L) (req got : Nat) :
    (r.recordFree req got).Represents (a.recordFree req got) L :=
  ⟨rep.free, rep.linked, rep.used, congrArg (fun s => Stats.recordFree s req got) rep.stats⟩

/-- A request that a stocked pool serves. -/
theorem Represents.pool {i : SizeClass} {p : Nat} {rest : List Nat} (rep : r.Represents a L)
    (n head : Nat) (stocked : L.free i = p :: rest) :
    p = (r.poolAllocate n i).1.address (Layout.of L.linked a.arena.base) ∧
      (r.poolAllocate n i).2.Represents
        ((a.setPool i { a.pools i with head := head }).recordAlloc n i.bytes)
        (L.take i p rest) := by
  have mapped := rep.free i
  rw [stocked] at mapped
  obtain ⟨b, bs, split, first, others⟩ := List.map_eq_cons_iff.mp mapped.symm
  rw [poolAllocate_stocked n split]
  exact ⟨first.symm, (rep.setFree _ _ others.symm).recordAlloc n i.bytes⟩

/-- One class has a new slab, which is the last one, and its free blocks are those of the slab
but the first. -/
theorem Represents.link (rep : r.Represents a L) (closed : r.Closed) (i : SizeClass) (body : Nat)
    (a' : SingleThreadAllocator) (L' : Ledger) (arena : a'.arena = a.arena)
    (stats : a'.stats = a.stats) (own : L'.linked i = L.linked i ++ [chunkSlab i body])
    (other : ∀ j, j ≠ i → L'.linked j = L.linked j)
    (free : L'.free i = (List.range (maxBlocks i)).tail.map (fun k => body + k * i.bytes))
    (others : ∀ j, j ≠ i → L'.free j = L.free j) :
    (Layout.of L'.linked a'.arena.base).slab i (r.slabs i) = body ∧
      (r.refill i).Represents a' L' := by
  have last : (Layout.of L'.linked a'.arena.base).slab i (r.slabs i) = body := by
    apply Layout.slab_of (s := chunkSlab i body)
    rw [own, ← rep.linked i, List.getElem?_append_right (Nat.le_refl _), Nat.sub_self]
    rfl
  refine ⟨last, ?_, ?_, ?_, ?_⟩
  · intro j
    by_cases same : j = i
    · subst same
      simp only [RelativeAllocator.refill, RelativeAllocator.setFree, Function.update_self,
        List.map_map]
      rw [free]
      apply List.map_congr_left
      intro k _
      simp only [Function.comp_apply, Place.address, last]
    · simp only [RelativeAllocator.refill, RelativeAllocator.setFree, Function.update_of_ne same]
      rw [others j same, rep.free j]
      apply List.map_congr_left
      intro b member
      have known : b.1 < (L.linked j).length := by
        rw [rep.linked j]
        exact closed j b member
      have grown : L.linked j <+: L'.linked j := by rw [other j same]
      simp only [Place.address, arena, Layout.slab_prefix grown known]
  · intro j
    by_cases same : j = i
    · subst same
      rw [own, List.length_append, rep.linked j]
      simp [RelativeAllocator.refill]
    · rw [other j same, rep.linked j]
      simp [RelativeAllocator.refill, RelativeAllocator.setFree, same]
  · rw [arena]
    exact rep.used
  · rw [stats]
    exact rep.stats

/-- A request for which a chunk is linked. -/
theorem Represents.refill {i : SizeClass} {body : Nat} {rest : List Nat}
    (rep : r.Represents a L) (closed : r.Closed) (n head : Nat) (empty : L.free i = [])
    (blocks : (chunkSlab i body).blocks i.bytes = body :: rest) :
    body = (r.poolAllocate n i).1.address
        (Layout.of ((L.link i (chunkSlab i body)).take i body rest).linked a.arena.base) ∧
      (r.poolAllocate n i).2.Represents
        ((a.setPool i ((a.pools i).grown true (chunkSlab i body) head)).recordAlloc n i.bytes)
        ((L.link i (chunkSlab i body)).take i body rest) := by
  have mapped := rep.free i
  rw [empty] at mapped
  have exhausted : r.free i = [] := List.map_eq_nil_iff.mp mapped.symm
  have tail : rest = (List.range (maxBlocks i)).tail.map (fun k => body + k * i.bytes) := by
    have whole := congrArg List.tail blocks
    rw [Slab.blocks, List.tail_cons, ← List.map_tail] at whole
    exact whole.symm
  obtain ⟨last, refilled⟩ := rep.link closed i body
    (a.setPool i ((a.pools i).grown true (chunkSlab i body) head))
    ((L.link i (chunkSlab i body)).take i body rest) rfl rfl
    (by simp [Ledger.link, Ledger.take, Ledger.setPool])
    (fun j different => by simp [Ledger.link, Ledger.take, Ledger.setPool, different])
    (by simpa [Ledger.take, Ledger.setPool] using tail)
    (fun j different => by simp [Ledger.link, Ledger.take, Ledger.setPool, different])
  rw [poolAllocate_exhausted n exhausted]
  refine ⟨?_, refilled.recordAlloc n i.bytes⟩
  show body = (Layout.of _ a.arena.base).slab i (r.slabs i) + 0 * i.bytes
  rw [Nat.zero_mul, Nat.add_zero]
  exact last.symm

/-- When the arena is aligned, its padding depends on the cursor only. -/
theorem Represents.padding (rep : r.Represents a L) (aligned : P.maxAlign ∣ a.arena.base) :
    a.arena.padding P.maxAlign = Words.padding r.used P.maxAlign := by
  rw [Arena.padding, Words.padding_add aligned, rep.used]

/-- A request that the arena serves. -/
theorem Represents.arena {p : Nat} (rep : r.Represents a L)
    (aligned : P.maxAlign ∣ a.arena.base) (capacity : a.arena.capacity = kArenaCapacity)
    (served : ArenaServed a n P.maxAlign p a') :
    some p = (r.arenaAllocate P n).1.map
        (Place.address (Layout.of (L.bump ⟨p, n⟩).linked a'.arena.base)) ∧
      (r.arenaAllocate P n).2.Represents a' (L.bump ⟨p, n⟩) := by
  have gap := rep.padding aligned
  have fits : r.used + (Words.padding r.used P.maxAlign + n) ≤ kArenaCapacity := by
    have room := served.fits
    rw [Arena.demand_eq, gap, rep.used, capacity] at room
    exact room
  rw [arenaAllocate_fits fits]
  refine ⟨?_, ?_, ?_, ?_, ?_⟩
  · show some p = some (a'.arena.base + (r.used + Words.padding r.used P.maxAlign))
    rw [served.start, served.base, gap, rep.used, Nat.add_assoc]
  · intro i
    rw [served.base]
    exact rep.free i
  · exact rep.linked
  · rw [served.used, gap, rep.used]
    rfl
  · rw [served.stats, gap, rep.stats]
    rfl

/-- What a request returns and leaves behind, when a chunk that is needed has been linked. -/
theorem Represents.granted {body : Option Nat} {x : Except Exn (Option Nat)}
    (rep : r.Represents a L) (closed : r.Closed) (aligned : P.maxAlign ∣ a.arena.base)
    (capacity : a.arena.capacity = kArenaCapacity)
    (granted : Granted P true a L n body x a' L')
    (answered : n ≤ maxSmall → ∃ p, x = .ok (some p)) :
    x = .ok ((r.allocate P n).1.map (Place.address (Layout.of L'.linked a'.arena.base))) ∧
      (r.allocate P n).2.Represents a' L' := by
  cases granted with
  | @pool i p head rest small cls stocked =>
      subst cls
      obtain ⟨place, after⟩ := rep.pool n head stocked
      rw [allocate_small P r small]
      refine ⟨?_, after⟩
      have linked : (L.take (sizeClassOf n small) p rest).linked = L.linked :=
        Function.update_eq_self _ L.linked
      rw [linked]
      exact congrArg (fun q => Except.ok (some q)) place
  | refused small cls empty unanswered =>
      obtain ⟨p, same⟩ := answered small
      exact absurd same (unanswered p)
  | lost unrecorded small cls empty => cases unrecorded
  | @refilled i body head rest grown small cls empty blocks =>
      subst cls
      obtain ⟨place, after⟩ := rep.refill closed n head empty blocks
      rw [allocate_small P r small]
      exact ⟨congrArg (fun q => Except.ok (some q)) place, after⟩
  | arena large served =>
      obtain ⟨place, after⟩ := rep.arena aligned capacity served
      rw [allocate_large P r large]
      exact ⟨congrArg Except.ok place, after⟩
  | arenaFull large full =>
      rw [Arena.demand_eq, rep.padding aligned, rep.used, capacity] at full
      rw [allocate_large P r large, arenaAllocate_full full]
      exact ⟨rfl, rep⟩

/-- Slabs are only added at the end. -/
theorem extended_granted {body : Option Nat} {x : Except Exn (Option Nat)}
    (granted : Granted P true a L n body x a' L') : Extended a L a' L' := by
  refine ⟨fun i => ?_, granted.regions.base⟩
  rw [granted.linked i]
  exact List.prefix_append _ _

/-- A block comes back. -/
theorem Represents.released {i : SizeClass} {slab index x : Nat} (rep : r.Represents a L)
    (place : x = (Place.block i slab index).address (Layout.of L.linked a.arena.base))
    (released : Released a L n i x a' L') :
    (r.deallocate n (.block i slab index)).Represents a' L' := by
  cases released with
  | pool small cls =>
      rw [deallocate, if_pos small]
      have listed : x :: L.free i = ((slab, index) :: r.free i).map (fun b =>
          (Place.block i b.1 b.2).address (Layout.of L.linked a.arena.base)) := by
        rw [List.map_cons, ← rep.free i, place]
      have moved := (rep.setFree { a.pools i with head := x } ((L.held i).erase x)
        listed).recordFree n i.bytes
      exact moved
  | ignored large =>
      rw [deallocate, if_neg (Nat.not_le.mpr large)]
      have linked : (L.leak i x).linked = L.linked := Function.update_eq_self _ L.linked
      have free : (L.leak i x).free = L.free := Function.update_eq_self _ L.free
      refine ⟨?_, ?_, rep.used, rep.stats⟩
      · intro j
        rw [free, linked]
        exact rep.free j
      · intro j
        rw [linked]
        exact rep.linked j

/-- A call that changed neither the allocator nor what the ledger says about its pools. -/
theorem Represents.congr (rep : r.Represents a L) (free : L'.free = L.free)
    (linked : L'.linked = L.linked) : r.Represents a L' := by
  refine ⟨?_, ?_, rep.used, rep.stats⟩
  · rw [free, linked]
    exact rep.free
  · rw [linked]
    exact rep.linked

/-- What the visualizer would show. -/
def occupancy (r : RelativeAllocator) : Occupancy where
  freeCount := fun i => (r.free i).length
  cap := fun i => blocksPerSlab + (r.slabs i - 1) * maxBlocks i
  arenaUsed := r.used
  arenaCap := kArenaCapacity

end RelativeAllocator

theorem SingleThreadAllocator.Released.size {a a' : SingleThreadAllocator} {L L' : Ledger}
    {n x : Nat} {i : SizeClass} (released : Released a L n i x a' L') :
    maxSmall < n ∨ ∃ small : n ≤ maxSmall, i = sizeClassOf n small := by
  cases released with
  | pool small cls => exact Or.inr ⟨small, cls⟩
  | ignored large => exact Or.inl large

section Thread

variable {m m' : ByteMemory} {g : Shared} {t n p : Nat} {pool : ThreadPoolAlloc} {client : Client}
  {free : SizeClass → List Nat} {form : FreeForm}

theorem ThreadInv.occupancy {r : RelativeAllocator} {fuel : Nat}
    (inv : ThreadInv m g t pool.alloc client free)
    (rep : r.Represents pool.alloc (client.ledger free (g.linkedBy t pool.alloc)))
    (tabled : Tabled pool.alloc (client.ledger free (g.linkedBy t pool.alloc)))
    (capacity : pool.alloc.arena.capacity = kArenaCapacity)
    (enough : ∀ i, (r.free i).length < fuel) :
    pool.alloc.occupancy fuel m = some r.occupancy := by
  have size : ∀ i, (free i).length = (r.free i).length := by
    intro i
    have mapped := congrArg List.length (rep.free i)
    rwa [List.length_map] at mapped
  have count : ∀ i, (pool.alloc.pools i).freeCount fuel m = some (r.free i).length := by
    intro i
    have room : (free i).length < fuel := by
      rw [size i]
      exact enough i
    rw [BlockPool.freeCount, BlockPool.freeCountFrom_linked (inv.alloc.pools i).links room,
      Nat.zero_add]
    exact congrArg some (size i)
  have total : ∀ i, (pool.alloc.pools i).totalBlocks blocksPerSlab =
      blocksPerSlab + (r.slabs i - 1) * maxBlocks i := by
    intro i
    have chunks : g.chunkCount t i + 1 = r.slabs i := by
      rw [← rep.linked i]
      exact Shared.length_linkedBy.symm
    have listed : (pool.alloc.pools i).slabs blocksPerSlab = g.linkedBy t pool.alloc i := tabled i
    rw [BlockPool.totalBlocks_eq (B := i.bytes), listed, Shared.length_blocks_linkedBy, ← chunks,
      Nat.add_sub_cancel]
  simp only [SingleThreadAllocator.occupancy, count, total, RelativeAllocator.occupancy,
    Option.isSome_some, implies_true, ↓reduceIte, Option.getD_some, rep.used, capacity]

/-- Which sizes a block that is out can be given back with. -/
theorem ThreadInv.free_returns_iff {i : SizeClass} {x : Nat}
    (inv : ThreadInv m g t pool.alloc client free)
    (tabled : Tabled pool.alloc (client.ledger free (g.linkedBy t pool.alloc)))
    (out : x ∈ client.held i) (names : form.Names ⟨x, i.bytes⟩ p) :
    (∃ pool' m', pool.free form m p n = .ok (pool', m')) ↔
      maxSmall < n ∨ ∃ small : n ≤ maxSmall, i = sizeClassOf n small := by
  constructor
  · rintro ⟨pool', m', done⟩
    obtain ⟨_, _, _, released⟩ := inv.free_released out names done
    exact released.size
  · rintro (large | ⟨small, cls⟩)
    · rw [ThreadPoolAlloc.free, form.call_large pool.alloc m large]
      exact ⟨_, _, rfl⟩
    · have block : x ∈ blocksOf i.bytes ((pool.alloc.pools i).slabs blocksPerSlab) := by
        rw [tabled i]
        exact (inv.alloc.pools i).member x (List.mem_append_right _ out)
      cases form with
      | start =>
          obtain rfl : p = x := names
          have accepted := inv.alloc.deallocate_accepts out block small cls
          simp only [ThreadPoolAlloc.free, FreeForm.call, accepted]
          exact ⟨_, _, rfl⟩
      | containing =>
          have accepted := inv.alloc.deallocateContaining_accepts out block names small cls
          simp only [ThreadPoolAlloc.free, FreeForm.call, accepted]
          exact ⟨_, _, rfl⟩

theorem ThreadInv.free_arena_returns_iff {b : Span} (inv : ThreadInv m g t pool.alloc client free)
    (out : b ∈ client.bumped) (names : form.Names b p) :
    (∃ pool' m', pool.free form m p n = .ok (pool', m')) ↔ maxSmall < n := by
  constructor
  · rintro ⟨pool', m', done⟩
    have inside := (inv.bumped_region out).2.holds (names.holds (inv.nonempty b out))
    exact (inv.alloc.free_arena inside (ThreadPoolAlloc.of_free done)).1
  · intro large
    rw [ThreadPoolAlloc.free, form.call_large pool.alloc m large]
    exact ⟨_, _, rfl⟩

end Thread

end MemAlloc
