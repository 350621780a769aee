import MemAlloc.ThreadRegions

set_option autoImplicit false

namespace MemAlloc

open Malloc (Heap Block addressLimit)
open ByteMemory (SameOutside SameInside)
open SingleThreadAllocator (Inv Homes SameRegions SoundReply chunkBody chunkSlab answeredBody)

/-- The thread whose allocator owns the block. -/
def Owner.thread : Owner → Option Nat
  | .slab t _ => some t
  | .arena t => some t
  | .chunk => none
  | .outside _ => none

/-- When a thread's allocator goes, the blocks of the other threads, and those of none, stay. -/
theorem Owner.survives {h : Heap Owner} {t : Nat} {a : SingleThreadAllocator} {b : Block Owner}
    (homes : Homes h (.slab t) (.arena t) a) (member : b ∈ h.blocks)
    (stranger : b.owner.thread ≠ some t) : b ∈ (a.destroy h).blocks := by
  apply homes.survives member
  · intro i same
    exact stranger (by rw [same]; rfl)
  · intro same
    exact stranger (by rw [same]; rfl)

/-- The regions a thread's allocator hands blocks out from. -/
inductive Region (g : Shared) (t : Nat) (a : SingleThreadAllocator) : Span → Prop
  | slab {i : SizeClass} {s : Slab} (member : s ∈ g.linkedBy t a i) :
      Region g t a (s.span i.bytes)
  | arena : Region g t a a.arenaSpan

/-- Where a region lies: in a block of the thread itself, or in a chunk it acquired. -/
inductive Home (g : Shared) (t : Nat) (r : Span) : Prop
  | own {b : Block Owner} (member : b ∈ g.heap.blocks) (owner : b.owner.thread = some t)
      (inside : r.Inside b.span)
  | chunk {c : Chunk} (member : c ∈ g.carved) (user : c.user = some t) (inside : r.Inside c.span)

/-- One live thread: its allocator represents its ledger, in regions of its own. -/
structure ThreadInv (m : ByteMemory) (g : Shared) (t : Nat) (a : SingleThreadAllocator)
    (client : Client) (free : SizeClass → List Nat) : Prop where
  alloc : Inv m a (client.ledger free (g.linkedBy t a))
  homes : Homes g.heap (.slab t) (.arena t) a
  nonempty : ∀ b ∈ client.bumped, 0 < b.size

namespace Home

variable {g g' : Shared} {t u : Nat} {r q : Span}

theorem apart (shared : SharedInv g) (left : Home g t r) (right : Home g u q)
    (different : t ≠ u) : r.Apart q := by
  cases left with
  | own member owner inside =>
      cases right with
      | own member' owner' inside' =>
          refine (Heap.apart_of_owner member member' ?_).mono inside inside'
          intro same
          rw [same, owner'] at owner
          exact different (Option.some.inj owner).symm
      | chunk member' user inside' =>
          obtain ⟨home, block, tag, within⟩ := shared.homes _ member'
          refine (Heap.apart_of_owner member block ?_).mono inside (inside'.trans within)
          intro same
          rw [same, tag] at owner
          cases owner
  | chunk member user inside =>
      cases right with
      | own member' owner inside' =>
          obtain ⟨home, block, tag, within⟩ := shared.homes _ member
          refine (Heap.apart_of_owner block member' ?_).mono (inside.trans within) inside'
          intro same
          rw [← same, tag] at owner
          cases owner
      | chunk member' user' inside' =>
          refine (shared.chunks_apart member member' ?_).mono inside inside'
          rintro rfl
          rw [user] at user'
          exact different (Option.some.inj user')

theorem block (shared : SharedInv g) (home : Home g t r) :
    ∃ b ∈ g.heap.blocks, r.Inside b.span ∧ ∀ use, b.owner ≠ .outside use := by
  cases home with
  | @own b member owner inside =>
      refine ⟨b, member, inside, ?_⟩
      intro use same
      rw [same] at owner
      cases owner
  | chunk member user inside =>
      obtain ⟨b, block, tag, within⟩ := shared.homes _ member
      refine ⟨b, block, inside.trans within, ?_⟩
      intro use same
      rw [same] at tag
      cases tag

end Home

namespace ThreadInv

variable {m m' : ByteMemory} {g g' : Shared} {t u : Nat} {a a' b : SingleThreadAllocator}
  {client client' : Client} {free free' : SizeClass → List Nat} {r q : Span}

theorem home (inv : ThreadInv m g t a client free) (region : Region g t a r) : Home g t r := by
  cases region with
  | @slab i s member =>
      rcases Shared.mem_linkedBy.mp member with rfl | ⟨c, carved, user, _, rfl⟩
      · obtain ⟨home, block, owner, _, inside⟩ := inv.homes.slab i
        exact .own block (by rw [owner]; rfl) inside
      · exact .chunk carved user (Shared.chunkSlab_body c).1
  | arena =>
      obtain ⟨home, block, owner, _, inside⟩ := inv.homes.arena
      exact .own block (by rw [owner]; rfl) inside

theorem header_apart (shared : SharedInv g) (inv : ThreadInv m g t a client free)
    (region : Region g t a r) {c : Chunk} (member : c ∈ g.carved) : r.Apart c.header := by
  have header : c.header.Inside c.span := Span.Inside.shorter (by decide) c.base
  have separate : ∀ {b : Block Owner}, b ∈ g.heap.blocks → b.owner.thread = some t →
      r.Inside b.span → r.Apart c.header := by
    intro b block owner inside
    obtain ⟨home, block', tag, within⟩ := shared.homes c member
    refine (Heap.apart_of_owner block block' ?_).mono inside (header.trans within)
    intro same
    rw [same, tag] at owner
    cases owner
  cases region with
  | @slab i s listed =>
      rcases Shared.mem_linkedBy.mp listed with rfl | ⟨d, carved, _, _, rfl⟩
      · obtain ⟨home, block, owner, _, inside⟩ := inv.homes.slab i
        exact separate block (by rw [owner]; rfl) inside
      · by_cases same : d = c
        · subst same
          exact (Shared.chunkSlab_body d).2
        · exact (shared.chunks_apart carved member same).mono (Shared.chunkSlab_body d).1 header
  | arena =>
      obtain ⟨home, block, owner, _, inside⟩ := inv.homes.arena
      exact separate block (by rw [owner]; rfl) inside

theorem held_region (inv : ThreadInv m g t a client free) {i : SizeClass} {x : Nat}
    (out : x ∈ client.held i) : ∃ r, Region g t a r ∧ (Span.mk x i.bytes).Inside r := by
  obtain ⟨s, member, block⟩ := inv.alloc.mem_linked (i := i) (List.mem_append_right _ out)
  exact ⟨_, .slab member, Slab.block_inside block⟩

theorem bumped_region (inv : ThreadInv m g t a client free) {s : Span}
    (out : s ∈ client.bumped) : Region g t a a.arenaSpan ∧ s.Inside a.arenaSpan :=
  ⟨.arena, inv.alloc.bumped_inside out⟩

/-- A thread is unaffected while its blocks of the heap stay, its chunks stay, and the bytes
of its regions stay. -/
theorem frame (inv : ThreadInv m g t a client free)
    (quiet : ∀ r, Region g t a r → SameInside m m' [r])
    (kept : ∀ b ∈ g.heap.blocks, b.owner.thread = some t → b ∈ g'.heap.blocks)
    (linked : g'.linkedBy t a = g.linkedBy t a) : ThreadInv m' g' t a client free := by
  refine ⟨?_, ⟨fun i => ?_, ?_⟩, inv.nonempty⟩
  · rw [linked]
    exact inv.alloc.sameInside (fun i s member => quiet _ (.slab member))
  · obtain ⟨b, block, owner, rest⟩ := inv.homes.slab i
    exact ⟨b, kept b block (by rw [owner]; rfl), owner, rest⟩
  · obtain ⟨b, block, owner, rest⟩ := inv.homes.arena
    exact ⟨b, kept b block (by rw [owner]; rfl), owner, rest⟩

/-- The thread's own allocator moved on, in the same regions. -/
theorem advance {L' : Ledger} (inv : ThreadInv m g t a client free) (alloc : Inv m' a' L')
    (regions : SameRegions a a') (held : L'.held = client'.held)
    (bumped : L'.bumped = client'.bumped) (linked : L'.linked = g'.linkedBy t a')
    (kept : ∀ b ∈ g.heap.blocks, b ∈ g'.heap.blocks)
    (nonempty : ∀ b ∈ client'.bumped, 0 < b.size) :
    ThreadInv m' g' t a' client' L'.free := by
  refine ⟨?_, ⟨fun i => ?_, ?_⟩, nonempty⟩
  · rw [Client.ledger_eq held linked bumped]
    exact alloc
  · obtain ⟨b, block, owner, base, inside⟩ := inv.homes.slab i
    rw [← regions.raw i] at base
    rw [← regions.slab i] at inside
    exact ⟨b, kept b block, owner, base, inside⟩
  · obtain ⟨b, block, owner, base, inside⟩ := inv.homes.arena
    refine ⟨b, kept b block, owner, base.trans regions.base.symm, ?_⟩
    simpa only [SingleThreadAllocator.arenaSpan, regions.base, regions.capacity] using inside

end ThreadInv

/-- Every live thread is well, chunks are apart, and nothing is set aside for threads that
have not started. -/
structure SysInv (s : Sys) : Prop where
  shared : SharedInv s.shared
  live : ∀ t pool client, s.threads t = .live pool client →
    ∃ free, ThreadInv s.mem s.shared t pool.alloc client free
  unborn : ∀ t, s.threads t = .unborn → ∀ c ∈ s.shared.carved, c.user ≠ some t

/-- The step leaves the thread alone, which goes on with the same ledger. -/
structure Sys.Spares (s s' : Sys) (u : Nat) : Prop where
  threads : s'.threads u = s.threads u
  linked : ∀ a, s'.shared.linkedBy u a = s.shared.linkedBy u a
  chunks : ∀ c ∈ s'.shared.carved, c.user = some u → c ∈ s.shared.carved
  thread : ∀ pool client free, s.threads u = .live pool client →
    ThreadInv s.mem s.shared u pool.alloc client free →
      ThreadInv s'.mem s'.shared u pool.alloc client free

/-- At most one chunk has been added, and that for another thread. -/
theorem Sys.Spares.intro {s s' : Sys} {u : Nat} (threads : s'.threads u = s.threads u)
    (quiet : ∀ pool client, s.threads u = .live pool client →
      ∀ r, Region s.shared u pool.alloc r → SameInside s.mem s'.mem [r])
    (kept : ∀ b ∈ s.shared.heap.blocks, b.owner.thread = some u → b ∈ s'.shared.heap.blocks)
    (carved : s'.shared.carved = s.shared.carved ∨ ∃ c,
      s'.shared.carved = s.shared.carved ++ [c] ∧ c.user ≠ some u) : s.Spares s' u := by
  have linked : ∀ a, s'.shared.linkedBy u a = s.shared.linkedBy u a := by
    intro a
    funext i
    rcases carved with equal | ⟨c, added, stranger⟩
    · exact Shared.linkedBy_congr equal (SameRegions.refl _)
    · exact Shared.linkedBy_other added (fun both => stranger both.1)
  refine ⟨threads, linked, ?_, ?_⟩
  · intro c member user
    rcases carved with equal | ⟨d, added, stranger⟩
    · rwa [equal] at member
    · rw [added] at member
      rcases List.mem_append.mp member with old | new
      · exact old
      · rw [List.mem_singleton.mp new] at user
        exact absurd user stranger
  · intro pool client free live thread
    exact thread.frame (quiet pool client live) kept (linked _)

theorem Sys.Spares.congr {s s' s'' : Sys} {u : Nat} (spares : s.Spares s' u)
    (mem : s''.mem = s'.mem) (shared : s''.shared = s'.shared)
    (threads : s''.threads = s'.threads) : s.Spares s'' u := by
  refine ⟨?_, ?_, ?_, ?_⟩
  · rw [threads]
    exact spares.threads
  · rw [shared]
    exact spares.linked
  · rw [shared]
    exact spares.chunks
  · rw [mem, shared]
    exact spares.thread

/-- The invariant holds after the step, which leaves alone all threads but those listed. -/
structure Sys.Settles (s s' : Sys) (changed : Nat → Prop) : Prop where
  inv : SysInv s'
  spares : ∀ u, ¬ changed u → s.Spares s' u

theorem Sys.Settles.wider {s s' : Sys} {changed wider : Nat → Prop} (settles : s.Settles s' changed)
    (sub : ∀ u, changed u → wider u) : s.Settles s' wider :=
  ⟨settles.inv, fun u outside => settles.spares u (fun change => outside (sub u change))⟩

namespace SysInv

variable {s s' : Sys}

theorem initial (m : ByteMemory) (h : Heap Owner) : SysInv (Sys.initial m h) := by
  refine ⟨⟨?_, List.Pairwise.nil, ?_⟩, ?_, ?_⟩
  · intro c member
    cases member
  · intro c member
    cases member
  · intro t pool client live
    cases live
  · intro t _ c member
    cases member

/-- A step keeps the invariant when it does for the threads it changes, and leaves the
others alone. -/
theorem step (inv : SysInv s) (changed : Nat → Prop) (shared : SharedInv s'.shared)
    (spares : ∀ u, ¬ changed u → s.Spares s' u)
    (own : ∀ u, changed u → ∀ pool client, s'.threads u = .live pool client →
      ∃ free, ThreadInv s'.mem s'.shared u pool.alloc client free)
    (unborn : ∀ u, changed u → s'.threads u = .unborn → ∀ c ∈ s'.shared.carved, c.user ≠ some u) :
    s.Settles s' changed := by
  refine ⟨⟨shared, ?_, ?_⟩, spares⟩
  · intro u pool client live
    by_cases change : changed u
    · exact own u change pool client live
    · have spared := spares u change
      rw [spared.threads] at live
      obtain ⟨free, thread⟩ := inv.live u pool client live
      exact ⟨free, spared.thread pool client free live thread⟩
  · intro u absent
    by_cases change : changed u
    · exact unborn u change absent
    · have spared := spares u change
      rw [spared.threads] at absent
      intro c member user
      exact inv.unborn u absent c (spared.chunks c member user) user

/-- Writes to memory that was not outstanding go unnoticed. -/
theorem quiet_of_fresh (inv : SysInv s) {m' : ByteMemory} {chunk : Span}
    (same : SameOutside s.mem m' [chunk])
    (fresh : ∀ b ∈ s.shared.heap.blocks, chunk.Apart b.span) {u : Nat} {pool : ThreadPoolAlloc}
    {client : Client} (live : s.threads u = .live pool client) {r : Span}
    (region : Region s.shared u pool.alloc r) : SameInside s.mem m' [r] := by
  obtain ⟨free, thread⟩ := inv.live u pool client live
  obtain ⟨b, block, inside, _⟩ := (thread.home region).block inv.shared
  refine SameInside.ofOutside same ?_
  intro w written q member
  obtain rfl := List.mem_singleton.mp written
  obtain rfl := List.mem_singleton.mp member
  exact (fresh b block).mono (Span.Inside.refl _) inside

/-- Writes inside one thread's region go unnoticed by all others. -/
theorem quiet_of_region (inv : SysInv s) {t u : Nat} {pool pool' : ThreadPoolAlloc}
    {client client' : Client} {m' : ByteMemory} {w r q : Span}
    (same : SameOutside s.mem m' [w]) (live : s.threads t = .live pool client)
    (live' : s.threads u = .live pool' client') (different : t ≠ u)
    (region : Region s.shared t pool.alloc r) (inside : w.Inside r)
    (region' : Region s.shared u pool'.alloc q) : SameInside s.mem m' [q] := by
  obtain ⟨_, thread⟩ := inv.live t pool client live
  obtain ⟨_, thread'⟩ := inv.live u pool' client' live'
  have separate := (thread.home region).apart inv.shared (thread'.home region') different
  refine SameInside.ofOutside same ?_
  intro x written y member
  obtain rfl := List.mem_singleton.mp written
  obtain rfl := List.mem_singleton.mp member
  exact separate.mono inside (Span.Inside.refl _)

end SysInv

end MemAlloc
