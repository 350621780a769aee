import MemAlloc.CentralHeapRuns
import MemAlloc.HeapEffects
import MemAlloc.ThreadRuns

set_option autoImplicit false

namespace MemAlloc

open Malloc (Heap Block)
open Runs (Run Transition)
open SingleThreadAllocator (SameRegions Built builtBlocks)

/-- Every block an allocator was built in is for its thread. -/
theorem SingleThreadAllocator.Built.thread {t : Nat} {a : SingleThreadAllocator}
    {home : SizeClass → Block Owner} {arena b : Block Owner}
    (built : Built (.slab t) (.arena t) a home arena) (member : b ∈ builtBlocks home arena) :
    b.owner.thread = some t := by
  rcases SingleThreadAllocator.mem_builtBlocks.mp member with rfl | ⟨i, rfl⟩
  · rw [built.arenaOwner]
    rfl
  · rw [(built.slab i).owner]
    rfl

namespace Owner

/-- What is asked of the heap for each kind of block. -/
def size : Owner → Nat
  | .slab _ i => blocksPerSlab * i.bytes
  | .arena _ => kArenaCapacity
  | .chunk => CentralHeap.chunkSize
  | .outside _ => 0

/-- What `allocate_slab` may ask for in addition. -/
def slack : Owner → Nat
  | .slab _ i => i.bytes
  | .arena _ => 0
  | .chunk => CentralHeap.chunkSize
  | .outside _ => 0

def ofThread (t : Nat) (o : Owner) : Bool := decide (o.thread = some t)

def isChunk (o : Owner) : Bool := decide (o = .chunk)

def isOutside : Owner → Bool
  | .outside _ => true
  | _ => false

end Owner

namespace Shared

/-- What a request does to the heap and the central heap: nothing, or one more chunk, which
is recorded unless the vector of chunks fails to grow, and then the request throws. -/
inductive Draws (g g' : Shared) (throws : Prop) : Prop
  | nothing (heap : g'.heap = g.heap) (central : g'.central = g.central)
  | recorded {b : Block Owner} (owner : b.owner = .chunk)
      (sized : Sized Owner.chunk.size Owner.chunk.slack b)
      (heap : g'.heap.blocks = b :: g.heap.blocks)
      (chunks : g'.central.chunks = g.central.chunks ++ [b.span.base])
  | lost {b : Block Owner} (owner : b.owner = .chunk)
      (sized : Sized Owner.chunk.size Owner.chunk.slack b)
      (heap : g'.heap.blocks = b :: g.heap.blocks) (central : g'.central = g.central)
      (thrown : throws)

variable {P : Platform} {g g' : Shared} {m m' : ByteMemory}

theorem acquireChunk_draws {user : Option Nat} {reply : SlabReply} {recorded : Bool}
    {bytes : Nat} {x : Except Exn Nat}
    (done : g.acquireChunk P user reply recorded bytes m = (x, g', m')) :
    g.Draws g' (∃ y, x = .error y) := by
  simp only [acquireChunk, CentralHeap.acquireChunk] at done
  cases slab : allocateSlab P g.heap .chunk CentralHeap.chunkSize CentralHeap.chunkSize reply with
  | mk region grown =>
      cases region with
      | none =>
          simp only [slab] at done
          cases done
          exact .nothing (allocateSlab_none slab) rfl
      | some s =>
          obtain ⟨b, added, owner, base, sized⟩ :=
            allocateSlab_sized (by decide) (by decide) slab
          cases recorded with
          | false =>
              simp only [slab] at done
              cases done
              exact .lost owner sized added rfl ⟨_, rfl⟩
          | true =>
              simp only [slab, ↓reduceIte] at done
              cases done
              exact .recorded owner sized added (by rw [base])

theorem allocate_draws {t n : Nat} {pool pool' : ThreadPoolAlloc} {reply : SlabReply}
    {chunkRecorded slabRecorded : Bool} {x : Except Exn (Option Nat)}
    (done : pool.allocate P (acquireChunkCb P t reply chunkRecorded) slabRecorded n g m =
      (x, pool', g', m')) : g.Draws g' (∃ y, x = .error y) := by
  simp only [ThreadPoolAlloc.allocate] at done
  generalize run : pool.alloc.allocate P (acquireChunkCb P t reply chunkRecorded) slabRecorded n
    g m = served at done
  obtain ⟨x₁, a', g₁, m₁⟩ := served
  cases done
  rcases SingleThreadAllocator.allocate_asks run with rfl | ⟨i, asked, thrown⟩
  · exact .nothing rfl rfl
  · simp only [acquireChunkCb] at asked thrown
    generalize answer : g.acquireChunk P (some t) reply chunkRecorded i.bytes m = answered
      at asked thrown
    obtain ⟨y, g₂, m₂⟩ := answered
    cases asked
    cases acquireChunk_draws answer with
    | nothing heap central => exact .nothing heap central
    | recorded owner sized heap chunks => exact .recorded owner sized heap chunks
    | lost owner sized heap central failed =>
        obtain ⟨z, rfl⟩ := failed
        exact .lost owner sized heap central ⟨z, thrown z rfl⟩

theorem allocate_regions {t n : Nat} {pool pool' : ThreadPoolAlloc} {reply : SlabReply}
    {chunkRecorded slabRecorded : Bool} {x : Except Exn (Option Nat)}
    (done : pool.allocate P (acquireChunkCb P t reply chunkRecorded) slabRecorded n g m =
      (x, pool', g', m')) : SameRegions pool.alloc pool'.alloc := by
  simp only [ThreadPoolAlloc.allocate] at done
  generalize run : pool.alloc.allocate P (acquireChunkCb P t reply chunkRecorded) slabRecorded n
    g m = served at done
  obtain ⟨x₁, a', g₁, m₁⟩ := served
  cases done
  rcases SingleThreadAllocator.allocate_extends run with ⟨_, extended⟩ | ⟨i, _, extended⟩
  · exact extended.regions
  · exact extended.regions

theorem Draws.others {throws : Prop} (draws : g.Draws g' throws) {mine : Owner → Bool}
    (other : mine .chunk = false) : g'.heap.share mine = g.heap.share mine := by
  cases draws with
  | nothing heap central => rw [heap]
  | recorded owner sized heap chunks => exact Heap.share_cons_other heap (by rw [owner, other])
  | lost owner sized heap central thrown => exact Heap.share_cons_other heap (by rw [owner, other])

end Shared

/-- The blocks of the heap that a thread's allocator occupies, over the thread's life. -/
def Thread.Occupies (t : Nat) (blocks : List (Block Owner)) : Thread → Prop
  | .live pool _ => ∃ home arena, blocks = builtBlocks home arena ∧
      Built (.slab t) (.arena t) pool.alloc home arena
  | _ => blocks = []

theorem Thread.Occupies.of_not_live {t : Nat} {blocks : List (Block Owner)} {thread : Thread}
    (occupies : thread.Occupies t blocks)
    (noneLive : ∀ pool client, thread ≠ .live pool client) : blocks = [] := by
  cases thread with
  | unborn => exact occupies
  | live pool client => exact absurd rfl (noneLive pool client)
  | exited => exact occupies

namespace Sys

/-- The call was given up by an exception. -/
def Event.throws : Event → Bool
  | .allocate _ _ (.error _) => true
  | .acquireChunk _ (.error _) => true
  | _ => false

/-- What the allocators have of the heap: each live thread the blocks it was built in, and the
central heap its chunks; `lost` are those it has not recorded. -/
structure Footprint (s : Sys) (lost : List Nat) : Prop where
  threads : ∀ t, (s.threads t).Occupies t (s.shared.heap.share (Owner.ofThread t))
  chunks : (CentralHeap.outstanding .chunk s.shared.heap).Perm (s.shared.central.chunks ++ lost)
  sized : ∀ b ∈ s.shared.heap.share Owner.isChunk, Sized Owner.chunk.size Owner.chunk.slack b

/-- No thread has started or ended, and a live one has the regions it had. -/
def InPlace (s s' : Sys) : Prop :=
  ∀ u, s'.threads u = s.threads u ∨ ∃ pool client pool' client',
    s.threads u = .live pool client ∧ s'.threads u = .live pool' client' ∧
      SameRegions pool.alloc pool'.alloc

theorem InPlace.update {s s' : Sys} {t : Nat} {pool pool' : ThreadPoolAlloc}
    {client client' : Client} (live : s.threads t = .live pool client)
    (regions : SameRegions pool.alloc pool'.alloc)
    (threads : s'.threads = Function.update s.threads t (.live pool' client')) : s.InPlace s' := by
  intro u
  rw [threads]
  by_cases here : u = t
  · subst here
    exact Or.inr ⟨pool, client, pool', client', live, Function.update_self _ _ _, regions⟩
  · exact Or.inl (Function.update_of_ne here _ _)

theorem outstanding_eq (h : Heap Owner) :
    CentralHeap.outstanding .chunk h =
      (h.share Owner.isChunk).map (fun b => b.span.base) := rfl

namespace Footprint

variable {P : Platform} {s s' : Sys} {lost : List Nat} {t : Nat}

theorem initial (m : ByteMemory) {h : Heap Owner}
    (clean : ∀ b ∈ h.blocks, ∃ use, b.owner = .outside use) :
    (Sys.initial m h).Footprint [] := by
  have none : ∀ mine : Owner → Bool, (∀ use, mine (.outside use) = false) →
      h.share mine = [] := by
    intro mine apart
    apply List.filter_eq_nil_iff.mpr
    intro b member
    obtain ⟨use, outside⟩ := clean b member
    simp [outside, apart]
  have chunks : h.share Owner.isChunk = [] := none _ (fun use => rfl)
  refine ⟨fun t => none _ (fun use => rfl), ?_, ?_⟩
  · rw [outstanding_eq]
    change ((h.share Owner.isChunk).map _).Perm ([] ++ [])
    rw [chunks]
    exact List.Perm.nil
  · intro b member
    change b ∈ h.share Owner.isChunk at member
    rw [chunks] at member
    cases member

/-- A thread has run on in the blocks it had; the others, and the chunks, are as before. -/
theorem keep (footprint : s.Footprint lost)
    (threads : s.InPlace s')
    (shares : ∀ u, s'.shared.heap.share (Owner.ofThread u) =
      s.shared.heap.share (Owner.ofThread u)) :
    ∀ u, (s'.threads u).Occupies u (s'.shared.heap.share (Owner.ofThread u)) := by
  intro u
  have before := footprint.threads u
  rw [shares u]
  rcases threads u with same | ⟨pool, client, pool', client', live, live', regions⟩
  · rw [same]
    exact before
  · rw [live] at before
    rw [live']
    obtain ⟨home, arena, blocks, built⟩ := before
    exact ⟨home, arena, blocks, built.moved regions⟩

/-- The chunks are untouched. -/
theorem same (footprint : s.Footprint lost)
    (threads : ∀ u, (s'.threads u).Occupies u (s'.shared.heap.share (Owner.ofThread u)))
    (chunks : s'.shared.heap.share Owner.isChunk = s.shared.heap.share Owner.isChunk)
    (central : s'.shared.central = s.shared.central) : s'.Footprint lost := by
  refine ⟨threads, ?_, ?_⟩
  · rw [outstanding_eq, chunks, central]
    exact footprint.chunks
  · rw [chunks]
    exact footprint.sized

theorem ran (footprint : s.Footprint lost) (threads : s.InPlace s')
    (shared : s'.shared = s.shared) : s'.Footprint lost :=
  footprint.same (footprint.keep threads (fun u => by rw [shared])) (by rw [shared])
    (by rw [shared])

/-- A request for a chunk has been made on behalf of a thread, or of none. -/
theorem draw {throws : Prop} (footprint : s.Footprint lost)
    (threads : s.InPlace s')
    (draws : s.shared.Draws s'.shared throws) :
    s'.Footprint lost ∨ throws ∧ ∃ p, s'.Footprint (lost ++ [p]) := by
  have kept := footprint.keep threads
    (fun u => draws.others (by simp [Owner.ofThread, Owner.thread]))
  have mine : Owner.isChunk Owner.chunk = true := rfl
  cases draws with
  | nothing heap central => exact Or.inl (footprint.same kept (by rw [heap]) central)
  | @recorded b owner sized heap chunks =>
      have added := Heap.share_cons heap Owner.isChunk
      rw [owner, if_pos mine] at added
      refine Or.inl ⟨kept, ?_, ?_⟩
      · rw [outstanding_eq, added, chunks, List.append_assoc, List.map_cons]
        exact (footprint.chunks.cons _).trans List.perm_middle.symm
      · rw [added]
        exact List.forall_mem_cons.mpr ⟨sized, footprint.sized⟩
  | @lost b owner sized heap central thrown =>
      have added := Heap.share_cons heap Owner.isChunk
      rw [owner, if_pos mine] at added
      refine Or.inr ⟨thrown, b.span.base, kept, ?_, ?_⟩
      · rw [outstanding_eq, added, central, ← List.append_assoc, List.map_cons]
        exact (footprint.chunks.cons _).trans (List.perm_append_singleton _ _).symm
      · rw [added]
        exact List.forall_mem_cons.mpr ⟨sized, footprint.sized⟩

/-- Only one thread has started or ended; what it occupies has changed, the rest has not. -/
theorem replace {thread : Thread} (footprint : s.Footprint lost)
    (threads : s'.threads = Function.update s.threads t thread)
    (own : thread.Occupies t (s'.shared.heap.share (Owner.ofThread t)))
    (others : ∀ mine : Owner → Bool, (∀ o : Owner, o.thread = some t → mine o = false) →
      s'.shared.heap.share mine = s.shared.heap.share mine)
    (central : s'.shared.central = s.shared.central) : s'.Footprint lost := by
  refine footprint.same ?_ (others _ ?_) central
  · intro u
    rw [threads]
    by_cases here : u = t
    · subst here
      rw [Function.update_self]
      exact own
    · rw [Function.update_of_ne here, others]
      · exact footprint.threads u
      · intro o owned
        simp [Owner.ofThread, owned, Ne.symm here]
  · intro o owned
    cases o <;> cases owned <;> rfl

/-- Construction adds blocks of the thread only. -/
theorem start_others {reply : SizeClass → SlabReply} {arenaReply : Option Nat}
    {a : SingleThreadAllocator} {m m' : ByteMemory} {h h' : Heap Owner} {mine : Owner → Bool}
    (done : SingleThreadAllocator.new P (.slab t) (.arena t) reply arenaReply h m =
      (.ok (a, m'), h')) (apart : ∀ o : Owner, o.thread = some t → mine o = false) :
    h'.share mine = h.share mine := by
  obtain ⟨home, arena, grown, built⟩ := SingleThreadAllocator.new_blocks done
  have away : (builtBlocks home arena).filter (fun b => mine b.owner) = [] := by
    apply List.filter_eq_nil_iff.mpr
    intro b member
    simp [apart b.owner (built.thread member)]
  rw [Heap.share_append grown, away, List.nil_append]

theorem start {reply : SizeClass → SlabReply} {arenaReply : Option Nat}
    {a : SingleThreadAllocator} {m' : ByteMemory} {h' : Heap Owner} (footprint : s.Footprint lost)
    (unborn : s.threads t = .unborn)
    (done : SingleThreadAllocator.new P (.slab t) (.arena t) reply arenaReply s.shared.heap
      s.mem = (.ok (a, m'), h')) {pool : ThreadPoolAlloc} {client : Client}
    (threads : s'.threads = Function.update s.threads t (.live pool client))
    (fresh : pool.alloc = a) (heap : s'.shared = { s.shared with heap := h' }) :
    s'.Footprint lost := by
  obtain ⟨home, arena, grown, built⟩ := SingleThreadAllocator.new_blocks done
  have none : s.shared.heap.share (Owner.ofThread t) = [] := by
    have before := footprint.threads t
    rwa [unborn] at before
  refine footprint.replace threads ⟨home, arena, ?_, fresh ▸ built⟩ ?_ (by rw [heap])
  · have mine : (builtBlocks home arena).filter (fun b => Owner.ofThread t b.owner) =
        builtBlocks home arena := by
      apply List.filter_eq_self.mpr
      intro b member
      simp [Owner.ofThread, built.thread member]
    rw [heap, Heap.share_append grown, mine, none, List.append_nil]
  · intro mine apart
    rw [heap]
    exact start_others done apart

/-- Destruction releases blocks of the thread only. -/
theorem exit_others {pool : ThreadPoolAlloc} {client : Client} {mine : Owner → Bool}
    (footprint : s.Footprint lost) (live : s.threads t = .live pool client)
    (apart : ∀ o : Owner, o.thread = some t → mine o = false) :
    (pool.alloc.destroy s.shared.heap).share mine = s.shared.heap.share mine := by
  have before := footprint.threads t
  rw [live] at before
  obtain ⟨home, arena, occupied, built⟩ := before
  rw [SingleThreadAllocator.destroy_eq]
  apply Heap.share_freeAll_other
  intro p released
  obtain ⟨b, member, base⟩ := (built.releases p).mp released
  have owned := built.thread member
  rw [← occupied] at member
  exact ⟨b, (Heap.mem_share.mp member).1, base, apart b.owner owned⟩

theorem exit {pool : ThreadPoolAlloc} {client : Client} (footprint : s.Footprint lost)
    (live : s.threads t = .live pool client)
    (threads : s'.threads = Function.update s.threads t .exited)
    (heap : s'.shared = { s.shared with heap := pool.alloc.destroy s.shared.heap }) :
    s'.Footprint lost := by
  have before := footprint.threads t
  rw [live] at before
  obtain ⟨home, arena, occupied, built⟩ := before
  refine footprint.replace threads ?_ ?_ (by rw [heap])
  · rw [heap]
    change (pool.alloc.destroy s.shared.heap).share (Owner.ofThread t) = []
    rw [SingleThreadAllocator.destroy_eq]
    apply Heap.share_freeAll_own
    intro b member
    rw [occupied] at member
    exact (built.releases b.span.base).mpr ⟨b, member, rfl⟩
  · intro mine apart
    rw [heap]
    exact footprint.exit_others live apart

/-- A step loses a chunk at most, and only by throwing. -/
theorem step {e : Event} (footprint : s.Footprint lost) (taken : Step P s e s') :
    s'.Footprint lost ∨ e.throws = true ∧ ∃ p, s'.Footprint (lost ++ [p]) := by
  cases taken with
  | start unborn done => exact Or.inl (footprint.start unborn done rfl rfl rfl)
  | startFails unborn done =>
      have undone := Heap.share_congr (SingleThreadAllocator.new_undone done)
      exact Or.inl (footprint.same (footprint.keep (fun u => Or.inl rfl) (fun u => undone _))
        (undone _) rfl)
  | exit live => exact Or.inl (footprint.exit live rfl rfl)
  | @allocate t n pool pool' client reply chunkRecorded slabRecorded x g' m' live word done =>
      have regions := Shared.allocate_regions done
      have place : s.InPlace { s.setThread t (.live pool' (client.gain n x)) with
          mem := m', shared := g' } := InPlace.update live regions rfl
      refine (footprint.draw place (Shared.allocate_draws done)).imp_right ?_
      rintro ⟨⟨y, rfl⟩, found⟩
      exact ⟨rfl, found⟩
  | allocateAligned live word power done =>
      have regions := (ThreadPoolAlloc.allocateAligned_extends done).regions
      exact Or.inl (footprint.ran (InPlace.update live regions rfl) rfl)
  | free live out names done =>
      have regions := (SingleThreadAllocator.call_extends (ThreadPoolAlloc.of_free done)).regions
      exact Or.inl (footprint.ran (InPlace.update live regions rfl) rfl)
  | freeArena live out names done =>
      have regions := (SingleThreadAllocator.call_extends (ThreadPoolAlloc.of_free done)).regions
      exact Or.inl (footprint.ran (InPlace.update live regions rfl) rfl)
  | @acquireChunk bytes reply recorded x g' m' done =>
      have draws := Shared.acquireChunk_draws done
      have place : s.InPlace { s with mem := m', shared := g' } := fun u => Or.inl rfl
      refine (footprint.draw place draws).imp_right ?_
      rintro ⟨⟨y, rfl⟩, found⟩
      exact ⟨rfl, found⟩
  | write writable =>
      exact Or.inl (footprint.ran (fun u => Or.inl rfl) rfl)
  | @malloc use size reply x h' done =>
      have others : ∀ mine : Owner → Bool, mine (.outside use) = false →
          h'.share mine = s.shared.heap.share mine := by
        intro mine apart
        cases x with
        | none => rw [Heap.of_malloc_none done]
        | some p => exact Heap.share_cons_other (Heap.of_malloc_some done).2 apart
      exact Or.inl (footprint.same
        (footprint.keep (fun u => Or.inl rfl) (fun u => others _ rfl)) (others _ rfl) rfl)
  | @mfree b use member owner =>
      have others : ∀ mine : Owner → Bool, mine (.outside use) = false →
          (s.shared.heap.free b.span.base).share mine = s.shared.heap.share mine :=
        fun mine apart => Heap.share_free_other member (by rw [owner, apart])
      exact Or.inl (footprint.same
        (footprint.keep (fun u => Or.inl rfl) (fun u => others _ rfl)) (others _ rfl) rfl)

/-- The program's own blocks come and go by its own `malloc` and `free` alone. -/
theorem outside {e : Event} (footprint : s.Footprint lost) (taken : Step P s e s')
    (malloc : ∀ use size x, e ≠ .malloc use size x) (mfree : ∀ p, e ≠ .mfree p) :
    s'.shared.heap.share Owner.isOutside = s.shared.heap.share Owner.isOutside := by
  have apart : ∀ {t : Nat} (o : Owner), o.thread = some t → o.isOutside = false := by
    intro t o owned
    cases o with
    | outside use => cases owned
    | _ => rfl
  cases taken with
  | start unborn done => exact start_others done apart
  | startFails unborn done => exact Heap.share_congr (SingleThreadAllocator.new_undone done) _
  | exit live => exact footprint.exit_others live apart
  | allocate live word done => exact (Shared.allocate_draws done).others rfl
  | acquireChunk done => exact (Shared.acquireChunk_draws done).others rfl
  | malloc done => exact absurd rfl (malloc _ _ _)
  | mfree member owner => exact absurd rfl (mfree _)
  | allocateAligned live word power done => rfl
  | free live out names done => rfl
  | freeArena live out names done => rfl
  | write writable => rfl

/-- As many chunks are lost in a run as calls throw, at most. -/
theorem run {m : ByteMemory} {h : Heap Owner}
    (clean : ∀ b ∈ h.blocks, ∃ use, b.owner = .outside use)
    {trace : List (Transition Sys Event)} (run : Run (Step P) (Sys.initial m h) trace s) :
    ∃ lost, lost.length ≤ trace.countP (fun x => x.event.throws) ∧ s.Footprint lost := by
  induction run with
  | nil => exact ⟨[], Nat.le_refl _, .initial m clean⟩
  | @snoc trace s s' e _ taken ih =>
      obtain ⟨lost, few, footprint⟩ := ih
      rw [List.countP_append, List.countP_singleton]
      rcases footprint.step taken with same | ⟨thrown, p, more⟩
      · exact ⟨lost, Nat.le_trans few (Nat.le_add_right _ _), same⟩
      · refine ⟨lost ++ [p], ?_, more⟩
        rw [List.length_append, List.length_singleton, if_pos thrown]
        omega

/-- A live thread costs its arena and the 256 blocks of each class, give or take what the
slabs are over-allocated by. -/
theorem threadBytes {pool : ThreadPoolAlloc} {client : Client} (footprint : s.Footprint lost)
    (live : s.threads t = .live pool client) :
    4714496 ≤ Heap.bytes (s.shared.heap.share (Owner.ofThread t)) ∧
      Heap.bytes (s.shared.heap.share (Owner.ofThread t)) ≤ 4716528 := by
  have occupied := footprint.threads t
  rw [live] at occupied
  obtain ⟨home, arena, blocks, built⟩ := occupied
  have sized : ∀ b ∈ builtBlocks home arena,
      b.owner.size ≤ b.span.size ∧ b.span.size ≤ b.owner.size + b.owner.slack := by
    intro b member
    rcases SingleThreadAllocator.mem_builtBlocks.mp member with rfl | ⟨i, rfl⟩
    · rw [built.arenaOwner, built.arenaSize]
      exact ⟨Nat.le_refl _, Nat.le_refl _⟩
    · rw [(built.slab i).owner]
      exact (built.slab i).sized
  have sums : ∀ f : Owner → Nat, (builtBlocks home arena).map (fun b => f b.owner) =
      f (.arena t) :: ((List.finRange 7).map (fun i => f (.slab t i))).reverse := by
    intro f
    simp only [builtBlocks, List.map_cons, built.arenaOwner, List.map_reverse, List.map_map,
      Function.comp_def, (built.slab _).owner]
  obtain ⟨least, most⟩ := Heap.bytes_between (fun b => Owner.size b.owner)
    (fun b => b.owner.size + Owner.slack b.owner) sized
  rw [sums Owner.size] at least
  rw [sums (fun o => o.size + o.slack)] at most
  have exactly : (kArenaCapacity ::
      ((List.finRange 7).map (fun i => blocksPerSlab * SizeClass.bytes i)).reverse).sum =
        4714496 := by decide
  have padded : (kArenaCapacity :: ((List.finRange 7).map (fun i =>
      blocksPerSlab * SizeClass.bytes i + SizeClass.bytes i)).reverse).sum = 4716528 := by decide
  rw [blocks]
  exact ⟨exactly.symm.trans_le least, most.trans_eq padded⟩

theorem chunkBytes (footprint : s.Footprint lost) :
    65536 * (s.shared.central.chunks.length + lost.length) ≤
        Heap.bytes (s.shared.heap.share Owner.isChunk) ∧
      Heap.bytes (s.shared.heap.share Owner.isChunk) ≤
        131072 * (s.shared.central.chunks.length + lost.length) := by
  obtain ⟨least, most⟩ := Heap.bytes_between (fun _ => 65536) (fun _ => 131072)
    footprint.sized
  have count : (s.shared.heap.share Owner.isChunk).length =
      s.shared.central.chunks.length + lost.length := by
    have lengths := footprint.chunks.length_eq
    rwa [outstanding_eq, List.length_map, List.length_append] at lengths
  rw [List.map_const', List.sum_replicate, count, smul_eq_mul, Nat.mul_comm] at least most
  exact ⟨least, most⟩

end Footprint

end Sys

namespace CentralHeap

theorem destroy_recorded {τ : Type} [DecidableEq τ] {mine : τ} {chunks : List Nat}
    {h : Heap τ} (distinct : chunks.Nodup) (owned : ∀ p ∈ chunks, p ∈ outstanding mine h) :
    destroy mine chunks h = some (h.freeAll chunks) := by
  induction chunks generalizing h with
  | nil => rfl
  | cons raw rest ih =>
      obtain ⟨absent, tail⟩ := List.nodup_cons.mp distinct
      rw [destroy, if_pos (owned raw List.mem_cons_self)]
      refine ih tail ?_
      intro p member
      rw [outstanding_freed, List.mem_filter]
      have different : p ≠ raw := by
        rintro rfl
        exact absent member
      exact ⟨owned p (List.mem_cons_of_mem _ member), by simp [different]⟩

end CentralHeap

namespace Sys

variable {P : Platform} {s s' : Sys} {lost : List Nat} {t : Nat}

theorem Footprint.rest (footprint : s.Footprint lost)
    (noneLive : ∀ t pool client, s.threads t ≠ .live pool client) {b : Block Owner}
    (member : b ∈ s.shared.heap.blocks) : (∃ use, b.owner = .outside use) ∨ b.owner = .chunk := by
  have none : ∀ t, b.owner.thread ≠ some t := by
    intro t owned
    have empty := (footprint.threads t).of_not_live (noneLive t)
    have listed : b ∈ s.shared.heap.share (Owner.ofThread t) :=
      Heap.mem_share.mpr ⟨member, decide_eq_true owned⟩
    rw [empty] at listed
    cases listed
  cases owner : b.owner with
  | slab t i =>
      rw [owner] at none
      exact absurd rfl (none t)
  | arena t =>
      rw [owner] at none
      exact absurd rfl (none t)
  | chunk => exact Or.inr rfl
  | outside use => exact Or.inl ⟨use, rfl⟩

/-- The destructor of the central heap, with no thread left, releases the recorded chunks:
the program's blocks stay, and of the chunks those that were lost. -/
theorem Footprint.torn (footprint : s.Footprint lost)
    (noneLive : ∀ t pool client, s.threads t ≠ .live pool client) :
    ∃ h', CentralHeap.destroy .chunk s.shared.central.chunks s.shared.heap = some h' ∧
      h'.share Owner.isOutside = s.shared.heap.share Owner.isOutside ∧
      (CentralHeap.outstanding .chunk h').Perm lost ∧
      ∀ b ∈ h'.blocks, b.owner.isOutside = true ∨ b.owner = .chunk := by
  have distinct := footprint.chunks.nodup_iff.mp (CentralHeap.outstanding_nodup Owner.chunk _)
  obtain ⟨first, _, apart⟩ := List.nodup_append'.mp distinct
  have owned : ∀ p ∈ s.shared.central.chunks,
      p ∈ CentralHeap.outstanding .chunk s.shared.heap :=
    fun p member => footprint.chunks.symm.subset (List.mem_append_left _ member)
  refine ⟨_, CentralHeap.destroy_recorded first owned, ?_, ?_, ?_⟩
  · apply Heap.share_freeAll_other
    intro p member
    obtain ⟨b, listed, owner, base⟩ := CentralHeap.mem_outstanding.mp (owned p member)
    exact ⟨b, listed, base, by rw [owner]; rfl⟩
  · have left : CentralHeap.outstanding .chunk (s.shared.heap.freeAll s.shared.central.chunks) =
        (CentralHeap.outstanding .chunk s.shared.heap).filter
          (fun p => decide (p ∉ s.shared.central.chunks)) := by
      rw [outstanding_eq, outstanding_eq, Heap.share_freeAll, List.filter_map]
      rfl
    have gone : s.shared.central.chunks.filter
        (fun p => decide (p ∉ s.shared.central.chunks)) = [] := by
      rw [List.filter_eq_nil_iff]
      intro p member
      simp [member]
    have kept : lost.filter (fun p => decide (p ∉ s.shared.central.chunks)) = lost := by
      rw [List.filter_eq_self]
      intro p member
      rw [decide_eq_true_eq]
      exact fun recorded => apart recorded member
    have filtered := footprint.chunks.filter (fun p => decide (p ∉ s.shared.central.chunks))
    rwa [List.filter_append, gone, kept, List.nil_append, ← left] at filtered
  · intro b member
    rw [Heap.blocks_freeAll] at member
    rcases footprint.rest noneLive (List.mem_filter.mp member).1 with ⟨use, outside⟩ | chunk
    · exact Or.inl (by rw [outside]; rfl)
    · exact Or.inr chunk

section Runs

variable {m : ByteMemory} {h : Heap Owner} {trace : List (Transition Sys Event)}

/-- The allocators' share of the heap, in every state of every interleaving: a live thread has
the eight blocks it was built in, any other thread has none (a constructor that throws keeps
nothing), and the chunks are those the central heap has recorded, and at most one more for
every call that threw. No call but the program's own `malloc` and `free` touches a block of
the program. -/
theorem heap_accounted (clean : ∀ b ∈ h.blocks, ∃ use, b.owner = .outside use)
    (run : Run (Step P) (initial m h) trace s) :
    (∃ lost : List Nat, lost.length ≤ trace.countP (fun x => x.event.throws) ∧
      s.Footprint lost ∧
      (∀ t pool client, s.threads t = .live pool client →
        4714496 ≤ Heap.bytes (s.shared.heap.share (Owner.ofThread t)) ∧
          Heap.bytes (s.shared.heap.share (Owner.ofThread t)) ≤ 4716528) ∧
      65536 * (s.shared.central.chunks.length + lost.length) ≤
        Heap.bytes (s.shared.heap.share Owner.isChunk) ∧
      Heap.bytes (s.shared.heap.share Owner.isChunk) ≤
        131072 * (s.shared.central.chunks.length + lost.length)) ∧
    ∀ x ∈ trace, (∀ use size y, x.event ≠ .malloc use size y) → (∀ p, x.event ≠ .mfree p) →
      x.after.shared.heap.share Owner.isOutside = x.before.shared.heap.share Owner.isOutside := by
  obtain ⟨lost, few, footprint⟩ := Footprint.run clean run
  refine ⟨⟨lost, few, footprint, fun t pool client live => footprint.threadBytes live,
    footprint.chunkBytes⟩, ?_⟩
  intro x member malloc mfree
  obtain ⟨past, rest, _, reached, taken⟩ := run.reached x member
  obtain ⟨_, _, before⟩ := Footprint.run clean reached
  exact before.outside taken malloc mfree

/-- A chunk is acquired, and a thread starts. -/
theorem chunk_and_thread : ∃ (trace : List (Transition Sys Event)) (s : Sys)
    (pool : ThreadPoolAlloc), Run (Step desktop) (initial (fun _ => 0) Heap.empty) trace s ∧
      trace.map (fun x => x.event) = [.acquireChunk 64 (.ok 65600), .start 0 (.ok ())] ∧
      s.threads 0 = .live pool Client.none ∧ ∀ t, t ≠ 0 → s.threads t = .unborn := by
  obtain ⟨g, m', done, blocks⟩ : ∃ g m', (initial (fun _ => 0) Heap.empty).shared.acquireChunk
      desktop none ⟨some 65536, none⟩ true 64 (fun _ => 0) = (.ok 65600, g, m') ∧
        g.heap.blocks = [⟨⟨65536, 65536⟩, .chunk⟩] := ⟨_, _, rfl, rfl⟩
  have below : Below g.heap (1048576 + 1048576) := by
    intro b member
    rw [blocks] at member
    obtain rfl := List.mem_singleton.mp member
    change 65536 + 65536 ≤ 1048576 + 1048576
    decide
  obtain ⟨a, m'', h', built, _⟩ := SingleThreadAllocator.new_possible (Owner.slab 0) (.arena 0) m'
    g.heap (Nat.dvd_refl _) (by decide) below
  have acquired : Step desktop (initial (fun _ => 0) Heap.empty) (.acquireChunk 64 (.ok 65600))
      ⟨m', g, fun _ => .unborn, 0⟩ := .acquireChunk done
  obtain ⟨s, started, live, others⟩ : ∃ s, Step desktop ⟨m', g, fun _ => .unborn, 0⟩
      (.start 0 (.ok ())) s ∧ s.threads 0 = .live ⟨a, 0, 0, 0⟩ Client.none ∧
        ∀ t, t ≠ 0 → s.threads t = .unborn :=
    ⟨_, .start rfl built, rfl, fun t other => Function.update_of_ne other _ _⟩
  exact ⟨_, s, ⟨a, 0, 0, 0⟩, (Run.nil.snoc acquired).snoc started, rfl, live, others⟩

theorem heap_accounted_first : ∃ (trace : List (Transition Sys Event)) (s : Sys)
    (pool : ThreadPoolAlloc), Run (Step desktop) (initial (fun _ => 0) Heap.empty) trace s ∧
      s.threads 0 = .live pool Client.none ∧ ∃ lost, s.Footprint lost ∧
        4714496 ≤ Heap.bytes (s.shared.heap.share (Owner.ofThread 0)) := by
  obtain ⟨trace, s, pool, run, _, live, _⟩ := chunk_and_thread
  obtain ⟨⟨lost, _, footprint, threads, _⟩, _⟩ :=
    heap_accounted (fun b member => by cases member) run
  exact ⟨trace, s, pool, run, live, lost, footprint, (threads 0 pool _ live).1⟩

/-- Once every thread has ended, the destructor of the central heap gives back what the
allocators still have of the heap: only blocks of the program are left, and at most one
chunk for every call that threw. -/
theorem teardown (clean : ∀ b ∈ h.blocks, ∃ use, b.owner = .outside use)
    (run : Run (Step P) (initial m h) trace s)
    (noneLive : ∀ t pool client, s.threads t ≠ .live pool client) :
    ∃ h', CentralHeap.destroy .chunk s.shared.central.chunks s.shared.heap = some h' ∧
      h'.share Owner.isOutside = s.shared.heap.share Owner.isOutside ∧
      (CentralHeap.outstanding .chunk h').length ≤ trace.countP (fun x => x.event.throws) ∧
      ∀ b ∈ h'.blocks, b.owner.isOutside = true ∨ b.owner = .chunk := by
  obtain ⟨lost, few, footprint⟩ := Footprint.run clean run
  obtain ⟨h', freed, outside, left, rest⟩ := footprint.torn noneLive
  exact ⟨h', freed, outside, left.length_eq ▸ few, rest⟩

/-- A chunk is acquired, a thread starts and ends, and the process exits. -/
theorem teardown_first : ∃ (trace : List (Transition Sys Event)) (s : Sys) (h' : Heap Owner),
    Run (Step desktop) (initial (fun _ => 0) Heap.empty) trace s ∧ trace.length = 3 ∧
      CentralHeap.destroy .chunk s.shared.central.chunks s.shared.heap = some h' ∧
      (CentralHeap.outstanding .chunk h').length = 0 := by
  obtain ⟨trace, s, pool, run, events, live, unborn⟩ := chunk_and_thread
  obtain ⟨s', ended, gone⟩ : ∃ s', Step desktop s (.exit 0) s' ∧
      s'.threads = Function.update s.threads 0 .exited := ⟨_, .exit live, rfl⟩
  have noneLive : ∀ t p c, s'.threads t ≠ .live p c := by
    intro t p c running
    rw [gone] at running
    by_cases here : t = 0
    · subst here
      rw [Function.update_self] at running
      cases running
    · rw [Function.update_of_ne here, unborn t here] at running
      cases running
  have length : trace.length = 2 := by
    have lengths := congrArg List.length events
    rwa [List.length_map] at lengths
  have quiet : trace.countP (fun x => x.event.throws) = 0 := by
    have thrown : trace.countP (fun x => x.event.throws) =
        (trace.map (fun x => x.event)).countP Event.throws := by
      rw [List.countP_map]
      rfl
    rw [thrown, events]
    rfl
  obtain ⟨h', freed, _, few, _⟩ :=
    teardown (fun b member => by cases member) (run.snoc ended) noneLive
  rw [List.countP_append, quiet] at few
  exact ⟨_, s', h', run.snoc ended, by rw [List.length_append, length]; rfl, freed,
    Nat.le_zero.mp few⟩

end Runs

end Sys

end MemAlloc
