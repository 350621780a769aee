import MemAlloc.FreeSafety

set_option autoImplicit false

namespace MemAlloc

open Malloc (Heap Block addressLimit)
open Runs (Run Transition)

namespace SingleThreadAllocator

/-- No slab starts at the null address, and the arena's cursor stays inside user memory. -/
structure Grounded (a : SingleThreadAllocator) : Prop where
  arena : a.arena.Inv
  slabs : ∀ i, ∀ s ∈ (a.pools i).slabs blocksPerSlab, 0 < s.base

/-- What calls may add: slabs that do not start at the null address. -/
def GroundedSlab (_ : SizeClass) (s : Slab) : Prop := 0 < s.base

variable {a a' : SingleThreadAllocator}

theorem Grounded.extend (grounded : Grounded a) (extended : Extends a a' GroundedSlab) :
    Grounded a' := by
  have regions := extended.regions
  have within := grounded.arena.within
  refine ⟨⟨?_, ?_, extended.within within⟩, ?_⟩
  · rw [regions.base]
    exact grounded.arena.positive
  · rw [regions.base, regions.capacity]
    exact grounded.arena.region
  · intro i s member
    rcases extended.slabs i s member with old | new
    · exact grounded.slabs i s old
    · exact new

theorem Extends.mono {new new' : SizeClass → Slab → Prop} (extended : Extends a a' new)
    (wider : ∀ i s, new i s → new' i s) : Extends a a' new' :=
  ⟨extended.regions, extended.within, fun i s member =>
    (extended.slabs i s member).imp_right (wider i s)⟩

theorem Extends.none {new : SizeClass → Slab → Prop} (extended : Extends a a' (fun _ _ => False)) :
    Extends a a' new := extended.mono (fun _ _ impossible => impossible.elim)

/-- A new allocator's regions are blocks of the C heap. -/
theorem Grounded.new {P : Platform} {t : Nat} {reply : SizeClass → SlabReply}
    {arenaReply : Option Nat} {h h' : Heap Owner} {m m' : ByteMemory}
    (done : SingleThreadAllocator.new P (.slab t) (.arena t) reply arenaReply h m =
      (.ok (a, m'), h')) : Grounded a := by
  have different : Function.Injective (Owner.slab t) := fun i j same => (Owner.slab.inj same).2
  have apart : ∀ i, Owner.slab t i ≠ .arena t := fun i same => by cases same
  obtain ⟨inv, _⟩ := new_ok different apart done
  obtain ⟨housed, _⟩ := Housed.new done
  refine ⟨inv.arena, fun i s member => ?_⟩
  obtain ⟨b, block, _, inside⟩ := housed.slabs i s member
  exact Nat.lt_of_lt_of_le (h'.bounded b block).1 inside.1

theorem Grounded.deallocates {m : ByteMemory} {p : Nat} {i : SizeClass} (grounded : Grounded a)
    (classified : a.classify p = i.bytes) :
    ∃ a' m', a.deallocateContaining m p i.bytes = .ok (a', m') := by
  obtain ⟨s, found⟩ : ∃ s, ((a.pools i).slabs blocksPerSlab).find?
      (fun s => s.contains i.bytes p) = some s := by
    have contains := contains_of_classify classified
    rw [BlockPool.contains, List.any_eq_true] at contains
    apply Option.isSome_iff_exists.mp
    rw [List.find?_isSome]
    exact contains
  have member := List.mem_of_find?_eq_some found
  have hit : s.contains i.bytes p = true :=
    List.find?_some (p := fun slab : Slab => slab.contains i.bytes p) found
  have inside := Slab.contains_iff.mp hit
  have positive : s.blockOf i.bytes p ≠ 0 := by
    have base := grounded.slabs i s member
    rw [Slab.blockOf]
    omega
  have block : s.blockOf i.bytes p ∈ blocksOf i.bytes ((a.pools i).slabs blocksPerSlab) :=
    mem_blocksOf.mpr ⟨s, member, Slab.blockOf_mem i.bytes_positive inside⟩
  have freed := BlockPool.deallocate_ok (m := m) i.bytes_positive positive block
  rw [deallocateContaining, dif_pos i.bytes_le, sizeClassOf_bytes i]
  simp only [poolDeallocateContaining, recordFree_pools, BlockPool.deallocateContaining, found,
    freed]
  exact ⟨_, _, rfl⟩

end SingleThreadAllocator

open SingleThreadAllocator (Grounded GroundedSlab Extends)

/-- The central heap answers with an address behind a chunk header, or throws
`std::bad_alloc`. -/
theorem acquireChunkCb_answer (P : Platform) (t bytes : Nat) (reply : SlabReply) (recorded : Bool)
    (g : Shared) (m : ByteMemory) :
    (acquireChunkCb P t reply recorded bytes g m).1 = .error .badAlloc ∨
      ∃ body, (acquireChunkCb P t reply recorded bytes g m).1 = .ok (some body) ∧ 0 < body := by
  simp only [acquireChunkCb, Shared.acquireChunk, CentralHeap.acquireChunk]
  cases allocateSlab P g.heap Owner.chunk CentralHeap.chunkSize CentralHeap.chunkSize reply with
  | mk region h =>
      cases region with
      | none => exact Or.inl rfl
      | some s =>
          cases recorded with
          | false => exact Or.inl rfl
          | true => exact Or.inr ⟨_, rfl, Nat.lt_of_lt_of_le (by decide) (Nat.le_add_left _ _)⟩

/-- Requests of any size add only grounded slabs. -/
theorem ThreadPoolAlloc.allocate_extends {P : Platform} {t n : Nat} {pool pool' : ThreadPoolAlloc}
    {reply : SlabReply} {chunkRecorded slabRecorded : Bool} {x : Except Exn (Option Nat)}
    {g g' : Shared} {m m' : ByteMemory}
    (done : pool.allocate P (acquireChunkCb P t reply chunkRecorded) slabRecorded n g m =
      (x, pool', g', m')) : Extends pool.alloc pool'.alloc GroundedSlab := by
  simp only [ThreadPoolAlloc.allocate] at done
  generalize run : pool.alloc.allocate P (acquireChunkCb P t reply chunkRecorded) slabRecorded n
    g m = served at done
  obtain ⟨x₁, a', g₁, m₁⟩ := served
  cases done
  rcases SingleThreadAllocator.allocate_extends run with ⟨_, extended⟩ | ⟨i, _, extended⟩
  · exact extended.none
  · apply extended.mono
    rintro j s ⟨rfl, body, answered, rfl⟩
    rcases acquireChunkCb_answer P t j.bytes reply chunkRecorded g m with
      failed | ⟨b, here, positive⟩
    · rw [failed] at answered
      cases answered
    · rw [here] at answered
      cases answered
      exact positive

theorem ThreadPoolAlloc.free_extends {form : SingleThreadAllocator.FreeForm}
    {pool pool' : ThreadPoolAlloc} {m m' : ByteMemory} {p n : Nat}
    (done : pool.free form m p n = .ok (pool', m')) :
    Extends pool.alloc pool'.alloc GroundedSlab :=
  (SingleThreadAllocator.call_extends (ThreadPoolAlloc.of_free done)).none

/-- What a call on thread `t` does to the threads: nothing, or its allocator moves on. -/
inductive Sys.Moves (t : Nat) (s s' : Sys) : Prop
  | same (threads : s'.threads = s.threads)
  | advance {pool pool' : ThreadPoolAlloc} {client client' : Client}
      (live : s.threads t = .live pool client)
      (threads : s'.threads = Function.update s.threads t (.live pool' client'))
      (extended : Extends pool.alloc pool'.alloc GroundedSlab)

namespace Sys.Moves

variable {s s' : Sys} {t u : Nat}

theorem unborn (moves : Moves t s s') (unborn : s.threads u = .unborn) :
    s'.threads u = .unborn := by
  cases moves with
  | same threads => rw [threads, unborn]
  | advance live threads extended =>
      have other : u ≠ t := by
        rintro rfl
        rw [live] at unborn
        cases unborn
      rw [threads, Function.update_of_ne other, unborn]

theorem exited (moves : Moves t s s') (exited : s.threads u = .exited) :
    s'.threads u = .exited := by
  cases moves with
  | same threads => rw [threads, exited]
  | advance live threads extended =>
      have other : u ≠ t := by
        rintro rfl
        rw [live] at exited
        cases exited
      rw [threads, Function.update_of_ne other, exited]

end Sys.Moves

/-- A property of allocators that construction establishes and no call takes away. -/
structure Lasting (P : Platform) (keeps : SingleThreadAllocator → Prop) : Prop where
  new : ∀ {t : Nat} {reply : SizeClass → SlabReply} {arenaReply : Option Nat}
    {h h' : Heap Owner} {m m' : ByteMemory} {a : SingleThreadAllocator},
    SingleThreadAllocator.new P (.slab t) (.arena t) reply arenaReply h m = (.ok (a, m'), h') →
      keeps a
  extend : ∀ {a a' : SingleThreadAllocator}, keeps a → Extends a a' GroundedSlab → keeps a'

def Sys.Each (s : Sys) (keeps : SingleThreadAllocator → Prop) : Prop :=
  ∀ t pool client, s.threads t = .live pool client → keeps pool.alloc

namespace Sys.Each

variable {P : Platform} {keeps : SingleThreadAllocator → Prop} {s s' : Sys} {t : Nat}

theorem update {threads : Nat → Thread} {pool : ThreadPoolAlloc} {client : Client}
    (each : s.Each keeps) (kept : keeps pool.alloc)
    (same : threads = Function.update s.threads t (.live pool client)) :
    ∀ u pool client, threads u = .live pool client → keeps pool.alloc := by
  intro u pool₁ client₁ live₁
  rw [same] at live₁
  by_cases own : u = t
  · subst own
    rw [Function.update_self] at live₁
    cases live₁
    exact kept
  · rw [Function.update_of_ne own] at live₁
    exact each u pool₁ client₁ live₁

theorem exit (each : s.Each keeps) {threads : Nat → Thread}
    (same : threads = Function.update s.threads t .exited) :
    ∀ u pool client, threads u = .live pool client → keeps pool.alloc := by
  intro u pool client live
  rw [same] at live
  by_cases own : u = t
  · subst own
    cases (Function.update_self u _ _).symm.trans live
  · rw [Function.update_of_ne own] at live
    exact each u pool client live

theorem move (lasting : Lasting P keeps) (each : s.Each keeps) (moves : Sys.Moves t s s') :
    s'.Each keeps := by
  cases moves with
  | same threads =>
      intro u pool₁ client₁ live₁
      exact each u pool₁ client₁ (threads ▸ live₁)
  | advance live threads extended =>
      exact each.update (lasting.extend (each t _ _ live) extended) threads

end Sys.Each

/-- No call and no thread takes away what lasts. -/
theorem Sys.each_step {P : Platform} {keeps : SingleThreadAllocator → Prop} {s s' : Sys}
    {e : Sys.Event} (lasting : Lasting P keeps) (each : s.Each keeps)
    (taken : Sys.Step P s e s') : s'.Each keeps := by
  cases taken with
  | start unborn done => exact each.update (lasting.new done) rfl
  | startFails unborn done => exact each
  | exit live => exact each.exit rfl
  | allocate live word done =>
      have extended := ThreadPoolAlloc.allocate_extends done
      exact each.update (lasting.extend (each _ _ _ live) extended) rfl
  | allocateAligned live word power done =>
      have extended := ThreadPoolAlloc.allocateAligned_extends done
      exact each.update (lasting.extend (each _ _ _ live) extended.none) rfl
  | free live out names done =>
      exact each.update (lasting.extend (each _ _ _ live) (ThreadPoolAlloc.free_extends done)) rfl
  | freeArena live out names done =>
      exact each.update (lasting.extend (each _ _ _ live) (ThreadPoolAlloc.free_extends done)) rfl
  | acquireChunk done => exact each
  | write writable => exact each
  | malloc done => exact each
  | mfree member owner => exact each

theorem Sys.each_run {P : Platform} {keeps : SingleThreadAllocator → Prop}
    (lasting : Lasting P keeps) {m : ByteMemory} {h : Heap Owner}
    {trace : List (Transition Sys Sys.Event)} {s : Sys}
    (run : Run (Sys.Step P) (Sys.initial m h) trace s) :
    s.Each keeps ∧ ∀ x ∈ trace, x.before.Each keeps := by
  let inv : Sys → Prop := fun s => s.Each keeps
  have keep : ∀ s e s', inv s → True → Sys.Step P s e s' → inv s' :=
    fun _ _ _ each _ taken => Sys.each_step lasting each taken
  have first : inv (Sys.initial m h) := by
    intro t pool client live
    cases live
  exact ⟨run.invariantWhere first keep (fun _ _ => trivial),
    run.invariantBefore first keep (fun _ _ => trivial)⟩

def Sys.Grounded (s : Sys) : Prop :=
  ∀ t pool client, s.threads t = .live pool client → SingleThreadAllocator.Grounded pool.alloc

theorem Sys.grounded_lasting (P : Platform) : Lasting P SingleThreadAllocator.Grounded :=
  ⟨SingleThreadAllocator.Grounded.new, SingleThreadAllocator.Grounded.extend⟩

namespace NewDelete

variable {P : Platform} {w w' : NewDelete} {r : Replies} {t n p : Nat}
  {x : Except Exn (Option Nat)}

theorem malloc_threads {use : Use} {reply answer : Option Nat}
    (done : w.malloc P use n reply = (answer, w')) : w'.sys.threads = w.sys.threads := by
  cases answer with
  | none => rw [of_malloc_none done]
  | some p =>
      obtain ⟨h, rfl, _⟩ := of_malloc_some done
      rfl

theorem recordMallocPtr_threads (P : Platform) (reply : Option Nat) (p : Nat) (w : NewDelete) :
    (w.recordMallocPtr P reply p).sys.threads = w.sys.threads := by
  obtain ⟨h, recs, same, _⟩ := of_recordMallocPtr P reply p w
  rw [same]
  rfl

theorem fallbackNew_threads (done : w.fallbackNew P r t n = (x, w')) :
    w'.sys.threads = w.sys.threads := by
  rw [fallbackNew] at done
  split at done
  · rename_i w₁ refused
    cases done
    rw [recordMallocPtr_threads, malloc_threads refused]
  · rename_i q w₁ granted
    cases done
    exact (recordMallocPtr_threads P r.node q w₁).trans (malloc_threads granted)

theorem bootstrapAlignedNew_threads {alignment : Nat}
    (done : w.bootstrapAlignedNew P r t n alignment = (x, w')) :
    w'.sys.threads = w.sys.threads := by
  rw [bootstrapAlignedNew] at done
  split at done
  · rename_i w₁ refused
    cases done
    exact malloc_threads refused
  · rename_i raw w₁ granted
    cases done
    show w₁.sys.threads = w.sys.threads
    exact malloc_threads granted

theorem issueServed_sys {source : Nat × Origin} {served : Except Exn (Option Nat)}
    (done : w.issueServed source served = (x, w')) : w'.sys = w.sys := by
  unfold issueServed at done
  split at done
  · cases done
    rfl
  · cases done
    rfl

theorem poolNew_moves {pool : ThreadPoolAlloc} {client : Client}
    (live : w.sys.threads t = .live pool client) (done : w.poolNew P r t n pool client = (x, w')) :
    Sys.Moves t w.sys w'.sys := by
  simp only [poolNew] at done
  obtain ⟨served, called⟩ : ∃ served, pool.allocate P (acquireChunkCb P t r.chunk true) true n
    w.sys.shared w.sys.mem = served := ⟨_, rfl⟩
  obtain ⟨y, pool', g', m'⟩ := served
  rw [called] at done
  rw [issueServed_sys done]
  exact Sys.Moves.advance live rfl (ThreadPoolAlloc.allocate_extends called)

theorem poolAlignedNew_moves {alignment : Nat} {pool : ThreadPoolAlloc} {client : Client}
    (live : w.sys.threads t = .live pool client)
    (done : w.poolAlignedNew t n alignment pool client = (x, w')) :
    Sys.Moves t w.sys w'.sys := by
  simp only [poolAlignedNew] at done
  obtain ⟨served, called⟩ : ∃ served, pool.allocateAligned n alignment = served := ⟨_, rfl⟩
  obtain ⟨y, pool'⟩ := served
  rw [called] at done
  rw [issueServed_sys done]
  exact Sys.Moves.advance live rfl (ThreadPoolAlloc.allocateAligned_extends called).none

theorem doNew_moves {active : Bool} (done : w.doNew P r active t n = some (x, w')) :
    Sys.Moves t w.sys w'.sys := by
  simp only [doNew] at done
  split at done
  · exact .same (fallbackNew_threads (Option.some.inj done))
  · split at done
    · rename_i pool client live
      exact poolNew_moves live (Option.some.inj done)
    · cases done

theorem doAlignedNew_moves {active : Bool} {alignment : Nat}
    (done : w.doAlignedNew P r active t n alignment = some (x, w')) :
    Sys.Moves t w.sys w'.sys := by
  simp only [doAlignedNew] at done
  split at done
  · exact doNew_moves done
  · split at done
    · exact .same (bootstrapAlignedNew_threads (Option.some.inj done))
    · split at done
      · rename_i pool client live
        exact poolAlignedNew_moves live (Option.some.inj done)
      · cases done

theorem doDelete_moves {freed : List Nat} (done : w.doDelete t p = some (freed, w')) :
    Sys.Moves t w.sys w'.sys := by
  cases of_doDelete done with
  | null => exact .same rfl
  | stashed split payload => exact .same rfl
  | registered consults member => exact .same rfl
  | ignored consults absent => exact .same rfl
  | arena ready live unstashed classified => exact .same rfl
  | pool ready live unstashed known small called =>
      exact Sys.Moves.advance live rfl (ThreadPoolAlloc.free_extends called)

section Each

variable {keeps : SingleThreadAllocator → Prop}

theorem each_step {e : Event} (lasting : Lasting P keeps) (each : w.sys.Each keeps)
    (taken : Step P w e w') : w'.sys.Each keeps := by
  cases taken with
  | begin unborn first => exact each
  | construct begun taken =>
      cases taken with
      | start unborn done => exact each.update (lasting.new done) rfl
      | startFails unborn done => exact each
  | exit taken =>
      cases taken with
      | exit gone => exact each.exit rfl
  | initAllocator live => exact each
  | new word done => exact each.move lasting (doNew_moves done)
  | alignedNew word power done => exact each.move lasting (doAlignedNew_moves done)
  | @delete w' t p source freed out done =>
      show w'.sys.Each keeps
      exact each.move lasting (doDelete_moves done)
  | reenter out begun stuck => exact each
  | malloc done => exact each.move lasting (t := 0) (.same (malloc_threads done))
  | mfree member owner => exact each
  | write taken =>
      cases taken with
      | write writable => exact each

/-- What lasts holds of every live allocator in every run, whatever the program deletes. -/
theorem each_run (lasting : Lasting P keeps) {m : ByteMemory} {h : Heap Owner}
    {trace : List (Transition NewDelete Event)} (run : Run (Step P) (initial m h) trace w) :
    w.sys.Each keeps := by
  have keep : ∀ w e w', (fun w : NewDelete => w.sys.Each keeps) w → Step P w e w' →
      (fun w : NewDelete => w.sys.Each keeps) w' := fun _ _ _ each taken =>
    each_step lasting each taken
  refine Run.invariant ?_ keep run
  intro t pool client live
  cases live

end Each

theorem doDelete_grounded {t p : Nat} {pool : ThreadPoolAlloc} {client : Client}
    (grounded : Grounded pool.alloc) (live : w.sys.threads t = .live pool client) :
    ∃ freed w', w.doDelete t p = some (freed, w') := by
  unfold doDelete
  split
  · exact ⟨_, _, rfl⟩
  · split
    · exact ⟨_, _, rfl⟩
    · split
      · exact ⟨_, _, rfl⟩
      · rw [live]
        dsimp only
        split
        · exact ⟨_, _, rfl⟩
        · rename_i known
          split
          · exact ⟨_, _, rfl⟩
          · rename_i small
            rcases pool.alloc.classify_cases p with none | arena | ⟨i, classified⟩
            · exact absurd none known
            · exact absurd arena small
            · have cls : pool.classify p = i.bytes := classified
              obtain ⟨a', m', done⟩ := grounded.deallocates (m := w.sys.mem) classified
              have called : pool.deallocateContaining w.sys.mem p i.bytes =
                  .ok ({ pool with
                    alloc := a'
                    freeCount := Words.add pool.freeCount 1 }, m') := by
                simp only [ThreadPoolAlloc.deallocateContaining, ThreadPoolAlloc.free,
                  SingleThreadAllocator.FreeForm.call, done]
              rw [cls, called]
              exact ⟨_, _, rfl⟩

theorem grounded_run {m : ByteMemory} {h : Heap Owner} {trace : List (Transition NewDelete Event)}
    (run : Run (Step P) (initial m h) trace w) : w.sys.Grounded :=
  each_run (Sys.grounded_lasting P) run

end NewDelete

end MemAlloc
