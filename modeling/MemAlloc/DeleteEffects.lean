import MemAlloc.UndisturbedRuns

set_option autoImplicit false

namespace MemAlloc

open Links (Linked)
open ByteMemory (readWord writeWord SameOutside)
open Malloc (Heap Block)
open Runs (Run Transition)
open SingleThreadAllocator (kArenaPointer)

namespace SingleThreadAllocator

section Other

variable {a a' : SingleThreadAllocator} {m m' : ByteMemory} {i j : SizeClass}

theorem setPool_other (a : SingleThreadAllocator) (pool : BlockPool) (different : j ≠ i) :
    (a.setPool i pool).pools j = a.pools j := Function.update_of_ne different _ _

theorem poolAllocate_other (a : SingleThreadAllocator) (m : ByteMemory) (different : j ≠ i) :
    (a.poolAllocate i m).2.pools j = a.pools j := by
  rw [poolAllocate]
  exact a.setPool_other _ different

theorem poolAddExternalSlab_other (a : SingleThreadAllocator) (m : ByteMemory) (body : Nat)
    (recorded : Bool) (different : j ≠ i) :
    (a.poolAddExternalSlab i m body recorded).2.1.pools j = a.pools j := by
  rw [poolAddExternalSlab]
  exact a.setPool_other _ different

theorem refill_other {σ : Type} (source : ChunkSource σ) (recorded : Bool)
    (a : SingleThreadAllocator) (n : Nat) (e : σ) (m : ByteMemory) (different : j ≠ i) :
    (a.refill source recorded n i e m).2.1.pools j = a.pools j := by
  rw [refill]
  split
  · rfl
  · rfl
  · rename_i chunk e' m₁ _
    have linked := a.poolAddExternalSlab_other m₁ chunk recorded different
    split
    · rename_i grown
      rw [grown] at linked
      exact linked
    · rename_i a₁ m₂ grown
      rw [grown] at linked
      have retried := a₁.poolAllocate_other m₂ different
      split
      · rename_i again
        rw [again] at retried
        exact retried.trans linked
      · rename_i again
        rw [again] at retried
        exact retried.trans linked

/-- A request only touches the pool of its own class. -/
theorem allocate_other {σ : Type} {P : Platform} {n : Nat} (source : ChunkSource σ)
    (recorded : Bool) (a : SingleThreadAllocator) (e : σ) (m : ByteMemory)
    (different : blockFor n ≠ j.bytes) :
    (a.allocate P source recorded n e m).2.1.pools j = a.pools j := by
  by_cases small : n ≤ maxSmall
  · have class' : j ≠ sizeClassOf n small := by
      rintro rfl
      exact different (blockFor_eq small)
    have popped := a.poolAllocate_other m class'
    rw [allocate, dif_pos small]
    simp only
    split
    · rename_i first
      rw [first] at popped
      exact popped
    · rename_i a₁ first
      rw [first] at popped
      exact (a₁.refill_other source recorded n e m class').trans popped
  · obtain ⟨⟨p, a₁⟩, called⟩ : ∃ served, a.arenaAllocate n P.maxAlign = served := ⟨_, rfl⟩
    have pools := a.arenaAllocate_pools n P.maxAlign
    rw [called] at pools
    rw [allocate_large a source recorded e m (Nat.lt_of_not_le small) called]
    exact congrFun pools j

theorem classify_class {p : Nat} (known : a.classify p ≠ 0) (small : a.classify p ≠ kArenaPointer) :
    ∃ i : SizeClass, a.classify p = i.bytes := by
  rw [classify] at known small ⊢
  split at known
  · exact absurd rfl known
  · rename_i nonnull
    rw [if_neg nonnull] at small ⊢
    rw [classifyImpl] at known small ⊢
    rcases of_foldl_classes (fun j => (a.pools j).contains j.bytes blocksPerSlab p)
      (List.finRange 7) 0 with nothing | ⟨j, _, found⟩
    · simp only [nothing, ne_eq, not_true_eq_false, ↓reduceIte] at known small
      split at known
      · rename_i inside
        rw [if_pos inside] at small
        exact absurd rfl small
      · exact absurd rfl known
    · have nonzero : j.bytes ≠ 0 := Nat.ne_of_gt j.bytes_positive
      refine ⟨j, ?_⟩
      simp only [found, ne_eq, nonzero, not_false_eq_true, ↓reduceIte]

/-- A release only touches the pool of the class it names. -/
theorem deallocateContaining_other {p : Nat} (different : i ≠ j)
    (done : a.deallocateContaining m p i.bytes = .ok (a', m')) : a'.pools j = a.pools j := by
  rcases of_deallocateContaining done with ⟨large, _⟩ | ⟨k, ⟨small, class'⟩, s, _, _, _, rfl, _⟩
  · exact absurd i.bytes_le (Nat.not_le.mpr large)
  · rw [sizeClassOf_bytes] at class'
    subst class'
    exact (a.recordFree _ _).setPool_other _ different.symm

end Other

end SingleThreadAllocator

namespace NewDelete

/-- The event neither serves nor takes back a block of class `i` on thread `t`, and the thread
goes on. A nested call does not ask the thread's allocator. -/
def Spares (t : Nat) (i : SizeClass) (w : NewDelete) : Event → Prop
  | .exit u => u ≠ t
  | .new u size nested _ => u = t → nested = true ∨ blockFor (max size 1) ≠ i.bytes
  | .alignedNew u size _ nested _ => u = t → nested = true ∨ blockFor (max size 1) ≠ i.bytes
  | .delete u p _ _ => u = t → ∀ pool client, w.sys.threads t = .live pool client →
      pool.classify p ≠ i.bytes
  | _ => True

/-- The next request of class `i` on the live thread `t` is served from `p`. -/
def Stocked (t : Nat) (i : SizeClass) (p : Nat) (w : NewDelete) : Prop :=
  w.ready = true ∧ ∃ pool client, w.sys.threads t = .live pool client ∧
    (pool.alloc.pools i).head = p

/-- However the run goes on, the first request of class `i` on thread `t` returns `p`. -/
def NextServed (P : Platform) (t : Nat) (i : SizeClass) (p : Nat) (w : NewDelete) : Prop :=
  ∀ trace v, Run (Step P) w trace v → (∀ x ∈ trace, x.before.Spares t i x.event) →
    ∀ size r, blockFor (max size 1) = i.bytes →
      ∃ v', v.doNew P r false t size = some (.ok (some p), v')

/-- The block `p` is now the first free block of class `i`, and nothing else about the pools
and the arena has changed. -/
structure Pushed (pool pool' : ThreadPoolAlloc) (m m' : ByteMemory) (i : SizeClass) (p : Nat) :
    Prop where
  head : pool'.alloc.pools i = { pool.alloc.pools i with head := p }
  others : ∀ j, j ≠ i → pool'.alloc.pools j = pool.alloc.pools j
  lists : ∃ free : SizeClass → List Nat,
    (∀ j, Linked (readWord m) (pool.alloc.pools j).head (free j)) ∧
      Linked (readWord m') p (p :: free i) ∧
      ∀ j, j ≠ i → Linked (readWord m') (pool.alloc.pools j).head (free j)
  arena : pool'.alloc.arena = pool.alloc.arena
  stats : pool'.alloc.stats = pool.alloc.stats.recordFree i.bytes i.bytes
  frame : SameOutside m m' [⟨p, i.bytes⟩]

/-- What deleting a pointer of thread `t` does, by its origin: what `std::free` gets, and the
state afterwards. -/
def Effect (P : Platform) (w : NewDelete) (t p : Nat) : Origin → List Nat → NewDelete → Prop
  | .pool n, freed, w' => freed = [] ∧ ∃ i : SizeClass, i.bytes = blockFor n ∧
      ∃ pool client pool' m', w.sys.threads t = .live pool client ∧
        w' = { w with sys := { w.sys.setThread t (.live pool' (client.release i p)) with
          mem := m' } } ∧
        Pushed pool pool' w.sys.mem m' i p ∧ NextServed P t i p (w'.retire (t, .pool n) p)
  | .arena, freed, w' => freed = [] ∧ w' = w
  | .fallback, freed, w' => freed = [p] ∧ w' = w.safeFree p
  | .overAligned raw, freed, w' => freed = [raw] ∧ ∃ before after,
      w.alignedScratch t = before ++ ⟨raw, p⟩ :: after ∧
        w' = { w.safeFree raw with
          alignedScratch := Function.update w.alignedScratch t (before ++ after) }

section Stock

variable {P : Platform} {w w' : NewDelete} {r : Replies} {t u n p : Nat} {i : SizeClass}
  {x : Except Exn (Option Nat)}

theorem max_one (n : Nat) : (if n = 0 then 1 else n) = max n 1 := by
  split <;> omega

theorem Stocked.keep (stocked : Stocked t i p w) (ready : w'.ready = w.ready)
    (threads : w'.sys.threads t = w.sys.threads t) : Stocked t i p w' := by
  obtain ⟨begun, pool, client, live, head⟩ := stocked
  exact ⟨ready.trans begun, pool, client, threads.trans live, head⟩

/-- The thread's allocator moves on, with the same pool of class `i`. -/
theorem Stocked.move {pool pool' : ThreadPoolAlloc} {client client' : Client}
    (stocked : Stocked t i p w) (live : w.sys.threads t = .live pool client)
    (ready : w'.ready = w.ready) (threads : w'.sys.threads t = .live pool' client')
    (same : pool'.alloc.pools i = pool.alloc.pools i) : Stocked t i p w' := by
  obtain ⟨begun, pool₁, client₁, live₁, head⟩ := stocked
  obtain ⟨rfl, rfl⟩ := Thread.live.inj (live.symm.trans live₁)
  exact ⟨ready.trans begun, pool', client', threads, by rw [same]; exact head⟩

theorem recordMallocPtr_keeps (P : Platform) (reply : Option Nat) (p : Nat) (w : NewDelete) :
    (w.recordMallocPtr P reply p).ready = w.ready ∧
      (w.recordMallocPtr P reply p).sys.threads = w.sys.threads := by
  obtain ⟨h, recs, same, _⟩ := of_recordMallocPtr P reply p w
  rw [same]
  exact ⟨rfl, rfl⟩

theorem fallbackNew_keeps (done : w.fallbackNew P r u n = (x, w')) :
    w'.ready = w.ready ∧ w'.sys.threads = w.sys.threads := by
  rw [fallbackNew] at done
  split at done
  · rename_i w₁ refused
    cases done
    obtain rfl := of_malloc_none refused
    exact recordMallocPtr_keeps P r.node 0 _
  · rename_i p w₁ granted
    cases done
    obtain ⟨h, rfl, _, _⟩ := of_malloc_some granted
    exact recordMallocPtr_keeps P r.node p _

theorem bootstrapAlignedNew_keeps {alignment : Nat}
    (done : w.bootstrapAlignedNew P r u n alignment = (x, w')) :
    w'.ready = w.ready ∧ w'.sys.threads = w.sys.threads := by
  rw [bootstrapAlignedNew] at done
  split at done
  · rename_i w₁ refused
    cases done
    rw [of_malloc_none refused]
    exact ⟨rfl, rfl⟩
  · rename_i raw w₁ granted
    cases done
    obtain ⟨h, rfl, _, _⟩ := of_malloc_some granted
    exact ⟨rfl, rfl⟩

theorem issueServed_keeps {source : Nat × Origin} {served : Except Exn (Option Nat)}
    (done : w.issueServed source served = (x, w')) :
    w'.ready = w.ready ∧ w'.sys.threads = w.sys.threads := by
  unfold issueServed at done
  split at done
  · cases done
    exact ⟨rfl, rfl⟩
  · cases done
    exact ⟨rfl, rfl⟩

theorem Stocked.poolNew {pool : ThreadPoolAlloc} {client : Client} (stocked : Stocked t i p w)
    (live : w.sys.threads u = .live pool client) (other : u = t → blockFor n ≠ i.bytes)
    (done : w.poolNew P r u n pool client = (x, w')) : Stocked t i p w' := by
  rw [NewDelete.poolNew] at done
  generalize called : pool.allocate P (acquireChunkCb P u r.chunk true) true n w.sys.shared
    w.sys.mem = answer at done
  obtain ⟨x₁, pool', g', m'⟩ := answer
  obtain ⟨ready, threads⟩ := issueServed_keeps done
  by_cases same : u = t
  · subst same
    refine stocked.move live ready ((congrFun threads u).trans (Sys.setThread_same _ _ _)) ?_
    have moved := pool.alloc.allocate_other (P := P) (acquireChunkCb P u r.chunk true) true
      w.sys.shared w.sys.mem (other rfl)
    simp only [ThreadPoolAlloc.allocate] at called
    generalize pool.alloc.allocate P (acquireChunkCb P u r.chunk true) true n w.sys.shared
      w.sys.mem = inner at called moved
    obtain ⟨x₂, a₂, g₂, m₂⟩ := inner
    cases called
    exact moved
  · exact stocked.keep ready ((congrFun threads t).trans (Sys.setThread_other _ _ (Ne.symm same)))

theorem Stocked.poolAlignedNew {alignment : Nat} {pool : ThreadPoolAlloc} {client : Client}
    (stocked : Stocked t i p w) (live : w.sys.threads u = .live pool client)
    (done : w.poolAlignedNew u n alignment pool client = (x, w')) : Stocked t i p w' := by
  rw [NewDelete.poolAlignedNew] at done
  generalize called : pool.allocateAligned n alignment = answer at done
  obtain ⟨y, pool'⟩ := answer
  obtain ⟨ready, threads⟩ := issueServed_keeps done
  by_cases same : u = t
  · subst same
    exact stocked.move live ready ((congrFun threads u).trans (Sys.setThread_same _ _ _))
      (congrFun (ThreadPoolAlloc.allocateAligned_pools called) i)
  · exact stocked.keep ready ((congrFun threads t).trans (Sys.setThread_other _ _ (Ne.symm same)))

theorem Stocked.doNew {active : Bool} (stocked : Stocked t i p w)
    (other : u = t → active = true ∨ blockFor (max n 1) ≠ i.bytes)
    (done : w.doNew P r active u n = some (x, w')) : Stocked t i p w' := by
  rw [NewDelete.doNew] at done
  simp only [max_one] at done
  split at done
  · obtain ⟨ready, threads⟩ := fallbackNew_keeps (Option.some.inj done)
    exact stocked.keep ready (congrFun threads t)
  · rename_i serves
    have idle : active ≠ true := by
      rintro rfl
      exact serves (by simp [takesFallback])
    split at done
    · rename_i live
      exact stocked.poolNew live (fun same => (other same).resolve_left idle)
        (Option.some.inj done)
    · cases done

theorem Stocked.doAlignedNew {active : Bool} {alignment : Nat} (stocked : Stocked t i p w)
    (other : u = t → active = true ∨ blockFor (max n 1) ≠ i.bytes)
    (done : w.doAlignedNew P r active u n alignment = some (x, w')) : Stocked t i p w' := by
  rw [NewDelete.doAlignedNew] at done
  simp only [max_one] at done
  split at done
  · refine stocked.doNew (fun same => ?_) done
    have twice : max (max n 1) 1 = max n 1 := by omega
    rw [twice]
    exact other same
  · split at done
    · obtain ⟨ready, threads⟩ := bootstrapAlignedNew_keeps (Option.some.inj done)
      exact stocked.keep ready (congrFun threads t)
    · split at done
      · rename_i live
        exact stocked.poolAlignedNew live (Option.some.inj done)
      · cases done

theorem Stocked.deleted {q : Nat} {freed : List Nat} (stocked : Stocked t i p w)
    (other : u = t → ∀ pool client, w.sys.threads t = .live pool client →
      pool.classify q ≠ i.bytes) (deleted : Deleted w u q freed w') : Stocked t i p w' := by
  cases deleted with
  | @pool pool pool' client m' ready live unstashed known small done =>
      by_cases same : u = t
      · subst same
        obtain ⟨j, class'⟩ := SingleThreadAllocator.classify_class known small
        have different : j ≠ i := by
          rintro rfl
          exact other rfl pool client live class'
        change pool.deallocateContaining w.sys.mem q (pool.alloc.classify q) = _ at done
        rw [class'] at done
        exact stocked.move live rfl (Function.update_self _ _ _)
          (SingleThreadAllocator.deallocateContaining_other different
            (ThreadPoolAlloc.of_free done))
      · exact stocked.keep rfl (Sys.setThread_other _ _ (Ne.symm same))
  | _ => exact stocked

/-- Only a request, a release or the exit of the thread changes what a pool serves next. -/
theorem Stocked.step {e : Event} (stocked : Stocked t i p w) (spares : w.Spares t i e)
    (taken : Step P w e w') : Stocked t i p w' := by
  obtain ⟨_, _, _, alive, _⟩ := id stocked
  cases taken with
  | begin unborn first => exact stocked
  | construct begun taken =>
      cases taken with
      | start unborn done =>
          refine stocked.keep rfl (Sys.setThread_other _ _ ?_)
          rintro rfl
          rw [alive] at unborn
          cases unborn
      | startFails unborn done => exact stocked
  | exit taken =>
      cases taken with
      | exit live => exact stocked.keep rfl (Sys.setThread_other _ _ (Ne.symm spares))
  | initAllocator live => exact ⟨rfl, stocked.2⟩
  | new word done => exact stocked.doNew spares done
  | alignedNew word power done => exact stocked.doAlignedNew spares done
  | delete out done =>
      have kept := stocked.deleted spares (of_doDelete done)
      exact kept
  | reenter out begun stuck => exact stocked
  | @malloc w' size reply x done =>
      cases x with
      | none => rwa [of_malloc_none done]
      | some q =>
          obtain ⟨h, rfl, _, _⟩ := of_malloc_some done
          exact stocked
  | mfree member owner => exact stocked
  | write taken =>
      cases taken with
      | write writable => exact stocked

theorem Stocked.served (stocked : Stocked t i p w) (nonnull : p ≠ 0) (r : Replies)
    (class' : blockFor (max n 1) = i.bytes) :
    ∃ w', w.doNew P r false t n = some (.ok (some p), w') := by
  obtain ⟨ready, pool, client, live, head⟩ := stocked
  have small : max n 1 ≤ maxSmall := by
    by_contra large
    have zero : blockFor (max n 1) = 0 := by
      rw [blockFor, if_neg (by omega), if_pos (Nat.lt_of_not_le large)]
    have positive := i.bytes_positive
    omega
  have same : sizeClassOf (max n 1) small = i :=
    SizeClass.bytes_injective ((blockFor_eq small).symm.trans class')
  have serves : takesFallback w.ready false (w.allocatorGone t) = false := by
    rw [takesFallback, ready, allocatorGone, live]
    rfl
  have served := ThreadPoolAlloc.allocate_stocked (P := P) (t := pool) (m := w.sys.mem)
    (acquireChunkCb P t r.chunk true) true w.sys.shared small (by rw [same]; exact head) nonnull
  rw [NewDelete.doNew]
  simp only [max_one, serves, Bool.false_eq_true, ↓reduceIte, live]
  rw [NewDelete.poolNew, served]
  exact ⟨_, rfl⟩

theorem Stocked.next (stocked : Stocked t i p w) (nonnull : p ≠ 0) : NextServed P t i p w := by
  intro trace v run spared size r class'
  have kept := run.invariantWhere stocked
    (fun _ _ _ stocked spares taken => Stocked.step stocked spares taken) spared
  exact Stocked.served kept nonnull r class'

end Stock

section Effects

variable {P : Platform} {w : NewDelete} {t p n raw : Nat} {pool : ThreadPoolAlloc}
  {client : Client}

/-- On a thread whose allocator is in use, what is not in the stash is left to the class. -/
theorem doDelete_live (nonnull : p ≠ 0) (unstashed : ∀ e ∈ w.alignedScratch t, e.payload ≠ p)
    (ready : w.ready = true) (live : w.sys.threads t = .live pool client) :
    (pool.classify p = 0 → w.doDelete t p = some (w.freeRegistered p)) ∧
      (pool.classify p = kArenaPointer → w.doDelete t p = some ([], w)) ∧
      ∀ pool' m', pool.classify p ≠ 0 → pool.classify p ≠ kArenaPointer →
        pool.deallocateContaining w.sys.mem p (pool.classify p) = .ok (pool', m') →
        w.doDelete t p = some ([], { w with
          sys := { w.sys.setThread t (.live pool' (client.releaseAt (pool.classify p) p)) with
            mem := m' } }) := by
  have missed : (w.alignedScratch t).find? (fun e => decide (e.payload = p)) = none := by
    refine List.find?_eq_none.mpr (fun e stashed => ?_)
    simpa using unstashed e stashed
  rw [doDelete, if_neg nonnull]
  simp only [missed, ready, live, Bool.true_eq_false, ↓reduceIte]
  refine ⟨fun unknown => ?_, fun arena => ?_, fun pool' m' known small taken => ?_⟩
  · rw [if_pos unknown]
  · have known : pool.classify p ≠ 0 := by
      rw [arena]
      decide
    rw [if_neg known, if_pos arena]
  · rw [if_neg known, if_neg small, taken]

theorem Intact.nonnull (intact : Intact w) {o : Origin} (out : p ∈ w.issued (t, o))
    (live : w.sys.threads t = .live pool client) : p ≠ 0 := by
  have stays : w.allocatorGone t = false := by rw [allocatorGone, live]
  have positive : o.raw 0 = none → p ≠ 0 := by
    intro allocator
    obtain ⟨b, member, held, _⟩ := intact.placed.home allocator out stays
    have bounds := (w.sys.shared.heap.bounded b member).1
    exact Nat.ne_of_gt (Nat.lt_of_lt_of_le bounds held.1)
  cases o with
  | pool n => exact positive rfl
  | arena => exact positive rfl
  | fallback => exact intact.tracked.nonnull rfl out
  | overAligned raw => exact intact.tracked.nonnull rfl out

theorem Intact.unstashed (intact : Intact w) {o : Origin} (out : p ∈ w.issued (t, o))
    (live : w.sys.threads t = .live pool client) (other : ∀ raw, o ≠ .overAligned raw) :
    ∀ e ∈ w.alignedScratch t, e.payload ≠ p := by
  have stays : w.allocatorGone t = false := by rw [allocatorGone, live]
  intro e stashed payload
  exact other _ (intact.placed.payload_origin out (Or.inl ⟨rfl, .inl stays⟩) stashed payload)

/-- The pool takes its block back at the head of the free list. -/
theorem pushed {m : ByteMemory} {g : Shared} {free : SizeClass → List Nat}
    (inv : ThreadInv m g t pool.alloc client free) {i : SizeClass} (out : p ∈ client.held i) :
    Pushed pool { pool with
        alloc := pool.alloc.afterFree i.bytes i p
        freeCount := Words.add pool.freeCount 1 }
      m (writeWord m p (pool.alloc.pools i).head) i p := by
  have after := inv.alloc.afterFree i.bytes out
  have here : (pool.alloc.afterFree i.bytes i p).pools i =
      { pool.alloc.pools i with head := p } := Function.update_self _ _ _
  have there : ∀ j, j ≠ i → (pool.alloc.afterFree i.bytes i p).pools j = pool.alloc.pools j :=
    fun j different => SingleThreadAllocator.setPool_other _ _ different
  refine ⟨here, there, ⟨free, fun j => (inv.alloc.pools j).links, ?_, fun j different => ?_⟩, rfl,
    rfl, ?_⟩
  · have links := (after.pools i).links
    rw [here] at links
    change Linked _ p (Function.update free i (p :: free i) i) at links
    rwa [Function.update_self] at links
  · have links := (after.pools j).links
    rw [there j different] at links
    change Linked _ _ (Function.update free i (p :: free i) j) at links
    rwa [Function.update_of_ne different] at links
  · refine (SameOutside.writeWord m p _).mono ?_
    intro s written
    obtain rfl := List.mem_singleton.mp written
    exact ⟨_, List.mem_cons_self, Nat.le_refl _, Nat.add_le_add_left i.wide p⟩

theorem Intact.pool_effect (intact : Intact w) (ready : w.ready = true)
    (live : w.sys.threads t = .live pool client) (out : p ∈ w.issued (t, .pool n)) :
    ∃ freed w', w.doDelete t p = some (freed, w') ∧ Effect P w t p (.pool n) freed w' := by
  obtain ⟨small, held, classified⟩ := (intact.placed.classified live out).1 n rfl
  obtain ⟨free, thread⟩ := intact.sound.sys.live t pool client live
  have served := intact.sound.served.live t pool client live
  have nonnull := intact.nonnull out live
  have known : (sizeClassOf n small).bytes ≠ 0 := Nat.ne_of_gt (SizeClass.bytes_positive _)
  have elsewhere := SingleThreadAllocator.arenaPointer_ne (sizeClassOf n small)
  have taken := deallocate_held thread served.recorded held
  have back := pushed thread held
  have computed := (doDelete_live nonnull
    (intact.unstashed out live (fun _ same => by cases same)) ready live).2.2
  rw [classified, releaseAt_held thread held] at computed
  refine ⟨_, _, computed _ _ known elsewhere taken, rfl, sizeClassOf n small,
    (blockFor_eq small).symm, pool, client, _, _, live, rfl, back,
    Stocked.next ⟨ready, _, _, Function.update_self _ _ _, ?_⟩ nonnull⟩
  exact congrArg BlockPool.head back.head

theorem Intact.arena_effect (intact : Intact w) (ready : w.ready = true)
    (live : w.sys.threads t = .live pool client) (out : p ∈ w.issued (t, .arena)) :
    w.doDelete t p = some ([], w) := by
  exact (doDelete_live (intact.nonnull out live)
    (intact.unstashed out live (fun _ same => by cases same)) ready live).2.1
    ((intact.placed.classified live out).2 rfl)

theorem Intact.fallback_effect (intact : Intact w) (ready : w.ready = true)
    (live : w.sys.threads t = .live pool client) (out : p ∈ w.issued (t, .fallback)) :
    w.doDelete t p = some ([p], w.safeFree p) := by
  have nonnull := intact.nonnull out live
  have unstashed := intact.unstashed out live (fun _ same => by cases same)
  have listed := intact.tracked.registered t p out
  obtain ⟨b, member, owner, rfl⟩ := intact.tracked.inv.backed.plain t p out
  have unknown : pool.classify b.span.base = 0 := by
    refine (intact.tracked.inv.housed.live t pool client live).classify_outside member ?_
      (Heap.holds_base member)
    exact fun serves => serves.inside _ owner
  rw [(doDelete_live nonnull unstashed ready live).1 unknown]
  simp [freeRegistered, isRegisteredMallocPtr, listed]

theorem Intact.overAligned_effect (intact : Intact w)
    (live : w.sys.threads t = .live pool client) (out : p ∈ w.issued (t, .overAligned raw)) :
    ∃ freed w', w.doDelete t p = some (freed, w') ∧ Effect P w t p (.overAligned raw) freed w' := by
  have stays : w.allocatorGone t = false := by rw [allocatorGone, live]
  have entry := intact.tracked.stashed.entry t raw p out
  have returns : ∃ x, w.doDelete t p = some x := by
    cases outcome : w.doDelete t p with
    | none => exact absurd rfl ((of_doDelete_none outcome).2 _ entry)
    | some x => exact ⟨x, rfl⟩
  obtain ⟨⟨freed, w'⟩, done⟩ := returns
  refine ⟨freed, w', done, ?_⟩
  cases of_doDelete done with
  | null null => exact absurd null (intact.nonnull out live)
  | registered consults member => exact absurd rfl (consults.1 _ entry)
  | ignored consults absent => exact absurd rfl (consults.1 _ entry)
  | arena ready live unstashed classified => exact absurd rfl (unstashed _ entry)
  | pool ready live unstashed known small done => exact absurd rfl (unstashed _ entry)
  | @stashed e before after split payload =>
      have member : e ∈ w.alignedScratch t := by
        rw [split]
        exact List.mem_append_right _ List.mem_cons_self
      have right := intact.placed.payload_origin out (Or.inl ⟨rfl, .inl stays⟩) member payload
      obtain rfl := Origin.overAligned.inj right
      refine ⟨rfl, before, after, ?_, rfl⟩
      rw [split, ← payload]

theorem Intact.effect (intact : Intact w) (ready : w.ready = true)
    (live : w.sys.threads t = .live pool client) {o : Origin} (out : p ∈ w.issued (t, o)) :
    ∃ freed w', w.doDelete t p = some (freed, w') ∧ Effect P w t p o freed w' := by
  cases o with
  | pool n => exact intact.pool_effect ready live out
  | arena => exact ⟨_, _, intact.arena_effect ready live out, rfl, rfl⟩
  | fallback => exact ⟨_, _, intact.fallback_effect ready live out, rfl, rfl⟩
  | overAligned raw => exact intact.overAligned_effect live out

end Effects

section Run

variable {P : Platform} {m : ByteMemory} {h : Heap Owner}

/-- While a thread's allocator is in use, deleting a pointer the thread has obtained at any
time has exactly the effect of the pointer's origin. -/
theorem delete_effect (power : Words.PowerOfTwo P.maxAlign) (small : P.maxAlign ≤ 4294967296)
    {trace : List (Transition NewDelete Event)} {w : NewDelete}
    (run : Run (Step P) (initial m h) trace w) (bounded : ∀ x ∈ trace, x.event.Bounded)
    (registers : ∀ x ∈ trace, x.before.Registers x.after)
    (clear : ∀ x ∈ trace, x.before.Undisturbed x.event) {t p : Nat} {o : Origin}
    {pool : ThreadPoolAlloc} {client : Client} (ready : w.ready = true)
    (live : w.sys.threads t = .live pool client) (out : p ∈ w.issued (t, o)) :
    ∃ freed w', w.doDelete t p = some (freed, w') ∧ Effect P w t p o freed w' := by
  have keep : ∀ w e w', Intact w → e.Bounded ∧ w.Undisturbed e →
      Step P w e w' ∧ w.Registers w' → Intact w' :=
    fun _ _ _ intact meets taken => intact.step power small meets.1 meets.2 taken.2 taken.1
  have intact := (run.restrict registers).invariantWhere (Intact.initial m h) keep
    (fun x member => ⟨bounded x member, clear x member⟩)
  exact intact.effect ready live out

/-- A block of 16 bytes goes back to the slab it came from. -/
theorem delete_effect_pooled : ∃ (trace : List (Transition NewDelete Event)) (w : NewDelete),
    Run (Step desktop) (initial (fun _ => 0) Heap.empty) trace w ∧
      2097152 ∈ w.issued (0, .pool 16) ∧
      ∃ freed w', w.doDelete 0 2097152 = some (freed, w') ∧
        Effect desktop w 0 2097152 (.pool 16) freed w' := by
  let w : NewDelete := initial (fun _ => 0) Heap.empty
  have aligned : 1048576 ∣ 1048576 := by decide
  have room : 1048576 + 33554432 ≤ Malloc.addressLimit := by decide
  have nothing : Below w.sys.shared.heap (1048576 + 1048576) := by
    intro b member
    cases member
  obtain ⟨w₁, w₂, pool, begun, built, threads, _, _, _, heads, _, _, _, recs₂, _, issued₂, _⟩ :=
    construct_possible (w := w) (t := 0) rfl rfl aligned room nothing
  have live : w₂.sys.threads 0 = .live pool Client.none := by rw [threads, Function.update_self]
  have init : Step desktop w₂ (.initAllocator 0) { w₂ with ready := true } := .initAllocator live
  obtain ⟨pool', w₃, served, sys₃, ready₃, _, _, _, issued₃⟩ :=
    pooled_possible (P := desktop) (w := { w₂ with ready := true }) (t := 0) (n := 16)
      (p := 2097152) rfl live (by decide) (by decide) (heads 0) (by decide)
  have live₃ : w₃.sys.threads 0 = .live pool' (Client.none.gain 16 (.ok (some 2097152))) := by
    rw [sys₃]
    exact Sys.setThread_same _ _ _
  have out : 2097152 ∈ w₃.issued (0, .pool 16) := by
    rw [issued₃, Function.update_self]
    exact List.mem_cons_self
  have issued₁ : w₁.issued = w.issued := by
    cases begun
    rfl
  have none : ∀ t, w₃.issued (t, .fallback) = [] := by
    intro t
    have other : (t, Origin.fallback) ≠ (0, .pool 16) := by simp
    rw [issued₃, Function.update_of_ne other]
    exact congrFun issued₂ _
  have run := (((Run.nil.snoc begun).snoc built).snoc init).snoc served
  have power : Words.PowerOfTwo desktop.maxAlign := ⟨4, by decide, rfl⟩
  have steps : ∀ {x}, x ∈ [(⟨w, .begin 0, w₁⟩ : Transition NewDelete Event)] ++
      [⟨w₁, .construct 0 (.ok ()), w₂⟩] ++ [⟨w₂, .initAllocator 0, { w₂ with ready := true }⟩] ++
      [⟨{ w₂ with ready := true }, .new 0 16 false (.ok (some 2097152)), w₃⟩] →
      x = ⟨w, .begin 0, w₁⟩ ∨ x = ⟨w₁, .construct 0 (.ok ()), w₂⟩ ∨
        x = ⟨w₂, .initAllocator 0, { w₂ with ready := true }⟩ ∨
        x = ⟨{ w₂ with ready := true }, .new 0 16 false (.ok (some 2097152)), w₃⟩ := by
    intro x member
    simpa using member
  refine ⟨_, _, run, out, delete_effect power (by decide) run ?_ ?_ ?_ ready₃ live₃ out⟩
  · intro x member
    rcases steps member with rfl | rfl | rfl | rfl
    · trivial
    · trivial
    · trivial
    · show 16 ≤ 4611686018427387904
      decide
  · intro x member t p fallback
    rcases steps member with rfl | rfl | rfl | rfl
    · rw [issued₁] at fallback
      cases fallback
    · rw [issued₂] at fallback
      cases fallback
    · rw [issued₂] at fallback
      cases fallback
    · rw [none] at fallback
      cases fallback
  · intro x member
    rcases steps member with rfl | rfl | rfl | rfl
    all_goals trivial

end Run

end NewDelete

end MemAlloc
