import MemAlloc.ConstructionOutcomes

set_option autoImplicit false

namespace MemAlloc

open Malloc (Heap)
open Runs (Run Transition)

/-- The vectors of the statistics registry. The constructor of an allocator adds to the first
two, its destructor to the third. -/
inductive RegistryVector where
  | live
  | liveAllocators
  | retired
deriving DecidableEq, Repr

/-- Where a thread is inside the constructor or the destructor of its allocator. -/
inductive Stage where
  | outside
  | members
  | built (a : SingleThreadAllocator) (threadId : Nat)
  | pushing (v : RegistryVector) (a : SingleThreadAllocator) (threadId : Nat)
  | dropping (v : RegistryVector) (fresh : Nat) (a : SingleThreadAllocator) (threadId : Nat)
  | registered (a : SingleThreadAllocator) (threadId : Nat)
  | marked (a : SingleThreadAllocator)
  | listed (a : SingleThreadAllocator)
  | retired (a : SingleThreadAllocator)
  | stuck

/-- A constructor runs on a thread without an allocator, and a destructor on one whose
allocator is gone. -/
def Stage.Fits (thread : Thread) : Stage → Prop
  | .members => thread = .unborn
  | .built _ _ => thread = .unborn
  | .pushing v _ _ => if v = .retired then thread = .exited else thread = .unborn
  | .dropping v _ _ _ => if v = .retired then thread = .exited else thread = .unborn
  | .registered _ _ => thread = .unborn
  | .marked _ => thread = .exited
  | .listed _ => thread = .exited
  | .retired _ => thread = .exited
  | _ => True

structure Lifecycle where
  w : NewDelete
  vectors : RegistryVector → VectorStorage
  mutex : Option Nat
  stage : Nat → Stage

namespace Lifecycle

open NewDelete (pointerBytes)

def initial (m : ByteMemory) (h : Heap Owner) : Lifecycle :=
  ⟨NewDelete.initial m h, fun _ => ⟨0, 0, 0⟩, none, fun _ => .outside⟩

def setStage (s : Lifecycle) (t : Nat) (stage : Stage) : Lifecycle :=
  { s with stage := Function.update s.stage t stage }

def setVector (s : Lifecycle) (v : RegistryVector) (storage : VectorStorage) : Lifecycle :=
  { s with vectors := Function.update s.vectors v storage }

/-- Size of an element: a pointer, or a snapshot of the six counters. -/
def elementBytes : RegistryVector → Nat
  | .retired => 48
  | _ => pointerBytes

/-- What follows the push onto a vector. -/
def afterPush (v : RegistryVector) (a : SingleThreadAllocator) (threadId : Nat) : Stage :=
  match v with
  | .live => .pushing .liveAllocators a threadId
  | .liveAllocators => .registered a threadId
  | .retired => .listed a

/-- `nestedNew` and `nestedDelete` are the calls that the registry's vectors make when they
grow; their answer is `none` when the call reaches `instance()`. -/
inductive Event where
  | program (e : NewDelete.Event)
  | enter (t : Nat)
  | build (t : Nat) (x : Except Exn Unit)
  | lock (t : Nat)
  | push (t : Nat) (v : RegistryVector)
  | nestedNew (t : Nat) (v : RegistryVector) (answer : Option (Except Exn (Option Nat)))
  | nestedDelete (t : Nat) (v : RegistryVector) (answer : Option (List Nat))
  | register (t : Nat)
  | exit (t : Nat)
  | retire (t : Nat)
  | destroy (t : Nat)

/-- What the program itself does, on a thread that is outside both functions. The ends of an
allocator's life have steps of their own. -/
def Allowed (s : Lifecycle) : NewDelete.Event → Prop
  | .begin _ => False
  | .construct _ _ => False
  | .exit _ => False
  | .initAllocator t => s.stage t = .outside
  | .new t _ _ _ => s.stage t = .outside
  | .alignedNew t _ _ _ _ => s.stage t = .outside
  | .delete t _ _ _ => s.stage t = .outside
  | _ => True

/-- The steps of all threads, interleaved. -/
inductive Step (P : Platform) (growth : Nat → Nat) : Lifecycle → Event → Lifecycle → Prop
  | program {s : Lifecycle} {e : NewDelete.Event} {w' : NewDelete} (allowed : s.Allowed e)
      (taken : NewDelete.Step P s.w e w') : Step P growth s (.program e) { s with w := w' }
  | enter {s : Lifecycle} {t : Nat} (outside : s.stage t = .outside)
      (unborn : s.w.sys.threads t = .unborn) :
      Step P growth s (.enter t)
        ({ s with w := { s.w with
          constructing := Function.update s.w.constructing t true } }.setStage t .members)
  | build {s : Lifecycle} {t : Nat} {c : ConstructionReplies} {a : SingleThreadAllocator}
      {w' : NewDelete} (inside : s.stage t = .members)
      (done : s.w.constructMembers P c t = .returns (a, w')) :
      Step P growth s (.build t (.ok ()))
        ({ s with w := w' }.setStage t (.built a s.w.sys.nextThreadId))
  | buildFails {s : Lifecycle} {t : Nat} {c : ConstructionReplies} {h' : Heap Owner} {e : Exn}
      (inside : s.stage t = .members)
      (done : SingleThreadAllocator.new P (.slab t) (.arena t) c.slabs c.arena
        s.w.sys.shared.heap s.w.sys.mem = (.error e, h')) :
      Step P growth s (.build t (.error e))
        ({ s with w := { s.w with
          sys := { s.w.sys.setHeap h' with
            nextThreadId := (s.w.sys.nextThreadId + 1) % 4294967296 }
          constructing := Function.update s.w.constructing t false } }.setStage t .outside)
  | lock {s : Lifecycle} {t threadId : Nat} {a : SingleThreadAllocator}
      (inside : s.stage t = .built a threadId) (free : s.mutex = none) :
      Step P growth s (.lock t) ({ s with mutex := some t }.setStage t (.pushing .live a threadId))
  | lockRetire {s : Lifecycle} {t : Nat} {a : SingleThreadAllocator}
      (inside : s.stage t = .marked a) (free : s.mutex = none) :
      Step P growth s (.lock t) ({ s with mutex := some t }.setStage t (.pushing .retired a 0))
  | push {s : Lifecycle} {t threadId : Nat} {v : RegistryVector} {a : SingleThreadAllocator}
      (inside : s.stage t = .pushing v a threadId)
      (room : (s.vectors v).size < (s.vectors v).capacity) :
      Step P growth s (.push t v) ((s.setVector v { s.vectors v with
        size := (s.vectors v).size + 1 }).setStage t (afterPush v a threadId))
  | nestedNew {s : Lifecycle} {t threadId : Nat} {v : RegistryVector} {a : SingleThreadAllocator}
      {r : Replies} {buffer : Nat} {w' : NewDelete}
      (inside : s.stage t = .pushing v a threadId)
      (full : ¬ (s.vectors v).size < (s.vectors v).capacity)
      (done : s.w.doNew P r true t (elementBytes v * growth (s.vectors v).capacity) =
        some (.ok (some buffer), w')) :
      Step P growth s (.nestedNew t v (some (.ok (some buffer))))
        ({ s with w := w' }.setStage t (.dropping v buffer a threadId))
  | nestedNewFails {s : Lifecycle} {t threadId : Nat} {v : RegistryVector}
      {a : SingleThreadAllocator} {r : Replies} {x : Except Exn (Option Nat)} {w' : NewDelete}
      (inside : s.stage t = .pushing v a threadId)
      (full : ¬ (s.vectors v).size < (s.vectors v).capacity)
      (done : s.w.doNew P r true t (elementBytes v * growth (s.vectors v).capacity) =
        some (x, w')) (failed : ∀ buffer, x ≠ .ok (some buffer)) :
      Step P growth s (.nestedNew t v (some x)) ({ s with w := w' }.setStage t .stuck)
  | nestedNewReenters {s : Lifecycle} {t threadId : Nat} {v : RegistryVector}
      {a : SingleThreadAllocator} {r : Replies} (inside : s.stage t = .pushing v a threadId)
      (full : ¬ (s.vectors v).size < (s.vectors v).capacity)
      (stuck : s.w.doNew P r true t (elementBytes v * growth (s.vectors v).capacity) = none) :
      Step P growth s (.nestedNew t v none) (s.setStage t .stuck)
  | firstBuffer {s : Lifecycle} {t fresh threadId : Nat} {v : RegistryVector}
      {a : SingleThreadAllocator} (inside : s.stage t = .dropping v fresh a threadId)
      (empty : (s.vectors v).buffer = 0) :
      Step P growth s (.push t v) ((s.setVector v ⟨fresh, (s.vectors v).size + 1,
        growth (s.vectors v).capacity⟩).setStage t (afterPush v a threadId))
  | nestedDelete {s : Lifecycle} {t fresh threadId : Nat} {v : RegistryVector}
      {a : SingleThreadAllocator} {freed : List Nat} {w' : NewDelete}
      (inside : s.stage t = .dropping v fresh a threadId) (old : (s.vectors v).buffer ≠ 0)
      (done : s.w.doDelete t (s.vectors v).buffer = some (freed, w')) :
      Step P growth s (.nestedDelete t v (some freed))
        (({ s with w := w' }.setVector v ⟨fresh, (s.vectors v).size + 1,
          growth (s.vectors v).capacity⟩).setStage t (afterPush v a threadId))
  | nestedDeleteReenters {s : Lifecycle} {t fresh threadId : Nat} {v : RegistryVector}
      {a : SingleThreadAllocator} (inside : s.stage t = .dropping v fresh a threadId)
      (old : (s.vectors v).buffer ≠ 0) (stuck : s.w.doDelete t (s.vectors v).buffer = none) :
      Step P growth s (.nestedDelete t v none) (s.setStage t .stuck)
  | register {s : Lifecycle} {t threadId : Nat} {a : SingleThreadAllocator}
      (inside : s.stage t = .registered a threadId) :
      Step P growth s (.register t)
        ({ s with
          mutex := none
          w := { s.w with
            sys := s.w.sys.setThread t (.live ⟨a, 0, 0, threadId⟩ Client.none)
            constructing := Function.update s.w.constructing t false } }.setStage t .outside)
  | exit {s : Lifecycle} {t : Nat} {pool : ThreadPoolAlloc} {client : Client}
      (outside : s.stage t = .outside) (live : s.w.sys.threads t = .live pool client) :
      Step P growth s (.exit t)
        ({ s with w := { s.w with sys := s.w.sys.setThread t .exited } }.setStage t
          (.marked pool.alloc))
  | retire {s : Lifecycle} {t : Nat} {a : SingleThreadAllocator} (inside : s.stage t = .listed a) :
      Step P growth s (.retire t)
        ((({ s with mutex := none }.setVector .live { s.vectors .live with
            size := (s.vectors .live).size - 1 }).setVector .liveAllocators
          { s.vectors .liveAllocators with
            size := (s.vectors .liveAllocators).size - 1 }).setStage t (.retired a))
  | destroy {s : Lifecycle} {t : Nat} {a : SingleThreadAllocator}
      (inside : s.stage t = .retired a) :
      Step P growth s (.destroy t)
        ({ s with w := { s.w with
          sys := s.w.sys.setHeap (a.destroy s.w.sys.shared.heap) } }.setStage t .outside)

/-- A call on the thread, of whatever kind, is kept from `instance()`. -/
structure Spared (w : NewDelete) (t : Nat) : Prop where
  new : ∀ active, NewDelete.takesFallback w.ready active (w.allocatorGone t) = true
  delete : ∀ p, ¬ w.Consults t p

/-- No nested call reaches `instance()`, and no thread waits for the mutex that it holds. -/
def Safe (s : Lifecycle) : Event → Prop
  | .nestedNew _ _ answer => answer ≠ none
  | .nestedDelete _ _ answer => answer ≠ none
  | .lock t => s.mutex ≠ some t
  | _ => True

/-- A registration outgrows a vector that has a buffer only before `init_allocator`. -/
def Roomy (s : Lifecycle) : Event → Prop
  | .nestedDelete _ v _ => v = .retired ∨ s.w.ready = false
  | _ => True

def Staged (s : Lifecycle) : Prop := ∀ t, (s.stage t).Fits (s.w.sys.threads t)

theorem spared_of_exited {w : NewDelete} {t : Nat} (exited : w.sys.threads t = .exited) :
    Spared w t := by
  have gone := NewDelete.allocatorGone_iff.mpr exited
  constructor
  · intro active
    simp [NewDelete.takesFallback, gone]
  · intro p consults
    rw [consults.2.2.2] at gone
    cases gone

section Steps

variable {P : Platform} {growth : Nat → Nat} {s s' : Lifecycle} {t : Nat}

theorem program_moves {e : NewDelete.Event} {w' : NewDelete} (allowed : s.Allowed e)
    (taken : NewDelete.Step P s.w e w') : ∃ t, Sys.Moves t s.w.sys w'.sys := by
  cases taken with
  | begin unborn first => exact allowed.elim
  | construct begun taken => exact allowed.elim
  | exit taken => exact allowed.elim
  | @initAllocator t pool client live => exact ⟨t, .same rfl⟩
  | new word done => exact ⟨_, NewDelete.doNew_moves done⟩
  | alignedNew word power done => exact ⟨_, NewDelete.doAlignedNew_moves done⟩
  | @delete w' t p source freed out done =>
      obtain moves := NewDelete.doDelete_moves done
      exact ⟨t, moves⟩
  | @reenter t p source out begun stuck => exact ⟨t, .same rfl⟩
  | malloc done => exact ⟨0, .same (NewDelete.malloc_threads done)⟩
  | mfree member owner => exact ⟨0, .same rfl⟩
  | write taken =>
      cases taken with
      | write writable => exact ⟨0, .same rfl⟩

theorem fits_moves {stage : Stage} {sys sys' : Sys} {u : Nat} (moves : Sys.Moves t sys sys')
    (fits : stage.Fits (sys.threads u)) : stage.Fits (sys'.threads u) := by
  cases stage with
  | outside => trivial
  | members => exact moves.unborn fits
  | built a threadId => exact moves.unborn fits
  | pushing v a threadId =>
      cases v with
      | live => exact moves.unborn fits
      | liveAllocators => exact moves.unborn fits
      | retired => exact moves.exited fits
  | dropping v fresh a threadId =>
      cases v with
      | live => exact moves.unborn fits
      | liveAllocators => exact moves.unborn fits
      | retired => exact moves.exited fits
  | registered a threadId => exact moves.unborn fits
  | marked a => exact moves.exited fits
  | listed a => exact moves.exited fits
  | retired a => exact moves.exited fits
  | stuck => trivial

theorem Staged.setStage {stage : Stage} (staged : Staged s)
    (own : stage.Fits (s.w.sys.threads t)) : Staged (s.setStage t stage) := by
  intro u
  by_cases same : u = t
  · subst same
    change (Function.update s.stage u stage u).Fits _
    rw [Function.update_self]
    exact own
  · change (Function.update s.stage t stage u).Fits _
    rw [Function.update_of_ne same]
    exact staged u

/-- One thread changes its stage and its own state. -/
theorem Staged.advance (staged : Staged s)
    (stages : ∀ u, u ≠ t → s'.stage u = s.stage u)
    (threads : ∀ u, u ≠ t → s'.w.sys.threads u = s.w.sys.threads u)
    (own : (s'.stage t).Fits (s'.w.sys.threads t)) : Staged s' := by
  intro u
  by_cases same : u = t
  · rw [same]
    exact own
  · rw [stages u same, threads u same]
    exact staged u

theorem Staged.here {stage : Stage} (staged : Staged s) (inside : s.stage t = stage) :
    stage.Fits (s.w.sys.threads t) := by
  have fits : (s.stage t).Fits (s.w.sys.threads t) := staged t
  rwa [inside] at fits

theorem Staged.follow {stage next : Stage} (staged : Staged s) (inside : s.stage t = stage)
    (fits : ∀ thread, stage.Fits thread → next.Fits thread) : Staged (s.setStage t next) :=
  Staged.setStage staged (fits _ (staged.here inside))

theorem fits_dropping {v : RegistryVector} {fresh : Nat} {a : SingleThreadAllocator}
    {threadId : Nat} {thread : Thread} :
    (Stage.dropping v fresh a threadId).Fits thread ↔ (Stage.pushing v a threadId).Fits thread :=
  Iff.rfl

theorem fits_afterPush {v : RegistryVector} {a : SingleThreadAllocator} {threadId : Nat}
    {thread : Thread} (fits : (Stage.pushing v a threadId).Fits thread) :
    (afterPush v a threadId).Fits thread := by
  cases v <;> exact fits

theorem step_staged {e : Event} (staged : Staged s) (taken : Step P growth s e s') :
    Staged s' := by
  have fits : ∀ u, (s.stage u).Fits (s.w.sys.threads u) := staged
  cases taken with
  | program allowed taken =>
      obtain ⟨t, moves⟩ := program_moves allowed taken
      intro u
      exact fits_moves moves (fits u)
  | enter outside unborn => exact Staged.setStage staged unborn
  | @build t c a w' inside done =>
      have threads := NewDelete.constructMembers_threads done
      refine Staged.setStage ?_ ?_
      · intro u
        change (s.stage u).Fits (w'.sys.threads u)
        rw [threads]
        exact fits u
      · change w'.sys.threads t = .unborn
        rw [threads]
        exact staged.here inside
  | buildFails inside done => exact Staged.setStage staged trivial
  | lock inside free => exact staged.follow inside fun _ fits => fits
  | lockRetire inside free => exact staged.follow inside fun _ fits => fits
  | push inside room => exact staged.follow inside fun _ fits => fits_afterPush fits
  | @nestedNew t threadId v a r buffer w' inside full done =>
      have moves := NewDelete.doNew_moves done
      have moved : Staged { s with w := w' } := fun u => fits_moves moves (fits u)
      exact moved.follow inside fun _ fits => fits_dropping.mpr fits
  | nestedNewFails inside full done failed =>
      have moves := NewDelete.doNew_moves done
      exact Staged.setStage (fun u => fits_moves moves (fits u)) trivial
  | nestedNewReenters inside full stuck => exact Staged.setStage staged trivial
  | firstBuffer inside empty =>
      exact staged.follow inside fun _ fits => fits_afterPush (fits_dropping.mp fits)
  | @nestedDelete t fresh threadId v a freed w' inside old done =>
      have moves := NewDelete.doDelete_moves done
      have moved : Staged { s with w := w' } := fun u => fits_moves moves (fits u)
      exact moved.follow inside fun _ fits => fits_afterPush (fits_dropping.mp fits)
  | nestedDeleteReenters inside old stuck => exact Staged.setStage staged trivial
  | @register t threadId a inside =>
      refine staged.advance (t := t) (fun u other => Function.update_of_ne other _ _)
        (fun u other => Sys.setThread_other _ _ other) ?_
      change (Function.update s.stage t .outside t).Fits _
      rw [Function.update_self]
      trivial
  | @exit t pool client outside live =>
      refine staged.advance (t := t) (fun u other => Function.update_of_ne other _ _)
        (fun u other => Sys.setThread_other _ _ other) ?_
      change (Function.update s.stage t (.marked pool.alloc) t).Fits _
      rw [Function.update_self]
      exact Sys.setThread_same _ _ _
  | retire inside => exact staged.follow inside fun _ fits => fits
  | @destroy t a inside => exact Staged.setStage staged trivial

/-- A thread whose allocator is gone stays without one. -/
theorem step_exited {e : Event} {u : Nat} (staged : Staged s) (taken : Step P growth s e s')
    (exited : s.w.sys.threads u = .exited) : s'.w.sys.threads u = .exited := by
  cases taken with
  | program allowed taken =>
      obtain ⟨t, moves⟩ := program_moves allowed taken
      exact moves.exited exited
  | @build t c a w' inside done =>
      exact (congrFun (NewDelete.constructMembers_threads done) u).trans exited
  | nestedNew inside full done => exact (NewDelete.doNew_moves done).exited exited
  | nestedNewFails inside full done failed => exact (NewDelete.doNew_moves done).exited exited
  | nestedDelete inside old done => exact (NewDelete.doDelete_moves done).exited exited
  | @register t threadId a inside =>
      have unborn : s.w.sys.threads t = .unborn := by
        have here : (s.stage t).Fits (s.w.sys.threads t) := staged t
        rwa [inside] at here
      have other : u ≠ t := by
        rintro rfl
        rw [exited] at unborn
        cases unborn
      exact (Sys.setThread_other _ _ other).trans exited
  | @exit t pool client outside live =>
      by_cases same : u = t
      · rw [same]
        exact Sys.setThread_same _ _ _
      · exact (Sys.setThread_other _ _ same).trans exited
  | _ => exact exited

/-- The fallback serves every nested `operator new`, and the registry or nothing every nested
`operator delete` before `init_allocator` and on a thread whose allocator is gone. -/
theorem step_safe {e : Event} (staged : Staged s) (taken : Step P growth s e s')
    (roomy : s.Roomy e) : s.Safe e := by
  cases taken with
  | nestedNew inside full done => exact Option.some_ne_none _
  | nestedNewFails inside full done failed => exact Option.some_ne_none _
  | nestedNewReenters inside full stuck =>
      simp [NewDelete.doNew, NewDelete.takesFallback] at stuck
  | nestedDelete inside old done => exact Option.some_ne_none _
  | @nestedDeleteReenters t fresh threadId v a inside old stuck =>
      exfalso
      have spared : ¬ s.w.Consults t (s.vectors v).buffer := by
        intro consults
        rcases roomy with retired | early
        · have here : (s.stage t).Fits (s.w.sys.threads t) := staged t
          rw [inside, retired] at here
          exact (spared_of_exited here).delete _ consults
        · rw [consults.2.2.1] at early
          cases early
      obtain ⟨freed, w', done⟩ := NewDelete.doDelete_spared spared
      rw [stuck] at done
      cases done
  | lock inside free =>
      show s.mutex ≠ _
      rw [free]
      exact fun same => by cases same
  | lockRetire inside free =>
      show s.mutex ≠ _
      rw [free]
      exact fun same => by cases same
  | _ => trivial

/-- A registration that outgrows a buffer after `init_allocator` calls `instance()` again. -/
theorem step_reenters {v : RegistryVector} {answer : Option (List Nat)} (staged : Staged s)
    (taken : Step P growth s (.nestedDelete t v answer) s') (registration : v ≠ .retired)
    (ready : s.w.ready = true)
    (unstashed : ∀ e ∈ s.w.alignedScratch t, e.payload ≠ (s.vectors v).buffer) :
    answer = none := by
  cases taken with
  | @nestedDelete _ fresh threadId _ a freed w' inside old done =>
      exfalso
      have unborn : s.w.sys.threads t = .unborn := by
        have here : (s.stage t).Fits (s.w.sys.threads t) := staged t
        rw [inside] at here
        simpa only [Stage.Fits, if_neg registration] using here
      have present : s.w.allocatorGone t = false := by rw [NewDelete.allocatorGone, unborn]
      rw [NewDelete.doDelete_unborn ⟨old, unstashed, ready, present⟩ unborn] at done
      cases done
  | nestedDeleteReenters inside old stuck => rfl

end Steps

section Possible

/-- The usual policy: twice the capacity, and at least one element. -/
def doubling (capacity : Nat) : Nat := max 1 (2 * capacity)

/-- One state leads to another, and no registration on the way outgrows a buffer too late. -/
def Reaches (s s' : Lifecycle) : Prop :=
  ∃ trace : List (Transition Lifecycle Event), Run (Step desktop doubling) s trace s' ∧
    ∀ x ∈ trace, x.before.Roomy x.event

variable {s s' s'' : Lifecycle} {t : Nat}

theorem Reaches.trans (first : Reaches s s') (second : Reaches s' s'') : Reaches s s'' := by
  obtain ⟨front, ran, roomy⟩ := first
  obtain ⟨back, continued, roomy'⟩ := second
  refine ⟨front ++ back, ran.append continued, fun x member => ?_⟩
  rcases List.mem_append.mp member with early | late
  · exact roomy x early
  · exact roomy' x late

theorem Reaches.refl (s : Lifecycle) : Reaches s s :=
  ⟨[], .nil, fun x member => by cases member⟩

theorem Reaches.step {e : Event} (reaches : Reaches s s') (taken : Step desktop doubling s' e s'')
    (roomy : s'.Roomy e) : Reaches s s'' := by
  refine reaches.trans ⟨_, Run.nil.snoc taken, fun x member => ?_⟩
  obtain rfl := List.mem_singleton.mp member
  exact roomy

/-- Above everything outstanding, a thread can get as far as its first push. -/
theorem push_possible {base : Nat} (outside : s.stage t = .outside)
    (unborn : s.w.sys.threads t = .unborn) (free : s.mutex = none) (aligned : 1048576 ∣ base)
    (room : base + 33554432 ≤ Malloc.addressLimit)
    (below : Below s.w.sys.shared.heap (base + 1048576)) :
    ∃ s' a threadId, Reaches s s' ∧ s'.stage t = .pushing .live a threadId ∧
      s'.vectors = s.vectors ∧ s'.w.ready = s.w.ready ∧
      s'.w.alignedScratch = s.w.alignedScratch ∧ s'.w.sys.threads = s.w.sys.threads ∧
      (∀ u, u ≠ t → s'.stage u = s.stage u) ∧
      Below s'.w.sys.shared.heap (base + 33554432) := by
  let s₁ := { s with w := { s.w with
    constructing := Function.update s.w.constructing t true } }.setStage t .members
  have entered : Step desktop doubling s (.enter t) s₁ := .enter outside unborn
  obtain ⟨a, m', h', built, _, _, below', _⟩ :=
    SingleThreadAllocator.new_possible (Owner.slab t) (.arena t) s₁.w.sys.mem
      s₁.w.sys.shared.heap aligned room below
  let c : ConstructionReplies := ⟨spreadReply base, some (base + 16777216),
    ⟨none, none, ⟨none, none⟩⟩, ⟨none, none, ⟨none, none⟩⟩⟩
  have members : s₁.w.constructMembers desktop c t = .returns (a, s₁.w.withMembers t h' m') :=
    NewDelete.constructMembers_ok built
  have inside : s₁.stage t = .members := Function.update_self _ _ _
  have next : Step desktop doubling s₁ (.build t (.ok ())) _ := .build inside members
  have inside₂ : ({ s₁ with w := s₁.w.withMembers t h' m' }.setStage t
      (.built a s₁.w.sys.nextThreadId)).stage t = .built a s₁.w.sys.nextThreadId :=
    Function.update_self _ _ _
  have last : Step desktop doubling _ (.lock t) _ := .lock inside₂ free
  have reached := (((Reaches.refl s).step entered trivial).step next trivial).step last trivial
  refine ⟨_, a, _, reached, Function.update_self _ _ _, rfl, rfl, rfl, rfl, ?_, below'⟩
  intro u other
  have first : s₁.stage u = s.stage u := Function.update_of_ne other _ _
  have second := Function.update_of_ne other (Stage.built a s₁.w.sys.nextThreadId) s₁.stage
  exact (Function.update_of_ne other _ _).trans (second.trans first)

/-- A full vector can get any fresh buffer. -/
theorem grow_possible {v : RegistryVector} {a : SingleThreadAllocator} {threadId p limit : Nat}
    (inside : s.stage t = .pushing v a threadId)
    (full : ¬ (s.vectors v).size < (s.vectors v).capacity)
    (small : elementBytes v * doubling (s.vectors v).capacity ≤ 65536)
    (below : Below s.w.sys.shared.heap limit) (above : limit ≤ p) (positive : 0 < p)
    (aligned : 16 ∣ p) (room : p + 65536 ≤ Malloc.addressLimit) :
    ∃ s', Step desktop doubling s (.nestedNew t v (some (.ok (some p)))) s' ∧
      s'.stage t = .dropping v p a threadId ∧ s'.vectors = s.vectors ∧
      s'.w.ready = s.w.ready ∧ s'.w.alignedScratch = s.w.alignedScratch ∧
      s'.w.sys.threads = s.w.sys.threads ∧ (∀ u, u ≠ t → s'.stage u = s.stage u) ∧
      Below s'.w.sys.shared.heap (p + 65536) := by
  generalize size : elementBytes v * doubling (s.vectors v).capacity = n at small
  have nonzero : n ≠ 0 := by
    rw [← size]
    have bytes : 0 < elementBytes v := by cases v <;> decide
    have capacity : 0 < doubling (s.vectors v).capacity := Nat.lt_of_lt_of_le (by decide)
      (Nat.le_max_left _ _)
    exact Nat.ne_of_gt (Nat.mul_pos bytes capacity)
  have limit' : p + 65536 ≤ 9223372036854775808 := room
  have fresh : s.w.sys.shared.heap.Fresh desktop.mallocAlign n p :=
    fresh_above below above positive aligned (by show p + max n 1 ≤ 9223372036854775808; omega)
  have granted := NewDelete.malloc_fresh .fallback fresh
  let w' : NewDelete := { s.w with
    sys := s.w.sys.setHeap (s.w.sys.shared.heap.add (.outside .fallback) desktop.mallocAlign n p
      fresh) }.issue (t, .fallback) p
  have done : s.w.doNew desktop ⟨some p, none, ⟨none, none⟩⟩ true t
      (elementBytes v * doubling (s.vectors v).capacity) = some (.ok (some p), w') := by
    rw [size, NewDelete.doNew]
    simp only [nonzero, ↓reduceIte, NewDelete.takesFallback, Bool.or_true, Bool.true_or,
      NewDelete.fallbackNew, granted, NewDelete.recordMallocPtr]
    rfl
  refine ⟨_, .nestedNew inside full done, Function.update_self _ _ _, rfl, rfl, rfl,
    rfl, fun u other => Function.update_of_ne other _ _, ?_⟩
  intro b member
  rcases List.mem_cons.mp member with rfl | old
  · show p + max n 1 ≤ p + 65536
    omega
  · exact Nat.le_trans (below b old) (by omega)

/-- The first buffer of a vector of the live threads. -/
theorem first_possible {v : RegistryVector} {a : SingleThreadAllocator} {threadId p limit : Nat}
    (inside : s.stage t = .pushing v a threadId) (empty : s.vectors v = ⟨0, 0, 0⟩)
    (below : Below s.w.sys.shared.heap limit) (above : limit ≤ p) (positive : 0 < p)
    (aligned : 16 ∣ p) (room : p + 65536 ≤ Malloc.addressLimit) :
    ∃ s', Reaches s s' ∧ s'.stage t = afterPush v a threadId ∧
      s'.vectors = Function.update s.vectors v ⟨p, 1, 1⟩ ∧
      s'.w.ready = s.w.ready ∧ s'.w.alignedScratch = s.w.alignedScratch ∧
      s'.w.sys.threads = s.w.sys.threads ∧ (∀ u, u ≠ t → s'.stage u = s.stage u) ∧
      Below s'.w.sys.shared.heap (p + 65536) := by
  have full : ¬ (s.vectors v).size < (s.vectors v).capacity := by rw [empty]; decide
  have small : elementBytes v * doubling (s.vectors v).capacity ≤ 65536 := by
    rw [empty]
    cases v <;> decide
  obtain ⟨s₁, grown, inside₁, vectors, ready, scratch, threads, stages, below₁⟩ :=
    grow_possible inside full small below above positive aligned room
  have none : (s₁.vectors v).buffer = 0 := by rw [vectors, empty]
  refine ⟨_, ((Reaches.refl s).step grown trivial).step (.firstBuffer inside₁ none) trivial,
    Function.update_self _ _ _, ?_, ready, scratch, threads, ?_, below₁⟩
  · change Function.update s₁.vectors v _ = _
    rw [vectors, empty]
    rfl
  · intro u other
    exact (Function.update_of_ne other _ _).trans (stages u other)

/-- The end of the constructor, followed by `init_allocator`. -/
theorem init_possible {a : SingleThreadAllocator} {threadId : Nat}
    (inside : s.stage t = .registered a threadId) :
    ∃ s', Reaches s s' ∧ s'.w.ready = true ∧ s'.vectors = s.vectors ∧ s'.mutex = none ∧
      s'.w.alignedScratch = s.w.alignedScratch ∧
      s'.w.sys.shared.heap = s.w.sys.shared.heap ∧ ∀ u, u ≠ t →
        s'.stage u = s.stage u ∧ s'.w.sys.threads u = s.w.sys.threads u := by
  let s₁ : Lifecycle := { s with
    mutex := none
    w := { s.w with
      sys := s.w.sys.setThread t (.live ⟨a, 0, 0, threadId⟩ Client.none)
      constructing := Function.update s.w.constructing t false } }.setStage t .outside
  have registered : Step desktop doubling s (.register t) s₁ := .register inside
  have live : s₁.w.sys.threads t = .live ⟨a, 0, 0, threadId⟩ Client.none :=
    Sys.setThread_same s.w.sys t _
  have outside : s₁.stage t = .outside := Function.update_self _ _ _
  have init : Step desktop doubling s₁ (.program (.initAllocator t))
      { s₁ with w := { s₁.w with ready := true } } := .program outside (.initAllocator live)
  have reached := ((Reaches.refl s).step registered trivial).step init trivial
  refine ⟨_, reached, rfl, rfl, rfl, rfl, rfl, ?_⟩
  intro u other
  exact ⟨Function.update_of_ne other _ _, Sys.setThread_other s.w.sys _ other⟩

end Possible

section Run

variable {P : Platform} {growth : Nat → Nat} {m : ByteMemory} {h : Heap Owner}

theorem staged_initial (m : ByteMemory) (h : Heap Owner) : Staged (initial m h) :=
  fun _ => trivial

/-- In every run whose registrations outgrow no buffer of the registry once the override is
ready, no nested call of a constructor or destructor reaches `instance()`; outside this
condition every such deletion does. When an allocator is gone, it stays gone, and no call on
its thread reaches `instance()` again. -/
theorem nested_safe {trace : List (Transition Lifecycle Event)} {s : Lifecycle}
    (run : Run (Step P growth) (initial m h) trace s) :
    ((∀ x ∈ trace, x.before.Roomy x.event) → ∀ x ∈ trace, x.before.Safe x.event) ∧
    (∀ x ∈ trace, ∀ t v answer, x.event = .nestedDelete t v answer → v ≠ .retired →
      x.before.w.ready = true →
      (∀ e ∈ x.before.w.alignedScratch t, e.payload ≠ (x.before.vectors v).buffer) →
      answer = none) ∧
    (∀ x ∈ trace, ∀ t, x.before.w.sys.threads t = .exited →
      Spared x.before.w t ∧ x.after.w.sys.threads t = .exited) := by
  have staged : ∀ x ∈ trace, Staged x.before ∧ Step P growth x.before x.event x.after := by
    intro x member
    obtain ⟨past, rest, _, reached, taken⟩ := run.reached x member
    exact ⟨reached.invariant (staged_initial m h)
      (fun _ _ _ staged taken => step_staged staged taken), taken⟩
  refine ⟨?_, ?_, ?_⟩
  · intro roomy x member
    obtain ⟨here, taken⟩ := staged x member
    exact step_safe here taken (roomy x member)
  · intro x member t v answer event registration ready unstashed
    obtain ⟨here, taken⟩ := staged x member
    rw [event] at taken
    exact step_reenters here taken registration ready unstashed
  · intro x member t exited
    obtain ⟨here, taken⟩ := staged x member
    exact ⟨spared_of_exited exited, step_exited here taken exited⟩

/-- Thread 0 is the first to register, and calls `init_allocator`. Thread 1 is about to push onto
the vector of live threads, which is full. -/
theorem second_push : ∃ (s : Lifecycle) (a : SingleThreadAllocator) (threadId : Nat),
    Reaches (initial (fun _ => 0) Heap.empty) s ∧ s.stage 1 = .pushing .live a threadId ∧
      s.vectors .live = ⟨33554432, 1, 1⟩ ∧ s.w.sys.threads 1 = .unborn ∧ s.w.ready = true ∧
      (s.w.alignedScratch = fun _ => []) ∧ Below s.w.sys.shared.heap 100663296 := by
  have nothing : Below (initial (fun _ => 0) Heap.empty).w.sys.shared.heap (0 + 1048576) :=
    fun b member => by cases member
  obtain ⟨s₁, a, id, reach₁, inside₁, vectors₁, _, scratch₁, threads₁, stages₁, below₁⟩ :=
    push_possible (s := initial (fun _ => 0) Heap.empty) (t := 0) rfl rfl rfl (by decide)
      (by decide) nothing
  obtain ⟨s₂, reach₂, inside₂, vectors₂, _, scratch₂, threads₂, stages₂, below₂⟩ :=
    first_possible (p := 33554432) inside₁ (by rw [vectors₁]; rfl) below₁ (by decide) (by decide)
      (by decide) (by decide)
  have apart : RegistryVector.liveAllocators ≠ .live := by decide
  obtain ⟨s₃, reach₃, inside₃, vectors₃, _, scratch₃, threads₃, stages₃, below₃⟩ :=
    first_possible (p := 33619968) inside₂
      (by rw [vectors₂, vectors₁, Function.update_of_ne apart]; rfl) below₂ (by decide)
      (by decide) (by decide) (by decide)
  obtain ⟨s₄, reach₄, ready₄, vectors₄, free, scratch₄, heap₄, others⟩ := init_possible inside₃
  have first : s₄.vectors .live = ⟨33554432, 1, 1⟩ := by
    rw [vectors₄, vectors₃, Function.update_of_ne apart.symm, vectors₂, Function.update_self]
  have below₄ : Below s₄.w.sys.shared.heap (67108864 + 1048576) := by
    rw [heap₄]
    exact fun b member => Nat.le_trans (below₃ b member) (by decide)
  have unborn : s₄.w.sys.threads 1 = .unborn := by
    rw [(others 1 (by decide)).2, threads₃, threads₂, threads₁]
    rfl
  have outside : s₄.stage 1 = .outside := by
    rw [(others 1 (by decide)).1, stages₃ 1 (by decide), stages₂ 1 (by decide),
      stages₁ 1 (by decide)]
    rfl
  obtain ⟨s₅, b, id', reach₅, inside₅, vectors₅, ready₅, scratch₅, threads₅, _, below₅⟩ :=
    push_possible outside unborn free (by decide) (by decide) below₄
  refine ⟨s₅, b, id', (((reach₁.trans reach₂).trans reach₃).trans reach₄).trans reach₅, inside₅,
    ?_, ?_, ?_, ?_, below₅⟩
  · rw [vectors₅, first]
  · rw [threads₅, unborn]
  · rw [ready₅, ready₄]
  · rw [scratch₅, scratch₄, scratch₃, scratch₂, scratch₁]
    rfl

/-- From there it obtains the second buffer. -/
theorem second_grows {s : Lifecycle} {a : SingleThreadAllocator} {threadId : Nat}
    (inside : s.stage 1 = .pushing .live a threadId)
    (vector : s.vectors .live = ⟨33554432, 1, 1⟩)
    (below : Below s.w.sys.shared.heap 100663296) :
    ∃ s', Step desktop doubling s (.nestedNew 1 .live (some (.ok (some 134217728)))) s' ∧
      s'.stage 1 = .dropping .live 134217728 a threadId ∧ s'.vectors = s.vectors ∧
      s'.w.ready = s.w.ready ∧ s'.w.alignedScratch = s.w.alignedScratch ∧
      s'.w.sys.threads = s.w.sys.threads := by
  have full : ¬ (s.vectors .live).size < (s.vectors .live).capacity := by
    rw [vector]
    decide
  have small : elementBytes .live * doubling (s.vectors .live).capacity ≤ 65536 := by
    rw [vector]
    decide
  obtain ⟨s', grown, inside', vectors, ready, scratch, threads, _, _⟩ :=
    grow_possible (p := 134217728) inside full small below (by decide) (by decide) (by decide)
      (by decide)
  exact ⟨s', grown, inside', vectors, ready, scratch, threads⟩

/-- The deletion of the first buffer constructs the allocator that is being constructed. -/
theorem nested_not_always_safe : ∃ (trace : List (Transition Lifecycle Event)) (s : Lifecycle),
    Run (Step desktop doubling) (initial (fun _ => 0) Heap.empty) trace s ∧
      ¬ ∀ x ∈ trace, x.before.Safe x.event := by
  obtain ⟨s₁, a, threadId, ⟨trace, ran, _⟩, inside₁, vector, unborn₁, ready₁, scratch₁, below⟩ :=
    second_push
  obtain ⟨s, grown, inside, vectors, same, stashes, threads⟩ := second_grows inside₁ vector below
  have old : (s.vectors .live).buffer ≠ 0 := by
    rw [vectors, vector]
    decide
  have unstashed : ∀ e ∈ s.w.alignedScratch 1, e.payload ≠ (s.vectors .live).buffer := by
    intro e stashed
    rw [stashes, scratch₁] at stashed
    cases stashed
  have unborn : s.w.sys.threads 1 = .unborn := by rw [threads, unborn₁]
  have present : s.w.allocatorGone 1 = false := by rw [NewDelete.allocatorGone, unborn]
  have ready : s.w.ready = true := by rw [same, ready₁]
  have stuck : Step desktop doubling s (.nestedDelete 1 .live none) _ :=
    .nestedDeleteReenters inside old
      (NewDelete.doDelete_unborn ⟨old, unstashed, ready, present⟩ unborn)
  refine ⟨_, _, (ran.snoc grown).snoc stuck, fun safe => ?_⟩
  exact safe _ (List.mem_append_right _ (List.mem_singleton_self _)) rfl

/-- Thread 0 registers, in two growing vectors, and thread 1 obtains the buffer for its own push:
the fallback serves all three calls. -/
theorem nested_safe_entered : ∃ (trace : List (Transition Lifecycle Event)) (s : Lifecycle),
    Run (Step desktop doubling) (initial (fun _ => 0) Heap.empty) trace s ∧
      (∃ x ∈ trace, x.event = .nestedNew 1 .live (some (.ok (some 134217728))) ∧
        x.before.w.ready = true) ∧
      ∀ x ∈ trace, x.before.Safe x.event := by
  obtain ⟨s₁, a, threadId, ⟨trace, ran, roomy⟩, inside, vector, _, ready, _, below⟩ := second_push
  obtain ⟨s, grown, _⟩ := second_grows inside vector below
  have run := ran.snoc grown
  refine ⟨_, s, run, ⟨_, List.mem_append_right _ (List.mem_singleton_self _), rfl, ready⟩,
    (nested_safe run).1 ?_⟩
  intro x member
  rcases List.mem_append.mp member with early | last
  · exact roomy x early
  · obtain rfl := List.mem_singleton.mp last
    trivial

end Run

end Lifecycle

end MemAlloc
