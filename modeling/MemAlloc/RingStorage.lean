import MemAlloc.EventRing
import MemAlloc.FallbackFrees
import MemAlloc.NewOutcomes
import MemAlloc.Registration

set_option autoImplicit false

namespace MemAlloc.RingStorage

open Malloc (Heap)
open Runs (Run Transition)
open NewDelete (Outstanding takesFallback)
open SingleThreadAllocator (FreeForm kArenaPointer)

/-- The calls that evaluate `viz::ring()`. -/
inductive EntryPoint where
  | allocate
  | acquireChunk
  | deallocate
  | deallocateContaining
  | operatorNew
  | operatorDelete
  | reader
deriving DecidableEq, Repr

/-- Whether the call holds an `AllocatorGuard` when it evaluates `viz::ring()`. -/
def EntryPoint.guarded : EntryPoint → Bool
  | .allocate => true
  | .acquireChunk => true
  | .deallocate => false
  | .deallocateContaining => false
  | .operatorNew => true
  | .operatorDelete => true
  | .reader => false

/-- What came of `new EventRing()`. -/
inductive Storage where
  | fallback (p : Nat)
  | null
  | arena (p : Nat)
  | reenters
  | fails
deriving DecidableEq, Repr

/-- The function-local static: absent, under construction on a thread, there, or lost in a
construction that does not end. -/
inductive Ring where
  | absent
  | initialising (t : Nat)
  | stored (p : Nat)
  | lost
deriving DecidableEq, Repr

/-- An exception leaves the static absent, and the next evaluation starts again. -/
def Storage.ring : Storage → Ring
  | .fallback p => .stored p
  | .null => .lost
  | .arena p => .stored p
  | .reenters => .lost
  | .fails => .absent

/-- `pending` tells which threads are about to evaluate `viz::ring()`, and in which call. -/
structure State where
  w : NewDelete
  enabled : Bool
  ring : Ring
  pending : Nat → Option EntryPoint

namespace State

def initial (m : ByteMemory) (h : Heap Owner) : State :=
  ⟨NewDelete.initial m h, false, .absent, fun _ => none⟩

def setPending (s : State) (t : Nat) (k : Option EntryPoint) : State :=
  { s with pending := Function.update s.pending t k }

theorem setPending_same (s : State) (t : Nat) (k : Option EntryPoint) :
    (s.setPending t k).pending t = k := Function.update_self _ _ _

/-- The call that a thread's own request is served by: with the ring's storage handed out by
the arena, the event of that very request is pushed. -/
def settle (s : State) (t : Nat) (k : EntryPoint) : Except Exn (Option Nat) → Storage
  | .ok (some p) =>
      if takesFallback s.w.ready k.guarded (s.w.allocatorGone t) then .fallback p
      else if s.enabled then .reenters
      else .arena p
  | .ok none => if takesFallback s.w.ready k.guarded (s.w.allocatorGone t) then .null else .fails
  | .error _ => .fails

/-- The evaluation on the thread has ended; a lost one keeps the thread. -/
def finish (s : State) (t : Nat) (w : NewDelete) (storage : Storage) : State where
  w := w
  enabled := s.enabled
  ring := storage.ring
  pending := if storage.ring = .lost then s.pending else Function.update s.pending t none

end State

/-- Where a request that has gone through the pools evaluates the ring, if it records
anything: in `acquire_chunk` when it was refilled, else in `allocate` when it was served. -/
def recordedIn (s s' : Shared) (k : EntryPoint) : Except Exn (Option Nat) → Option EntryPoint
  | .ok (some _) => if s.carved.length < s'.carved.length then some .acquireChunk else some k
  | _ => if s.carved.length < s'.carved.length then some .acquireChunk else none

/-- The evaluation that a call through the override leads to while recording is enabled. -/
def overrideTouches (P : Platform) (w : NewDelete) (e : NewDelete.Event) (w' : NewDelete) :
    Option (Nat × EntryPoint) :=
  match e with
  | .new t _ nested x =>
      if takesFallback w.ready nested (w.allocatorGone t) then none
      else (recordedIn w.sys.shared w'.sys.shared .operatorNew x).map (fun k => (t, k))
  | .alignedNew t _ alignment nested x =>
      if P.maxAlign < alignment ∨ takesFallback w.ready nested (w.allocatorGone t) then none
      else (recordedIn w.sys.shared w'.sys.shared .operatorNew x).map (fun k => (t, k))
  | .delete t p _ _ =>
      match w.sys.threads t with
      | .live pool _ =>
          if w.Consults t p ∧ pool.classify p ≠ 0 ∧ pool.classify p ≠ kArenaPointer then
            some (t, .operatorDelete)
          else none
      | _ => none
  | _ => none

/-- The same for a call of the direct API on thread `t`. -/
def directTouches (s : Sys) (e : Sys.Event) (s' : Sys) : Option EntryPoint :=
  match e with
  | .allocate _ _ x => recordedIn s.shared s'.shared .allocate x
  | .free _ .start _ _ => some .deallocate
  | .free _ .containing _ _ => some .deallocateContaining
  | .acquireChunk _ (.ok _) => some .acquireChunk
  | _ => none

inductive Event where
  | setEnabled (on : Bool)
  | override (e : NewDelete.Event)
  | direct (t : Nat) (e : Sys.Event)
  | reader (t : Nat)
  | enter (t : Nat)
  | evaluated (t : Nat) (k : EntryPoint) (r : Replies) (storage : Storage)
  | again (t : Nat)

/-- The thread on which a call through the override runs. -/
def threadOf : NewDelete.Event → Option Nat
  | .begin t => some t
  | .construct t _ => some t
  | .exit t => some t
  | .initAllocator t => some t
  | .new t _ _ _ => some t
  | .alignedNew t _ _ _ _ => some t
  | .delete t _ _ _ => some t
  | _ => none

/-- The ends of the construction of a thread's allocator. -/
def Constructs : NewDelete.Event → Prop
  | .begin _ => True
  | .construct _ (.ok _) => True
  | _ => False

/-- A thread that evaluates the ring only constructs its allocator. Nobody deletes the ring. -/
def Allowed (s : State) (e : NewDelete.Event) : Prop :=
  (∀ t, threadOf e = some t →
    s.pending t = none ∨ s.ring = .initialising t ∧ Constructs e) ∧
  ∀ t p source freed, e = .delete t p source freed → s.ring ≠ .stored p

/-- The calls of the direct API, on their thread. -/
def DirectCall (t : Nat) : Sys.Event → Prop
  | .allocate u _ _ => u = t
  | .allocateAligned u _ _ _ => u = t
  | .free u _ _ _ => u = t
  | .acquireChunk _ _ => True
  | _ => False

/-- The steps of all threads, interleaved. The first thread to reach the ring constructs it,
with the guard of its call, and the others wait for it. -/
inductive Step (P : Platform) (mutexBytes : Nat) : State → Event → State → Prop
  | setEnabled {s : State} (on : Bool) :
      Step P mutexBytes s (.setEnabled on) { s with enabled := on }
  | override {s : State} {e : NewDelete.Event} {w' : NewDelete} (allowed : Allowed s e)
      (taken : NewDelete.Step P s.w e w')
      (silent : s.enabled = false ∨ overrideTouches P s.w e w' = none) :
      Step P mutexBytes s (.override e) { s with w := w' }
  | overrideTouches {s : State} {e : NewDelete.Event} {w' : NewDelete} {t : Nat}
      {k : EntryPoint} (allowed : Allowed s e) (taken : NewDelete.Step P s.w e w')
      (recording : s.enabled = true) (touches : overrideTouches P s.w e w' = some (t, k)) :
      Step P mutexBytes s (.override e) ({ s with w := w' }.setPending t (some k))
  | direct {s : State} {t : Nat} {e : Sys.Event} {sys' : Sys} (idle : s.pending t = none)
      (call : DirectCall t e) (taken : Sys.Step P s.w.sys e sys') :
      Step P mutexBytes s (.direct t e)
        ({ s with w := { s.w with sys := sys' } }.setPending t
          (if s.enabled then directTouches s.w.sys e sys' else none))
  | reader {s : State} {t : Nat} (idle : s.pending t = none) :
      Step P mutexBytes s (.reader t) (s.setPending t (some .reader))
  | enter {s : State} {t : Nat} {k : EntryPoint} (pending : s.pending t = some k)
      (absent : s.ring = .absent) :
      Step P mutexBytes s (.enter t) { s with ring := .initialising t }
  | serve {s : State} {t : Nat} {k : EntryPoint} {r : Replies} {x : Except Exn (Option Nat)}
      {w' : NewDelete} (inside : s.ring = .initialising t) (pending : s.pending t = some k)
      (done : s.w.doNew P r k.guarded t (ringBytes mutexBytes) = some (x, w')) :
      Step P mutexBytes s (.evaluated t k r (s.settle t k x)) (s.finish t w' (s.settle t k x))
  | failedConstruction {s : State} {t : Nat} {k : EntryPoint} {r : Replies} {x : Exn}
      {w' : NewDelete} (inside : s.ring = .initialising t) (pending : s.pending t = some k)
      (stuck : s.w.doNew P r k.guarded t (ringBytes mutexBytes) = none)
      (taken : NewDelete.Step P s.w (.construct t (.error x)) w') :
      Step P mutexBytes s (.evaluated t k r .fails) (s.finish t w' .fails)
  | again {s : State} {t p : Nat} {k : EntryPoint} (pending : s.pending t = some k)
      (stored : s.ring = .stored p) : Step P mutexBytes s (.again t) (s.setPending t none)

/-- The first evaluation gets the ring's storage from the fallback. -/
def FromFallback : Event → Prop
  | .evaluated _ _ _ storage => ∃ p, storage = .fallback p
  | _ => True

/-- The request for the ring's storage takes the fallback, and `malloc` has memory for it. -/
def ToFallback (P : Platform) (mutexBytes : Nat) (s : State) : Event → Prop
  | .evaluated t k r _ => takesFallback s.w.ready k.guarded (s.w.allocatorGone t) = true ∧
      (s.w.malloc P .fallback (ringBytes mutexBytes) r.block).1 ≠ none
  | _ => True

section Steps

variable {P : Platform} {mutexBytes : Nat} {s s' : State} {e : Event}

theorem ringBytes_ne_zero (mutexBytes : Nat) : ringBytes mutexBytes ≠ 0 := by
  simp only [ringBytes]
  omega

theorem doNew_fallback {w : NewDelete} {r : Replies} {active : Bool} {t size : Nat}
    (positive : size ≠ 0) (falls : takesFallback w.ready active (w.allocatorGone t) = true) :
    w.doNew P r active t size = some (w.fallbackNew P r t size) := by
  rw [NewDelete.doNew, if_neg positive, if_pos falls]

theorem doNew_live {w : NewDelete} {r : Replies} {active : Bool} {t size : Nat}
    {pool : ThreadPoolAlloc} {client : Client} (positive : size ≠ 0)
    (serves : takesFallback w.ready active (w.allocatorGone t) = false)
    (live : w.sys.threads t = .live pool client) :
    w.doNew P r active t size = some (w.poolNew P r t size pool client) := by
  rw [NewDelete.doNew, if_neg positive, serves]
  simp only [Bool.false_eq_true, ↓reduceIte, live]

/-- The fallback hands out a pointer exactly when `malloc` does. -/
theorem fallbackNew_cases (P : Platform) (w : NewDelete) (r : Replies) (t size : Nat) :
    ((w.malloc P .fallback size r.block).1 = none ∧ (w.fallbackNew P r t size).1 = .ok none) ∨
      ∃ p, (w.malloc P .fallback size r.block).1 = some p ∧
        (w.fallbackNew P r t size).1 = .ok (some p) ∧
        p ∈ (w.fallbackNew P r t size).2.issued (t, .fallback) := by
  rw [NewDelete.fallbackNew]
  cases w.malloc P .fallback size r.block with
  | mk answer w' =>
      cases answer with
      | none => exact Or.inl ⟨rfl, rfl⟩
      | some p =>
          refine Or.inr ⟨p, rfl, rfl, ?_⟩
          simp only [NewDelete.issue, Function.update_self]
          exact List.mem_cons_self

theorem settle_fallback {t p : Nat} {k : EntryPoint} {x : Except Exn (Option Nat)}
    (stored : s.settle t k x = .fallback p) :
    takesFallback s.w.ready k.guarded (s.w.allocatorGone t) = true ∧ x = .ok (some p) := by
  unfold State.settle at stored
  split at stored
  · split at stored
    · rename_i falls
      cases stored
      exact ⟨falls, rfl⟩
    · split at stored
      · cases stored
      · cases stored
  · split at stored
    · cases stored
    · cases stored
  · cases stored

theorem settle_of_falls {t p : Nat} {k : EntryPoint}
    (falls : takesFallback s.w.ready k.guarded (s.w.allocatorGone t) = true) :
    s.settle t k (.ok (some p)) = .fallback p := by
  rw [State.settle, if_pos falls]

/-- Which of the two ways the storage comes is decided before the request is served. -/
theorem fromFallback_iff (taken : Step P mutexBytes s e s') :
    FromFallback e ↔ ToFallback P mutexBytes s e := by
  cases taken with
  | @serve t k r x w' inside pending done =>
      constructor
      · intro fallback
        obtain ⟨p, stored⟩ := fallback
        obtain ⟨falls, answer⟩ := settle_fallback stored
        refine ⟨falls, ?_⟩
        rw [doNew_fallback (ringBytes_ne_zero mutexBytes) falls] at done
        rcases fallbackNew_cases P s.w r t (ringBytes mutexBytes) with
          ⟨_, null⟩ | ⟨q, granted, _⟩
        · rw [Option.some.inj done, answer] at null
          cases null
        · rw [granted]
          exact Option.some_ne_none q
      · intro fallback
        obtain ⟨falls, granted⟩ := fallback
        rw [doNew_fallback (ringBytes_ne_zero mutexBytes) falls] at done
        rcases fallbackNew_cases P s.w r t (ringBytes mutexBytes) with
          ⟨refused, _⟩ | ⟨q, _, answer, _⟩
        · exact absurd refused granted
        · rw [Option.some.inj done] at answer
          have same : x = .ok (some q) := answer
          subst same
          exact ⟨q, settle_of_falls falls⟩
  | @failedConstruction t k r x w' inside pending stuck taken =>
      constructor
      · intro fallback
        obtain ⟨p, stored⟩ := fallback
        cases stored
      · intro fallback
        rw [doNew_fallback (ringBytes_ne_zero mutexBytes) fallback.1] at stuck
        cases stuck
  | setEnabled on => exact Iff.rfl
  | override allowed taken silent => exact Iff.rfl
  | overrideTouches allowed taken recording touches => exact Iff.rfl
  | direct idle call taken => exact Iff.rfl
  | reader idle => exact Iff.rfl
  | enter pending absent => exact Iff.rfl
  | again pending stored => exact Iff.rfl

end Steps

theorem direct_inv {P : Platform} {w : NewDelete} {t : Nat} {e : Sys.Event} {sys' : Sys}
    (inv : NewDelete.Inv w) (call : DirectCall t e) (taken : Sys.Step P w.sys e sys') :
    NewDelete.Inv { w with sys := sys' } := by
  cases taken with
  | start unborn done => exact call.elim
  | startFails unborn done => exact call.elim
  | exit live => exact call.elim
  | @allocate u n pool pool' client reply chunkRecorded slabRecorded x g' m' live word done =>
      obtain ⟨housed, shared, kept⟩ := ThreadPoolAlloc.allocate_housed inv.housed.shared
        (inv.housed.live u pool client live) done
      refine ⟨?_, inv.backed.heap fun b member _ => kept b member⟩
      refine inv.housed.advance (t := u) shared rfl ?_ (fun _ _ b member _ => kept b member)
      intro pool₁ client₁ same
      obtain ⟨rfl, _⟩ := Thread.live.inj same
      exact housed
  | @allocateAligned u n alignment pool pool' client x live word power done =>
      have extended := ThreadPoolAlloc.allocateAligned_extends done
      exact ⟨inv.housed.extend live rfl rfl extended, inv.backed⟩
  | @free u x p n i form pool pool' client m' live out names done =>
      have extended := SingleThreadAllocator.call_extends (ThreadPoolAlloc.of_free done)
      exact ⟨inv.housed.extend live rfl rfl extended, inv.backed⟩
  | @freeArena u p n b form pool pool' client m' live out names done =>
      have extended := SingleThreadAllocator.call_extends (ThreadPoolAlloc.of_free done)
      exact ⟨inv.housed.extend live rfl rfl extended, inv.backed⟩
  | @acquireChunk bytes reply recorded x g' m' done =>
      obtain ⟨chunk, acquired⟩ := acquireChunk_acquired P none reply recorded bytes w.sys.mem
        inv.housed.shared
      rw [done] at acquired
      refine ⟨⟨acquired.shared, ?_⟩, inv.backed.heap fun b member _ => acquired.kept b member⟩
      intro u pool client live
      exact (inv.housed.live u pool client live).heap fun b member _ => acquired.kept b member
  | write writable => exact call.elim
  | malloc done => exact call.elim
  | mfree member owner => exact call.elim

section Kept

variable {P : Platform} {w w' : NewDelete} {t p : Nat}

theorem allocated_kept (allocated : NewDelete.Allocated w w' t) {u : Nat}
    (out : p ∈ w.issued (u, .fallback)) : p ∈ w'.issued (u, .fallback) := by
  have pushed : ∀ source q, p ∈ Function.update w.issued source (q :: w.issued source)
      (u, .fallback) := by
    intro source q
    by_cases same : (u, Origin.fallback) = source
    · rw [← same, Function.update_self]
      exact List.mem_cons_of_mem _ out
    · rwa [Function.update_of_ne same]
  cases allocated with
  | quiet scratch issued =>
      rcases issued with same | ⟨source, q, _, added⟩
      · rwa [same]
      · rw [added]
        exact pushed source q
  | stashed nonnull new scratch issued =>
      rw [issued]
      exact pushed _ _

theorem retire_kept {q : Nat} {source : Nat × Origin} (out : p ∈ w.issued (t, .fallback))
    (different : q ≠ p) : p ∈ (w.retire source q).issued (t, .fallback) := by
  show p ∈ Function.update w.issued source ((w.issued source).erase q) (t, .fallback)
  by_cases same : (t, Origin.fallback) = source
  · rw [← same, Function.update_self]
    exact (List.mem_erase_of_ne different.symm).mpr out
  · rwa [Function.update_of_ne same]

/-- A fallback pointer that is out stays out until it is deleted. -/
theorem issued_kept {e : NewDelete.Event} (taken : NewDelete.Step P w e w')
    (out : p ∈ w.issued (t, .fallback))
    (spared : ∀ u q source freed, e = .delete u q source freed → q ≠ p) :
    p ∈ w'.issued (t, .fallback) := by
  cases taken with
  | begin unborn first => exact out
  | construct begun taken => exact out
  | exit taken => exact out
  | initAllocator live => exact out
  | new word done => exact allocated_kept (NewDelete.doNew_effect done).2 out
  | alignedNew word power done =>
      exact allocated_kept (NewDelete.doAlignedNew_effect power done).2 out
  | delete listed done =>
      apply retire_kept _ (spared _ _ _ _ rfl)
      cases NewDelete.of_doDelete done with
      | null null => exact out
      | stashed split payload => exact out
      | registered consults member => exact out
      | ignored consults absent => exact out
      | arena ready live unstashed classified => exact out
      | pool ready live unstashed known small done => exact out
  | reenter listed begun stuck => exact retire_kept out (spared _ _ _ _ rfl)
  | malloc done =>
      unfold NewDelete.malloc at done
      cases done
      exact out
  | mfree member owner => exact out
  | write taken => exact out

/-- No registry entry of another pointer answers the deletion. -/
def FreshRecord (s : State) : Event → Prop
  | .override e => s.w.FreshRecord e
  | _ => True

/-- The storage is a fallback pointer that nobody has deleted. -/
structure Backed (s : State) : Prop where
  inv : NewDelete.Inv s.w
  stored : ∀ p, s.ring = .stored p → ∃ t, p ∈ s.w.issued (t, .fallback)

variable {mutexBytes : Nat} {s s' : State}

theorem Backed.override {e : NewDelete.Event} {w' : NewDelete} (backed : Backed s)
    (allowed : Allowed s e) (fresh : s.w.FreshRecord e) (taken : NewDelete.Step P s.w e w') :
    Backed { s with w := w' } := by
  refine ⟨backed.inv.step fresh taken, ?_⟩
  intro p stored
  obtain ⟨t, out⟩ := backed.stored p stored
  refine ⟨t, issued_kept taken out ?_⟩
  intro u q source freed deletes same
  apply allowed.2 u q source freed deletes
  rw [same]
  exact stored

theorem Backed.step {e : Event} (backed : Backed s) (fallback : ToFallback P mutexBytes s e)
    (fresh : FreshRecord s e) (taken : Step P mutexBytes s e s') : Backed s' := by
  have from_fallback := (fromFallback_iff taken).mpr fallback
  cases taken with
  | setEnabled on => exact ⟨backed.inv, backed.stored⟩
  | override allowed taken silent => exact backed.override allowed fresh taken
  | overrideTouches allowed taken recording touches =>
      have after := backed.override allowed fresh taken
      exact ⟨after.inv, after.stored⟩
  | direct idle call taken => exact ⟨direct_inv backed.inv call taken, backed.stored⟩
  | reader idle => exact ⟨backed.inv, backed.stored⟩
  | enter pending absent => exact ⟨backed.inv, fun p stored => by cases stored⟩
  | @serve t k r x w' inside pending done =>
      refine ⟨backed.inv.doNew done, ?_⟩
      intro p stored
      obtain ⟨q, outcome⟩ := from_fallback
      obtain ⟨falls, answer⟩ := settle_fallback outcome
      rw [outcome] at stored
      cases stored
      rw [doNew_fallback (ringBytes_ne_zero mutexBytes) falls] at done
      rcases fallbackNew_cases P s.w r t (ringBytes mutexBytes) with
        ⟨_, null⟩ | ⟨q, _, here, out⟩
      · rw [Option.some.inj done, answer] at null
        cases null
      · rw [Option.some.inj done] at here out
        have same : q = p := by
          rw [answer] at here
          cases here
          rfl
        rw [← same]
        exact ⟨t, out⟩
  | failedConstruction inside pending stuck taken =>
      obtain ⟨p, impossible⟩ := from_fallback
      cases impossible
  | again pending stored => exact ⟨backed.inv, backed.stored⟩

end Kept

section Run

variable {P : Platform} {mutexBytes : Nat} {m : ByteMemory} {h : Heap Owner}
  {trace : List (Transition State Event)} {s : State}

/-- The storage of the ring is an outstanding block of its own in the C heap. -/
def OwnBlock (s : State) : Prop := ∀ p, s.ring = .stored p →
  Outstanding s.w.sys.shared.heap .fallback p ∧
    ∀ b ∈ s.w.sys.shared.heap.blocks, b.span.Holds p → b.owner = .outside .fallback

/-- The first evaluation of `viz::ring()` gets its storage from the fallback exactly when the
call that makes it holds an `AllocatorGuard`, its thread's allocator is gone or the heap is
not ready, and `malloc` has memory. Then the storage is no part of a slab, an arena or a
chunk, and stays outstanding whatever thread exits. -/
theorem ring_storage_iff (run : Run (Step P mutexBytes) (State.initial m h) trace s) :
    ((∀ x ∈ trace, FromFallback x.event) ↔
      ∀ x ∈ trace, ToFallback P mutexBytes x.before x.event) ∧
    ((∀ x ∈ trace, ToFallback P mutexBytes x.before x.event) →
      (∀ x ∈ trace, FreshRecord x.before x.event) → OwnBlock s) := by
  have steps : ∀ x ∈ trace, Step P mutexBytes x.before x.event x.after := by
    intro x member
    obtain ⟨_, _, _, _, taken⟩ := run.reached x member
    exact taken
  refine ⟨⟨fun fallback x member => (fromFallback_iff (steps x member)).mp (fallback x member),
    fun fallback x member => (fromFallback_iff (steps x member)).mpr (fallback x member)⟩, ?_⟩
  intro fallback fresh
  have start : Backed (State.initial m h) :=
    ⟨NewDelete.Inv.initial m h, fun p stored => by cases stored⟩
  have keep : ∀ s e s', Backed s → ToFallback P mutexBytes s e ∧ FreshRecord s e →
      Step P mutexBytes s e s' → Backed s' :=
    fun _ _ _ backed meets taken => backed.step meets.1 meets.2 taken
  have backed := run.invariantWhere start keep (fun x member => ⟨fallback x member, fresh x member⟩)
  intro p stored
  obtain ⟨t, out⟩ := backed.stored p stored
  have block := backed.inv.backed.plain t p out
  exact ⟨block, fun b member held => block.owner member held⟩

def quiet (w : NewDelete) : State := ⟨w, false, .absent, fun _ => none⟩

theorem quiet_run (mutexBytes : Nat) {w₀ w : NewDelete}
    {past : List (Transition NewDelete NewDelete.Event)} (run : Run (NewDelete.Step P) w₀ past w) :
    ∃ trace, Run (Step P mutexBytes) (quiet w₀) trace (quiet w) ∧
      ∀ x ∈ trace, ∃ e, x.event = .override e := by
  induction run with
  | nil => exact ⟨[], .nil, fun _ member => (List.not_mem_nil member).elim⟩
  | @snoc past w w' e _ taken ih =>
      obtain ⟨trace, before, overrides⟩ := ih
      have allowed : Allowed (quiet w) e :=
        ⟨fun _ _ => Or.inl rfl, fun _ _ _ _ _ => fun stored => by cases stored⟩
      have next : Step P mutexBytes (quiet w) (.override e) (quiet w') :=
        .override allowed taken (Or.inl rfl)
      refine ⟨_, before.snoc next, ?_⟩
      intro x member
      rcases List.mem_append.mp member with old | new
      · exact overrides x old
      · obtain rfl := List.mem_singleton.mp new
        exact ⟨e, rfl⟩

/-- Thread 0 with an allocator of its own, after `init_allocator`. -/
theorem ready_possible : ∃ (past : List (Transition NewDelete NewDelete.Event)) (w : NewDelete)
    (pool : ThreadPoolAlloc), Run (NewDelete.Step desktop)
      (NewDelete.initial (fun _ => 0) Heap.empty) past w ∧ w.ready = true ∧
      w.sys.threads 0 = .live pool Client.none ∧
      (∀ i, (pool.alloc.pools i).head = spreadAddress 1048576 i) ∧
      Below w.sys.shared.heap 34603008 := by
  let w : NewDelete := NewDelete.initial (fun _ => 0) Heap.empty
  have aligned : 1048576 ∣ 1048576 := by decide
  have room : 1048576 + 33554432 ≤ Malloc.addressLimit := by decide
  have nothing : Below w.sys.shared.heap (1048576 + 1048576) := by
    intro b member
    cases member
  obtain ⟨w₁, w₂, pool, begun, built, threads, _, _, _, heads, below, _⟩ :=
    NewDelete.construct_possible (w := w) (t := 0) rfl rfl aligned room nothing
  have live : w₂.sys.threads 0 = .live pool Client.none := by rw [threads, Function.update_self]
  exact ⟨_, _, pool, ((Run.nil.snoc begun).snoc built).snoc (.initAllocator live), rfl, live, heads,
    below⟩

/-- A served request through the override evaluates the ring inside its guard. -/
theorem touches_served {w w' : NewDelete} {t size p : Nat}
    (serves : takesFallback w.ready false (w.allocatorGone t) = false)
    (shared : w'.sys.shared = w.sys.shared) :
    overrideTouches P w (.new t size false (.ok (some p))) w' = some (t, .operatorNew) := by
  simp [overrideTouches, serves, recordedIn, shared]

/-- `operator new` is the first to evaluate the ring, and `malloc` has memory for it. -/
theorem ring_storage_guarded : ∃ (trace : List (Transition State Event)) (s : State),
    Run (Step desktop 40) (State.initial (fun _ => 0) Heap.empty) trace s ∧
      ∀ x ∈ trace, FromFallback x.event := by
  obtain ⟨past, w, pool, run, ready, live, heads, below⟩ := ready_possible
  obtain ⟨front, before, overrides⟩ := quiet_run 40 run
  have serves : takesFallback w.ready false (w.allocatorGone 0) = false := by
    rw [takesFallback, ready, NewDelete.allocatorGone, live]
    rfl
  obtain ⟨pool', w', served, sys, ready', _⟩ := NewDelete.pooled_possible (P := desktop) (n := 16)
    (p := 2097152) ready live (by decide) (by decide) (heads 0) (by decide)
  let recording : State := { quiet w with enabled := true }
  let asked : State := { recording with w := w' }.setPending 0 (some .operatorNew)
  let begun : State := { asked with ring := .initialising 0 }
  let r : Replies := ⟨some 34603008, none, ⟨none, none⟩⟩
  have allowed : Allowed recording (.new 0 16 false (.ok (some 2097152))) :=
    ⟨fun _ _ => Or.inl rfl, fun _ _ _ _ _ => fun stored => by cases stored⟩
  have shared : w'.sys.shared = w.sys.shared := by
    rw [sys]
    rfl
  have first : Step desktop 40 (quiet w) (.setEnabled true) recording := .setEnabled true
  have second :
      Step desktop 40 recording (.override (.new 0 16 false (.ok (some 2097152)))) asked :=
    .overrideTouches allowed served rfl (touches_served serves shared)
  have pending : asked.pending 0 = some .operatorNew := State.setPending_same _ _ _
  have third : Step desktop 40 asked (.enter 0) begun := .enter pending rfl
  have falls :
      takesFallback w'.ready EntryPoint.operatorNew.guarded (w'.allocatorGone 0) = true := by
    rw [takesFallback, ready', ready]
    rfl
  have granted : (w'.malloc desktop .fallback (ringBytes 40) r.block).1 ≠ none := by
    have fresh : w'.sys.shared.heap.Fresh desktop.mallocAlign (ringBytes 40) 34603008 := by
      rw [shared]
      exact fresh_above below (Nat.le_refl _) (by decide) (by decide) (by decide)
    rw [NewDelete.malloc_fresh .fallback fresh]
    exact Option.some_ne_none _
  obtain ⟨⟨x, w₄⟩, done⟩ : ∃ answer, w'.doNew desktop r EntryPoint.operatorNew.guarded 0
      (ringBytes 40) = some answer := ⟨_, doNew_fallback (ringBytes_ne_zero 40) falls⟩
  have last : Step desktop 40 begun (.evaluated 0 .operatorNew r (begun.settle 0 .operatorNew x))
      (begun.finish 0 w₄ (begun.settle 0 .operatorNew x)) := .serve rfl pending done
  have whole := (((before.snoc first).snoc second).snoc third).snoc last
  refine ⟨_, _, whole, (ring_storage_iff whole).1.mpr ?_⟩
  intro y member
  rcases List.mem_append.mp member with member | new
  · rcases List.mem_append.mp member with member | new
    · rcases List.mem_append.mp member with member | new
      · rcases List.mem_append.mp member with member | new
        · obtain ⟨e, event⟩ := overrides y member
          rw [event]
          trivial
        · obtain rfl := List.mem_singleton.mp new
          trivial
      · obtain rfl := List.mem_singleton.mp new
        trivial
    · obtain rfl := List.mem_singleton.mp new
      trivial
  · obtain rfl := List.mem_singleton.mp new
    exact ⟨falls, granted⟩

/-- A reader is the first to evaluate the ring, on a thread with an allocator. -/
theorem ring_storage_not_always : ∃ (trace : List (Transition State Event)) (s : State),
    Run (Step desktop 40) (State.initial (fun _ => 0) Heap.empty) trace s ∧
      ¬ ∀ x ∈ trace, FromFallback x.event := by
  obtain ⟨past, w, pool, run, ready, live, _⟩ := ready_possible
  obtain ⟨front, before, _⟩ := quiet_run 40 run
  let asked : State := (quiet w).setPending 0 (some .reader)
  let begun : State := { asked with ring := .initialising 0 }
  have first : Step desktop 40 (quiet w) (.reader 0) asked := .reader rfl
  have pending : asked.pending 0 = some .reader := State.setPending_same _ _ _
  have second : Step desktop 40 asked (.enter 0) begun := .enter pending rfl
  have serves : takesFallback w.ready EntryPoint.reader.guarded (w.allocatorGone 0) = false := by
    rw [takesFallback, ready, NewDelete.allocatorGone, live]
    rfl
  let r : Replies := ⟨none, none, ⟨none, none⟩⟩
  obtain ⟨⟨x, w'⟩, done⟩ : ∃ answer, w.doNew desktop r EntryPoint.reader.guarded 0
      (ringBytes 40) = some answer := ⟨_, doNew_live (ringBytes_ne_zero 40) serves live⟩
  have third : Step desktop 40 begun (.evaluated 0 .reader r (begun.settle 0 .reader x))
      (begun.finish 0 w' (begun.settle 0 .reader x)) := .serve rfl pending done
  refine ⟨_, _, ((before.snoc first).snoc second).snoc third, ?_⟩
  intro fallback
  have storage := fallback _ (List.mem_append_right _ (List.mem_singleton.mpr rfl))
  have falls := ((fromFallback_iff third).mp storage).1
  exact Bool.false_ne_true (serves.symm.trans falls)

end Run

end MemAlloc.RingStorage
