import MemAlloc.OverrideCalls

set_option autoImplicit false

namespace MemAlloc.OverrideCalls

open Calls (Code Frame System Closed Inside Ended)
open Runs (Run Transition)

/-- What the program calls. -/
def Entry : Function → Prop
  | .doNew _ => True
  | .doAlignedNew _ alignment => Words.PowerOfTwo alignment
  | .doDelete _ => True
  | .destroy => True
  | .initAllocator => True
  | .allocate _ => True
  | .allocateAligned _ alignment => Words.PowerOfTwo alignment
  | .deallocate _ _ _ => True
  | .acquireChunk _ _ user => user = none
  | _ => False

/-- The steps of all threads, interleaved. -/
abbrev Step (P : Platform) (growth : Nat → Nat) (mutexBytes : Nat) :
    System Function Action.Reply Nat State → Calls.Event Function Action.Reply →
      System Function Action.Reply Nat State → Prop :=
  Calls.Step (body P mutexBytes) (fun t => Action.Does P growth t) Entry (Elsewhere P)

/-- What runs while the mutex of the central heap is held. -/
def Nested : Function → Prop
  | .doNew _ => True
  | .doDelete _ => True
  | .allocatorInstance => True
  | .construct => True
  | .registerStats => True
  | .pushBack _ => True
  | .staticPointer _ => True
  | .record _ _ _ _ => True
  | .deallocate _ _ _ => True
  | _ => False

/-- A block comes from the thread's allocator. -/
def Primitive.Serves : Primitive → Prop
  | .poolAllocate _ _ => True
  | .arenaAllocate _ => True
  | .arenaAllocateAligned _ _ => True
  | _ => False

def Permitted : Action → Prop
  | .lock m => m ≠ .centralHeap
  | .unlock m => m ≠ .centralHeap
  | .leaveGuard previous => previous = true
  | .primitive a => ¬ a.Serves
  | _ => True

/-- With the guard set, every request takes the fallback, and every further guard finds it
set. -/
def Answers : (a : Action) → a.Reply → Prop
  | .testFallback, r => r = true
  | .enterGuard, r => r = true
  | _, _ => True

abbrev Confined (code : Body) : Prop := code.Confined Nested Permitted Answers

theorem guarded_confined {inner : Body} {k : Nat → Body} (confined : Confined inner)
    (rest : ∀ x, Confined (k x)) : Confined (guarded inner k) :=
  ⟨trivial, fun _ set => ⟨set, set⟩, confined, rest⟩

theorem locked_confined {m : Mutex} {inner : Body} (other : m ≠ .centralHeap)
    (confined : Confined inner) : Confined (locked m inner) :=
  ⟨other, fun _ _ => ⟨other, other⟩, confined, fun _ => trivial⟩

theorem ite_confined {c : Prop} [Decidable c] {first second : Body} (yes : Confined first)
    (no : Confined second) : Confined (if c then first else second) := by
  split
  · exact yes
  · exact no

theorem doNew_confined (size : Nat) : Confined (doNew size) := by
  refine ⟨trivial, ?_⟩
  intro fallback set
  cases (show fallback = true from set)
  exact ⟨id, fun _ _ => trivial⟩

theorem freeRegistered_confined (p : Nat) : Confined (freeRegistered p) :=
  ⟨id, fun _ _ => trivial⟩

theorem doDelete_confined (p : Nat) : Confined (doDelete p) := by
  have registered := freeRegistered_confined p
  have classified : ∀ cls, Confined (if cls = 0 then freeRegistered p
      else if cls = SingleThreadAllocator.kArenaPointer then .ret 0
      else .call (.deallocate .containing p cls) .ret) :=
    fun _ => ite_confined registered (ite_confined trivial ⟨trivial, fun _ => trivial⟩)
  refine ⟨trivial, fun _ _ => ⟨trivial, trivial⟩, ite_confined trivial ?_, fun _ => trivial⟩
  refine ⟨id, fun _ _ => ite_confined trivial ?_⟩
  refine ⟨trivial, fun _ _ => ite_confined registered ?_⟩
  refine ⟨trivial, fun _ _ => ite_confined registered ?_⟩
  apply guarded_confined
  · refine ⟨trivial, fun _ => ⟨trivial, fun _ _ => ite_confined registered ?_⟩⟩
    exact ⟨id, fun cls _ => classified cls⟩
  · exact fun _ => trivial

theorem allocatorInstance_confined : Confined allocatorInstance := by
  apply guarded_confined
  · exact ⟨id, fun _ _ => ite_confined trivial ⟨trivial, fun _ => trivial⟩⟩
  · exact fun _ => trivial

theorem construct_confined : Confined construct := by
  refine ⟨trivial, fun _ => ⟨id, fun _ _ => ⟨id, fun built _ => ?_⟩⟩⟩
  cases built with
  | none => trivial
  | some a => exact ⟨trivial, fun _ => ⟨id, fun _ _ => trivial⟩⟩

theorem registerStats_confined : Confined registerStats :=
  locked_confined (by decide) ⟨trivial, fun _ => ⟨trivial, fun _ => trivial⟩⟩

theorem pushBack_confined (v : Vector) : Confined (pushBack v) := by
  have installed : ∀ buffer, Confined (.act (.install v buffer) fun _ => .ret 0) :=
    fun _ => ⟨trivial, fun _ _ => trivial⟩
  refine ⟨trivial, fun _ _ => ite_confined ⟨trivial, fun _ _ => trivial⟩ ?_⟩
  refine ⟨trivial, fun _ _ => ⟨trivial, fun buffer => ⟨trivial, fun _ _ => ?_⟩⟩⟩
  exact ite_confined (installed buffer) ⟨trivial, fun _ => installed buffer⟩

theorem staticPointer_confined (mutexBytes : Nat) (x : Static) :
    Confined (staticPointer mutexBytes x) := by
  refine ⟨trivial, fun stored _ => ?_⟩
  cases stored with
  | some p => trivial
  | none =>
      exact ⟨trivial, fun _ _ => ⟨trivial, trivial⟩,
        ⟨trivial, fun _ => ⟨trivial, fun _ _ => trivial⟩⟩, fun _ => trivial⟩

theorem record_confined (kind size ptr threadId : Nat) :
    Confined (record kind size ptr threadId) :=
  ⟨trivial, fun _ => locked_confined (by decide) ⟨trivial, fun _ _ => trivial⟩⟩

theorem deallocate_confined (form : SingleThreadAllocator.FreeForm) (p n : Nat) :
    Confined (deallocate form p n) := by
  refine ⟨id, fun _ _ => ⟨trivial, fun _ _ => ite_confined ?_ trivial⟩⟩
  exact ⟨id, fun _ _ => ⟨trivial, fun _ => trivial⟩⟩

/-- The nested functions call each other only, and keep the guard set. -/
theorem closed (P : Platform) (growth : Nat → Nat) (mutexBytes t : Nat) :
    Closed Nested Permitted Answers (body P mutexBytes t) (Action.Does P growth t)
      (fun s => s.active t = true) := by
  constructor
  · intro f nested
    cases f with
    | doNew size => exact doNew_confined size
    | doDelete p => exact doDelete_confined p
    | allocatorInstance => exact allocatorInstance_confined
    | construct => exact construct_confined
    | registerStats => exact registerStats_confined
    | pushBack v => exact pushBack_confined v
    | staticPointer x => exact staticPointer_confined mutexBytes x
    | record kind size ptr threadId => exact record_confined kind size ptr threadId
    | deallocate form p n => exact deallocate_confined form p n
    | _ => exact nested.elim
  · intro a s r s' active permitted performed
    cases performed with
    | testFallback =>
        refine ⟨?_, active⟩
        change NewDelete.takesFallback _ _ _ = true
        simp [NewDelete.takesFallback, active]
    | enterGuard => exact ⟨active, Function.update_self _ _ _⟩
    | @leaveGuard s previous =>
        refine ⟨trivial, ?_⟩
        change Function.update s.active t previous t = true
        rw [Function.update_self]
        exact permitted
    | _ => exact ⟨trivial, active⟩

/-- The thread is about to take the mutex of the central heap. -/
def Locking (thread : Calls.Thread Function Action.Reply Nat) : Prop :=
  ∃ done failed inner k, thread.code = .scope (.lock .centralHeap) done failed inner k

abbrev Base : Type := List (Frame Function Action.Reply Nat)

def guardEnd (previous : Bool) : Frame Function Action.Reply Nat :=
  .leaving (.leaveGuard previous) (.leaveGuard previous) .ret

def lockEnd : Frame Function Action.Reply Nat :=
  .leaving (.unlock .centralHeap) (.unlock .centralHeap) .ret

theorem acquireLocked_confined (sizeClassBytes threadId : Nat) (user : Option Nat) :
    Confined (acquireLocked sizeClassBytes threadId user) := by
  refine ⟨id, fun slab _ => ?_⟩
  cases slab with
  | none => trivial
  | some slab =>
      refine ⟨trivial, fun _ => ⟨id, fun _ _ => ⟨trivial, fun _ _ => ?_⟩⟩⟩
      exact ite_confined ⟨trivial, fun _ => trivial⟩ trivial

/-- Where thread `t` is in a call of `acquire_chunk` that found the guard at `previous`, and
whether it has taken the mutex. -/
inductive Stage (sizeClassBytes threadId : Nat) (user : Option Nat) (previous : Bool) (base : Base)
    (t : Nat) (thread : Calls.Thread Function Action.Reply Nat) (s : State) : Bool → Prop
  | entered (here : thread = ⟨acquireChunk sizeClassBytes threadId user, base⟩)
      (active : s.active t = previous) :
      Stage sizeClassBytes threadId user previous base t thread s false
  | guarded (here : thread = ⟨locked .centralHeap (acquireLocked sizeClassBytes threadId user),
        guardEnd previous :: base⟩) (active : s.active t = true) :
      Stage sizeClassBytes threadId user previous base t thread s false
  | holding (inside : Inside Nested Permitted Answers (lockEnd :: guardEnd previous :: base) thread)
      (active : s.active t = true) :
      Stage sizeClassBytes threadId user previous base t thread s true
  | released (ended : Ended (guardEnd previous :: base) thread) (active : s.active t = true) :
      Stage sizeClassBytes threadId user previous base t thread s true
  | ended (ended : Ended base thread) (active : s.active t = previous) :
      Stage sizeClassBytes threadId user previous base t thread s true

/-- What a call may do below `acquire_chunk`: it calls nothing but the nested functions, every
request takes the fallback, and no block comes from an allocator. -/
structure Harmless (l : Calls.Label Function Action.Reply) : Prop where
  calls : ∀ f, l = .calls f → Nested f
  fallback : ∀ r : Bool, l = .performs .testFallback r → r = true
  served : ∀ a (r : a.Reply), l = .performs (.primitive a) r → ¬ a.Serves

theorem harmless_of_confined {l : Calls.Label Function Action.Reply}
    (confined : l.Confined Nested Permitted Answers) : Harmless l := by
  constructor
  · intro f same
    rw [same] at confined
    exact confined
  · intro r same
    rw [same] at confined
    exact confined.2
  · intro a r same
    rw [same] at confined
    exact confined.1

theorem not_locking_of_inside {base : Base} {thread : Calls.Thread Function Action.Reply Nat}
    (inside : Inside Nested Permitted Answers base thread) : ¬ Locking thread := by
  rintro ⟨done, failed, inner, k, locking⟩
  have code := inside.code
  rw [locking] at code
  exact code.1 rfl

theorem not_locking_of_ended {base : Base} {thread : Calls.Thread Function Action.Reply Nat}
    (ended : Ended base thread) : ¬ Locking thread := by
  rintro ⟨done, failed, inner, k, locking⟩
  have final := ended.final
  rw [locking] at final
  cases final

theorem harmless_of_performs {a : Action} {r : a.Reply} (test : a ≠ .testFallback)
    (other : ∀ b, a ≠ .primitive b) : Harmless (.performs a r) := by
  constructor
  · intro f same
    cases same
  · intro r' same
    cases same
    exact absurd rfl test
  · intro b r' same
    cases same
    exact absurd rfl (other b)

section Run

variable {P : Platform} {growth : Nat → Nat} {mutexBytes sizeClassBytes threadId t : Nat}
  {user : Option Nat} {previous locked : Bool} {base : Base}
  {thread thread' : Calls.Thread Function Action.Reply Nat} {s s' : State}
  {l : Calls.Label Function Action.Reply}

theorem Stage.not_locking
    (stage : Stage sizeClassBytes threadId user previous base t thread s true) :
    ¬ Locking thread := by
  cases stage with
  | holding inside active => exact not_locking_of_inside inside
  | released ended active => exact not_locking_of_ended ended
  | ended ended active => exact not_locking_of_ended ended

/-- A step of the thread itself takes the call one stage further, or leaves it where it is. -/
theorem Stage.moves (stage : Stage sizeClassBytes threadId user previous base t thread s locked)
    (running : ¬ Ended base thread)
    (moves : Calls.Moves (body P mutexBytes t) (Action.Does P growth t) thread s l thread' s') :
    ∃ locked', Stage sizeClassBytes threadId user previous base t thread' s' locked' ∧
      Harmless l ∧ (locked = true → locked' = true) ∧
      ∀ r, l = .performs (.lock .centralHeap) r → locked' = true := by
  cases stage with
  | entered here active =>
      subst here
      cases moves with
      | @enter a done failed inner k frames s s' r performed =>
          cases performed
          refine ⟨false, .guarded ?_ (Function.update_self _ _ _), ?_, id, ?_⟩
          · rw [active]
            rfl
          · exact harmless_of_performs (by simp) (by simp)
          · intro r same
            cases same
  | guarded here active =>
      subst here
      cases moves with
      | @enter a done failed inner k frames s s' r performed =>
          cases performed with
          | lock free =>
              refine ⟨true, .holding ?_ active, ?_, fun _ => rfl, fun _ _ => rfl⟩
              · exact Inside.start (acquireLocked_confined sizeClassBytes threadId user)
              · exact harmless_of_performs (by simp) (by simp)
  | holding inside active =>
      by_cases out : Ended (lockEnd :: guardEnd previous :: base) thread
      · obtain ⟨ended, r, same, performed⟩ := out.leaves moves
        subst same
        cases performed with
        | unlock =>
            refine ⟨true, .released ended active, ?_, fun _ => rfl, fun _ _ => rfl⟩
            exact harmless_of_performs (by simp) (by simp)
      · obtain ⟨inside', active', confined⟩ :=
          inside.moves (closed P growth mutexBytes t) active out moves
        exact ⟨true, .holding inside' active', harmless_of_confined confined, fun _ => rfl,
          fun _ _ => rfl⟩
  | released ended active =>
      obtain ⟨ended', r, same, performed⟩ := ended.leaves moves
      subst same
      cases performed with
      | leaveGuard =>
          refine ⟨true, .ended ended' (Function.update_self _ _ _), ?_, fun _ => rfl,
            fun _ _ => rfl⟩
          exact harmless_of_performs (by simp) (by simp)
  | ended ended active => exact absurd ended running

theorem Stage.active_of_ended
    (stage : Stage sizeClassBytes threadId user previous base t thread s locked)
    (finished : Ended base thread) : s.active t = previous := by
  obtain ⟨split, final⟩ := finished
  cases stage with
  | entered here active => exact active
  | guarded here active =>
      subst here
      cases final
  | holding inside active =>
      obtain ⟨above, frames, _⟩ := inside.above
      have lengths := congrArg List.length (split.symm.trans frames)
      simp at lengths
      omega
  | released ended active =>
      have lengths := congrArg List.length (split.symm.trans ended.frames)
      simp at lengths
  | ended ended active => exact active

theorem Stage.not_idle
    (stage : Stage sizeClassBytes threadId user previous base t thread s locked)
    (running : ¬ Ended base thread) : ¬ Ended [] thread := by
  intro idle
  obtain ⟨empty, final⟩ := idle
  cases stage with
  | entered here active =>
      subst here
      cases final
  | guarded here active =>
      subst here
      cases final
  | holding inside active =>
      obtain ⟨above, split, _⟩ := inside.above
      rw [empty] at split
      simp at split
  | released ended active =>
      have split := ended.frames
      rw [empty] at split
      cases split
  | ended ended active => exact running ended

theorem does_active {u : Nat} {a : Action} {r : a.Reply} (other : t ≠ u)
    (performed : Action.Does P growth u a s r s') : s'.active t = s.active t := by
  cases performed with
  | enterGuard => exact Function.update_of_ne other _ _
  | leaveGuard => exact Function.update_of_ne other _ _
  | _ => rfl

theorem moves_active {u : Nat} (other : t ≠ u)
    (moves : Calls.Moves (body P mutexBytes u) (Action.Does P growth u) thread s l thread' s') :
    s'.active t = s.active t := by
  cases moves with
  | act performed => exact does_active other performed
  | call => rfl
  | enter performed => exact does_active other performed
  | ret => rfl
  | throw => rfl
  | leave performed => exact does_active other performed
  | unwind performed => exact does_active other performed

theorem elsewhere_active (changed : Elsewhere P s s') : s'.active = s.active := by
  cases changed with
  | setEnabled on => rfl
  | malloc taken => rfl
  | mfree taken => rfl
  | write taken => rfl

theorem Stage.congr (stage : Stage sizeClassBytes threadId user previous base t thread s locked)
    (same : s'.active t = s.active t) :
    Stage sizeClassBytes threadId user previous base t thread s' locked := by
  cases stage with
  | entered here active => exact .entered here (same.trans active)
  | guarded here active => exact .guarded here (same.trans active)
  | holding inside active => exact .holding inside (same.trans active)
  | released ended active => exact .released ended (same.trans active)
  | ended ended active => exact .ended ended (same.trans active)

end Run

section System

variable {P : Platform} {growth : Nat → Nat} {mutexBytes sizeClassBytes threadId t : Nat}
  {user : Option Nat} {previous locked : Bool} {base : Base}
  {s s' : System Function Action.Reply Nat State} {e : Calls.Event Function Action.Reply}

/-- A step of the system, by any thread, while the call lasts. -/
theorem Stage.step
    (stage : Stage sizeClassBytes threadId user previous base t (s.threads t) s.shared locked)
    (running : ¬ Ended base (s.threads t)) (taken : Step P growth mutexBytes s e s') :
    ∃ locked', Stage sizeClassBytes threadId user previous base t (s'.threads t) s'.shared locked' ∧
      (∀ l, e = .moved t l → Harmless l) ∧ (locked = true → locked' = true) ∧
      ∀ r, e = .moved t (.performs (.lock .centralHeap) r) → locked' = true := by
  cases taken with
  | @entered u f allowed idle =>
      have other : t ≠ u := by
        intro same
        subst same
        exact stage.not_idle running idle
      refine ⟨locked, ?_, ?_, id, ?_⟩
      · simp only [Function.update_of_ne other]
        exact stage
      · intro l event
        cases event
      · intro r event
        cases event
  | @moved u l thread shared moves =>
      by_cases same : t = u
      · subst same
        obtain ⟨locked', next, harmless, keeps, locks⟩ := stage.moves running moves
        refine ⟨locked', ?_, ?_, keeps, ?_⟩
        · simpa using next
        · intro l same
          cases same
          exact harmless
        · intro r same
          cases same
          exact locks r rfl
      · refine ⟨locked, ?_, ?_, id, ?_⟩
        · simp only [Function.update_of_ne same]
          exact stage.congr (moves_active same moves)
        · intro l event
          cases event
          exact absurd rfl same
        · intro r event
          cases event
          exact absurd rfl same
  | elsewhere changed =>
      refine ⟨locked, stage.congr (congrFun (elsewhere_active changed) t), ?_, id, ?_⟩
      · intro l event
        cases event
      · intro r event
        cases event

/-- In every call of `acquire_chunk`, on any thread and in any state, the thread never comes to
take the mutex again once it has it; all it calls are the nested functions, whose requests all
take the fallback, no block comes from an allocator; and the guard is as it was when the call is
left. -/
theorem acquireChunk_nested {s₀ : System Function Action.Reply Nat State}
    {trace : List (Transition (System Function Action.Reply Nat State)
      (Calls.Event Function Action.Reply))}
    (call : s₀.threads t = ⟨acquireChunk sizeClassBytes threadId user, base⟩)
    (run : Run (Step P growth mutexBytes) s₀ trace s)
    (during : ∀ x ∈ trace, ¬ Ended base (x.before.threads t)) :
    ((∃ x ∈ trace, ∃ r, x.event = .moved t (.performs (.lock .centralHeap) r)) →
        ¬ Locking (s.threads t)) ∧
      (∀ x ∈ trace, ∀ l, x.event = .moved t l → Harmless l) ∧
      (Ended base (s.threads t) → s.shared.active t = s₀.shared.active t) := by
  suffices kept : ∃ locked, Stage sizeClassBytes threadId user (s₀.shared.active t) base t
      (s.threads t) s.shared locked ∧
      (∀ x ∈ trace, ∀ l, x.event = .moved t l → Harmless l) ∧
      ∀ x ∈ trace, ∀ r, x.event = .moved t (.performs (.lock .centralHeap) r) → locked = true by
    obtain ⟨locked, stage, harmless, locks⟩ := kept
    refine ⟨?_, harmless, stage.active_of_ended⟩
    rintro ⟨x, member, r, event⟩
    rw [locks x member r event] at stage
    exact stage.not_locking
  induction run with
  | nil =>
      refine ⟨false, .entered call rfl, ?_, ?_⟩
      · intro x member
        cases member
      · intro x member
        cases member
  | @snoc trace s s' e run taken ih =>
      obtain ⟨locked, stage, harmless, locks⟩ :=
        ih (fun x member => during x (List.mem_append_left _ member))
      have running : ¬ Ended base (s.threads t) := during ⟨s, e, s'⟩ (by simp)
      obtain ⟨locked', next, now, keeps, taking⟩ := stage.step running taken
      refine ⟨locked', next, ?_, ?_⟩
      · intro x member
        rcases List.mem_append.mp member with old | new
        · exact harmless x old
        · obtain rfl := List.mem_singleton.mp new
          exact now
      · intro x member r event
        rcases List.mem_append.mp member with old | new
        · exact keeps (locks x old r event)
        · obtain rfl := List.mem_singleton.mp new
          exact taking r event

theorem running_of_code {code : Body} {frames base : Base} (going : ¬ code.Final) :
    ¬ Ended base ⟨code, frames⟩ := fun finished => going finished.final

theorem running_of_frames {code : Body} {frames base : Base}
    (deeper : base.length < frames.length) :
    ¬ Ended base ⟨code, frames⟩ := by
  intro finished
  have same := congrArg List.length finished.frames
  simp only at same
  omega

/-- With the mutex free, room in the vector of chunks and recording off, the call on its own does
what `Shared.acquireChunk` says. -/
theorem acquireChunk_alone {s : State} {reply : SlabReply} {b : Nat} {g' : Shared}
    {m' : ByteMemory} (free : s.mutexes .centralHeap = none) (quiet : s.enabled = false)
    (room : (s.vectors .chunks).size < (s.vectors .chunks).capacity)
    (done : s.w.sys.shared.acquireChunk P user reply true sizeClassBytes s.w.sys.mem =
      (.ok b, g', m')) :
    ∃ labels final, Calls.Path (body P mutexBytes t) (Action.Does P growth t) base
      ⟨acquireChunk sizeClassBytes threadId user, base⟩ s labels ⟨.ret b, base⟩ final ∧
      final.w.sys.shared = g' ∧ final.w.sys.mem = m' := by
  simp only [Shared.acquireChunk, CentralHeap.acquireChunk] at done
  cases granted : allocateSlab P s.w.sys.shared.heap .chunk CentralHeap.chunkSize
      CentralHeap.chunkSize reply with
  | mk answer h' =>
      rw [granted] at done
      cases answer with
      | none => cases done
      | some slab =>
          simp only [↓reduceIte, Nat.add_sub_cancel] at done
          cases done
          have roomy : ∀ s' : State, s'.vectors = s.vectors →
              Action.Does P growth t (.room .chunks) s' true s' := by
            intro s' same
            have tested : Action.Does P growth t (.room .chunks) s' _ s' := .room
            rwa [same, decide_eq_true room] at tested
          have silent : ∀ s' : State, s'.enabled = s.enabled →
              Action.Does P growth t .testEnabled s' false s' := by
            intro s' same
            have tested : Action.Does P growth t .testEnabled s' _ s' := .testEnabled
            rwa [same, quiet] at tested
          apply Exists.intro
          apply Exists.intro
          apply And.intro
          · apply Calls.Path.cons (running_of_code (by rintro ⟨⟩)) (.enter .enterGuard)
            apply Calls.Path.cons (running_of_code (by rintro ⟨⟩)) (.enter (.lock free))
            apply Calls.Path.cons (running_of_code (by rintro ⟨⟩))
              (.act (.primitive (.allocateChunk granted)))
            apply Calls.Path.cons (running_of_code (by rintro ⟨⟩)) .call
            apply Calls.Path.cons (running_of_code (by rintro ⟨⟩)) (.act (roomy _ (by rfl)))
            apply Calls.Path.cons (running_of_code (by rintro ⟨⟩)) (.act .append)
            apply Calls.Path.cons (running_of_frames (by simp only [List.length_cons]; omega)) .ret
            apply Calls.Path.cons (running_of_code (by rintro ⟨⟩)) (.act (.primitive .recordChunk))
            apply Calls.Path.cons (running_of_code (by rintro ⟨⟩)) (.act (silent _ (by rfl)))
            apply Calls.Path.cons (running_of_frames (by simp only [List.length_cons]; omega))
              (.leave .unlock)
            apply Calls.Path.cons (running_of_frames (by simp)) (.leave .leaveGuard)
            apply Calls.Path.nil
          · exact ⟨rfl, rfl⟩

/-- The first chunk, before `init_allocator`: the vector of chunks requests its first buffer
with the mutex held. -/
theorem acquireChunk_nested_first : ∃ (s₀ s : System Function Action.Reply Nat State)
    (trace : List (Transition (System Function Action.Reply Nat State)
      (Calls.Event Function Action.Reply))),
    s₀.threads 0 = ⟨acquireChunk 16 0 none, []⟩ ∧
      Run (Step desktop (fun n => 2 * n + 1) 8) s₀ trace s ∧ Ended [] (s.threads 0) ∧
      (∃ x ∈ trace, x.event = .moved 0 (.calls (.doNew 8))) ∧
      (∀ x ∈ trace, ∀ l, x.event = .moved 0 l → Harmless l) ∧
      s.shared.active 0 = s₀.shared.active 0 := by
  let w₀ : NewDelete := NewDelete.initial (fun _ => 0) Malloc.Heap.empty
  let shared : State := ⟨w₀, fun _ => false, false, EventRing.new, fun _ => .absent,
    fun _ => none, fun _ => ⟨0, 0, 0⟩⟩
  have empty : Below w₀.sys.shared.heap 0 := List.forall_mem_nil _
  have fresh : w₀.sys.shared.heap.Fresh CentralHeap.chunkSize CentralHeap.chunkSize 65536 :=
    fresh_above empty (by decide) (by decide) (by decide) (by decide)
  obtain ⟨h₁, granted, below⟩ : ∃ h₁, allocateSlab desktop w₀.sys.shared.heap .chunk
      CentralHeap.chunkSize CentralHeap.chunkSize ⟨some 65536, none⟩ = (some ⟨65536, 65536⟩, h₁) ∧
      Below h₁ 131072 := by
    simp only [allocateSlab, tryAlignedAlloc, desktop, ↓reduceIte,
      Malloc.Heap.malloc_fresh Owner.chunk fresh]
    refine ⟨_, rfl, ?_⟩
    intro b member
    obtain rfl := List.mem_singleton.mp member
    decide
  let w₁ : NewDelete := { w₀ with sys := { w₀.sys.setHeap h₁ with
    mem := CentralHeap.writeHeader w₀.sys.mem 65536 16 } }
  have room : w₁.sys.shared.heap.Fresh desktop.mallocAlign 8 196608 :=
    fresh_above below (by decide) (by decide) (by decide) (by decide)
  obtain ⟨w₂, served⟩ : ∃ w₂, w₁.fallbackNew desktop ⟨some 196608, none, ⟨none, none⟩⟩ 0 8 =
      (.ok (some 196608), w₂) := by
    rw [NewDelete.fallbackNew, NewDelete.malloc_fresh .fallback room]
    exact ⟨_, rfl⟩
  have path : ∃ labels final, Calls.Path (body desktop 8 0)
      (Action.Does desktop (fun n => 2 * n + 1) 0) [] ⟨acquireChunk 16 0 none, []⟩ shared labels
      ⟨.ret 65600, []⟩ final ∧ .calls (.doNew 8) ∈ labels := by
    apply Exists.intro
    apply Exists.intro
    apply And.intro
    · apply Calls.Path.cons (running_of_code (by rintro ⟨⟩)) (.enter .enterGuard)
      apply Calls.Path.cons (running_of_code (by rintro ⟨⟩)) (.enter (.lock rfl))
      apply Calls.Path.cons (running_of_code (by rintro ⟨⟩))
        (.act (.primitive (.allocateChunk granted)))
      apply Calls.Path.cons (running_of_code (by rintro ⟨⟩)) .call
      apply Calls.Path.cons (running_of_code (by rintro ⟨⟩)) (.act .room)
      apply Calls.Path.cons (running_of_code (by rintro ⟨⟩)) (.act .newBytes)
      apply Calls.Path.cons (running_of_code (by rintro ⟨⟩)) .call
      apply Calls.Path.cons (running_of_code (by rintro ⟨⟩)) (.act .testFallback)
      apply Calls.Path.cons (running_of_code (by rintro ⟨⟩))
        (.act (.primitive (.mallocFallback served)))
      apply Calls.Path.cons (running_of_frames (by simp)) .ret
      apply Calls.Path.cons (running_of_code (by rintro ⟨⟩)) (.act (.moveTo (by decide)))
      apply Calls.Path.cons (running_of_code (by rintro ⟨⟩)) (.act .install)
      apply Calls.Path.cons (running_of_frames (by simp)) .ret
      apply Calls.Path.cons (running_of_code (by rintro ⟨⟩)) (.act (.primitive .recordChunk))
      apply Calls.Path.cons (running_of_code (by rintro ⟨⟩)) (.act .testEnabled)
      apply Calls.Path.cons (running_of_frames (by simp)) (.leave .unlock)
      apply Calls.Path.cons (running_of_frames (by simp)) (.leave .leaveGuard)
      apply Calls.Path.nil
    · iterate 6 apply List.mem_cons_of_mem
      exact List.mem_cons_self
  obtain ⟨labels, final, path, nested⟩ := path
  let s₀ : System Function Action.Reply Nat State :=
    ⟨fun t => if t = 0 then ⟨acquireChunk 16 0 none, []⟩ else ⟨.ret 0, []⟩, shared⟩
  obtain ⟨trace, s, run, during, events, there, _⟩ : ∃ trace s,
      Run (Step desktop (fun n => 2 * n + 1) 8) s₀ trace s ∧
      (∀ x ∈ trace, ¬ Ended [] (x.before.threads 0)) ∧
      trace.map Transition.event = labels.map (Calls.Event.moved 0) ∧
      s.threads 0 = ⟨.ret 65600, []⟩ ∧ s.shared = final := path.run rfl rfl
  have ended : Ended [] (s.threads 0) := by
    rw [there]
    exact ⟨rfl, .ret _⟩
  obtain ⟨_, harmless, restored⟩ := acquireChunk_nested rfl run during
  refine ⟨s₀, s, trace, rfl, run, ended, ?_, harmless, restored ended⟩
  have member : Calls.Event.moved 0 (.calls (.doNew 8)) ∈ trace.map Transition.event := by
    rw [events]
    exact List.mem_map_of_mem nested
  obtain ⟨x, inside, same⟩ := List.mem_map.mp member
  exact ⟨x, inside, same⟩

end System

end MemAlloc.OverrideCalls
