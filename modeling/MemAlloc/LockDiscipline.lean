import MemAlloc.GroundedRuns
import MemAlloc.NestedCalls
import MemAlloc.Lib.CallRules
import MemAlloc.Lib.LockOrder

set_option autoImplicit false

/- In which order the functions of the override take their locks. -/
namespace MemAlloc.OverrideCalls

open Calls (Code Contract Effects)
open SingleThreadAllocator (FreeForm)

/-- A thread that initialises a static holds it like a mutex. -/
inductive Lock where
  | mutex (m : Mutex)
  | static (x : Static)
deriving DecidableEq

/-- The order in which locks are taken. -/
def Lock.rank : Lock → Fin 4
  | .mutex .centralHeap => 0
  | .static .ring => 1
  | .mutex .statsRegistry => 2
  | .static .threadIds => 3
  | .mutex .ring => 3

/-- The locks that a thread may come to take while it holds them already. -/
def Lock.Reentered (l : Lock) : Prop := l = .mutex .statsRegistry ∨ l = .static .ring

inductive Phase where
  | unborn
  | live
  | exited
deriving DecidableEq

def Phase.of : Thread → Phase
  | .unborn => .unborn
  | .live _ _ => .live
  | .exited => .exited

/-- What a thread can tell: the locks it holds, its guard, and how far its allocator has come. -/
@[ext]
structure Standing where
  held : Set Lock
  active : Bool
  phase : Phase

/-- Thread `t` holds the lock. -/
def State.Holds (s : State) (t : Nat) : Lock → Prop
  | .mutex m => s.mutexes m = some t
  | .static x => s.statics x = .initialising t

def standing (t : Nat) (s : State) : Standing where
  held := {l | s.Holds t l}
  active := s.active t
  phase := .of (s.w.sys.threads t)

namespace Standing

variable (v v' : Standing)

def take (l : Lock) : Standing := { v with held := insert l v.held }

def drop (l : Lock) : Standing := { v with held := v.held \ {l} }

def setActive (active : Bool) : Standing := { v with active := active }

def Takes (l : Lock) : Prop :=
  (∀ h ∈ v.held, h.rank < l.rank) ∨ l ∈ v.held ∧ l.Reentered

def Low : Prop := ∀ h ∈ v.held, h.rank ≤ 2

/-- It holds at most the mutex of the central heap, and this under the guard. -/
def Outside : Prop :=
  v.held ⊆ {.mutex .centralHeap} ∧ (.mutex .centralHeap ∈ v.held → v.active = true)

/-- It is inside `register_stats` or `retire_stats`. -/
def Registering : Prop := .mutex .statsRegistry ∈ v.held ∧ v.phase ≠ .live ∧ v.Low

/-- A request of this size takes no lock that comes before those held: while the ring is being
created, only one that the arena serves. -/
def Serves (n : Nat) : Prop := v.held ⊆ {.static .ring} ∧ (maxSmall < n ∨ v.held = ∅)

/-- The same locks and the same guard; the allocator may have been constructed meanwhile, but not
by a thread that holds the registry. -/
structure Keeps : Prop where
  held : v'.held = v.held
  active : v'.active = v.active
  phase : v'.phase = v.phase ∨
    v.phase = .unborn ∧ v'.phase = .live ∧ .mutex .statsRegistry ∉ v.held

end Standing

open Standing

/-- What a primitive leaves of its thread's standing. -/
def Primitive.Leaves : (a : Primitive) → Standing → a.Reply → Standing → Prop
  | .isConstructed, v, constructed, v' =>
      v' = v ∧ v.phase = if constructed then .live else .unborn
  | .becomeLive _ _, v, _, v' => v' = { v with phase := .live }
  | .markGone, v, _, v' => v.phase = .live ∧ v' = { v with phase := .exited }
  | _, v, _, v' => v' = v

/-- Locks are taken in their order, and given back by those that hold them. -/
def Action.Needs : Action → Standing → Prop
  | .lock m, v => v.Takes (.mutex m)
  | .enterStatic x, v => v.Takes (.static x)
  | .unlock m, v => .mutex m ∈ v.held
  | .storeStatic x _, v => .static x ∈ v.held
  | .abandonStatic x, v => .static x ∈ v.held
  | _, _ => True

def Action.Leaves : (a : Action) → Standing → a.Reply → Standing → Prop
  | .terminate, _, _, _ => False
  | .testFallback, v, fallback, v' => v' = v ∧ (v.active = true → fallback = true)
  | .testGone, v, gone, v' => v' = v ∧ gone = decide (v.phase = .exited)
  | .enterGuard, v, previous, v' => previous = v.active ∧ v' = v.setActive true
  | .leaveGuard previous, v, _, v' => v' = v.setActive previous
  | .lock m, v, _, v' => .mutex m ∉ v.held ∧ v' = v.take (.mutex m)
  | .unlock m, v, _, v' => v' = v.drop (.mutex m)
  | .enterStatic x, v, stored, v' =>
      .static x ∉ v.held ∧ v' = if stored.isSome then v else v.take (.static x)
  | .storeStatic x _, v, _, v' => v' = v.drop (.static x)
  | .abandonStatic x, v, _, v' => v' = v.drop (.static x)
  | .primitive a, v, r, v' => a.Leaves v r v'
  | _, v, _, v' => v' = v

/-- The action is allowed to every thread and changes nothing of its standing. -/
def Action.Neutral : Action → Prop
  | .enterGuard | .leaveGuard _ | .lock _ | .unlock _ | .enterStatic _ | .storeStatic _ _
  | .abandonStatic _ | .primitive (.becomeLive _ _) | .primitive .markGone => False
  | _ => True

def effects : Effects Action.Reply Standing := ⟨Action.Needs, Action.Leaves⟩

/-- What a call needs of the thread that makes it. -/
def Function.Needs : Function → Standing → Prop
  | .doNew size, v => v.active = true ∨ v.Serves size
  | .doAlignedNew _ _, v => v.held = ∅
  | .bootstrapAlignedNew _ _, v => v.held = ∅
  | .doDelete _, v => v.Outside ∨ v.Registering
  | .allocatorInstance, v => v.Low
  | .construct, v => v.active = true ∧ v.phase = .unborn ∧ v.Low
  | .destroy, v => v.held = ∅
  | .initAllocator, v => v.held = ∅
  | .registerStats, v => v.active = true ∧ v.phase ≠ .live ∧ v.Low
  | .retireStats, v => v.active = true ∧ v.phase ≠ .live ∧ v.Low
  | .pushBack _, v => (v.active = true ∨ v.held = ∅) ∧ (v.Outside ∨ v.Registering)
  | .staticPointer x, v => v.Takes (.static x) ∧
      (v.active = true ∨ x = .ring ∧ v.held ⊆ {.static .ring})
  | .record _ _ _ _, v => (v.active = true ∨ v.held = ∅) ∧ (v.Outside ∨ .static .ring ∈ v.held)
  | .allocate n, v => v.Serves n
  | .allocateAligned _ _, _ => True
  | .singleAllocate n, v => v.active = true ∧ v.Serves n
  | .addExternalSlab _ _, v => v.active = true ∧ v.held = ∅
  | .deallocate _ _ _, v => v.Outside
  | .acquireChunk _ _ _, v => v.held = ∅

/-- What a call leaves of it, beside what every call keeps. -/
def Function.Leaves : Function → Standing → Option Nat → Standing → Prop
  | .doNew _, v, _, v' => v.active = true → v'.phase = v.phase
  | .allocatorInstance, _, some _, v' => v'.phase = .live
  | .construct, _, some _, v' => v'.phase = .live
  | .registerStats, v, _, _ => .mutex .statsRegistry ∉ v.held
  | .staticPointer x, v, _, v' =>
      .static x ∉ v.held ∧ (v.active = true → v'.phase = v.phase)
  | _, _, _, _ => True

def Function.Ensures : Function → Standing → Option Nat → Standing → Prop
  | .destroy, v, _, v' => v'.held = v.held ∧ v'.active = v.active
  | f, v, o, v' => v.Keeps v' ∧ f.Leaves v o v'

def contract : Contract Function Nat Standing := ⟨Function.Needs, Function.Ensures⟩

abbrev Meets (after : Option Nat → Standing → Prop) (code : Body) (v : Standing) : Prop :=
  code.Meets effects contract after v

namespace Standing

variable {v v' v'' : Standing} {l : Lock}

theorem Keeps.refl (v : Standing) : v.Keeps v := ⟨rfl, rfl, .inl rfl⟩

theorem Keeps.trans (first : v.Keeps v') (second : v'.Keeps v'') : v.Keeps v'' := by
  refine ⟨second.held.trans first.held, second.active.trans first.active, ?_⟩
  rcases second.phase with same | ⟨unborn, live, free⟩
  · rw [same]
    exact first.phase
  · rw [first.held] at free
    rcases first.phase with same | ⟨_, already, _⟩
    · exact .inr ⟨same.symm.trans unborn, live, free⟩
    · rw [already] at unborn
      cases unborn

theorem Keeps.phase_eq (keeps : v.Keeps v') (registering : .mutex .statsRegistry ∈ v.held) :
    v'.phase = v.phase := by
  rcases keeps.phase with same | ⟨_, _, free⟩
  · exact same
  · exact absurd registering free

theorem Keeps.outside (keeps : v.Keeps v') (outside : v.Outside) : v'.Outside := by
  unfold Outside
  rw [keeps.held, keeps.active]
  exact outside

theorem Keeps.low (keeps : v.Keeps v') (low : v.Low) : v'.Low := by
  unfold Low
  rw [keeps.held]
  exact low

theorem Keeps.registering (keeps : v.Keeps v') (registering : v.Registering) :
    v'.Registering := by
  obtain ⟨holding, away, low⟩ := registering
  refine ⟨?_, ?_, keeps.low low⟩
  · rw [keeps.held]
    exact holding
  · rw [keeps.phase_eq holding]
    exact away

theorem Keeps.unguarded (keeps : (v.setActive true).Keeps v') :
    v.Keeps (v'.setActive v.active) := ⟨keeps.held, rfl, keeps.phase⟩

theorem Keeps.dropped (keeps : (v.take l).Keeps v') (fresh : l ∉ v.held) : v.Keeps (v'.drop l) := by
  refine ⟨?_, keeps.active, ?_⟩
  · simp only [drop, keeps.held, take]
    exact Set.insert_sdiff_self_of_notMem fresh
  · rcases keeps.phase with same | ⟨unborn, live, free⟩
    · exact .inl same
    · exact .inr ⟨unborn, live, fun holding => free (Set.mem_insert_of_mem _ holding)⟩

theorem Keeps.serves {n : Nat} (keeps : v.Keeps v') (serves : v.Serves n) : v'.Serves n := by
  unfold Serves
  rw [keeps.held]
  exact serves

theorem outside_of_empty (empty : v.held = ∅) : v.Outside := by
  simp [Outside, empty]

theorem low_of_empty (empty : v.held = ∅) : v.Low := by
  simp [Low, empty]

theorem Outside.rank (outside : v.Outside) : ∀ h ∈ v.held, h.rank = 0 := by
  intro h holding
  have central : h = .mutex .centralHeap := outside.1 holding
  rw [central]
  rfl

theorem Outside.low (outside : v.Outside) : v.Low := by
  intro h holding
  rw [outside.rank h holding]
  decide

theorem Serves.rank {n : Nat} (serves : v.Serves n) : ∀ h ∈ v.held, h.rank = 1 := by
  intro h holding
  have ring : h = .static .ring := serves.1 holding
  rw [ring]
  rfl

theorem Serves.low {n : Nat} (serves : v.Serves n) : v.Low := by
  intro h holding
  rw [serves.rank h holding]
  decide

theorem Serves.atLeastOne {n : Nat} (serves : v.Serves n) :
    v.Serves (if n = 0 then 1 else n) := by
  refine ⟨serves.1, ?_⟩
  rcases serves.2 with large | empty
  · have positive : n ≠ 0 := by omega
    rw [if_neg positive]
    exact .inl large
  · exact .inr empty

theorem serves_of_empty (empty : v.held = ∅) (n : Nat) : v.Serves n := by
  simp [Serves, empty]

theorem takes_of_empty (empty : v.held = ∅) (l : Lock) : v.Takes l := by
  simp [Takes, empty]

end Standing

section Rules

variable {after : Option Nat → Standing → Prop} {inner : Body} {v : Standing}

theorem Action.Neutral.leaves {a : Action} (neutral : a.Neutral) {r : a.Reply} {v' : Standing}
    (left : a.Leaves v r v') : v' = v := by
  cases a with
  | terminate => exact left.elim
  | testFallback => exact left.1
  | testGone => exact left.1
  | primitive a =>
      cases a with
      | isConstructed => exact left.1
      | becomeLive a threadId => exact neutral.elim
      | markGone => exact neutral.elim
      | _ => exact left
  | enterGuard => exact neutral.elim
  | leaveGuard previous => exact neutral.elim
  | lock m => exact neutral.elim
  | unlock m => exact neutral.elim
  | enterStatic x => exact neutral.elim
  | storeStatic x p => exact neutral.elim
  | abandonStatic x => exact neutral.elim
  | _ => exact left

theorem Action.Neutral.needs {a : Action} (neutral : a.Neutral) : a.Needs v := by
  cases a with
  | lock m => exact neutral.elim
  | unlock m => exact neutral.elim
  | enterStatic x => exact neutral.elim
  | storeStatic x p => exact neutral.elim
  | abandonStatic x => exact neutral.elim
  | _ => trivial

theorem act_meets {a : Action} {k : a.Reply → Body} (neutral : a.Neutral)
    (rest : ∀ r, Meets after (k r) v) : Meets after (.act a k) v :=
  ⟨neutral.needs, fun r _ left => neutral.leaves left ▸ rest r⟩

theorem ite_meets {c : Prop} [Decidable c] {first second : Body}
    (yes : c → Meets after first v) (no : ¬ c → Meets after second v) :
    Meets after (if c then first else second) v := by
  split
  · exact yes ‹_›
  · exact no ‹_›

theorem guarded_meets {k : Nat → Body}
    (meets : Meets (fun
      | some x, v' => Meets after (k x) (v'.setActive v.active)
      | none, v' => after none (v'.setActive v.active)) inner (v.setActive true)) :
    Meets after (guarded inner k) v := by
  refine ⟨trivial, ?_⟩
  rintro previous v' ⟨rfl, rfl⟩
  apply meets.mono
  rintro (_ | x) v' ended
  · refine ⟨trivial, ?_⟩
    rintro _ v'' rfl
    exact ended
  · refine ⟨trivial, ?_⟩
    rintro _ v'' rfl
    exact ended

theorem guarded_ret_meets
    (meets : Meets (fun o v' => after o (v'.setActive v.active)) inner (v.setActive true)) :
    Meets after (guarded inner .ret) v := by
  apply guarded_meets
  apply meets.mono
  rintro (_ | x) v' ended
  · exact ended
  · exact ended

/-- Below the lock everything else is kept. -/
theorem locked_meets {m : Mutex} (takes : v.Takes (.mutex m))
    (meets : .mutex m ∉ v.held →
      Meets (fun _ v' => (v.take (.mutex m)).Keeps v') inner (v.take (.mutex m)))
    (ended : ∀ o v', .mutex m ∉ v.held → v.Keeps v' → after o v') :
    Meets after (locked m inner) v := by
  refine ⟨takes, ?_⟩
  rintro ⟨⟩ v' ⟨fresh, rfl⟩
  apply (meets fresh).mono
  intro o v' keeps
  have holding : .mutex m ∈ v'.held := by
    rw [keeps.held]
    exact Set.mem_insert _ _
  have kept : v.Keeps (v'.drop (.mutex m)) := keeps.dropped fresh
  cases o with
  | some x => exact ⟨holding, fun _ _ left => left ▸ ended (some x) _ fresh kept⟩
  | none => exact ⟨holding, fun _ _ left => left ▸ ended none _ fresh kept⟩

theorem noexcept_meets (meets : Meets (fun o v' => o ≠ none → after o v') inner v) :
    Meets after (noexcept inner) v := by
  refine ⟨trivial, ?_⟩
  rintro _ v' rfl
  apply meets.mono
  rintro (_ | x) v' ended
  · exact ⟨trivial, fun _ _ never => never.elim⟩
  · refine ⟨trivial, ?_⟩
    rintro _ v'' rfl
    exact ended (by simp)

end Rules

section Functions

variable {v : Standing}

theorem doNew_meets {size : Nat} (needs : Function.Needs (.doNew size) v) :
    Meets (Function.Ensures (.doNew size) v) (doNew size) v := by
  refine ⟨trivial, ?_⟩
  rintro fallback v ⟨rfl, set⟩
  cases fallback with
  | true =>
      refine act_meets trivial (fun p => ?_)
      exact ⟨.refl _, fun _ => rfl⟩
  | false =>
      have inactive : v.active ≠ true := fun active => by cases set active
      have serves : v.Serves size := needs.resolve_left inactive
      apply guarded_ret_meets
      refine ⟨serves.low, ?_, fun v' ensured => ⟨ensured.1.unguarded, fun active => ?_⟩⟩
      · rintro _ v' ⟨keeps, -⟩
        refine ⟨keeps.serves serves.atLeastOne, ?_, fun v'' ensured => ⟨?_, fun active => ?_⟩⟩
        · rintro p v'' ⟨keeps', -⟩
          have kept := (keeps.trans keeps').unguarded
          apply ite_meets
          · exact fun _ => ⟨kept, fun active => absurd active inactive⟩
          · exact fun _ => ⟨kept, fun active => absurd active inactive⟩
        · exact (keeps.trans ensured.1).unguarded
        · exact absurd active inactive
      · exact absurd active inactive

theorem bootstrapAlignedNew_meets {t size alignment : Nat} (empty : v.held = ∅) :
    Meets (Function.Ensures (.bootstrapAlignedNew size alignment) v)
      (bootstrapAlignedNew t size alignment) v := by
  refine act_meets trivial (fun raw => ?_)
  apply ite_meets
  · exact fun _ => ⟨.refl _, trivial⟩
  · intro _
    refine ⟨⟨.inr empty, .inl (outside_of_empty empty)⟩, ?_, fun v' ensured => ⟨ensured.1, trivial⟩⟩
    rintro _ v' ⟨keeps, -⟩
    refine act_meets trivial (fun _ => ?_)
    exact ⟨keeps, trivial⟩

theorem doAlignedNew_meets {P : Platform} {size alignment : Nat} (empty : v.held = ∅) :
    Meets (Function.Ensures (.doAlignedNew size alignment) v) (doAlignedNew P size alignment)
      v := by
  unfold doAlignedNew
  by_cases plain : alignment ≤ P.maxAlign
  · simp only [plain, ↓reduceIte]
    exact ⟨.inr (serves_of_empty empty _), fun p v' ensured => ⟨ensured.1, trivial⟩,
      fun v' ensured => ⟨ensured.1, trivial⟩⟩
  · simp only [plain, ↓reduceIte]
    refine ⟨trivial, ?_⟩
    rintro fallback v ⟨rfl, -⟩
    cases fallback with
    | true =>
        exact ⟨empty, fun p v' ensured => ⟨ensured.1, trivial⟩,
          fun v' ensured => ⟨ensured.1, trivial⟩⟩
    | false =>
        apply guarded_ret_meets
        refine ⟨low_of_empty empty, ?_, fun v' ensured => ⟨ensured.1.unguarded, trivial⟩⟩
        rintro _ v' ⟨keeps, -⟩
        refine ⟨trivial, ?_, fun v'' ensured => ⟨(keeps.trans ensured.1).unguarded, trivial⟩⟩
        rintro p v'' ⟨keeps', -⟩
        have kept := (keeps.trans keeps').unguarded
        apply ite_meets
        · exact fun _ => ⟨kept, trivial⟩
        · exact fun _ => ⟨kept, trivial⟩

theorem freeRegistered_meets {after : Option Nat → Standing → Prop} {p : Nat}
    (ended : after (some 0) v) : Meets after (freeRegistered p) v := by
  refine act_meets trivial (fun _ => ?_)
  exact ended

/-- What `do_delete` does once it has the thread's allocator. -/
theorem ownedDelete_meets {after : Option Nat → Standing → Prop} {p : Nat} (outside : v.Outside)
    (ended : ∀ x v', v.Keeps v' → after (some x) v') (failed : ∀ v', after none v') :
    Meets after (.act .testDying fun dying =>
      if dying then freeRegistered p
      else
        .act (.primitive (.classify p)) fun cls =>
          if cls = 0 then freeRegistered p
          else if cls = SingleThreadAllocator.kArenaPointer then .ret 0
          else .call (.deallocate .containing p cls) .ret) v := by
  have registered : Meets after (freeRegistered p) v := freeRegistered_meets (ended 0 v (.refl _))
  refine act_meets trivial (fun dying => ite_meets (fun _ => registered) (fun _ => ?_))
  refine act_meets trivial (fun cls => ite_meets (fun _ => registered) (fun _ => ?_))
  apply ite_meets
  · exact fun _ => ended 0 v (.refl _)
  · exact fun _ => ⟨outside, fun x v' ensured => ended x v' ensured.1, fun v' _ => failed v'⟩

/-- A thread that is registering or retiring its allocator either deletes without it, or comes to
construct it once more. -/
theorem doDelete_meets {p : Nat} (needs : v.Outside ∨ v.Registering) :
    Meets (Function.Ensures (.doDelete p) v) (doDelete p) v := by
  have low : v.Low := by
    rcases needs with outside | registering
    · exact outside.low
    · exact registering.2.2
  have nothing : Function.Ensures (.doDelete p) v (some 0) v := ⟨.refl _, trivial⟩
  apply noexcept_meets
  refine ite_meets (fun _ _ => nothing) (fun _ => ?_)
  refine act_meets trivial (fun found => ite_meets (fun _ _ => nothing) (fun _ => ?_))
  refine act_meets trivial (fun ready => ite_meets (fun _ => ?_) (fun _ => ?_))
  · exact freeRegistered_meets (fun _ => nothing)
  · refine act_meets trivial (fun gone => ite_meets (fun _ => ?_) (fun _ => ?_))
    · exact freeRegistered_meets (fun _ => nothing)
    · apply guarded_ret_meets
      refine ⟨low, ?_, fun v' _ never => absurd rfl never⟩
      rintro _ v' ⟨keeps, live⟩
      have outside : v'.Outside := by
        rcases needs with outside | registering
        · exact ⟨keeps.held ▸ outside.1, fun _ => keeps.active⟩
        · have same := keeps.phase_eq registering.1
          exact absurd (same.symm.trans live) registering.2.1
      apply ownedDelete_meets outside
      · exact fun x v'' keeps' _ => ⟨(keeps.trans keeps').unguarded, trivial⟩
      · exact fun v'' never => absurd rfl never

theorem allocatorInstance_meets (low : v.Low) :
    Meets (Function.Ensures .allocatorInstance v) allocatorInstance v := by
  apply guarded_ret_meets
  refine ⟨trivial, ?_⟩
  rintro constructed v' ⟨rfl, phase⟩
  cases constructed with
  | true => exact ⟨(Keeps.refl _).unguarded, phase⟩
  | false =>
      refine ⟨⟨rfl, phase, low⟩, ?_, fun v' ensured => ⟨ensured.1.unguarded, trivial⟩⟩
      rintro x v' ⟨keeps, live⟩
      exact ⟨keeps.unguarded, live⟩

theorem construct_meets (needs : Function.Needs .construct v) :
    Meets (Function.Ensures .construct v) construct v := by
  obtain ⟨active, unborn, low⟩ := needs
  have takes : v.Takes (.static .threadIds) :=
    .inl (fun h holding => (low h holding).trans_lt (by decide))
  refine ⟨⟨takes, .inl active⟩, ?_, fun v' ensured => ⟨ensured.1, trivial⟩⟩
  rintro _ v₁ ⟨keeps, -, same⟩
  have unborn₁ : v₁.phase = .unborn := (same active).trans unborn
  refine ⟨trivial, ?_⟩
  rintro threadId v₁ rfl
  refine ⟨trivial, ?_⟩
  rintro built v₁ rfl
  cases built with
  | none => exact ⟨keeps, trivial⟩
  | some a =>
      have away : v₁.phase ≠ .live := by
        rw [unborn₁]
        decide
      refine ⟨⟨keeps.active.trans active, away, keeps.low low⟩, ?_,
        fun v' ensured => ⟨keeps.trans ensured.1, trivial⟩⟩
      rintro _ v₂ ⟨keeps', free⟩
      refine ⟨trivial, ?_⟩
      rintro _ v₃ rfl
      have kept := keeps.trans keeps'
      have others : .mutex .statsRegistry ∉ v.held := by
        rw [← keeps.held]
        exact free
      exact ⟨⟨kept.held, kept.active, .inr ⟨unborn, rfl, others⟩⟩, rfl⟩

theorem take_registering (away : v.phase ≠ .live) (low : v.Low) :
    (v.take (.mutex .statsRegistry)).Registering := by
  refine ⟨Set.mem_insert _ _, away, ?_⟩
  rintro h (rfl | holding)
  · decide
  · exact low h holding

/-- Below the registry come all the locks that may be held, the registry itself apart. -/
theorem takes_registry (low : v.Low) : v.Takes (.mutex .statsRegistry) := by
  by_cases again : .mutex .statsRegistry ∈ v.held
  · exact .inr ⟨again, .inl rfl⟩
  · refine .inl (fun h holding => lt_of_le_of_ne (low h holding) ?_)
    intro same
    have itself : h = .mutex .statsRegistry := by
      revert same
      rcases h with (_ | _ | _) | (_ | _) <;> decide
    exact again (itself ▸ holding)

theorem registerStats_meets (needs : Function.Needs .registerStats v) :
    Meets (Function.Ensures .registerStats v) registerStats v := by
  obtain ⟨active, away, low⟩ := needs
  have registering := take_registering away low
  apply locked_meets (takes_registry low) ?_ (fun o v' fresh keeps => ⟨keeps, fresh⟩)
  intro fresh
  refine ⟨⟨.inl active, .inr registering⟩, ?_, fun v' ensured => ensured.1⟩
  rintro _ v' ⟨keeps, -⟩
  refine ⟨⟨.inl (keeps.active.trans active), .inr (keeps.registering registering)⟩, ?_, ?_⟩
  · exact fun _ v'' ensured => keeps.trans ensured.1
  · exact fun v'' ensured => keeps.trans ensured.1

theorem retireStats_meets (needs : Function.Needs .retireStats v) :
    Meets (Function.Ensures .retireStats v) retireStats v := by
  obtain ⟨active, away, low⟩ := needs
  have registering := take_registering away low
  apply locked_meets (takes_registry low) ?_ (fun o v' _ keeps => ⟨keeps, trivial⟩)
  intro fresh
  refine ⟨⟨.inl active, .inr registering⟩, ?_, fun v' ensured => ensured.1⟩
  rintro _ v' ⟨keeps, -⟩
  exact act_meets trivial (fun _ => act_meets trivial (fun _ => keeps))

theorem dropVectors_meets {vs : List Vector} (empty : v.held = ∅) :
    Meets (fun _ v' => v.Keeps v') (dropVectors vs) v := by
  induction vs generalizing v with
  | nil => exact .refl _
  | cons x vs ih =>
      refine act_meets trivial (fun buffer => ?_)
      apply ite_meets
      · exact fun _ => ih empty
      · intro _
        refine ⟨.inl (outside_of_empty empty), ?_, fun v' ensured => ensured.1⟩
        rintro _ v' ⟨keeps, -⟩
        exact (ih (keeps.held.trans empty)).mono (fun _ _ keeps' => keeps.trans keeps')

theorem destroy_meets {t : Nat} (empty : v.held = ∅) :
    Meets (Function.Ensures .destroy v) (destroy t) v := by
  refine ⟨trivial, ?_⟩
  rintro a v' ⟨live, rfl⟩
  have away : Phase.exited ≠ .live := by decide
  apply guarded_meets
  refine ⟨⟨rfl, away, low_of_empty empty⟩, ?_, fun v' ensured => ⟨ensured.1.held, rfl⟩⟩
  rintro _ v' ⟨keeps, -⟩
  have empty' : (v'.setActive v.active).held = ∅ := keeps.held.trans empty
  refine act_meets trivial (fun _ => ?_)
  apply (dropVectors_meets empty').mono
  intro o v'' keeps'
  exact ⟨keeps'.held.trans keeps.held, keeps'.active⟩

theorem initAllocator_meets (empty : v.held = ∅) :
    Meets (Function.Ensures .initAllocator v) initAllocator v := by
  refine ⟨low_of_empty empty, ?_, fun v' ensured => ⟨ensured.1, trivial⟩⟩
  rintro _ v' ⟨keeps, -⟩
  refine act_meets trivial (fun _ => ?_)
  exact ⟨keeps, trivial⟩

theorem pushBack_meets {x : Vector} (needs : Function.Needs (.pushBack x) v) :
    Meets (Function.Ensures (.pushBack x) v) (pushBack x) v := by
  obtain ⟨quiet, place⟩ := needs
  refine act_meets trivial (fun room => ?_)
  cases room with
  | true =>
      refine act_meets trivial (fun _ => ?_)
      exact ⟨.refl _, trivial⟩
  | false =>
      refine act_meets trivial (fun bytes => ?_)
      refine ⟨quiet.imp_right (fun empty => serves_of_empty empty _), ?_,
        fun v' ensured => ⟨ensured.1, trivial⟩⟩
      rintro buffer v' ⟨keeps, -⟩
      refine act_meets trivial (fun old => ?_)
      apply ite_meets
      · intro _
        refine act_meets trivial (fun _ => ?_)
        exact ⟨keeps, trivial⟩
      · intro _
        refine ⟨place.imp keeps.outside keeps.registering, ?_,
          fun v'' ensured => ⟨keeps.trans ensured.1, trivial⟩⟩
        rintro _ v'' ⟨keeps', -⟩
        refine act_meets trivial (fun _ => ?_)
        exact ⟨keeps.trans keeps', trivial⟩

/-- The pointer of the static comes from the fallback, or, for the ring, from the arena. -/
theorem staticPointer_meets {mutexBytes : Nat} {x : Static}
    (needs : Function.Needs (.staticPointer x) v) :
    Meets (Function.Ensures (.staticPointer x) v) (staticPointer mutexBytes x) v := by
  obtain ⟨takes, source⟩ := needs
  refine ⟨takes, ?_⟩
  rintro stored v' ⟨fresh, rfl⟩
  cases stored with
  | some p => exact ⟨.refl _, fresh, fun _ => rfl⟩
  | none =>
      have request : Function.Needs (.doNew (x.bytes mutexBytes)) (v.take (.static x)) := by
        rcases source with active | ⟨rfl, held⟩
        · exact .inl active
        · refine .inr ⟨?_, .inl ?_⟩
          · rintro h (rfl | holding)
            · exact Set.mem_singleton _
            · exact held holding
          · simp only [Static.bytes, RingStorage.ringBytes, EventRing.kCapacity, maxSmall]
            omega
      have ended : ∀ v', (v.take (.static x)).Keeps v' →
          (v.active = true → v'.phase = v.phase) →
          Function.Ensures (.staticPointer x) v (some 0) (v'.drop (.static x)) :=
        fun v' keeps same => ⟨keeps.dropped fresh, fresh, same⟩
      have holds : ∀ v', (v.take (.static x)).Keeps v' → .static x ∈ v'.held := by
        intro v' keeps
        rw [keeps.held]
        exact Set.mem_insert _ _
      refine act_meets trivial (fun _ => ?_)
      refine ⟨request, ?_, ?_⟩
      · rintro p v' ⟨keeps, same⟩
        refine ⟨holds v' keeps, ?_⟩
        rintro _ v'' rfl
        refine act_meets trivial (fun _ => ?_)
        exact ended v' keeps same
      · rintro v' ⟨keeps, same⟩
        refine ⟨holds v' keeps, ?_⟩
        rintro _ v'' rfl
        exact ended v' keeps same

theorem record_meets {kind size ptr threadId : Nat}
    (needs : Function.Needs (.record kind size ptr threadId) v) :
    Meets (Function.Ensures (.record kind size ptr threadId) v) (record kind size ptr threadId)
      v := by
  obtain ⟨quiet, place⟩ := needs
  have takes : v.Takes (.static .ring) := by
    rcases place with outside | again
    · exact .inl (fun h holding => by rw [outside.rank h holding]; decide)
    · exact .inr ⟨again, .inr rfl⟩
  have source : v.active = true ∨ Static.ring = .ring ∧ v.held ⊆ {.static .ring} :=
    quiet.imp_right (fun empty => ⟨rfl, by simp [empty]⟩)
  refine ⟨⟨takes, source⟩, ?_, fun v' ensured => ⟨ensured.1, trivial⟩⟩
  rintro _ v' ⟨keeps, free, -⟩
  have outside : v'.Outside := keeps.outside (place.resolve_right free)
  have above : v'.Takes (.mutex .ring) :=
    .inl (fun h holding => by rw [outside.rank h holding]; decide)
  apply locked_meets above ?_ (fun o v'' _ keeps' => ⟨keeps.trans keeps', trivial⟩)
  exact fun _ => act_meets trivial (fun _ => .refl _)

theorem serves_place {n : Nat} (serves : v.Serves n) :
    v.Outside ∨ .static .ring ∈ v.held := by
  by_cases creating : .static .ring ∈ v.held
  · exact .inr creating
  · apply Or.inl
    apply outside_of_empty
    apply Set.eq_empty_of_forall_notMem
    intro h holding
    have ring : h = .static .ring := serves.1 holding
    exact creating (ring ▸ holding)

theorem allocate_meets {n : Nat} (serves : v.Serves n) :
    Meets (Function.Ensures (.allocate n) v) (allocate n) v := by
  refine act_meets trivial (fun _ => ?_)
  apply guarded_ret_meets
  refine ⟨⟨rfl, serves⟩, ?_, fun v' ensured => ⟨ensured.1.unguarded, trivial⟩⟩
  rintro p v' ⟨keeps, -⟩
  refine act_meets trivial (fun enabled => ?_)
  apply ite_meets
  · intro _
    refine act_meets trivial (fun threadId => ?_)
    refine ⟨⟨.inl keeps.active, serves_place (keeps.serves serves)⟩, ?_,
      fun v'' ensured => ⟨(keeps.trans ensured.1).unguarded, trivial⟩⟩
    rintro _ v'' ⟨keeps', -⟩
    exact ⟨(keeps.trans keeps').unguarded, trivial⟩
  · exact fun _ => ⟨keeps.unguarded, trivial⟩

theorem allocateAligned_meets {n alignment : Nat} :
    Meets (Function.Ensures (.allocateAligned n alignment) v) (allocateAligned n alignment) v := by
  apply guarded_ret_meets
  refine act_meets trivial (fun p => ?_)
  exact ⟨(Keeps.refl _).unguarded, trivial⟩

theorem singleAllocate_meets {t n : Nat} (active : v.active = true) (serves : v.Serves n) :
    Meets (Function.Ensures (.singleAllocate n) v) (singleAllocate t n) v := by
  unfold singleAllocate
  split
  · rename_i small
    have empty : v.held = ∅ := serves.2.resolve_left (by omega)
    refine act_meets trivial (fun p => ?_)
    apply ite_meets
    · exact fun _ => ⟨.refl _, trivial⟩
    · intro _
      refine act_meets trivial (fun threadId => ?_)
      refine ⟨empty, ?_, fun v' ensured => ⟨ensured.1, trivial⟩⟩
      rintro chunk v' ⟨keeps, -⟩
      apply ite_meets
      · intro _
        refine ⟨⟨keeps.active.trans active, keeps.held.trans empty⟩, ?_,
          fun v'' ensured => ⟨keeps.trans ensured.1, trivial⟩⟩
        rintro _ v'' ⟨keeps', -⟩
        refine act_meets trivial (fun p => ?_)
        exact ⟨keeps.trans keeps', trivial⟩
      · exact fun _ => ⟨keeps, trivial⟩
  · refine act_meets trivial (fun p => ?_)
    exact ⟨.refl _, trivial⟩

theorem addExternalSlab_meets {t body : Nat} {i : SizeClass} (active : v.active = true)
    (empty : v.held = ∅) :
    Meets (Function.Ensures (.addExternalSlab i body) v) (addExternalSlab t i body) v := by
  refine act_meets trivial (fun _ => ?_)
  refine ⟨⟨.inl active, .inl (outside_of_empty empty)⟩, ?_, fun v' ensured => ⟨ensured.1, trivial⟩⟩
  rintro _ v' ⟨keeps, -⟩
  refine act_meets trivial (fun _ => ?_)
  exact ⟨keeps, trivial⟩

theorem deallocate_meets {form : FreeForm} {p n : Nat} (outside : v.Outside) :
    Meets (Function.Ensures (.deallocate form p n) v) (deallocate form p n) v := by
  have quiet : v.active = true ∨ v.held = ∅ := by
    by_cases refilling : .mutex .centralHeap ∈ v.held
    · exact .inl (outside.2 refilling)
    · apply Or.inr
      apply Set.eq_empty_of_forall_notMem
      intro h holding
      have central : h = .mutex .centralHeap := outside.1 holding
      exact refilling (central ▸ holding)
  refine act_meets trivial (fun _ => ?_)
  refine act_meets trivial (fun enabled => ?_)
  apply ite_meets
  · intro _
    refine act_meets trivial (fun threadId => ?_)
    exact ⟨⟨quiet, .inl outside⟩, fun x v' ensured => ⟨ensured.1, trivial⟩,
      fun v' ensured => ⟨ensured.1, trivial⟩⟩
  · exact fun _ => ⟨.refl _, trivial⟩

theorem acquireLocked_meets {sizeClassBytes threadId : Nat} {user : Option Nat}
    (active : v.active = true) (held : v.held = {.mutex .centralHeap}) :
    Meets (fun _ v' => v.Keeps v') (acquireLocked sizeClassBytes threadId user) v := by
  have outside : v.Outside := ⟨held.subset, fun _ => active⟩
  refine act_meets trivial (fun slab => ?_)
  cases slab with
  | none => exact .refl _
  | some slab =>
      refine ⟨⟨.inl active, .inl outside⟩, ?_, fun v' ensured => ensured.1⟩
      rintro _ v' ⟨keeps, -⟩
      refine act_meets trivial (fun _ => ?_)
      refine act_meets trivial (fun enabled => ?_)
      apply ite_meets
      · intro _
        refine ⟨⟨.inl (keeps.active.trans active), .inl (keeps.outside outside)⟩, ?_,
          fun v'' ensured => keeps.trans ensured.1⟩
        rintro _ v'' ⟨keeps', -⟩
        exact keeps.trans keeps'
      · exact fun _ => keeps

theorem acquireChunk_meets {sizeClassBytes threadId : Nat} {user : Option Nat}
    (empty : v.held = ∅) :
    Meets (Function.Ensures (.acquireChunk sizeClassBytes threadId user) v)
      (acquireChunk sizeClassBytes threadId user) v := by
  apply guarded_ret_meets
  have empty' : (v.setActive true).held = ∅ := empty
  have held : ((v.setActive true).take (.mutex .centralHeap)).held = {.mutex .centralHeap} := by
    simp [take, setActive, empty]
  apply locked_meets (takes_of_empty empty' _) ?_ (fun o v' _ keeps => ⟨keeps.unguarded, trivial⟩)
  exact fun _ => acquireLocked_meets (by rfl) held

end Functions

/-- Every function meets its contract. -/
theorem contract_kept (P : Platform) (mutexBytes t : Nat) :
    contract.Kept effects (body P mutexBytes t) := by
  intro f v needs
  cases f with
  | doNew size => exact doNew_meets needs
  | doAlignedNew size alignment => exact doAlignedNew_meets needs
  | bootstrapAlignedNew size alignment => exact bootstrapAlignedNew_meets needs
  | doDelete p => exact doDelete_meets needs
  | allocatorInstance => exact allocatorInstance_meets needs
  | construct => exact construct_meets needs
  | destroy => exact destroy_meets needs
  | initAllocator => exact initAllocator_meets needs
  | registerStats => exact registerStats_meets needs
  | retireStats => exact retireStats_meets needs
  | pushBack x => exact pushBack_meets needs
  | staticPointer x => exact staticPointer_meets needs
  | record kind size ptr threadId => exact record_meets needs
  | allocate n => exact allocate_meets needs
  | allocateAligned n alignment => exact allocateAligned_meets
  | singleAllocate n => exact singleAllocate_meets needs.1 needs.2
  | addExternalSlab i body => exact addExternalSlab_meets needs.1 needs.2
  | deallocate form p n => exact deallocate_meets needs
  | acquireChunk sizeClassBytes threadId user => exact acquireChunk_meets needs

end MemAlloc.OverrideCalls
