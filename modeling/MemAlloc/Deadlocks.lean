import MemAlloc.LockDiscipline

set_option autoImplicit false

namespace MemAlloc.OverrideCalls

open Calls (System Ended)
open LockOrder (WaitsFor)
open Runs (Run Transition)
open Standing

section Standings

variable {P : Platform} {growth : Nat → Nat} {t u : Nat} {s s' : State} {l : Lock}

theorem holds_setMutex_self {m : Mutex} {holder : Option Nat} :
    (s.setMutex m holder).Holds t (.mutex m) ↔ holder = some t := by
  simp [State.Holds, State.setMutex]

theorem holds_setMutex_of_ne {m : Mutex} {holder : Option Nat} (other : l ≠ .mutex m) :
    (s.setMutex m holder).Holds t l ↔ s.Holds t l := by
  cases l with
  | static x => rfl
  | mutex n =>
      have distinct : n ≠ m := fun same => other (congrArg Lock.mutex same)
      simp [State.Holds, State.setMutex, distinct]

theorem holds_setStatic_self {x : Static} {x' : StaticState} :
    (s.setStatic x x').Holds t (.static x) ↔ x' = .initialising t := by
  simp [State.Holds, State.setStatic]

theorem holds_setStatic_of_ne {x : Static} {x' : StaticState} (other : l ≠ .static x) :
    (s.setStatic x x').Holds t l ↔ s.Holds t l := by
  cases l with
  | mutex m => rfl
  | static y =>
      have distinct : y ≠ x := fun same => other (congrArg Lock.static same)
      simp [State.Holds, State.setStatic, distinct]

theorem standing_eq (holds : ∀ h, s'.Holds t h ↔ s.Holds t h) (active : s'.active t = s.active t)
    (threads : s'.w.sys.threads t = s.w.sys.threads t) : standing t s' = standing t s := by
  ext1
  · exact Set.ext holds
  · exact active
  · exact congrArg Phase.of threads

theorem standing_take (now : s'.Holds t l) (others : ∀ h, h ≠ l → (s'.Holds t h ↔ s.Holds t h))
    (active : s'.active t = s.active t) (threads : s'.w.sys.threads t = s.w.sys.threads t) :
    standing t s' = (standing t s).take l := by
  ext1
  · ext h
    by_cases same : h = l
    · subst same
      exact iff_of_true now (Set.mem_insert _ _)
    · have elsewhere : h ∈ insert l {h | s.Holds t h} ↔ s.Holds t h :=
        Set.mem_insert_iff.trans (or_iff_right same)
      exact (others h same).trans elsewhere.symm
  · exact active
  · exact congrArg Phase.of threads

theorem standing_drop (now : ¬ s'.Holds t l) (others : ∀ h, h ≠ l → (s'.Holds t h ↔ s.Holds t h))
    (active : s'.active t = s.active t) (threads : s'.w.sys.threads t = s.w.sys.threads t) :
    standing t s' = (standing t s).drop l := by
  ext1
  · ext h
    by_cases same : h = l
    · subst same
      exact iff_of_false now (fun kept => kept.2 rfl)
    · exact (others h same).trans (and_iff_left same).symm
  · exact active
  · exact congrArg Phase.of threads

/-- A lock the thread has nothing to do with, before or after, is none of its standing. -/
theorem standing_elsewhere (before : ¬ s.Holds t l) (after : ¬ s'.Holds t l)
    (others : ∀ h, h ≠ l → (s'.Holds t h ↔ s.Holds t h)) (active : s'.active t = s.active t)
    (threads : s'.w.sys.threads t = s.w.sys.threads t) : standing t s' = standing t s := by
  apply standing_eq ?_ active threads
  intro h
  by_cases same : h = l
  · subst same
    exact iff_of_false after before
  · exact others h same

theorem Primitive.Does.threads_eq {a : Primitive} {w w' : NewDelete} {r : a.Reply} (other : t ≠ u)
    (done : a.Does P u w r w') : w'.sys.threads t = w.sys.threads t := by
  cases done with
  | mallocFallback done => rw [NewDelete.fallbackNew_threads done]
  | mallocOverAligned done => rw [NewDelete.malloc_threads done]
  | unstash =>
      unfold takeStash
      split <;> rfl
  | freeRegistered =>
      unfold NewDelete.freeRegistered
      split <;> rfl
  | becomeLive => exact Function.update_of_ne other _ _
  | markGone live => exact Function.update_of_ne other _ _
  | countAlloc live => exact Function.update_of_ne other _ _
  | poolAllocate live done => exact Function.update_of_ne other _ _
  | poolExhausted live done => exact Function.update_of_ne other _ _
  | arenaAllocate live done => exact Function.update_of_ne other _ _
  | arenaAllocateAligned live done => exact Function.update_of_ne other _ _
  | linkSlab live done => exact Function.update_of_ne other _ _
  | recordSlab live => exact Function.update_of_ne other _ _
  | free live done => exact Function.update_of_ne other _ _
  | _ => rfl

/-- With locks and guard as they are, a primitive leaves what it says. -/
theorem Primitive.Does.leaves {a : Primitive} {w w' : NewDelete} {r : a.Reply} {held : Set Lock}
    {active : Bool} (done : a.Does P t w r w') :
    a.Leaves ⟨held, active, .of (w.sys.threads t)⟩ r
      ⟨held, active, .of (w'.sys.threads t)⟩ := by
  have stays : ∀ {pool client thread}, w.sys.threads t = .live pool client →
      Phase.of thread = .live →
      (⟨held, active, .of (Function.update w.sys.threads t thread t)⟩ : Standing) =
        ⟨held, active, .of (w.sys.threads t)⟩ := by
    intro pool client thread live same
    rw [Function.update_self, same, live]
    rfl
  cases done with
  | mallocFallback done =>
      simp only [Primitive.Leaves, NewDelete.fallbackNew_threads done]
  | mallocOverAligned done => simp only [Primitive.Leaves, NewDelete.malloc_threads done]
  | unstash =>
      simp only [Primitive.Leaves, takeStash]
      split <;> rfl
  | freeRegistered =>
      simp only [Primitive.Leaves, NewDelete.freeRegistered]
      split <;> rfl
  | constructed live =>
      rw [live]
      exact ⟨rfl, rfl⟩
  | unconstructed unborn =>
      rw [unborn]
      exact ⟨rfl, rfl⟩
  | becomeLive =>
      simp only [Primitive.Leaves, setPool, Sys.setThread, Function.update_self]
      rfl
  | markGone live =>
      simp only [Primitive.Leaves, Sys.setThread, Function.update_self]
      rw [live]
      exact ⟨rfl, rfl⟩
  | countAlloc live => exact stays live rfl
  | poolAllocate live done => exact stays live rfl
  | poolExhausted live done => exact stays live rfl
  | arenaAllocate live done => exact stays live rfl
  | arenaAllocateAligned live done => exact stays live rfl
  | linkSlab live done => exact stays live rfl
  | recordSlab live => exact stays live rfl
  | free live done => exact stays live rfl
  | _ => rfl

theorem allocatorGone_eq (w : NewDelete) :
    w.allocatorGone t = decide (Phase.of (w.sys.threads t) = .exited) := by
  unfold NewDelete.allocatorGone
  cases w.sys.threads t with
  | unborn => rfl
  | live pool client => rfl
  | exited => rfl

theorem Action.Does.leaves {a : Action} {r : a.Reply} (needs : a.Needs (standing t s))
    (done : a.Does P growth t s r s') : a.Leaves (standing t s) r (standing t s') := by
  cases done with
  | testFallback =>
      refine ⟨rfl, fun active => ?_⟩
      have set : s.active t = true := active
      simp [NewDelete.takesFallback, set]
  | testGone => exact ⟨rfl, allocatorGone_eq _⟩
  | enterGuard =>
      refine ⟨rfl, ?_⟩
      ext1
      · rfl
      · exact Function.update_self _ _ _
      · rfl
  | leaveGuard =>
      ext1
      · rfl
      · exact Function.update_self _ _ _
      · rfl
  | @lock s m free =>
      refine ⟨?_, ?_⟩
      · intro holding
        have held : s.mutexes m = some t := holding
        rw [free] at held
        cases held
      · apply standing_take
        · exact holds_setMutex_self.mpr rfl
        · exact fun h other => holds_setMutex_of_ne other
        · rfl
        · rfl
  | unlock =>
      apply standing_drop
      · rw [holds_setMutex_self]
        exact fun same => by cases same
      · exact fun h other => holds_setMutex_of_ne other
      · rfl
      · rfl
  | @firstEntry s x absent =>
      refine ⟨?_, ?_⟩
      · intro holding
        have held : s.statics x = .initialising t := holding
        rw [absent] at held
        cases held
      · apply standing_take
        · exact holds_setStatic_self.mpr rfl
        · exact fun h other => holds_setStatic_of_ne other
        · rfl
        · rfl
  | @laterEntry s x p stored =>
      refine ⟨?_, rfl⟩
      intro holding
      have held : s.statics x = .initialising t := holding
      rw [stored] at held
      cases held
  | storeStatic nonnull =>
      apply standing_drop
      · rw [holds_setStatic_self]
        exact fun same => by cases same
      · exact fun h other => holds_setStatic_of_ne other
      · rfl
      · rfl
  | abandonStatic =>
      apply standing_drop
      · rw [holds_setStatic_self]
        exact fun same => by cases same
      · exact fun h other => holds_setStatic_of_ne other
      · rfl
      · rfl
  | primitive done => exact done.leaves
  | _ => rfl

theorem Action.Does.standing_eq {a : Action} {r : a.Reply} (other : t ≠ u)
    (needs : a.Needs (standing u s)) (done : a.Does P growth u s r s') :
    standing t s' = standing t s := by
  have mine : ∀ {v : Nat}, some v = some t → v = t := fun same => Option.some.inj same
  cases done with
  | enterGuard =>
      ext1
      · rfl
      · exact Function.update_of_ne other _ _
      · rfl
  | leaveGuard =>
      ext1
      · rfl
      · exact Function.update_of_ne other _ _
      · rfl
  | @lock s m free =>
      apply standing_elsewhere (l := .mutex m) ?_ ?_ (fun h => holds_setMutex_of_ne) rfl rfl
      · intro holding
        have held : s.mutexes m = some t := holding
        rw [free] at held
        cases held
      · rw [holds_setMutex_self]
        exact fun same => other (mine same).symm
  | @unlock s m =>
      have owner : s.mutexes m = some u := needs
      apply standing_elsewhere (l := .mutex m) ?_ ?_ (fun h => holds_setMutex_of_ne) rfl rfl
      · intro holding
        have held : s.mutexes m = some t := holding
        exact other (mine (owner.symm.trans held)).symm
      · rw [holds_setMutex_self]
        exact fun same => by cases same
  | @firstEntry s x absent =>
      apply standing_elsewhere (l := .static x) ?_ ?_ (fun h => holds_setStatic_of_ne) rfl rfl
      · intro holding
        have held : s.statics x = .initialising t := holding
        rw [absent] at held
        cases held
      · rw [holds_setStatic_self]
        intro same
        cases same
        exact other rfl
  | @storeStatic s x p nonnull =>
      have owner : s.statics x = .initialising u := needs
      apply standing_elsewhere (l := .static x) ?_ ?_ (fun h => holds_setStatic_of_ne) rfl rfl
      · intro holding
        have held : s.statics x = .initialising t := holding
        rw [owner] at held
        cases held
        exact other rfl
      · rw [holds_setStatic_self]
        exact fun same => by cases same
  | @abandonStatic s x =>
      have owner : s.statics x = .initialising u := needs
      apply standing_elsewhere (l := .static x) ?_ ?_ (fun h => holds_setStatic_of_ne) rfl rfl
      · intro holding
        have held : s.statics x = .initialising t := holding
        rw [owner] at held
        cases held
        exact other rfl
      · rw [holds_setStatic_self]
        exact fun same => by cases same
  | primitive done =>
      ext1
      · rfl
      · rfl
      · exact congrArg Phase.of (done.threads_eq other)
  | _ => rfl

theorem elsewhere_standing (changed : Elsewhere P s s') : standing t s' = standing t s := by
  cases changed with
  | setEnabled on => rfl
  | malloc taken =>
      cases taken with
      | malloc done => exact OverrideCalls.standing_eq (fun _ => .rfl) rfl (by
          rw [NewDelete.malloc_threads done])
  | mfree taken =>
      cases taken
      rfl
  | write taken =>
      cases taken with
      | write taken =>
          cases taken
          rfl

theorem standing_private : effects.Private (fun t => Action.Does P growth t) (Elsewhere P)
    standing where
  own _ _ _ _ _ needs done := Action.Does.leaves needs done
  others _ _ _ _ _ _ other needs done := Action.Does.standing_eq other needs done
  around _ _ _ changed := elsewhere_standing changed

end Standings

/-- What `for_each_live` is given. It runs under the registry's mutex: it makes no call of the
allocator or the registry, takes no lock and initialises nothing. -/
structure Visitor where
  visit : Nat → Body
  quiet : ∀ i, (visit i).Confined (fun _ => False) Action.Neutral (fun _ _ => True)

/-- One visit after another; an exception ends them. -/
def Visitor.visitAll (fn : Visitor) (first : Nat) : Nat → Body
  | 0 => .ret 0
  | visits + 1 => .scope .proceed (fun _ => .proceed) (fun _ => .proceed) (fn.visit first)
      fun _ => fn.visitAll (first + 1) visits

/-- What else the program calls: the allocator's instance, and what reads the registry and the
ring. `found` is the number of events that the first of two critical sections sees, `visits` the
number of live allocators. -/
inductive Query where
  | allocatorInstance
  | globalStats
  | forEachLive (fn : Visitor) (visits : Nat)
  | count
  | snapshot (found : Nat)
  | snapshotTail (found maxCount : Nat)

/-- `sizeof(AllocEvent)`. -/
def eventBytes : Nat := 32

def readRing (k : Nat → Body) : Body :=
  .scope (.lock .ring) (fun _ => .unlock .ring) (fun _ => .unlock .ring) (.ret 0) k

/-- The vector that is returned gets its storage between the two critical sections. -/
def copyEvents (events : Nat) : Body :=
  .call (.staticPointer .ring) fun _ => readRing fun _ =>
    if events = 0 then readRing .ret
    else .call (.doNew (events * eventBytes)) fun buffer => readRing fun _ => .ret buffer

def Query.body : Query → Body
  | .allocatorInstance => .call .allocatorInstance .ret
  | .globalStats => locked .statsRegistry (.ret 0)
  | .forEachLive fn visits => locked .statsRegistry (fn.visitAll 0 visits)
  | .count => .call (.staticPointer .ring) fun _ => readRing .ret
  | .snapshot found => copyEvents found
  | .snapshotTail found maxCount => copyEvents (min found maxCount)

abbrev Process : Type := System Function Action.Reply Nat State

inductive ProcessEvent where
  | call (e : Calls.Event Function Action.Reply)
  | query (t : Nat) (q : Query)

/-- The steps of all threads, with the queries. -/
inductive ProcessStep (P : Platform) (growth : Nat → Nat) (mutexBytes : Nat) :
    Process → ProcessEvent → Process → Prop
  | call {s s' : Process} {e : Calls.Event Function Action.Reply}
      (taken : Step P growth mutexBytes s e s') :
      ProcessStep P growth mutexBytes s (.call e) s'
  | query {s : Process} {t : Nat} (q : Query) (idle : Ended [] (s.threads t)) :
      ProcessStep P growth mutexBytes s (.query t q)
        { s with threads := Function.update s.threads t ⟨q.body, []⟩ }

/-- The lock that the action waits for. -/
def Action.lockOf : Action → Option Lock
  | .lock m => some (.mutex m)
  | .enterStatic x => some (.static x)
  | _ => none

/-- The lock that the thread takes next. -/
def nextLock (thread : Calls.Thread Function Action.Reply Nat) : Option Lock :=
  match thread.code with
  | .act a _ => a.lockOf
  | .scope a _ _ _ _ => a.lockOf
  | _ => none

namespace Process

def Waits (s : Process) (t : Nat) (l : Lock) : Prop := nextLock (s.threads t) = some l

def Holds (s : Process) (t : Nat) (l : Lock) : Prop := s.shared.Holds t l

end Process

def Standing.Quiet (v : Standing) : Prop := v.held = ∅ ∧ v.active = false

section Contracts

variable {v : Standing} {after : Option Nat → Standing → Prop}

theorem readRing_meets {k : Nat → Body} (outside : v.Outside) (rest : Meets after (k 0) v) :
    Meets after (readRing k) v := by
  have above : v.Takes (.mutex .ring) :=
    .inl (fun h holding => by rw [outside.rank h holding]; decide)
  refine ⟨above, ?_⟩
  rintro _ v' ⟨fresh, rfl⟩
  refine ⟨Set.mem_insert _ _, ?_⟩
  rintro _ v' rfl
  have same : (v.take (.mutex .ring)).drop (.mutex .ring) = v :=
    Standing.ext (Set.insert_sdiff_self_of_notMem fresh) rfl rfl
  rw [same]
  exact rest

theorem Standing.Keeps.quiet {v' : Standing} (keeps : v.Keeps v') (quiet : v.Quiet) : v'.Quiet :=
  ⟨keeps.held.trans quiet.1, keeps.active.trans quiet.2⟩

theorem needs_ring (quiet : v.Quiet) : Function.Needs (.staticPointer .ring) v :=
  ⟨takes_of_empty quiet.1 _, .inr ⟨rfl, by simp [quiet.1]⟩⟩

theorem copyEvents_meets {events : Nat} (quiet : v.Quiet) :
    Meets (fun _ => Quiet) (copyEvents events) v := by
  refine ⟨needs_ring quiet, ?_, fun v' ensured => ensured.1.quiet quiet⟩
  rintro _ v' ⟨keeps, -⟩
  have quiet' := keeps.quiet quiet
  apply readRing_meets (outside_of_empty quiet'.1)
  apply ite_meets
  · exact fun _ => readRing_meets (outside_of_empty quiet'.1) quiet'
  · intro _
    refine ⟨.inr (serves_of_empty quiet'.1 _), ?_, fun v'' ensured => ensured.1.quiet quiet'⟩
    rintro buffer v'' ⟨keeps', -⟩
    have quiet'' := keeps'.quiet quiet'
    exact readRing_meets (outside_of_empty quiet''.1) quiet''

theorem Visitor.visitAll_meets (fn : Visitor) (first visits : Nat) :
    Meets (fun _ v' => v' = v) (fn.visitAll first visits) v := by
  induction visits generalizing first with
  | zero => rfl
  | succ visits ih =>
      refine ⟨trivial, ?_⟩
      rintro _ v' rfl
      apply ((fn.quiet first).meets (fun a neutral => neutral.needs)
        fun a _ _ neutral left => neutral.leaves left).mono
      rintro (_ | x) v' rfl
      · exact ⟨trivial, fun _ _ left => left⟩
      · refine ⟨trivial, ?_⟩
        rintro _ v' rfl
        exact ih (first + 1)

theorem Query.body_meets (q : Query) (quiet : v.Quiet) : Meets (fun _ => Quiet) q.body v := by
  have registry : Meets (fun _ => Quiet) (locked .statsRegistry (.ret 0)) v := by
    apply locked_meets (takes_of_empty quiet.1 _) ?_ (fun o v' _ keeps => keeps.quiet quiet)
    exact fun _ => .refl _
  cases q with
  | allocatorInstance =>
      exact ⟨low_of_empty quiet.1, fun _ v' ensured => ensured.1.quiet quiet,
        fun v' ensured => ensured.1.quiet quiet⟩
  | globalStats => exact registry
  | forEachLive fn visits =>
      apply locked_meets (takes_of_empty quiet.1 _) ?_ (fun o v' _ keeps => keeps.quiet quiet)
      intro _
      apply (fn.visitAll_meets 0 visits).mono
      rintro _ v' rfl
      exact .refl _
  | count =>
      refine ⟨needs_ring quiet, ?_, fun v' ensured => ensured.1.quiet quiet⟩
      rintro _ v' ⟨keeps, -⟩
      have quiet' := keeps.quiet quiet
      exact readRing_meets (outside_of_empty quiet'.1) quiet'
  | snapshot found => exact copyEvents_meets quiet
  | snapshotTail found maxCount => exact copyEvents_meets quiet

theorem entry_needs {f : Function} (allowed : Entry f) (quiet : v.Quiet) : f.Needs v := by
  cases f with
  | doNew size => exact .inr (serves_of_empty quiet.1 _)
  | doAlignedNew size alignment => exact quiet.1
  | doDelete p => exact .inl (outside_of_empty quiet.1)
  | destroy => exact quiet.1
  | initAllocator => exact quiet.1
  | allocate n => exact serves_of_empty quiet.1 _
  | allocateAligned n alignment => trivial
  | deallocate form p n => exact outside_of_empty quiet.1
  | acquireChunk sizeClassBytes threadId user => exact quiet.1
  | _ => exact allowed.elim

theorem entry_leaves {f : Function} {o : Option Nat} {v' : Standing} (allowed : Entry f)
    (quiet : v.Quiet) (ensured : f.Ensures v o v') : v'.Quiet := by
  cases f with
  | destroy => exact ⟨ensured.1.trans quiet.1, ensured.2.trans quiet.2⟩
  | doNew size => exact ensured.1.quiet quiet
  | doAlignedNew size alignment => exact ensured.1.quiet quiet
  | doDelete p => exact ensured.1.quiet quiet
  | initAllocator => exact ensured.1.quiet quiet
  | allocate n => exact ensured.1.quiet quiet
  | allocateAligned n alignment => exact ensured.1.quiet quiet
  | deallocate form p n => exact ensured.1.quiet quiet
  | acquireChunk sizeClassBytes threadId user => exact ensured.1.quiet quiet
  | _ => exact allowed.elim

end Contracts

section Runs

variable {P : Platform} {growth : Nat → Nat} {mutexBytes : Nat} {s₀ s : Process}
  {trace : List (Transition Process ProcessEvent)}

/-- No thread is in a call, none holds a lock, and no guard is set. -/
structure Process.Fresh (s : Process) : Prop where
  idle : ∀ t, Ended [] (s.threads t)
  free : ∀ t l, ¬ s.Holds t l
  unguarded : ∀ t, s.shared.active t = false

/-- In every run all threads meet the contracts of the functions they are in. -/
theorem Process.meets (fresh : s₀.Fresh)
    (run : Run (ProcessStep P growth mutexBytes) s₀ trace s) :
    System.Meets effects contract standing Quiet s := by
  apply run.invariant
  · intro t
    apply (fresh.idle t).meets_iff.mpr
    exact ⟨Set.eq_empty_of_forall_notMem (fresh.free t), fresh.unguarded t⟩
  · intro s e s' meets taken
    cases taken with
    | call taken =>
        exact meets.step (fun t => contract_kept P mutexBytes t) standing_private
          (fun f v => entry_needs) (fun f v o v' => entry_leaves) taken
    | query q idle =>
        apply meets.starts
        exact q.body_meets (meets.atRest idle)

theorem takes_of_nextLock {thread : Calls.Thread Function Action.Reply Nat} {v : Standing}
    {last : Option Nat → Standing → Prop} {l : Lock} (meets : thread.Meets effects contract last v)
    (next : nextLock thread = some l) : v.Takes l := by
  have taken : ∀ a : Action, a.Needs v → a.lockOf = some l → v.Takes l := by
    intro a needs same
    cases a with
    | lock m =>
        cases same
        exact needs
    | enterStatic x =>
        cases same
        exact needs
    | _ => cases same
  obtain ⟨code, frames⟩ := thread
  cases code with
  | act a k => exact taken a meets.1 next
  | scope a done failed body k => exact taken a meets.1 next
  | _ => cases next

/-- Two threads that ask for a chunk: one has the mutex of the central heap, the other waits for
it. -/
theorem exists_contended : ∃ (s₀ s : Process) (trace : List (Transition Process ProcessEvent)),
    s₀.Fresh ∧ Run (ProcessStep desktop (fun n => 2 * n + 1) 8) s₀ trace s ∧
      s.Holds 0 (.mutex .centralHeap) ∧ s.Waits 1 (.mutex .centralHeap) := by
  let shared : State := ⟨NewDelete.initial (fun _ => 0) Malloc.Heap.empty, fun _ => false, false,
    EventRing.new, fun _ => .absent, fun _ => none, fun _ => ⟨0, 0, 0⟩⟩
  let idle : Calls.Thread Function Action.Reply Nat := ⟨.ret 0, []⟩
  let asked : Calls.Thread Function Action.Reply Nat := ⟨acquireChunk 16 0 none, []⟩
  let guarding : Calls.Thread Function Action.Reply Nat :=
    ⟨locked .centralHeap (acquireLocked 16 0 none), [guardEnd false]⟩
  let holding : Calls.Thread Function Action.Reply Nat :=
    ⟨acquireLocked 16 0 none, [lockEnd, guardEnd false]⟩
  let s₀ : Process := ⟨fun _ => idle, shared⟩
  let s₁ : Process := ⟨Function.update s₀.threads 0 asked, shared⟩
  let s₂ : Process := ⟨Function.update s₁.threads 0 guarding, shared.setActive 0 true⟩
  let s₃ : Process :=
    ⟨Function.update s₂.threads 0 holding, s₂.shared.setMutex .centralHeap (some 0)⟩
  let s₄ : Process := ⟨Function.update s₃.threads 1 asked, s₃.shared⟩
  let s₅ : Process := ⟨Function.update s₄.threads 1 guarding, s₄.shared.setActive 1 true⟩
  have first : ProcessStep desktop (fun n => 2 * n + 1) 8 s₀
      (.call (.entered 0 (.acquireChunk 16 0 none))) s₁ := .call (.entered rfl ⟨rfl, .ret 0⟩)
  have second : ProcessStep desktop (fun n => 2 * n + 1) 8 s₁
      (.call (.moved 0 (.performs .enterGuard false))) s₂ := .call (.moved (.enter .enterGuard))
  have third : ProcessStep desktop (fun n => 2 * n + 1) 8 s₂
      (.call (.moved 0 (.performs (.lock .centralHeap) ()))) s₃ :=
    .call (.moved (.enter (.lock rfl)))
  have fourth : ProcessStep desktop (fun n => 2 * n + 1) 8 s₃
      (.call (.entered 1 (.acquireChunk 16 0 none))) s₄ := .call (.entered rfl ⟨rfl, .ret 0⟩)
  have fifth : ProcessStep desktop (fun n => 2 * n + 1) 8 s₄
      (.call (.moved 1 (.performs .enterGuard false))) s₅ := .call (.moved (.enter .enterGuard))
  refine ⟨s₀, s₅, _, ⟨fun _ => ⟨rfl, .ret 0⟩, ?_, fun _ => rfl⟩,
    ((((Run.nil.snoc first).snoc second).snoc third).snoc fourth).snoc fifth, rfl, rfl⟩
  rintro t (m | x) held
  · cases held
  · cases held

/-- The first look at the ring, on a thread without an allocator: the thread is about to create
the thread ids while it creates the ring. -/
theorem exists_nested : ∃ (s₀ s : Process) (trace : List (Transition Process ProcessEvent)),
    s₀.Fresh ∧ Run (ProcessStep desktop (fun n => 2 * n + 1) 8) s₀ trace s ∧
      s.Holds 0 (.static .ring) ∧ s.Waits 0 (.static .threadIds) := by
  let shared : State := ⟨{ NewDelete.initial (fun _ => 0) Malloc.Heap.empty with ready := true },
    fun _ => false, false, EventRing.new, fun _ => .absent, fun _ => none, fun _ => ⟨0, 0, 0⟩⟩
  let s₀ : Process := ⟨fun _ => ⟨.ret 0, []⟩, shared⟩
  have moved {s : Process} {l : Calls.Label Function Action.Reply}
      {thread : Calls.Thread Function Action.Reply Nat} {next : State}
      (moves : Calls.Moves (body desktop 8 0) (Action.Does desktop (fun n => 2 * n + 1) 0)
        (s.threads 0) s.shared l thread next) :
      ProcessStep desktop (fun n => 2 * n + 1) 8 s (.call (.moved 0 l))
        ⟨Function.update s.threads 0 thread, next⟩ := .call (.moved moves)
  have asked := Run.nil.snoc (show ProcessStep desktop (fun n => 2 * n + 1) 8 s₀ (.query 0 .count)
    _ from .query .count ⟨rfl, .ret 0⟩)
  have creating := ((asked.snoc (moved .call)).snoc (moved (.act (.firstEntry rfl)))).snoc
    (moved (.enter .proceed))
  have requested := ((creating.snoc (moved .call)).snoc (moved (.act .testFallback))).snoc
    (moved (.enter .enterGuard))
  have constructing := (((requested.snoc (moved .call)).snoc (moved (.enter .enterGuard))).snoc
    (moved (.act (.primitive (.unconstructed rfl))))).snoc (moved .call)
  have numbered := constructing.snoc (moved .call)
  refine ⟨s₀, _, _, ⟨fun _ => ⟨rfl, .ret 0⟩, ?_, fun _ => rfl⟩, numbered, rfl, rfl⟩
  rintro t (m | x) held
  · cases held
  · cases held

/-- Outside its calls, returned from or thrown out of, a thread holds no lock and its guard is
clear. Inside them it waits for a lock only while those it holds come before it, unless it holds
that one already; and then it is the registry's, or the ring is being created. -/
theorem locks_ordered (fresh : s₀.Fresh) (run : Run (ProcessStep P growth mutexBytes) s₀ trace s)
    (t : Nat) :
    (Ended [] (s.threads t) → (∀ l, ¬ s.Holds t l) ∧ s.shared.active t = false) ∧
      ∀ l h, s.Waits t l → s.Holds t h →
        h.rank < l.rank ∨ s.Holds t l ∧ l.Reentered := by
  have meets := Process.meets fresh run
  refine ⟨?_, ?_⟩
  · intro ended
    obtain ⟨empty, clear⟩ := meets.atRest ended
    exact ⟨fun l => Set.eq_empty_iff_forall_notMem.mp empty l, clear⟩
  · intro l h waiting holding
    rcases takes_of_nextLock (meets t) waiting with above | again
    · exact .inl (above h holding)
    · exact .inr again

theorem locks_ordered_nested : ∃ s : Process, s.Holds 0 (.static .ring) ∧
    s.Waits 0 (.static .threadIds) ∧
    (Lock.rank (.static .ring) < Lock.rank (.static .threadIds) ∨
      s.Holds 0 (.static .threadIds) ∧ Lock.Reentered (.static .threadIds)) := by
  obtain ⟨s₀, s, trace, fresh, run, holds, waits⟩ := exists_nested
  exact ⟨s, holds, waits, (locks_ordered fresh run 0).2 _ _ waits holds⟩

/-- At the end of the chain of those a thread waits for stands a thread inside a call, or the
thread itself, that waits for nobody else: for no one, or, taking the registry's lock or creating
the ring a second time, for itself. -/
theorem no_deadlock (fresh : s₀.Fresh) (run : Run (ProcessStep P growth mutexBytes) s₀ trace s)
    (t : Nat) :
    ∃ u, Relation.ReflTransGen (WaitsFor s.Waits s.Holds) t u ∧
      (u = t ∨ ¬ Ended [] (s.threads u)) ∧
      ((∀ w, ¬ WaitsFor s.Waits s.Holds u w) ∨ ∃ l, s.Waits u l ∧ s.Holds u l ∧ l.Reentered) := by
  have meets := Process.meets fresh run
  have takes : ∀ t l, s.Waits t l → (standing t s.shared).Takes l :=
    fun t l waiting => takes_of_nextLock (meets t) waiting
  have ordered : LockOrder.Ordered s.Waits s.Holds Lock.rank := by
    intro t l h waiting holding
    rcases takes t l waiting with above | again
    · exact .inl (above h holding)
    · exact .inr again.1
  obtain ⟨u, path, free⟩ := ordered.exists_free t
  refine ⟨u, path, ?_, ?_⟩
  · apply (LockOrder.waited_of_path path).imp_right
    rintro ⟨l, holding⟩ ended
    exact Set.eq_empty_iff_forall_notMem.mp (meets.atRest ended).1 l holding
  · apply free.imp_right
    rintro ⟨l, waiting, holding⟩
    refine ⟨l, waiting, holding, ?_⟩
    rcases takes u l waiting with above | again
    · exact absurd (above l holding) (lt_irrefl _)
    · exact again.2

theorem no_deadlock_contended : ∃ s : Process, s.Waits 1 (.mutex .centralHeap) ∧
    s.Holds 0 (.mutex .centralHeap) ∧
    ∃ u, Relation.ReflTransGen (WaitsFor s.Waits s.Holds) 1 u ∧
      (u = 1 ∨ ¬ Ended [] (s.threads u)) ∧
      ((∀ w, ¬ WaitsFor s.Waits s.Holds u w) ∨
        ∃ l, s.Waits u l ∧ s.Holds u l ∧ l.Reentered) := by
  obtain ⟨s₀, s, trace, fresh, run, holds, waits⟩ := exists_contended
  exact ⟨s, waits, holds, no_deadlock fresh run 1⟩

end Runs

end MemAlloc.OverrideCalls
