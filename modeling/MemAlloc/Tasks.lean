import MemAlloc.ThreadViews

set_option autoImplicit false

/- Programs of calls on the thread's allocator, with a rule for each call. -/
namespace MemAlloc

open Malloc (Heap addressLimit)
open Programs (Program Interface Crew)
open Runs (Run Transition)
open SingleThreadAllocator (FreeForm chunkSlab kArenaPointer)

abbrev Task (α : Type) := Program AllocatorCall.Answer Exn α

namespace Task

/-- `ThreadPoolAlloc::instance()`. -/
def allocatorInstance : Task Unit := .call .allocatorInstance fun
  | .ok () => .ret ()
  | .error x => .throw x

def allocate (n : Nat) : Task (Option Nat) := .call (.allocate n) fun
  | .ok p => .ret p
  | .error x => .throw x

/-- A null pointer is ignored. -/
def deallocate (p : Option Nat) (n : Nat) : Task Unit :=
  match p with
  | none => .ret ()
  | some p => .call (.free .start p n) .ret

def deallocateContaining (p n : Nat) : Task Unit := .call (.free .containing p n) .ret

def classify (p : Nat) : Task Nat := .call (.classify p) .ret

def stats : Task Stats := .call .stats .ret

def write (a : Nat) (b : UInt8) : Task Unit := .call (.write a b) .ret

def reserve (bytes : Nat) : Task Nat := .call (.reserve bytes) fun
  | .ok p => .ret p
  | .error x => .throw x

def release (p : Nat) : Task Unit := .call (.release p) .ret

/-- `for (i = first; rounds > 0; ++i)` with a body that never breaks. -/
def repeated (body : Nat → Task Unit) (first rounds : Nat) : Task Unit :=
  Program.loop (fun i _ => (body i).bind fun _ => .ret (.yield ())) first rounds ()

section Rules

variable {P : Platform} {fact : Knowledge → Prop} {throws : Exn → Knowledge → Prop} {v : View}
  {n p : Nat}

theorem allocate_meets {returns : Option Nat → Knowledge → Prop}
    (bounded : n + P.maxAlign ≤ addressLimit) (now : fact (.live v))
    (answered : ∀ p k, v.Allocates P n (.ok p) k → returns p k)
    (thrown : ∀ x k, v.Allocates P n (.error x) k → throws x k) :
    ((AllocatorCall.interface P).always fact).Meets returns throws (allocate n) (.live v) := by
  refine ⟨⟨.allocate bounded, now⟩, ?_⟩
  intro r k told
  cases told with
  | allocate allocates =>
      cases r with
      | ok p => exact answered p k allocates
      | error x => exact thrown x k allocates

/-- A class with a free block hands out the first one. -/
theorem allocate_stocked {returns : Option Nat → Knowledge → Prop} {rest : List Nat}
    (bounded : n + P.maxAlign ≤ addressLimit) (now : fact (.live v)) (small : n ≤ maxSmall)
    (stocked : v.ledger.free (sizeClassOf n small) = p :: rest)
    (taken : returns (some p) (.live (v.take (sizeClassOf n small) n p rest))) :
    ((AllocatorCall.interface P).always fact).Meets returns throws (allocate n) (.live v) := by
  apply allocate_meets bounded now
  · intro q k allocates
    cases allocates with
    | pool small stocked' =>
        obtain ⟨rfl, rfl⟩ := List.cons.inj (stocked.symm.trans stocked')
        exact taken
    | refilled small empty blocks =>
        rw [stocked] at empty
        cases empty
    | arena large fits => omega
    | arenaFull large full => omega
  · intro x k allocates
    cases allocates with
    | refused small empty =>
        rw [stocked] at empty
        cases empty
    | lost small empty =>
        rw [stocked] at empty
        cases empty

/-- A class without free blocks links a chunk, or the request fails. -/
theorem allocate_empty {returns : Option Nat → Knowledge → Prop}
    (bounded : n + P.maxAlign ≤ addressLimit) (now : fact (.live v)) (small : n ≤ maxSmall)
    (empty : v.ledger.free (sizeClassOf n small) = [])
    (refilled : ∀ body rest, (chunkSlab (sizeClassOf n small) body).blocks
        (sizeClassOf n small).bytes = body :: rest →
      returns (some body)
        (.live ((v.link (sizeClassOf n small) body).take (sizeClassOf n small) n body rest)))
    (refused : ∀ x, throws x (.live v)) (lost : throws .badAlloc .broken) :
    ((AllocatorCall.interface P).always fact).Meets returns throws (allocate n) (.live v) := by
  apply allocate_meets bounded now
  · intro q k allocates
    cases allocates with
    | pool small stocked =>
        rw [empty] at stocked
        cases stocked
    | refilled small empty blocks => exact refilled _ _ blocks
    | arena large fits => omega
    | arenaFull large full => omega
  · intro x k allocates
    cases allocates with
    | refused small empty => exact refused x
    | lost small empty => exact lost

/-- A large request is cut off the arena while it fits. -/
theorem allocate_arena {returns : Option Nat → Knowledge → Prop}
    (bounded : n + P.maxAlign ≤ addressLimit) (now : fact (.live v)) (large : maxSmall < n)
    (fits : v.arenaUsed + v.arenaBytes P n ≤ kArenaCapacity →
      ∀ p, returns (some p) (.live (v.bump P n p)))
    (full : kArenaCapacity < v.arenaUsed + v.arenaBytes P n → returns none (.live v)) :
    ((AllocatorCall.interface P).always fact).Meets returns throws (allocate n) (.live v) := by
  apply allocate_meets bounded now
  · intro q k allocates
    cases allocates with
    | pool small stocked => omega
    | refilled small empty blocks => omega
    | arena large room => exact fits room _
    | arenaFull large beyond => exact full beyond
  · intro x k allocates
    cases allocates with
    | refused small empty => omega
    | lost small empty => omega

theorem free_meets {form : FreeForm} {v' : View} {returns : Unit → Knowledge → Prop}
    (now : fact (.live v)) (frees : v.Frees form p n v') (back : returns () (.live v')) :
    ((AllocatorCall.interface P).always fact).Meets returns throws
      (.call (.free form p n) .ret) (.live v) := by
  refine ⟨⟨.free frees, now⟩, ?_⟩
  intro r k told
  cases told with
  | free frees' only =>
      rw [← only _ frees]
      exact back

theorem deallocate_pool {returns : Unit → Knowledge → Prop} (now : fact (.live v))
    (small : n ≤ maxSmall) (out : p ∈ v.ledger.held (sizeClassOf n small))
    (back : returns () (.live (v.giveBack (sizeClassOf n small) n p))) :
    ((AllocatorCall.interface P).always fact).Meets returns throws (deallocate (some p) n)
      (.live v) :=
  free_meets now (.pool small out rfl) back

theorem deallocate_arena {returns : Unit → Knowledge → Prop} {b : Span} (now : fact (.live v))
    (large : maxSmall < n) (out : b ∈ v.ledger.bumped) (start : p = b.base)
    (back : returns () (.live (v.drop b))) :
    ((AllocatorCall.interface P).always fact).Meets returns throws (deallocate (some p) n)
      (.live v) :=
  free_meets now (.arena large out start) back

theorem deallocateContaining_pool {returns : Unit → Knowledge → Prop} {i : SizeClass}
    (now : fact (.live v)) (out : p ∈ v.ledger.held i)
    (back : returns () (.live (v.giveBack i i.bytes p))) :
    ((AllocatorCall.interface P).always fact).Meets returns throws
      (deallocateContaining p i.bytes) (.live v) := by
  have cls := sizeClassOf_bytes i
  apply free_meets now (.pool i.bytes_le (cls.symm ▸ out) ?_) (cls.symm ▸ back)
  rw [cls]
  exact Span.Holds.base i.bytes_positive

theorem classify_held {returns : Nat → Knowledge → Prop} {i : SizeClass} (now : fact (.live v))
    (out : p ∈ v.ledger.held i) (found : returns i.bytes (.live v)) :
    ((AllocatorCall.interface P).always fact).Meets returns throws (classify p) (.live v) := by
  have classifies : v.Classifies p i.bytes := .pool out (Span.Holds.base i.bytes_positive)
  refine ⟨⟨.classify classifies, now⟩, ?_⟩
  intro r k told
  cases told with
  | classify only =>
      rw [← only _ classifies]
      exact found

theorem stats_meets {returns : Stats → Knowledge → Prop} (now : fact (.live v))
    (told : returns v.stats (.live v)) :
    ((AllocatorCall.interface P).always fact).Meets returns throws stats (.live v) := by
  refine ⟨⟨.stats, now⟩, ?_⟩
  intro r k told'
  cases told'
  exact told

theorem write_meets {returns : Unit → Knowledge → Prop} {a cls : Nat} {b : UInt8}
    (now : fact (.live v)) (inside : v.Classifies a cls) (done : returns () (.live v)) :
    ((AllocatorCall.interface P).always fact).Meets returns throws (write a b) (.live v) := by
  refine ⟨⟨.write inside, now⟩, ?_⟩
  intro r k told
  cases told
  exact done

theorem release_meets {returns : Unit → Knowledge → Prop} (now : fact (.live v))
    (done : returns () (.live v)) :
    ((AllocatorCall.interface P).always fact).Meets returns throws (release p) (.live v) := by
  refine ⟨⟨.release, now⟩, ?_⟩
  intro r k told
  cases told
  exact done

theorem allocatorInstance_again {returns : Unit → Knowledge → Prop} (now : fact (.live v))
    (done : returns () (.live v)) :
    ((AllocatorCall.interface P).always fact).Meets returns throws allocatorInstance
      (.live v) := by
  refine ⟨⟨.again, now⟩, ?_⟩
  intro r k told
  cases told
  exact done

/-- The first call on a thread builds the allocator, or the thread has none still. -/
theorem allocatorInstance_first {returns : Unit → Knowledge → Prop} (now : fact .unborn)
    (built : ∀ slab, returns () (.live (View.new slab))) (failed : ∀ x, throws x .unborn) :
    ((AllocatorCall.interface P).always fact).Meets returns throws allocatorInstance
      .unborn := by
  refine ⟨⟨.first, now⟩, ?_⟩
  intro r k told
  cases told with
  | built slab => exact built slab
  | failed => exact failed _

/-- A request and the free of what it returned, the next thing the thread does. -/
theorem cycle_meets {returns : Unit → Knowledge → Prop} {i : SizeClass}
    (aligns : n + P.maxAlign ≤ addressLimit) (small : n ≤ maxSmall) (cls : sizeClassOf n small = i)
    (now : fact (.live v))
    (taken : ∀ w p rest, w.ledger.free i = p :: rest →
      w = v ∨ (∃ body, v.ledger.free i = [] ∧ w = v.link i body) → fact (.live (w.take i n p rest)))
    (stocked : v.ledger.free i ≠ [] → returns () (.live (v.cycle i n)))
    (refilled : v.ledger.free i = [] → ∀ body, returns () (.live ((v.link i body).cycle i n)))
    (refused : v.ledger.free i = [] → ∀ x, throws x (.live v))
    (lost : v.ledger.free i = [] → throws .badAlloc .broken) :
    ((AllocatorCall.interface P).always fact).Meets returns throws
      ((allocate n).bind fun p => deallocate p n) (.live v) := by
  subst cls
  apply Interface.Meets.andThen
  by_cases empty : v.ledger.free (sizeClassOf n small) = []
  · apply allocate_empty aligns now small empty
    · intro body rest blocks
      have head := View.link_stocked empty blocks
      apply deallocate_pool (taken _ _ _ head (Or.inr ⟨body, empty, rfl⟩)) small
      · simp [View.take, Ledger.take, Ledger.setPool]
      · rw [View.giveBack_take head]
        exact refilled empty body
    · exact refused empty
    · exact lost empty
  · obtain ⟨p, rest, head⟩ := List.exists_cons_of_ne_nil empty
    apply allocate_stocked aligns now small head
    apply deallocate_pool (taken _ _ _ head (Or.inl rfl)) small
    · simp [View.take, Ledger.take, Ledger.setPool]
    · rw [View.giveBack_take head]
      exact stocked empty

/-- What a thread finds after its first call: the allocator it has, or a new one. -/
inductive Begins : Knowledge → View → Prop
  | live (v : View) : Begins (.live v) v
  | unborn (slab : SizeClass → Nat) : Begins .unborn (View.new slab)

/-- `instance()` returns the thread's allocator, unless it cannot be built. -/
theorem allocatorInstance_meets {returns : Unit → Knowledge → Prop} {k : Knowledge}
    (known : k ≠ .broken) (now : fact k) (found : ∀ v, Begins k v → returns () (.live v))
    (failed : k = .unborn → ∀ x, throws x .unborn) :
    ((AllocatorCall.interface P).always fact).Meets returns throws allocatorInstance k := by
  cases k with
  | unborn =>
      apply allocatorInstance_first now
      · intro slab
        exact found _ (.unborn slab)
      · exact failed rfl
  | live v => exact allocatorInstance_again now (found v (.live v))
  | broken => exact absurd rfl known

/-- The rule for a loop whose body never breaks. -/
theorem repeated_meets {body : Nat → Task Unit} {returns : Unit → Knowledge → Prop}
    {first rounds : Nat} {k : Knowledge} (inv : Nat → Knowledge → Prop) (start : inv first k)
    (round : ∀ i k, first ≤ i → i < first + rounds → inv i k →
      ((AllocatorCall.interface P).always fact).Meets (fun _ => inv (i + 1)) throws (body i) k)
    (last : ∀ k, inv (first + rounds) k → returns () k) :
    ((AllocatorCall.interface P).always fact).Meets returns throws
      (repeated body first rounds) k := by
  apply Interface.Meets.loop (fun i _ => inv i) start
  · intro i _ k lower upper holds
    exact (round i k lower upper holds).bind (fun _ _ after => after)
  · intro _ k reached
    exact last k reached

end Rules

end Task

/-- The counters are seen one way only. -/
theorem Sees.stats {P : Platform} {s : Sys} {t : Nat} {v w : View} (first : Sees P s t (.live v))
    (second : Sees P s t (.live w)) : v.stats = w.stats := by
  cases first with
  | live view =>
      cases second with
      | live view' =>
          obtain ⟨rfl, rfl⟩ := Thread.live.inj (view.live.symm.trans view'.live)
          exact view.stats.symm.trans view'.stats

theorem Task.Begins.stats {k : Knowledge} {v w : View} (first : Task.Begins k v)
    (second : Task.Begins k w) : v.stats = w.stats := by
  cases first with
  | live => cases second; rfl
  | unborn => cases second; rfl

theorem Platform.Aligns.bounded {P : Platform} (aligns : P.Aligns) {n : Nat} (few : n ≤ 1048576) :
    n + P.maxAlign ≤ addressLimit := by
  have within : P.maxAlign ≤ kArenaCapacity := Nat.le_of_dvd (by decide) aligns.whole
  have capacity : kArenaCapacity = 4194304 := rfl
  simp only [addressLimit]
  omega

/-- Threads that run tasks, and what one moment of theirs may lead to. -/
abbrev TaskCrew (α : Type) : Type := Crew AllocatorCall.Answer Exn α Sys

abbrev TaskCrew.Step (P : Platform) {α : Type} :
    TaskCrew α → Crew.Event AllocatorCall.Answer → TaskCrew α → Prop :=
  Crew.Step (AllocatorCall.Does P) (AllocatorCall.Around P)

/-- The thread can come to the end of its task by its own steps alone. -/
def TaskCrew.Finishes (P : Platform) {α : Type} (x : TaskCrew α) (t : Nat) : Prop :=
  ∃ trace y q, Run (TaskCrew.Step P) x trace y ∧ (∀ e ∈ trace, e.event.By t) ∧
    y.programs t = some q ∧ Crew.Over q

/-- Every thread is about to run its task, and knows its allocator or has none yet. -/
structure TaskCrew.Starts (P : Platform) {α : Type} (x : TaskCrew α) (tasks : Nat → Task α)
    (begins : Nat → Knowledge) : Prop where
  inv : SysInv x.shared
  tasks : ∀ t p, x.programs t = some p → p = tasks t
  sees : ∀ t p, x.programs t = some p → Sees P x.shared t (begins t)

/-- The threads' programs meet their postconditions from what the threads know. -/
theorem TaskCrew.Starts.sound {P : Platform} {α : Type} {fact : Nat → Knowledge → Prop}
    {returns : Nat → α → Knowledge → Prop} {throws : Nat → Exn → Knowledge → Prop}
    {x : TaskCrew α} {tasks : Nat → Task α} {begins : Nat → Knowledge}
    (starts : x.Starts P tasks begins)
    (meets : ∀ t, ((AllocatorCall.interface P).always (fact t)).Meets (returns t) (throws t)
      (tasks t) (begins t)) :
    x.Sound (AllocatorCall.interface P) SysInv (Sees P) fact returns throws := by
  refine ⟨starts.inv, ?_⟩
  intro u q first
  refine ⟨begins u, starts.sees u q first, ?_⟩
  rw [starts.tasks u q first]
  exact meets u

/-- What holds at every moment of every interleaving of threads whose programs meet their
postconditions: every thread can finish, and each has come to where its task says. -/
theorem TaskCrew.Starts.interleaved {P : Platform} {α : Type} {fact : Nat → Knowledge → Prop}
    {returns : Nat → α → Knowledge → Prop} {throws : Nat → Exn → Knowledge → Prop}
    {x y : TaskCrew α} {tasks : Nat → Task α} {begins : Nat → Knowledge}
    {trace : List (Transition (TaskCrew α) (Crew.Event AllocatorCall.Answer))}
    (starts : x.Starts P tasks begins) (aligns : P.Aligns)
    (meets : ∀ t, ((AllocatorCall.interface P).always (fact t)).Meets (returns t) (throws t)
      (tasks t) (begins t))
    (run : Run (TaskCrew.Step P) x trace y) {t : Nat} {p : Task α}
    (running : y.programs t = some p) :
    y.Finishes P t ∧
      ∃ k, Sees P y.shared t k ∧ Interface.Now (returns t) (throws t) (fact t) p k := by
  have after := (starts.sound meets).run (AllocatorCall.truthful aligns) run
  constructor
  · apply after.finishes (AllocatorCall.truthful aligns) _ running
    intro s u k c sees allowed
    exact AllocatorCall.possible sees allowed
  · obtain ⟨k, sees, meets⟩ := after.programs t p running
    exact ⟨k, sees, meets.now⟩

/-- A process in which some threads, none of which has an allocator yet, are about to run tasks. -/
def TaskCrew.launch {α : Type} (tasks : Nat → Task α) (threads : Nat) : TaskCrew α :=
  ⟨Sys.initial (fun _ => 0) Heap.empty, fun t => if t < threads then some (tasks t) else none⟩

theorem TaskCrew.Starts.launch {P : Platform} {α : Type} (tasks : Nat → Task α) (threads : Nat) :
    (TaskCrew.launch tasks threads).Starts P tasks fun _ => .unborn := by
  refine ⟨SysInv.initial _ _, ?_, fun t p _ => .unborn rfl⟩
  intro t p running
  simp only [TaskCrew.launch] at running
  split at running
  · exact (Option.some.inj running).symm
  · cases running

theorem desktop_aligns : desktop.Aligns := ⟨⟨4, by decide, rfl⟩, by decide, by decide⟩

def TaskCrew.solo {α : Type} (s : Sys) (task : Task α) : TaskCrew α :=
  ⟨s, fun t => if t = 0 then some task else none⟩

theorem TaskCrew.Starts.solo {P : Platform} {α : Type} {s : Sys} {k : Knowledge} (inv : SysInv s)
    (sees : Sees P s 0 k) (task : Task α) :
    (TaskCrew.solo s task).Starts P (fun _ => task) fun _ => k := by
  refine ⟨inv, ?_, ?_⟩ <;> intro t p running <;> simp only [TaskCrew.solo] at running <;>
    split at running
  · exact (Option.some.inj running).symm
  · cases running
  · subst t
    exact sees
  · cases running

/-- A thread that has just built its allocator. -/
theorem Sees.new_possible : ∃ (s : Sys) (slab : SizeClass → Nat),
    SysInv s ∧ Sees desktop s 0 (.live (View.new slab)) := by
  obtain ⟨a, m', h', built, _⟩ := SingleThreadAllocator.new_possible (Owner.slab 0)
    (.arena 0) (fun _ => 0) Heap.empty (Nat.dvd_zero 1048576) (by decide)
    (fun b member => by cases member)
  have inv := SysInv.initial (fun _ => 0) Heap.empty
  have taken : Sys.Step desktop (Sys.initial (fun _ => 0) Heap.empty) (.start 0 (.ok ())) _ :=
    .start rfl built
  have bounded : (Sys.Event.start 0 (.ok ())).Bounded desktop := trivial
  exact ⟨_, _, (AllocatorCall.undisturbed desktop_aligns inv bounded taken).1,
    .live (View.Of.new inv rfl built)⟩

/-- A task that cannot throw on a thread with a new allocator comes to its return there. -/
theorem TaskCrew.returns_once {α : Type} (task : Task α)
    (meets : ∀ slab, ((AllocatorCall.interface desktop).always fun _ => True).Meets
      (fun _ _ => True) (fun _ _ => False) task (.live (View.new slab))) :
    ∃ (x y : TaskCrew α) (slab : SizeClass → Nat) (a : α)
      (trace : List (Transition (TaskCrew α) (Crew.Event AllocatorCall.Answer))),
      x.Starts desktop (fun _ => task) (fun _ => .live (View.new slab)) ∧
        Run (TaskCrew.Step desktop) x trace y ∧ y.programs 0 = some (.ret a) := by
  obtain ⟨s, slab, inv, sees⟩ := Sees.new_possible
  have starts := TaskCrew.Starts.solo inv sees task
  have each (t : Nat) := meets slab
  obtain ⟨trace, y, q, run, _, ended, halted⟩ :=
    (starts.interleaved desktop_aligns each .nil (t := 0) rfl).1
  obtain ⟨_, k, _, now⟩ := starts.interleaved desktop_aligns each run ended
  cases halted with
  | ret a => exact ⟨_, y, slab, a, trace, starts, run, ended⟩
  | throw e => exact now.elim

end MemAlloc
