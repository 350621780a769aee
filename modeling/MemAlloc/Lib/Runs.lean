import Mathlib.Data.List.Forall2

set_option autoImplicit false

/- Labelled transition systems, their finite runs, and the induction rules for them. -/
namespace Runs

universe u v w x

/-- One step of a run, with the states on both sides. -/
structure Transition (σ : Type u) (ε : Type v) where
  before : σ
  event : ε
  after : σ

/-- Finite runs from `init`, with every transition taken, oldest first. -/
inductive Run {σ : Type u} {ε : Type v} (step : σ → ε → σ → Prop) (init : σ) :
    List (Transition σ ε) → σ → Prop
  | nil : Run step init [] init
  | snoc {trace : List (Transition σ ε)} {s t : σ} {e : ε} :
      Run step init trace s → step s e t → Run step init (trace ++ [⟨s, e, t⟩]) t

variable {σ : Type u} {ε : Type v} {step : σ → ε → σ → Prop} {init : σ}

/-- What holds at the start and is kept by every step that meets `cond` holds after a
run all of whose steps meet it. -/
theorem Run.invariantWhere {inv : σ → Prop} {cond : σ → ε → Prop} (start : inv init)
    (keep : ∀ s e t, inv s → cond s e → step s e t → inv t)
    {trace : List (Transition σ ε)} {s : σ} (run : Run step init trace s)
    (meets : ∀ x ∈ trace, cond x.before x.event) : inv s := by
  induction run with
  | nil => exact start
  | @snoc trace s t e run taken ih =>
      have earlier := ih (fun x member => meets x (List.mem_append_left _ member))
      exact keep s e t earlier (meets ⟨s, e, t⟩ (by simp)) taken

/-- An inductive invariant holds in every reachable state. -/
theorem Run.invariant {inv : σ → Prop} (start : inv init)
    (keep : ∀ s e t, inv s → step s e t → inv t)
    {trace : List (Transition σ ε)} {s : σ} (run : Run step init trace s) : inv s := by
  have kept : ∀ s e t, inv s → True → step s e t → inv t := fun s e t holds _ => keep s e t holds
  exact run.invariantWhere start kept (fun _ _ => trivial)

/-- Every transition of a run is a step from a state that a prefix of the run reaches. -/
theorem Run.reached {trace : List (Transition σ ε)} {s : σ} (run : Run step init trace s) :
    ∀ x ∈ trace, ∃ past rest, trace = past ++ x :: rest ∧ Run step init past x.before ∧
      step x.before x.event x.after := by
  induction run with
  | nil => intro x member; cases member
  | @snoc trace s t e run taken ih =>
      intro x member
      rcases List.mem_append.mp member with member | member
      · obtain ⟨past, rest, split, reached, stepped⟩ := ih x member
        exact ⟨past, rest ++ [⟨s, e, t⟩], by simp [split], reached, stepped⟩
      · obtain rfl := List.mem_singleton.mp member
        exact ⟨trace, [], rfl, run, taken⟩

/-- The invariant of a conditioned run also holds before each of its steps. -/
theorem Run.invariantBefore {inv : σ → Prop} {cond : σ → ε → Prop} (start : inv init)
    (keep : ∀ s e t, inv s → cond s e → step s e t → inv t)
    {trace : List (Transition σ ε)} {s : σ} (run : Run step init trace s)
    (meets : ∀ x ∈ trace, cond x.before x.event) : ∀ x ∈ trace, inv x.before := by
  intro x member
  obtain ⟨past, rest, split, reached, _⟩ := run.reached x member
  exact reached.invariantWhere start keep
    (fun y earlier => meets y (by rw [split]; exact List.mem_append_left _ earlier))

/-- A transitive relation that holds across every conditioned step holds
between any two states of the run, the earlier one first. -/
theorem Run.ascending {inv : σ → Prop} {cond : σ → ε → Prop} {rel : σ → σ → Prop}
    (trans : ∀ s t u, rel s t → rel t u → rel s u) (start : inv init)
    (keep : ∀ s e t, inv s → cond s e → step s e t → inv t)
    (advance : ∀ s e t, inv s → cond s e → step s e t → rel s t)
    {trace : List (Transition σ ε)} {s : σ} (run : Run step init trace s)
    (meets : ∀ x ∈ trace, cond x.before x.event) :
    trace.Pairwise (fun x y => rel x.before y.before) ∧ ∀ x ∈ trace, rel x.before s := by
  induction run with
  | nil => exact ⟨.nil, fun x member => by cases member⟩
  | @snoc trace s t e run taken ih =>
      have earlier : ∀ x ∈ trace, cond x.before x.event :=
        fun x member => meets x (List.mem_append_left _ member)
      obtain ⟨ordered, below⟩ := ih earlier
      have holds := run.invariantWhere start keep earlier
      have now := advance s e t holds (meets ⟨s, e, t⟩ (by simp)) taken
      refine ⟨List.pairwise_append.mpr ⟨ordered, List.pairwise_singleton _ _, ?_⟩, ?_⟩
      · intro x old y new
        obtain rfl := List.mem_singleton.mp new
        exact below x old
      · intro x member
        rcases List.mem_append.mp member with old | new
        · exact trans _ _ _ (below x old) now
        · obtain rfl := List.mem_singleton.mp new
          exact now

theorem Run.append {middle last : σ} {first second : List (Transition σ ε)}
    (front : Run step init first middle) (back : Run step middle second last) :
    Run step init (first ++ second) last := by
  induction back with
  | nil => simpa using front
  | snoc _ taken ih =>
      rw [← List.append_assoc]
      exact ih.snoc taken

/-- A run of a system is a run of every system that allows at least its steps. -/
theorem Run.mono {wider : σ → ε → σ → Prop} (allowed : ∀ s e t, step s e t → wider s e t)
    {trace : List (Transition σ ε)} {s : σ} (run : Run step init trace s) :
    Run wider init trace s := by
  induction run with
  | nil => exact .nil
  | snoc _ taken ih => exact ih.snoc (allowed _ _ _ taken)

/-- A run all of whose transitions meet a condition is a run of the system that allows no
others. -/
theorem Run.restrict {cond : σ → ε → σ → Prop} {trace : List (Transition σ ε)} {s : σ}
    (run : Run step init trace s) (meets : ∀ x ∈ trace, cond x.before x.event x.after) :
    Run (fun s e t => step s e t ∧ cond s e t) init trace s := by
  induction run with
  | nil => exact .nil
  | @snoc trace s t e _ taken ih =>
      have earlier := ih (fun x member => meets x (List.mem_append_left _ member))
      exact earlier.snoc ⟨taken, meets ⟨s, e, t⟩ (by simp)⟩

/-- Forward simulation: an abstract system that can answer each step from a related
state follows a whole run with the same events. -/
theorem Run.simulate {α : Type w} {abstractStep : α → ε → α → Prop} {rel : σ → α → Prop}
    {abstractInit : α} (start : rel init abstractInit)
    (answer : ∀ s e t a, rel s a → step s e t → ∃ b, abstractStep a e b ∧ rel t b)
    {trace : List (Transition σ ε)} {s : σ} (run : Run step init trace s) :
    ∃ abstractTrace a, Run abstractStep abstractInit abstractTrace a ∧ rel s a ∧
      abstractTrace.map Transition.event = trace.map Transition.event := by
  induction run with
  | nil => exact ⟨[], abstractInit, .nil, start, rfl⟩
  | @snoc trace s t e _ taken ih =>
      obtain ⟨abstractTrace, a, abstractRun, related, events⟩ := ih
      obtain ⟨b, answered, next⟩ := answer s e t a related taken
      exact ⟨abstractTrace ++ [⟨a, e, b⟩], b, abstractRun.snoc answered, next, by simp [events]⟩

/-- Forward simulation with events of its own: the abstract system answers each step with one
that shows it. -/
theorem Run.follow {α : Type w} {δ : Type x} {abstractStep : α → δ → α → Prop}
    {cond : σ → ε → Prop} {rel : σ → α → Prop} {shown : σ → ε → δ → Prop} {abstractInit : α}
    (start : rel init abstractInit)
    (answer : ∀ s e t a, rel s a → cond s e → step s e t →
      ∃ d b, shown s e d ∧ abstractStep a d b ∧ rel t b)
    {trace : List (Transition σ ε)} {s : σ} (run : Run step init trace s)
    (meets : ∀ x ∈ trace, cond x.before x.event) :
    ∃ abstractTrace a, Run abstractStep abstractInit abstractTrace a ∧ rel s a ∧
      List.Forall₂ (fun x y => shown x.before x.event y.event) trace abstractTrace := by
  induction run with
  | nil => exact ⟨[], abstractInit, .nil, start, .nil⟩
  | @snoc trace s t e _ taken ih =>
      obtain ⟨abstractTrace, a, abstractRun, related, events⟩ :=
        ih (fun x member => meets x (List.mem_append_left _ member))
      obtain ⟨d, b, shows, answered, next⟩ :=
        answer s e t a related (meets ⟨s, e, t⟩ (by simp)) taken
      refine ⟨abstractTrace ++ [⟨a, d, b⟩], b, abstractRun.snoc answered, next, ?_⟩
      exact List.rel_append events (.cons shows .nil)

end Runs
