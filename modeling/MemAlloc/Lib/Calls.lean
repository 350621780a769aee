import Mathlib.Logic.Function.Basic
import MemAlloc.Lib.Runs

set_option autoImplicit false

/- Functions that call each other on the stacks of concurrent threads. The state is shared; what
an action does to it, and how it answers, is a parameter. -/
namespace Calls

universe u v w x y

/-- The rest of a function's body. `scope` performs an action, then its body, and on the way out
one of two other actions, the second when the body throws. -/
inductive Code (φ : Type u) {α : Type v} (R : α → Type w) (β : Type x) :
    Type (max u v w x)
  | ret (x : β)
  | throw
  | act (a : α) (k : R a → Code φ R β)
  | call (f : φ) (k : β → Code φ R β)
  | scope (a : α) (done failed : R a → α) (body : Code φ R β) (k : β → Code φ R β)

/-- What a stack holds below the running code: a call's continuation, or the end of a scope. -/
inductive Frame (φ : Type u) {α : Type v} (R : α → Type w) (β : Type x) :
    Type (max u v w x)
  | after (k : β → Code φ R β)
  | leaving (done failed : α) (k : β → Code φ R β)

structure Thread (φ : Type u) {α : Type v} (R : α → Type w) (β : Type x) :
    Type (max u v w x) where
  code : Code φ R β
  frames : List (Frame φ R β)

inductive Label (φ : Type u) {α : Type v} (R : α → Type w) : Type (max u v w)
  | performs (a : α) (r : R a)
  | calls (f : φ)
  | silent

variable {φ : Type u} {α : Type v} {R : α → Type w} {β : Type x} {σ : Type y}

/-- The code has run to its end. -/
inductive Code.Final : Code φ R β → Prop
  | ret (x : β) : Final (.ret x)
  | throw : Final .throw

/-- One step of a thread. -/
inductive Moves (body : φ → Code φ R β) (does : (a : α) → σ → R a → σ → Prop) :
    Thread φ R β → σ → Label φ R → Thread φ R β → σ → Prop
  | act {a : α} {k : R a → Code φ R β} {frames : List (Frame φ R β)} {s s' : σ} {r : R a}
      (performed : does a s r s') :
      Moves body does ⟨.act a k, frames⟩ s (.performs a r) ⟨k r, frames⟩ s'
  | call {f : φ} {k : β → Code φ R β} {frames : List (Frame φ R β)} {s : σ} :
      Moves body does ⟨.call f k, frames⟩ s (.calls f) ⟨body f, .after k :: frames⟩ s
  | enter {a : α} {done failed : R a → α} {inner : Code φ R β} {k : β → Code φ R β}
      {frames : List (Frame φ R β)} {s s' : σ} {r : R a} (performed : does a s r s') :
      Moves body does ⟨.scope a done failed inner k, frames⟩ s (.performs a r)
        ⟨inner, .leaving (done r) (failed r) k :: frames⟩ s'
  | ret {x : β} {k : β → Code φ R β} {frames : List (Frame φ R β)} {s : σ} :
      Moves body does ⟨.ret x, .after k :: frames⟩ s .silent ⟨k x, frames⟩ s
  | throw {k : β → Code φ R β} {frames : List (Frame φ R β)} {s : σ} :
      Moves body does ⟨.throw, .after k :: frames⟩ s .silent ⟨.throw, frames⟩ s
  | leave {x : β} {a b : α} {k : β → Code φ R β} {frames : List (Frame φ R β)} {s s' : σ}
      {r : R a} (performed : does a s r s') :
      Moves body does ⟨.ret x, .leaving a b k :: frames⟩ s (.performs a r) ⟨k x, frames⟩ s'
  | unwind {a b : α} {k : β → Code φ R β} {frames : List (Frame φ R β)} {s s' : σ} {r : R b}
      (performed : does b s r s') :
      Moves body does ⟨.throw, .leaving a b k :: frames⟩ s (.performs b r) ⟨.throw, frames⟩ s'

/-- A call made with `base` on the stack has come to its end. -/
structure Ended (base : List (Frame φ R β)) (thread : Thread φ R β) : Prop where
  frames : thread.frames = base
  final : thread.code.Final

/-- Code that has come to the end of a scope with one way out takes it. -/
theorem Ended.leaves {body : φ → Code φ R β} {does : (a : α) → σ → R a → σ → Prop} {a : α}
    {base : List (Frame φ R β)} {thread thread' : Thread φ R β} {s s' : σ} {l : Label φ R}
    (ended : Ended (.leaving a a .ret :: base) thread)
    (moves : Moves body does thread s l thread' s') :
    Ended base thread' ∧ ∃ r, l = .performs a r ∧ does a s r s' := by
  obtain ⟨split, final⟩ := ended
  cases moves with
  | act performed => cases final
  | call => cases final
  | enter performed => cases final
  | ret => cases split
  | throw => cases split
  | @leave x b c k frames s s' r performed =>
      cases split
      exact ⟨⟨rfl, .ret x⟩, r, rfl, performed⟩
  | @unwind b c k frames s s' r performed =>
      cases split
      exact ⟨⟨rfl, .throw⟩, r, rfl, performed⟩

section Confinement

/- A set of functions, a set of actions, and how these may answer. -/
variable (functions : φ → Prop) (permitted : α → Prop) (answers : (a : α) → R a → Prop)

/-- The code calls only such functions and performs only such actions, whatever these answer. -/
def Code.Confined : Code φ R β → Prop
  | .ret _ => True
  | .throw => True
  | .act a k => permitted a ∧ ∀ r, answers a r → (k r).Confined
  | .call f k => functions f ∧ ∀ x, (k x).Confined
  | .scope a done failed body k => permitted a ∧
      (∀ r, answers a r → permitted (done r) ∧ permitted (failed r)) ∧ body.Confined ∧
      ∀ x, (k x).Confined

def Frame.Confined : Frame φ R β → Prop
  | .after k => ∀ x, (k x).Confined functions permitted answers
  | .leaving done failed k => permitted done ∧ permitted failed ∧
      ∀ x, (k x).Confined functions permitted answers

def Label.Confined : Label φ R → Prop
  | .performs a r => permitted a ∧ answers a r
  | .calls f => functions f
  | .silent => True

/-- What runs above `base` is confined. -/
structure Inside (base : List (Frame φ R β)) (thread : Thread φ R β) : Prop where
  code : thread.code.Confined functions permitted answers
  above : ∃ above, thread.frames = above ++ base ∧
    ∀ frame ∈ above, frame.Confined functions permitted answers

/-- The functions call no others, and where the invariant holds the actions answer as expected
and keep it. -/
structure Closed (body : φ → Code φ R β) (does : (a : α) → σ → R a → σ → Prop)
    (inv : σ → Prop) : Prop where
  bodies : ∀ f, functions f → (body f).Confined functions permitted answers
  keeps : ∀ a s r s', inv s → permitted a → does a s r s' → answers a r ∧ inv s'

variable {functions permitted answers} {body : φ → Code φ R β}
  {does : (a : α) → σ → R a → σ → Prop} {inv : σ → Prop} {base : List (Frame φ R β)}
  {thread thread' : Thread φ R β} {s s' : σ} {l : Label φ R}

theorem Inside.start {code : Code φ R β} (confined : code.Confined functions permitted answers) :
    Inside functions permitted answers base ⟨code, base⟩ :=
  ⟨confined, [], rfl, List.forall_mem_nil _⟩

/-- Until the confined code has come to its end, a step leaves it confined. -/
theorem Inside.moves (closed : Closed functions permitted answers body does inv)
    (inside : Inside functions permitted answers base thread) (holds : inv s)
    (running : ¬ Ended base thread) (moves : Moves body does thread s l thread' s') :
    Inside functions permitted answers base thread' ∧ inv s' ∧
      l.Confined functions permitted answers := by
  obtain ⟨code, above, split, confined⟩ := inside
  cases moves with
  | @act a k frames s s' r performed =>
      obtain ⟨permit, rest⟩ := code
      obtain ⟨answer, after⟩ := closed.keeps a s r s' holds permit performed
      exact ⟨⟨rest r answer, above, split, confined⟩, after, permit, answer⟩
  | @call f k frames s =>
      obtain ⟨known, rest⟩ := code
      refine ⟨⟨closed.bodies f known, .after k :: above, congrArg _ split, ?_⟩, holds, known⟩
      exact List.forall_mem_cons.mpr ⟨rest, confined⟩
  | @enter a done failed inner k frames s s' r performed =>
      obtain ⟨permit, ends, inner, rest⟩ := code
      obtain ⟨answer, after⟩ := closed.keeps a s r s' holds permit performed
      obtain ⟨first, second⟩ := ends r answer
      refine ⟨⟨inner, .leaving (done r) (failed r) k :: above, congrArg _ split, ?_⟩, after,
        permit, answer⟩
      exact List.forall_mem_cons.mpr ⟨⟨first, second, rest⟩, confined⟩
  | @ret x k frames s =>
      cases above with
      | nil => exact absurd ⟨split, .ret x⟩ running
      | cons frame above =>
          obtain ⟨rfl, rest⟩ := List.cons.inj split
          obtain ⟨here, others⟩ := List.forall_mem_cons.mp confined
          exact ⟨⟨here x, above, rest, others⟩, holds, trivial⟩
  | @throw k frames s =>
      cases above with
      | nil => exact absurd ⟨split, .throw⟩ running
      | cons frame above =>
          obtain ⟨rfl, rest⟩ := List.cons.inj split
          obtain ⟨_, others⟩ := List.forall_mem_cons.mp confined
          exact ⟨⟨trivial, above, rest, others⟩, holds, trivial⟩
  | @leave x a b k frames s s' r performed =>
      cases above with
      | nil => exact absurd ⟨split, .ret x⟩ running
      | cons frame above =>
          obtain ⟨rfl, rest⟩ := List.cons.inj split
          obtain ⟨⟨permit, _, here⟩, others⟩ := List.forall_mem_cons.mp confined
          obtain ⟨answer, after⟩ := closed.keeps a s r s' holds permit performed
          exact ⟨⟨here x, above, rest, others⟩, after, permit, answer⟩
  | @unwind a b k frames s s' r performed =>
      cases above with
      | nil => exact absurd ⟨split, .throw⟩ running
      | cons frame above =>
          obtain ⟨rfl, rest⟩ := List.cons.inj split
          obtain ⟨⟨_, permit, _⟩, others⟩ := List.forall_mem_cons.mp confined
          obtain ⟨answer, after⟩ := closed.keeps b s r s' holds permit performed
          exact ⟨⟨trivial, above, rest, others⟩, after, permit, answer⟩

end Confinement

/-- The threads, and the state they share. -/
structure System (φ : Type u) {α : Type v} (R : α → Type w) (β : Type x) (σ : Type y) :
    Type (max u v w x y) where
  threads : Nat → Thread φ R β
  shared : σ

inductive Event (φ : Type u) {α : Type v} (R : α → Type w) : Type (max u v w)
  | entered (t : Nat) (f : φ)
  | moved (t : Nat) (l : Label φ R)
  | elsewhere

/-- The steps of all threads, interleaved. An idle thread may call any entry point, and the rest
of the program changes the state as it may. -/
inductive Step (body : Nat → φ → Code φ R β) (does : Nat → (a : α) → σ → R a → σ → Prop)
    (entry : φ → Prop) (rest : σ → σ → Prop) :
    System φ R β σ → Event φ R → System φ R β σ → Prop
  | entered {s : System φ R β σ} {t : Nat} {f : φ} (allowed : entry f)
      (idle : Ended [] (s.threads t)) :
      Step body does entry rest s (.entered t f)
        { s with threads := Function.update s.threads t ⟨body t f, []⟩ }
  | moved {s : System φ R β σ} {t : Nat} {l : Label φ R} {thread : Thread φ R β} {shared : σ}
      (moves : Moves (body t) (does t) (s.threads t) s.shared l thread shared) :
      Step body does entry rest s (.moved t l) ⟨Function.update s.threads t thread, shared⟩
  | elsewhere {s : System φ R β σ} {shared : σ} (changed : rest s.shared shared) :
      Step body does entry rest s .elsewhere { s with shared := shared }

/-- Steps of one thread on its own, while the call made with `base` on the stack lasts. -/
inductive Path (body : φ → Code φ R β) (does : (a : α) → σ → R a → σ → Prop)
    (base : List (Frame φ R β)) :
    Thread φ R β → σ → List (Label φ R) → Thread φ R β → σ → Prop
  | nil {thread : Thread φ R β} {s : σ} : Path body does base thread s [] thread s
  | cons {thread thread' last : Thread φ R β} {s s' final : σ} {l : Label φ R}
      {labels : List (Label φ R)} (running : ¬ Ended base thread)
      (moves : Moves body does thread s l thread' s')
      (rest : Path body does base thread' s' labels last final) :
      Path body does base thread s (l :: labels) last final

/-- Nothing need come between the steps of a thread. -/
theorem Path.run {body : Nat → φ → Code φ R β} {does : Nat → (a : α) → σ → R a → σ → Prop}
    {entry : φ → Prop} {rest : σ → σ → Prop} {t : Nat} {base : List (Frame φ R β)}
    {thread last : Thread φ R β} {shared final : σ} {labels : List (Label φ R)}
    (path : Path (body t) (does t) base thread shared labels last final) :
    ∀ {s : System φ R β σ}, s.threads t = thread → s.shared = shared →
      ∃ trace s', Runs.Run (Step body does entry rest) s trace s' ∧
        (∀ x ∈ trace, ¬ Ended base (x.before.threads t)) ∧
        trace.map Runs.Transition.event = labels.map (Event.moved t) ∧
        s'.threads t = last ∧ s'.shared = final := by
  induction path with
  | nil =>
      intro s here shared
      exact ⟨[], s, .nil, List.forall_mem_nil _, rfl, here, shared⟩
  | @cons thread thread' last sh sh' final l labels running moves _ ih =>
      intro s here shared
      subst here
      subst shared
      let s₁ : System φ R β σ := ⟨Function.update s.threads t thread', sh'⟩
      have first : Step body does entry rest s (.moved t l) s₁ := .moved moves
      have next : s₁.threads t = thread' := Function.update_self _ _ _
      obtain ⟨trace, s', run, during, events, there, state⟩ := ih next rfl
      refine ⟨_, s', (Runs.Run.nil.snoc first).append run, ?_, ?_, there, state⟩
      · intro x member
        rcases List.mem_append.mp member with front | back
        · obtain rfl := List.mem_singleton.mp front
          exact running
        · exact during x back
      · rw [List.map_append, events]
        rfl

end Calls
