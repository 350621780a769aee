import MemAlloc.Lib.Calls

set_option autoImplicit false

/- Rules of pre- and postconditions for functions that call each other. A thread's view is what it
can tell of the shared state: its own actions change it in a known way, and nobody else's do. -/
namespace Calls

universe u v w x y z

/-- What the actions need and do, as far as the thread that performs them can tell. -/
structure Effects {α : Type v} (R : α → Type w) (κ : Type z) where
  needs : α → κ → Prop
  does : (a : α) → κ → R a → κ → Prop

/-- What a call needs, and what then holds when it has returned a value, or thrown. -/
structure Contract (φ : Type u) (β : Type x) (κ : Type z) where
  needs : φ → κ → Prop
  ensures : φ → κ → Option β → κ → Prop

variable {φ : Type u} {α : Type v} {R : α → Type w} {β : Type x} {σ : Type y} {κ : Type z}

/-- The action is allowed, and `after` holds of whatever comes of it. -/
def Effects.Performs (E : Effects R κ) (a : α) (after : R a → κ → Prop) (v : κ) : Prop :=
  E.needs a v ∧ ∀ r v', E.does a v r v' → after r v'

/-- The two ways out of a scope: the first action and what comes next, or the second one. -/
def Effects.Leaving (E : Effects R κ) (done failed : α) (next : β → κ → Prop)
    (after : Option β → κ → Prop) : Option β → κ → Prop
  | some x => E.Performs done fun _ => next x
  | none => E.Performs failed fun _ => after none

section Rules

variable (E : Effects R κ) (C : Contract φ β κ)

/-- From `v` on the code performs only actions and makes only calls that are allowed, and ends as
`after` says. -/
def Code.Meets (after : Option β → κ → Prop) : Code φ R β → κ → Prop
  | .ret x, v => after (some x) v
  | .throw, v => after none v
  | .act a k, v => E.Performs a (fun r => (k r).Meets after) v
  | .call f k, v => C.needs f v ∧ (∀ x v', C.ensures f v (some x) v' → (k x).Meets after v') ∧
      ∀ v', C.ensures f v none v' → after none v'
  | .scope a done failed body k, v =>
      E.Performs a
        (fun r => body.Meets (E.Leaving (done r) (failed r) (fun x => (k x).Meets after) after)) v

/-- What the frames of a stack ask of the code above them; `last` is asked at the end. -/
def resume (last : Option β → κ → Prop) : List (Frame φ R β) → Option β → κ → Prop
  | [], o => last o
  | .after k :: frames, some x => (k x).Meets E C (resume last frames)
  | .after _ :: frames, none => resume last frames none
  | .leaving done failed k :: frames, o =>
      E.Leaving done failed (fun x => (k x).Meets E C (resume last frames)) (resume last frames) o

def Thread.Meets (last : Option β → κ → Prop) (thread : Thread φ R β) (v : κ) : Prop :=
  thread.code.Meets E C (resume E C last thread.frames) v

/-- Every body meets its contract, given those of the functions it calls. -/
def Contract.Kept (body : φ → Code φ R β) : Prop :=
  ∀ f v, C.needs f v → (body f).Meets E C (C.ensures f v) v

variable {E C} {after after' last : Option β → κ → Prop} {v : κ}

theorem Effects.Performs.mono {a : α} {first second : R a → κ → Prop}
    (performs : E.Performs a first v) (weaker : ∀ r v', first r v' → second r v') :
    E.Performs a second v :=
  ⟨performs.1, fun r v' done => weaker r v' (performs.2 r v' done)⟩

theorem Code.Meets.mono {code : Code φ R β} (meets : code.Meets E C after v)
    (weaker : ∀ o v', after o v' → after' o v') : code.Meets E C after' v := by
  induction code generalizing after after' v with
  | ret x => exact weaker _ v meets
  | throw => exact weaker _ v meets
  | act a k ih => exact meets.mono (fun r v' rest => ih r rest weaker)
  | call f k ih =>
      obtain ⟨allowed, returned, thrown⟩ := meets
      exact ⟨allowed, fun x v' ensured => ih x (returned x v' ensured) weaker,
        fun v' ensured => weaker _ v' (thrown v' ensured)⟩
  | scope a done failed body k ihbody ih =>
      obtain ⟨allowed, inner⟩ := meets
      refine ⟨allowed, fun r v' done => ?_⟩
      apply ihbody (inner r v' done)
      intro o v'' leaving
      cases o with
      | some x => exact leaving.mono (fun _ v rest => ih x rest weaker)
      | none => exact leaving.mono (fun _ v rest => weaker _ v rest)

/-- Code that makes no calls, and performs only actions that are always allowed and change nothing
that the thread can tell, leaves the view as it is. -/
theorem Code.Confined.meets {permitted : α → Prop} {code : Code φ R β}
    (confined : code.Confined (fun _ => False) permitted (fun _ _ => True))
    (allowed : ∀ a, permitted a → E.needs a v)
    (unchanged : ∀ a r v', permitted a → E.does a v r v' → v' = v) :
    code.Meets E C (fun _ v' => v' = v) v := by
  have performs {a : α} {after : R a → κ → Prop} (here : permitted a)
      (rest : ∀ r, after r v) : E.Performs a after v :=
    ⟨allowed a here, fun r v' done => unchanged a r v' here done ▸ rest r⟩
  induction code with
  | ret x => rfl
  | throw => rfl
  | act a k ih => exact performs confined.1 (fun r => ih r (confined.2 r trivial))
  | call f k ih => exact confined.1.elim
  | scope a done failed body k ihbody ih =>
      obtain ⟨here, ends, inner, next⟩ := confined
      apply performs here
      intro r
      apply (ihbody inner).mono
      rintro (_ | x) v' rfl
      · exact performs (ends r trivial).2 (fun _ => rfl)
      · exact performs (ends r trivial).1 (fun _ => ih x (next x))

end Rules

def Effects.Own (E : Effects R κ) (does : (a : α) → σ → R a → σ → Prop) (view : σ → κ) : Prop :=
  ∀ a s r s', E.needs a (view s) → does a s r s' → E.does a (view s) r (view s')

section Moves

variable {E : Effects R κ} {C : Contract φ β κ} {body : φ → Code φ R β}
  {does : (a : α) → σ → R a → σ → Prop} {view : σ → κ} {last : Option β → κ → Prop}
  {thread thread' : Thread φ R β} {s s' : σ} {l : Label φ R}

/-- A step of the thread: what it needed holds, and the rest still meets what is asked of it. -/
theorem Thread.Meets.moves (kept : C.Kept E body) (own : E.Own does view)
    (meets : thread.Meets E C last (view s)) (moves : Moves body does thread s l thread' s') :
    thread'.Meets E C last (view s') ∧ ∀ a r, l = .performs a r → E.needs a (view s) := by
  cases moves with
  | @act a k frames s s' r performed =>
      obtain ⟨allowed, rest⟩ := meets
      refine ⟨rest r _ (own a s r s' allowed performed), ?_⟩
      rintro b q ⟨⟩
      exact allowed
  | @call f k frames s =>
      obtain ⟨allowed, returned, thrown⟩ := meets
      refine ⟨?_, fun a r same => by cases same⟩
      apply (kept f (view s) allowed).mono
      intro o v' ensured
      cases o with
      | some x => exact returned x v' ensured
      | none => exact thrown v' ensured
  | @enter a done failed inner k frames s s' r performed =>
      obtain ⟨allowed, rest⟩ := meets
      refine ⟨(rest r _ (own a s r s' allowed performed)), ?_⟩
      rintro b q ⟨⟩
      exact allowed
  | ret => exact ⟨meets, fun a r same => by cases same⟩
  | throw => exact ⟨meets, fun a r same => by cases same⟩
  | @leave x a b k frames s s' r performed =>
      obtain ⟨allowed, rest⟩ := meets
      refine ⟨rest r _ (own a s r s' allowed performed), ?_⟩
      rintro c q ⟨⟩
      exact allowed
  | @unwind a b k frames s s' r performed =>
      obtain ⟨allowed, rest⟩ := meets
      refine ⟨rest r _ (own b s r s' allowed performed), ?_⟩
      rintro c q ⟨⟩
      exact allowed

end Moves

section System

/- A view for each thread, and the contracts of the functions that its threads run. -/
variable {E : Effects R κ} {C : Contract φ β κ} {body : Nat → φ → Code φ R β}
  {does : Nat → (a : α) → σ → R a → σ → Prop} {entry : φ → Prop} {rest : σ → σ → Prop}
  {view : Nat → σ → κ} {quiet : κ → Prop} {s s' : System φ R β σ} {e : Event φ R}

/-- The views are the threads' own. -/
structure Effects.Private (E : Effects R κ) (does : Nat → (a : α) → σ → R a → σ → Prop)
    (rest : σ → σ → Prop) (view : Nat → σ → κ) : Prop where
  own : ∀ t, E.Own (does t) (view t)
  others : ∀ t u a s r s', t ≠ u → E.needs a (view u s) → does u a s r s' → view t s' = view t s
  around : ∀ t s s', rest s s' → view t s' = view t s

/-- Every thread meets what is asked of it, and leaves its view quiet. -/
def System.Meets (E : Effects R κ) (C : Contract φ β κ) (view : Nat → σ → κ) (quiet : κ → Prop)
    (s : System φ R β σ) : Prop :=
  ∀ t, (s.threads t).Meets E C (fun _ => quiet) (view t s.shared)

theorem Ended.meets_iff {thread : Thread φ R β} {v : κ} (ended : Ended [] thread) :
    thread.Meets E C (fun _ => quiet) v ↔ quiet v := by
  obtain ⟨code, frames⟩ := thread
  obtain ⟨rfl, final⟩ := ended
  cases final with
  | ret x => exact Iff.rfl
  | throw => exact Iff.rfl

theorem System.Meets.atRest {t : Nat} (meets : s.Meets E C view quiet)
    (ended : Ended [] (s.threads t)) : quiet (view t s.shared) :=
  ended.meets_iff.mp (meets t)

theorem Moves.view_eq {t u : Nat} {thread thread' : Thread φ R β} {a b : σ} {l : Label φ R}
    {last : Option β → κ → Prop} (priv : E.Private does rest view) (other : t ≠ u)
    (meets : thread.Meets E C last (view u a))
    (moves : Moves (body u) (does u) thread a l thread' b) : view t b = view t a := by
  cases moves with
  | act performed => exact priv.others t u _ _ _ _ other meets.1 performed
  | call => rfl
  | enter performed => exact priv.others t u _ _ _ _ other meets.1 performed
  | ret => rfl
  | throw => rfl
  | leave performed => exact priv.others t u _ _ _ _ other meets.1 performed
  | unwind performed => exact priv.others t u _ _ _ _ other meets.1 performed

/-- A call of code that meets what is asked of it may start on any idle thread. -/
theorem System.Meets.starts {t : Nat} {code : Code φ R β} (meets : s.Meets E C view quiet)
    (fresh : code.Meets E C (fun _ => quiet) (view t s.shared)) :
    System.Meets E C view quiet
      { s with threads := Function.update s.threads t ⟨code, []⟩ } := by
  intro u
  by_cases same : u = t
  · subst same
    simp only [Function.update_self]
    exact fresh
  · simp only [Function.update_of_ne same]
    exact meets u

theorem System.Meets.step (kept : ∀ t, C.Kept E (body t)) (priv : E.Private does rest view)
    (enters : ∀ f v, entry f → quiet v → C.needs f v)
    (leaves : ∀ f v o v', entry f → quiet v → C.ensures f v o v' → quiet v')
    (meets : s.Meets E C view quiet) (taken : Step body does entry rest s e s') :
    s'.Meets E C view quiet := by
  cases taken with
  | @entered t f allowed idle =>
      apply meets.starts
      have calm := meets.atRest idle
      exact (kept t f _ (enters f _ allowed calm)).mono (fun o v' => leaves f _ o v' allowed calm)
  | @moved t l thread shared moves =>
      intro u
      by_cases same : u = t
      · subst same
        simp only [Function.update_self]
        exact ((meets u).moves (kept u) (priv.own u) moves).1
      · simp only [Function.update_of_ne same]
        rw [moves.view_eq priv same (meets t)]
        exact meets u
  | elsewhere changed =>
      intro u
      simp only [priv.around u _ _ changed]
      exact meets u

end System

end Calls
