import Mathlib.Logic.Function.Basic
import MemAlloc.Lib.Runs

set_option autoImplicit false

/- Programs that make calls to a component, and rules of pre- and postconditions for them. A
program is judged by what its own thread can tell of the component; a crew of threads, each with a
program, shares one component. -/
namespace Programs

/-- A program of calls `κ` with answers `ρ`. It returns, throws, or calls and goes on with the
answer. -/
inductive Program {κ : Type} (ρ : κ → Type) (ε α : Type) : Type
  | ret (a : α)
  | throw (e : ε)
  | call (c : κ) (k : ρ c → Program ρ ε α)

variable {κ : Type} {ρ : κ → Type} {ε α β σ : Type}

namespace Program

def bind : Program ρ ε α → (α → Program ρ ε β) → Program ρ ε β
  | .ret a, next => next a
  | .throw e, _ => .throw e
  | .call c k, next => .call c (fun r => (k r).bind next)

instance : Monad (Program ρ ε) where
  pure := .ret
  bind := bind

/-- `for (i = first; rounds > 0; ++i)`. A round goes on with the loop or breaks out of it. -/
def loop (round : Nat → σ → Program ρ ε (ForInStep σ)) : Nat → Nat → σ → Program ρ ε σ
  | _, 0, s => .ret s
  | first, rounds + 1, s => (round first s).bind fun
      | .done s => .ret s
      | .yield s => loop round (first + 1) rounds s

/-- `for (x : xs)`. -/
def each (round : α → Program ρ ε Unit) : List α → Program ρ ε Unit
  | [] => .ret ()
  | x :: xs => (round x).bind fun _ => each round xs

/-- While its calls, all of them able ones, are answered well, the program makes at most so many
of them and then returns. -/
inductive Within (able : κ → Prop) (well : (c : κ) → ρ c → Prop) (post : α → Prop) :
    Nat → Program ρ ε α → Prop
  | ret {n : Nat} {a : α} (holds : post a) : Within able well post n (.ret a)
  | call {n : Nat} {c : κ} {k : ρ c → Program ρ ε α} (asks : able c)
      (rest : ∀ r, well c r → Within able well post n (k r)) :
      Within able well post (n + 1) (.call c k)

variable {able : κ → Prop} {well : (c : κ) → ρ c → Prop} {post post' : α → Prop} {m n : Nat}

theorem Within.mono {p : Program ρ ε α} (within : Within able well post m p) (more : m ≤ n)
    (weaker : ∀ a, post a → post' a) : Within able well post' n p := by
  induction within generalizing n with
  | ret holds => exact .ret (weaker _ holds)
  | call asks _ ih =>
      obtain ⟨n, rfl⟩ := Nat.exists_eq_add_of_lt more
      exact .call asks fun r answered => ih r answered (Nat.le_add_right _ n)

theorem Within.bind {p : Program ρ ε α} {next : α → Program ρ ε β} {final : β → Prop}
    (first : Within able well post m p)
    (second : ∀ a, post a → Within able well final n (next a)) :
    Within able well final (m + n) (p.bind next) := by
  induction first with
  | ret holds => exact (second _ holds).mono (Nat.le_add_left n _) fun _ last => last
  | call asks _ ih =>
      rw [Nat.add_right_comm]
      exact .call asks ih

theorem Within.loop {round : Nat → σ → Program ρ ε (ForInStep σ)} {first rounds : Nat} {s : σ}
    {after : σ → Prop} (inv : Nat → σ → Prop) (start : inv first s)
    (body : ∀ i s, inv i s →
      Within able well (fun x => ∃ s', x = .yield s' ∧ inv (i + 1) s') n (round i s))
    (last : ∀ s, inv (first + rounds) s → after s) :
    Within able well after (rounds * n) (Program.loop round first rounds s) := by
  induction rounds generalizing first s with
  | zero => exact .ret (last s start)
  | succ rounds ih =>
      rw [Nat.succ_mul, Nat.add_comm (rounds * n)]
      apply (body first s start).bind
      rintro _ ⟨s', rfl, next⟩
      apply ih next
      intro s reached
      apply last
      rwa [Nat.add_right_comm] at reached

theorem Within.each {round : α → Program ρ ε Unit} (xs : List α)
    (body : ∀ x, Within able well (fun _ => True) n (round x)) :
    Within able well (fun _ => True) (xs.length * n) (Program.each round xs) := by
  induction xs with
  | nil => exact .ret trivial
  | cons x xs ih =>
      rw [List.length_cons, Nat.succ_mul, Nat.add_comm (xs.length * n)]
      exact (body x).bind fun _ _ => ih

end Program

/-- What a thread may call and what the calls do, as far as the thread can tell. -/
structure Interface {κ : Type} (ρ : κ → Type) (ν : Type) where
  allowed : κ → ν → Prop
  does : (c : κ) → ν → ρ c → ν → Prop

variable {ν : Type}

namespace Interface

variable (I : Interface ρ ν)

/-- From `v` on the program makes only calls that are allowed, whatever these answer, and ends as
the two postconditions say. -/
def Meets (returns : α → ν → Prop) (throws : ε → ν → Prop) : Program ρ ε α → ν → Prop
  | .ret a, v => returns a v
  | .throw e, v => throws e v
  | .call c k, v => I.allowed c v ∧ ∀ r v', I.does c v r v' → Meets returns throws (k r) v'

/-- What a round of a loop leaves: what holds after the loop if it breaks out, the invariant
otherwise. -/
def Leaves (after inv : σ → ν → Prop) : ForInStep σ → ν → Prop
  | .done s => after s
  | .yield s => inv s

/-- The same calls, each of which also needs `fact`. -/
def always (fact : ν → Prop) : Interface ρ ν := ⟨fun c v => I.allowed c v ∧ fact v, I.does⟩

variable {I} {returns returns' : α → ν → Prop} {throws throws' : ε → ν → Prop}

theorem Meets.mono {p : Program ρ ε α} {v : ν} (meets : I.Meets returns throws p v)
    (weaker : ∀ a v, returns a v → returns' a v) (weaker' : ∀ e v, throws e v → throws' e v) :
    I.Meets returns' throws' p v := by
  induction p generalizing v with
  | ret a => exact weaker a v meets
  | throw e => exact weaker' e v meets
  | call c k ih => exact ⟨meets.1, fun r v' done => ih r (meets.2 r v' done)⟩

theorem Meets.bind {p : Program ρ ε α} {next : α → Program ρ ε β} {v : ν}
    {final : β → ν → Prop} (first : I.Meets returns throws p v)
    (second : ∀ a v', returns a v' → I.Meets final throws (next a) v') :
    I.Meets final throws (p.bind next) v := by
  induction p generalizing v with
  | ret a => exact second a v first
  | throw e => exact first
  | call c k ih => exact ⟨first.1, fun r v' done => ih r (first.2 r v' done)⟩

/-- The same rule backwards: what comes next is the first program's postcondition. -/
theorem Meets.andThen {p : Program ρ ε α} {next : α → Program ρ ε β} {v : ν}
    {final : β → ν → Prop}
    (first : I.Meets (fun a v' => I.Meets final throws (next a) v') throws p v) :
    I.Meets final throws (p.bind next) v :=
  first.bind (fun _ _ second => second)

/-- The loop rule: the invariant holds before every round, and a break establishes what holds
after the loop. -/
theorem Meets.loop {round : Nat → σ → Program ρ ε (ForInStep σ)} {after : σ → ν → Prop}
    {rounds first : Nat} {s : σ} {v : ν} (inv : Nat → σ → ν → Prop) (start : inv first s v)
    (body : ∀ i s v, first ≤ i → i < first + rounds → inv i s v →
      I.Meets (Leaves after (inv (i + 1))) throws (round i s) v)
    (last : ∀ s v, inv (first + rounds) s v → after s v) :
    I.Meets after throws (Program.loop round first rounds s) v := by
  induction rounds generalizing first s v with
  | zero => exact last s v start
  | succ rounds ih =>
      apply Meets.bind (body first s v (Nat.le_refl _) (by omega) start)
      intro x v' ended
      cases x with
      | done s' => exact ended
      | yield s' =>
          apply ih ended
          · intro i s v lower upper
            exact body i s v (by omega) (by omega)
          · intro s v reached
            apply last
            rwa [show first + 1 + rounds = first + (rounds + 1) by omega] at reached

/-- The rule for a loop over a list: the invariant speaks of the elements still to come. -/
theorem Meets.each {round : α → Program ρ ε Unit} {after : Unit → ν → Prop} {xs : List α} {v : ν}
    (inv : List α → ν → Prop) (start : inv xs v)
    (body : ∀ x rest v, inv (x :: rest) v →
      I.Meets (fun _ v' => inv rest v') throws (round x) v)
    (last : ∀ v, inv [] v → after () v) :
    I.Meets after throws (Program.each round xs) v := by
  induction xs generalizing v with
  | nil => exact last v start
  | cons x xs ih =>
      apply Meets.bind (body x xs v start)
      intro _ v' rest
      exact ih rest

/-- What holds of a program at the point it has come to. -/
def Now (returns : α → ν → Prop) (throws : ε → ν → Prop) (fact : ν → Prop) :
    Program ρ ε α → ν → Prop
  | .ret a => returns a
  | .throw e => throws e
  | .call _ _ => fact

theorem Meets.now {fact : ν → Prop} {p : Program ρ ε α} {v : ν}
    (meets : (I.always fact).Meets returns throws p v) : Now returns throws fact p v := by
  cases p with
  | ret a => exact meets
  | throw e => exact meets
  | call c k => exact meets.1.2

end Interface

/-- Threads with the programs they still have to run, and the component they share. -/
structure Crew {κ : Type} (ρ : κ → Type) (ε α σ : Type) where
  shared : σ
  programs : Nat → Option (Program ρ ε α)

namespace Crew

inductive Event {κ : Type} (ρ : κ → Type)
  | called (t : Nat) (c : κ) (r : ρ c)
  | ended (t : Nat)
  | elsewhere

/-- The step is one of the thread's program. -/
def Event.By (t : Nat) : Event ρ → Prop
  | .called u _ _ => u = t
  | .ended u => u = t
  | .elsewhere => False

/-- The program has come to its end. -/
inductive Over : Program ρ ε α → Prop
  | ret (a : α) : Over (.ret a)
  | throw (e : ε) : Over (.throw e)

def Busy (x : Crew ρ ε α σ) (t : Nat) : Prop := ∃ p, x.programs t = some p

/-- A thread makes its program's next call or leaves a program that is over, or the component
changes otherwise. -/
inductive Step (does : Nat → (c : κ) → σ → ρ c → σ → Prop) (rest : (Nat → Prop) → σ → σ → Prop) :
    Crew ρ ε α σ → Event ρ → Crew ρ ε α σ → Prop
  | called {x : Crew ρ ε α σ} {t : Nat} {c : κ} {k : ρ c → Program ρ ε α} {r : ρ c} {s' : σ}
      (next : x.programs t = some (.call c k)) (done : does t c x.shared r s') :
      Step does rest x (.called t c r) ⟨s', Function.update x.programs t (some (k r))⟩
  | ended {x : Crew ρ ε α σ} {t : Nat} {p : Program ρ ε α} (next : x.programs t = some p)
      (halted : Over p) :
      Step does rest x (.ended t) { x with programs := Function.update x.programs t none }
  | elsewhere {x : Crew ρ ε α σ} {s' : σ} (changed : rest x.Busy x.shared s') :
      Step does rest x .elsewhere { x with shared := s' }

/-- The interface tells a thread the truth: its own calls do what it says, and nobody else changes
what the thread sees. -/
structure Truthful (I : Interface ρ ν) (does : Nat → (c : κ) → σ → ρ c → σ → Prop)
    (rest : (Nat → Prop) → σ → σ → Prop) (inv : σ → Prop) (sees : σ → Nat → ν → Prop) : Prop where
  own : ∀ s t v c r s', inv s → sees s t v → I.allowed c v → does t c s r s' →
    inv s' ∧ ∃ v', I.does c v r v' ∧ sees s' t v'
  others : ∀ s t v c r s' u w, inv s → sees s t v → I.allowed c v → does t c s r s' → u ≠ t →
    sees s u w → sees s' u w
  around : ∀ s s' busy, inv s → rest busy s s' →
    inv s' ∧ ∀ t v, busy t → sees s t v → sees s' t v

/-- Every thread's program meets its postconditions from what the thread sees, and each of its
calls is made where the thread's fact holds. -/
structure Sound (I : Interface ρ ν) (inv : σ → Prop) (sees : σ → Nat → ν → Prop)
    (fact : Nat → ν → Prop) (returns : Nat → α → ν → Prop) (throws : Nat → ε → ν → Prop)
    (x : Crew ρ ε α σ) : Prop where
  inv : inv x.shared
  programs : ∀ t p, x.programs t = some p →
    ∃ v, sees x.shared t v ∧ (I.always (fact t)).Meets (returns t) (throws t) p v

section Runs

variable {I : Interface ρ ν} {does : Nat → (c : κ) → σ → ρ c → σ → Prop}
  {rest : (Nat → Prop) → σ → σ → Prop} {inv : σ → Prop} {sees : σ → Nat → ν → Prop}
  {fact : Nat → ν → Prop} {returns : Nat → α → ν → Prop} {throws : Nat → ε → ν → Prop}
  {x y : Crew ρ ε α σ}

theorem Sound.step {e : Event ρ} (sound : x.Sound I inv sees fact returns throws)
    (truthful : Truthful I does rest inv sees) (taken : Step does rest x e y) :
    y.Sound I inv sees fact returns throws := by
  cases taken with
  | @called t c k r s' next done =>
      obtain ⟨v, seen, allowed, after⟩ := sound.programs t _ next
      obtain ⟨kept, v', told, seen'⟩ :=
        truthful.own _ t v c r s' sound.inv seen allowed.1 done
      refine ⟨kept, ?_⟩
      intro u p running
      by_cases same : u = t
      · subst same
        obtain rfl := Option.some.inj ((Function.update_self u _ _).symm.trans running)
        exact ⟨v', seen', after r v' told⟩
      · have running : x.programs u = some p := (Function.update_of_ne same _ _).symm.trans running
        obtain ⟨w, view, meets⟩ := sound.programs u p running
        exact ⟨w, truthful.others _ t v c r s' u w sound.inv seen allowed.1 done same view, meets⟩
  | @ended t p next halted =>
      refine ⟨sound.inv, ?_⟩
      intro u q running
      by_cases same : u = t
      · subst same
        cases (Function.update_self u _ _).symm.trans running
      · exact sound.programs u q ((Function.update_of_ne same _ _).symm.trans running)
  | elsewhere changed =>
      obtain ⟨kept, unseen⟩ := truthful.around _ _ _ sound.inv changed
      refine ⟨kept, ?_⟩
      intro u p running
      obtain ⟨w, view, meets⟩ := sound.programs u p running
      exact ⟨w, unseen u w ⟨p, running⟩ view, meets⟩

/-- In every state of every interleaving, each program still meets its postconditions. -/
theorem Sound.run {trace : List (Runs.Transition (Crew ρ ε α σ) (Event ρ))}
    (sound : x.Sound I inv sees fact returns throws) (truthful : Truthful I does rest inv sees)
    (run : Runs.Run (Step does rest) x trace y) : y.Sound I inv sees fact returns throws :=
  run.invariant sound (fun _ _ _ before taken => before.step truthful taken)

/-- Where allowed calls can be made, a thread can always come to the end of its program by its own
steps alone. -/
theorem Sound.finishes {t : Nat} {p : Program ρ ε α}
    (sound : x.Sound I inv sees fact returns throws) (truthful : Truthful I does rest inv sees)
    (possible : ∀ s t v c, sees s t v → I.allowed c v → ∃ r s', does t c s r s')
    (running : x.programs t = some p) :
    ∃ trace y q, Runs.Run (Step does rest) x trace y ∧ (∀ e ∈ trace, e.event.By t) ∧
      y.programs t = some q ∧ Over q := by
  induction p generalizing x with
  | ret a => exact ⟨[], x, _, .nil, by simp, running, .ret a⟩
  | throw e => exact ⟨[], x, _, .nil, by simp, running, .throw e⟩
  | call c k ih =>
      obtain ⟨v, seen, meets⟩ := sound.programs t _ running
      obtain ⟨r, s', done⟩ := possible _ t v c seen meets.1.1
      have taken : Step does rest x (.called t c r)
          ⟨s', Function.update x.programs t (some (k r))⟩ := .called running done
      obtain ⟨trace, y, q, run, own, ended, halted⟩ :=
        ih r (sound.step truthful taken) (Function.update_self t _ _)
      refine ⟨_, y, q, (Runs.Run.nil.snoc taken).append run, ?_, ended, halted⟩
      intro e member
      rcases List.mem_append.mp member with first | later
      · rw [List.mem_singleton.mp first]
        rfl
      · exact own e later

variable {able : κ → Prop} {well : (c : κ) → ρ c → Prop} {post : α → Prop}

/-- Where the component has room to answer so many calls well, the thread can come to its
return. -/
theorem Sound.finishes_within {t n : Nat} {p : Program ρ ε α} (room : Nat → σ → Prop)
    (sound : x.Sound I inv sees fact returns throws) (truthful : Truthful I does rest inv sees)
    (granted : ∀ s v c n, sees s t v → I.allowed c v → able c → room (n + 1) s →
      ∃ r s', does t c s r s' ∧ well c r ∧ room n s')
    (within : p.Within able well post n) (running : x.programs t = some p)
    (enough : room n x.shared) :
    ∃ trace y a, Runs.Run (Step does rest) x trace y ∧ (∀ e ∈ trace, e.event.By t) ∧
      y.programs t = some (.ret a) ∧ post a := by
  induction within generalizing x with
  | ret holds => exact ⟨[], x, _, .nil, by simp, running, holds⟩
  | @call n c k asks _ ih =>
      obtain ⟨v, seen, meets⟩ := sound.programs t _ running
      obtain ⟨r, s', done, answered, left⟩ :=
        granted _ v c n seen meets.1.1 asks enough
      have taken : Step does rest x (.called t c r)
          ⟨s', Function.update x.programs t (some (k r))⟩ := .called running done
      obtain ⟨trace, y, a, run, own, ended, holds⟩ :=
        ih r answered (sound.step truthful taken) (Function.update_self t _ _) left
      refine ⟨_, y, a, (Runs.Run.nil.snoc taken).append run, ?_, ended, holds⟩
      intro e member
      rcases List.mem_append.mp member with first | later
      · rw [List.mem_singleton.mp first]
        rfl
      · exact own e later

end Runs

end Crew

end Programs
