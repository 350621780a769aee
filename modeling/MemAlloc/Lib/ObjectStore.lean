import MemAlloc.Lib.ByteMemory
import MemAlloc.Lib.Runs

set_option autoImplicit false

/- Memory as the users of a memory manager see it: regions that are out, which share no byte,
and whose bytes are the last ones written there. -/

open ByteMemory (SameInside writeByte)

/-- The effect of a write, if it is one, on the byte at `a`. -/
def overwrite (a : Nat) (b : UInt8) : Option (Nat × UInt8) → UInt8
  | some (p, v) => if p = a then v else b
  | none => b

/-- The byte at `a` after all writes, oldest first, if it was `b` before them. -/
def lastWrite (writes : List (Option (Nat × UInt8))) (a : Nat) (b : UInt8) : UInt8 :=
  writes.foldl (overwrite a) b

@[simp] theorem lastWrite_nil (a : Nat) (b : UInt8) : lastWrite [] a b = b := rfl

theorem lastWrite_append (front back : List (Option (Nat × UInt8))) (a : Nat) (b : UInt8) :
    lastWrite (front ++ back) a b = lastWrite back a (lastWrite front a b) :=
  List.foldl_append

theorem overwrite_writeByte (m : ByteMemory) (p a : Nat) (v : UInt8) :
    writeByte m p v a = overwrite a (m a) (some (p, v)) := by
  rw [writeByte, overwrite]
  by_cases same : p = a
  · subst same
    rw [Function.update_self, if_pos rfl]
  · rw [Function.update_of_ne (Ne.symm same), if_neg same]

theorem ByteMemory.SameInside.map {α : Type} {f : α → Span} {xs : List α} {m m' : ByteMemory}
    (same : ∀ x ∈ xs, SameInside m m' [f x]) : SameInside m m' (xs.map f) := by
  intro q member
  obtain ⟨x, listed, rfl⟩ := List.mem_map.mp member
  exact same x listed (f x) List.mem_cons_self

theorem List.Forall₂.exists_of_mem {α β : Type*} {R : α → β → Prop} {l : List α} {k : List β}
    (all : List.Forall₂ R l k) {a : α} (member : a ∈ l) : ∃ b ∈ k, R a b := by
  induction all with
  | nil => cases member
  | cons related _ ih =>
      rcases List.mem_cons.mp member with rfl | later
      · exact ⟨_, List.mem_cons_self, related⟩
      · obtain ⟨b, listed, holds⟩ := ih later
        exact ⟨b, List.mem_cons_of_mem _ listed, holds⟩

namespace Regions

variable {η : Type}

/-- What one step does to the regions that are out, each with its holder. -/
inductive Move (η : Type) where
  | stay
  | gain (k : η) (r : Span)
  | lose (k : η) (r : Span)
  | expire (k : η)
  | write (a : Nat) (b : UInt8)

def Move.wrote : Move η → Option (Nat × UInt8)
  | .write a b => some (a, b)
  | _ => none

def Disjoint (out : η → Span → Prop) : Prop :=
  ∀ k q l r, out k q → out l r → (k = l ∧ q = r) ∨ q.Apart r

/-- The step does this, and nothing else: the bytes of the regions that stay out are the
same, those aside that are written. -/
inductive Moves (out out' : η → Span → Prop) (m m' : ByteMemory) : Move η → Prop
  | stay (kept : ∀ k q, out' k q ↔ out k q) (same : ∀ k q, out k q → SameInside m m' [q]) :
      Moves out out' m m' .stay
  | gain {k : η} {r : Span} (kept : ∀ l q, out' l q ↔ out l q ∨ (l = k ∧ q = r))
      (apart : ∀ l q, out l q → r.Apart q) (same : ∀ l q, out l q → SameInside m m' [q]) :
      Moves out out' m m' (.gain k r)
  | lose {k : η} {r : Span} (held : out k r)
      (kept : ∀ l q, out' l q ↔ out l q ∧ ¬ (l = k ∧ q = r))
      (same : ∀ l q, out l q → r.Apart q → SameInside m m' [q]) :
      Moves out out' m m' (.lose k r)
  | expire {k : η} (kept : ∀ l q, out' l q ↔ out l q ∧ l ≠ k)
      (same : ∀ l q, out l q → l ≠ k → SameInside m m' [q]) : Moves out out' m m' (.expire k)
  | write {a : Nat} {b : UInt8} (kept : ∀ k q, out' k q ↔ out k q)
      (written : m' = writeByte m a b) : Moves out out' m m' (.write a b)

namespace Moves

variable {out out' : η → Span → Prop} {m m' : ByteMemory} {move : Move η} {k : η} {q : Span}

theorem contents (moves : Moves out out' m m' move) (before : Disjoint out) (was : out k q)
    (still : out' k q) {a : Nat} (held : q.Holds a) : m' a = overwrite a (m a) move.wrote := by
  cases moves with
  | stay kept same => exact same k q was q List.mem_cons_self a held
  | gain kept apart same => exact same k q was q List.mem_cons_self a held
  | @lose l r lost kept same =>
      have other : ¬ (k = l ∧ q = r) := ((kept k q).mp still).2
      have apart : r.Apart q := by
        rcases before l r k q lost was with ⟨rfl, rfl⟩ | apart
        · exact absurd ⟨rfl, rfl⟩ other
        · exact apart
      exact same k q was apart q List.mem_cons_self a held
  | expire kept same =>
      exact same k q was ((kept k q).mp still).2 q List.mem_cons_self a held
  | write kept written =>
      rw [written]
      exact overwrite_writeByte m _ a _

end Moves

end Regions

/-- A region under a name of its own. -/
structure Object (κ : Type) where
  key : κ
  span : Span
deriving DecidableEq

/-- What the users of a memory manager rely on. -/
structure ObjectStore (κ : Type) where
  objects : List (Object κ)
  contents : ByteMemory

namespace ObjectStore

open Runs (Run Transition)

variable {κ : Type} [DecidableEq κ]

inductive Event (κ : Type) where
  | allocate (x : Object κ)
  | release (x : Object κ)
  | expire (keys : κ → Bool)
  | write (a : Nat) (b : UInt8)
  | other

def Event.wrote : Event κ → Option (Nat × UInt8)
  | .write a b => some (a, b)
  | _ => none

/-- The step ends the life of the object. -/
def Event.Ends (x : Object κ) : Event κ → Prop
  | .release y => y = x
  | .expire keys => keys x.key = true
  | _ => False

/-- A new object shares no byte with the others, objects keep their bytes until they are
written or go, and memory outside all objects may change at any time. -/
inductive Step : ObjectStore κ → Event κ → ObjectStore κ → Prop
  | allocate {s : ObjectStore κ} {x : Object κ} {m' : ByteMemory}
      (apart : ∀ y ∈ s.objects, x.span.Apart y.span)
      (same : SameInside s.contents m' (s.objects.map Object.span)) :
      Step s (.allocate x) ⟨x :: s.objects, m'⟩
  | release {s : ObjectStore κ} {x : Object κ} {m' : ByteMemory} (out : x ∈ s.objects)
      (same : SameInside s.contents m' ((s.objects.erase x).map Object.span)) :
      Step s (.release x) ⟨s.objects.erase x, m'⟩
  | expire {s : ObjectStore κ} {keys : κ → Bool} {m' : ByteMemory}
      (same : SameInside s.contents m'
        ((s.objects.filter (fun x => !keys x.key)).map Object.span)) :
      Step s (.expire keys) ⟨s.objects.filter (fun x => !keys x.key), m'⟩
  | write {s : ObjectStore κ} {a : Nat} {b : UInt8} :
      Step s (.write a b) ⟨s.objects, writeByte s.contents a b⟩
  | other {s : ObjectStore κ} {m' : ByteMemory}
      (same : SameInside s.contents m' (s.objects.map Object.span)) :
      Step s .other ⟨s.objects, m'⟩

/-- Different objects share no byte. -/
def Apart (s : ObjectStore κ) : Prop := s.objects.Pairwise (fun x y => x.span.Apart y.span)

variable {s s' : ObjectStore κ} {x y : Object κ}

theorem Step.apart {e : Event κ} (taken : Step s e s') (apart : s.Apart) : s'.Apart := by
  cases taken with
  | allocate new same => exact List.pairwise_cons.mpr ⟨new, apart⟩
  | release out same => exact apart.sublist List.erase_sublist
  | expire same => exact apart.sublist List.filter_sublist
  | write => exact apart
  | other same => exact apart

/-- An object that a step does not end stays, with its bytes. -/
theorem Step.keeps {e : Event κ} (taken : Step s e s') (member : x ∈ s.objects)
    (stays : ¬ e.Ends x) :
    x ∈ s'.objects ∧
      ∀ a, x.span.Holds a → s'.contents a = overwrite a (s.contents a) e.wrote := by
  cases taken with
  | allocate new same =>
      exact ⟨List.mem_cons_of_mem _ member, same x.span (List.mem_map_of_mem member)⟩
  | release out same =>
      have left := (List.mem_erase_of_ne (Ne.symm stays)).mpr member
      exact ⟨left, same x.span (List.mem_map_of_mem left)⟩
  | @expire keys m' same =>
      have left : x ∈ s.objects.filter (fun x => !keys x.key) :=
        List.mem_filter.mpr ⟨member, by simpa [Event.Ends] using stays⟩
      exact ⟨left, same x.span (List.mem_map_of_mem left)⟩
  | write => exact ⟨member, fun a _ => overwrite_writeByte _ _ a _⟩
  | other same => exact ⟨member, same x.span (List.mem_map_of_mem member)⟩

section Runs

variable {trace : List (Transition (ObjectStore κ) (Event κ))}

theorem run_apart (run : Run Step s trace s') (apart : s.Apart) : s'.Apart :=
  run.invariant apart (fun _ _ _ holds taken => taken.apart holds)

/-- An object that lives through a run has the bytes last written there, or its old ones. -/
theorem run_keeps (run : Run Step s trace s') (member : x ∈ s.objects)
    (stays : ∀ z ∈ trace, ¬ z.event.Ends x) :
    x ∈ s'.objects ∧ ∀ a, x.span.Holds a →
      s'.contents a = lastWrite (trace.map (fun z => z.event.wrote)) a (s.contents a) := by
  induction run with
  | nil => exact ⟨member, fun a _ => rfl⟩
  | @snoc trace t t' e _ taken ih =>
      obtain ⟨out, bytes⟩ := ih (fun z earlier => stays z (List.mem_append_left _ earlier))
      obtain ⟨still, last⟩ := taken.keeps out (stays ⟨t, e, t'⟩ (by simp))
      refine ⟨still, fun a held => ?_⟩
      rw [last a held, bytes a held, List.map_append, lastWrite_append]
      rfl

/-- What is allocated while an object lives shares no byte with it. -/
theorem run_allocated (run : Run Step s trace s') (member : x ∈ s.objects)
    (stays : ∀ z ∈ trace, ¬ z.event.Ends x) :
    ∀ z ∈ trace, z.event = .allocate y → y.span.Apart x.span := by
  intro z listed new
  obtain ⟨past, rest, split, reached, taken⟩ := run.reached z listed
  have out := (run_keeps reached member (fun u earlier =>
    stays u (by rw [split]; exact List.mem_append_left _ earlier))).1
  rw [new] at taken
  generalize z.after = after at taken
  cases taken with
  | allocate apart same => exact apart x out

end Runs

/-- The objects are regions that a manager has out, under holders that their keys tell. -/
structure Follows {η : Type} (holder : κ → η) (out : η → Span → Prop) (m : ByteMemory)
    (s : ObjectStore κ) : Prop where
  contents : s.contents = m
  apart : s.Apart
  out : ∀ x ∈ s.objects, out (holder x.key) x.span

namespace Follows

open Regions (Move Moves)

variable {η : Type} {holder : κ → η} {out out' : η → Span → Prop} {m m' : ByteMemory} {k : η}
  {r : Span}

theorem other (follows : Follows holder out m s) (kept : ∀ k q, out k q → out' k q)
    (same : ∀ k q, out k q → SameInside m m' [q]) :
    Step s .other ⟨s.objects, m'⟩ ∧ Follows holder out' m' ⟨s.objects, m'⟩ := by
  obtain ⟨contents, apart, member⟩ := follows
  refine ⟨.other ?_, rfl, apart, fun x listed => kept _ _ (member x listed)⟩
  rw [contents]
  exact SameInside.map fun x listed => same _ _ (member x listed)

theorem stay (follows : Follows holder out m s) (moves : Moves out out' m m' .stay) :
    Step s .other ⟨s.objects, m'⟩ ∧ Follows holder out' m' ⟨s.objects, m'⟩ := by
  cases moves with
  | stay kept same => exact follows.other (fun k q => (kept k q).mpr) same

theorem pass (follows : Follows holder out m s) (moves : Moves out out' m m' (.gain k r)) :
    Step s .other ⟨s.objects, m'⟩ ∧ Follows holder out' m' ⟨s.objects, m'⟩ := by
  cases moves with
  | gain kept apart same =>
      exact follows.other (fun l q old => (kept l q).mpr (Or.inl old)) same

/-- A region is handed out as a new object. -/
theorem gain (follows : Follows holder out m s) (moves : Moves out out' m m' (.gain k r))
    (key : κ) (named : holder key = k) :
    Step s (.allocate ⟨key, r⟩) ⟨⟨key, r⟩ :: s.objects, m'⟩ ∧
      Follows holder out' m' ⟨⟨key, r⟩ :: s.objects, m'⟩ := by
  obtain ⟨contents, apart, member⟩ := follows
  cases moves with
  | gain kept new same =>
      have away : ∀ y ∈ s.objects, r.Apart y.span := fun y listed => new _ _ (member y listed)
      refine ⟨.allocate away ?_, rfl, List.pairwise_cons.mpr ⟨away, apart⟩, ?_⟩
      · rw [contents]
        exact SameInside.map fun x listed => same _ _ (member x listed)
      · intro x listed
        rcases List.mem_cons.mp listed with rfl | old
        · exact (kept _ _).mpr (Or.inr ⟨named, rfl⟩)
        · exact (kept _ _).mpr (Or.inl (member x old))

theorem erase (follows : Follows holder out m s) (listed : x ∈ s.objects) :
    (∀ y ∈ s.objects.erase x, x.span.Apart y.span) ∧
      (s.objects.erase x).Pairwise (fun y z => y.span.Apart z.span) := by
  have symm : ∀ {y z : Object κ}, y.span.Apart z.span → z.span.Apart y.span := Span.Apart.symm
  exact List.pairwise_cons.mp ((List.perm_cons_erase listed).pairwise follows.apart symm)

/-- An object is given back, and the manager may use its bytes. -/
theorem lose (follows : Follows holder out m s) (moves : Moves out out' m m' (.lose k r))
    (listed : x ∈ s.objects) (region : x.span = r) (nonempty : 0 < r.size) :
    Step s (.release x) ⟨s.objects.erase x, m'⟩ ∧
      Follows holder out' m' ⟨s.objects.erase x, m'⟩ := by
  obtain ⟨away, rest⟩ := follows.erase listed
  obtain ⟨contents, apart, member⟩ := follows
  have old : ∀ y ∈ s.objects.erase x, out (holder y.key) y.span :=
    fun y left => member y (List.mem_of_mem_erase left)
  subst region
  cases moves with
  | lose held kept same =>
      refine ⟨.release listed ?_, rfl, rest, ?_⟩
      · rw [contents]
        exact SameInside.map fun y left => same _ _ (old y left) (away y left)
      · intro y left
        refine (kept _ _).mpr ⟨old y left, fun equal => ?_⟩
        have apart := away y left
        rw [equal.2] at apart
        exact absurd rfl (apart.base_ne nonempty nonempty)

theorem lapse (follows : Follows holder out m s) (moves : Moves out out' m m' (.lose k r))
    (away : ∀ x ∈ s.objects, r.Apart x.span) (nonempty : 0 < r.size) :
    Step s .other ⟨s.objects, m'⟩ ∧ Follows holder out' m' ⟨s.objects, m'⟩ := by
  obtain ⟨contents, apart, member⟩ := follows
  cases moves with
  | lose held kept same =>
      refine ⟨.other ?_, rfl, apart, fun x listed =>
        (kept _ _).mpr ⟨member x listed, fun equal => ?_⟩⟩
      · rw [contents]
        exact SameInside.map fun x listed => same _ _ (member x listed) (away x listed)
      · have different := away x listed
        rw [equal.2] at different
        exact absurd rfl (different.base_ne nonempty nonempty)

theorem drop (follows : Follows holder out m s) (listed : x ∈ s.objects) :
    Step s (.release x) ⟨s.objects.erase x, m⟩ ∧
      Follows holder out m ⟨s.objects.erase x, m⟩ := by
  obtain ⟨_, rest⟩ := follows.erase listed
  obtain ⟨contents, apart, member⟩ := follows
  refine ⟨.release listed ?_, rfl, rest, fun y left => member y (List.mem_of_mem_erase left)⟩
  rw [contents]
  exact SameInside.refl _ _

/-- A holder goes, with everything it holds. -/
theorem expire [DecidableEq η] (follows : Follows holder out m s)
    (moves : Moves out out' m m' (.expire k)) :
    Step s (.expire (fun key => decide (holder key = k)))
        ⟨s.objects.filter (fun x => !decide (holder x.key = k)), m'⟩ ∧
      Follows holder out' m'
        ⟨s.objects.filter (fun x => !decide (holder x.key = k)), m'⟩ := by
  obtain ⟨contents, apart, member⟩ := follows
  have left : ∀ x ∈ s.objects.filter (fun x => !decide (holder x.key = k)),
      out (holder x.key) x.span ∧ holder x.key ≠ k := by
    intro x listed
    obtain ⟨old, other⟩ := List.mem_filter.mp listed
    exact ⟨member x old, by simpa using other⟩
  cases moves with
  | expire kept same =>
      refine ⟨.expire ?_, rfl, apart.sublist List.filter_sublist, fun x listed =>
        (kept _ _).mpr (left x listed)⟩
      rw [contents]
      exact SameInside.map fun x listed => same _ _ (left x listed).1 (left x listed).2

theorem write (follows : Follows holder out m s) {a : Nat} {b : UInt8}
    (moves : Moves out out' m m' (.write a b)) :
    Step s (.write a b) ⟨s.objects, m'⟩ ∧ Follows holder out' m' ⟨s.objects, m'⟩ := by
  obtain ⟨contents, apart, member⟩ := follows
  cases moves with
  | write kept written =>
      subst written
      refine ⟨?_, rfl, apart, fun x listed => (kept _ _).mpr (member x listed)⟩
      have step : Step s (.write a b) ⟨s.objects, writeByte s.contents a b⟩ := .write
      rwa [contents] at step

end Follows

end ObjectStore
