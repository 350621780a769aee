import Mathlib.Algebra.Order.BigOperators.Group.List
import Mathlib.Algebra.Order.Ring.Nat
import Mathlib.Data.List.Nodup
import Mathlib.Data.List.Pairwise
import Mathlib.Data.List.Perm.Subperm

set_option autoImplicit false

/- Half-open address ranges. -/

structure Span where
  base : Nat
  size : Nat
deriving DecidableEq, Repr

namespace Span

abbrev stop (s : Span) : Nat := s.base + s.size

def Holds (s : Span) (a : Nat) : Prop := s.base ≤ a ∧ a < s.stop

instance (s : Span) (a : Nat) : Decidable (s.Holds a) :=
  inferInstanceAs (Decidable (_ ∧ _))

/-- One range ends before the other starts. -/
def Apart (s t : Span) : Prop := s.stop ≤ t.base ∨ t.stop ≤ s.base

instance (s t : Span) : Decidable (s.Apart t) := inferInstanceAs (Decidable (_ ∨ _))

def Inside (s t : Span) : Prop := t.base ≤ s.base ∧ s.stop ≤ t.stop

instance (s t : Span) : Decidable (s.Inside t) := inferInstanceAs (Decidable (_ ∧ _))

theorem Holds.base {s : Span} (nonempty : 0 < s.size) : s.Holds s.base :=
  ⟨Nat.le_refl _, Nat.lt_add_of_pos_right nonempty⟩

theorem Apart.symm {s t : Span} (apart : s.Apart t) : t.Apart s := Or.symm apart

theorem Inside.refl (s : Span) : s.Inside s := ⟨Nat.le_refl _, Nat.le_refl _⟩

theorem Inside.trans {s t u : Span} (first : s.Inside t) (second : t.Inside u) : s.Inside u :=
  ⟨Nat.le_trans second.1 first.1, Nat.le_trans first.2 second.2⟩

theorem Inside.shorter {k n : Nat} (le : k ≤ n) (b : Nat) : (Span.mk b k).Inside ⟨b, n⟩ :=
  ⟨Nat.le_refl b, Nat.add_le_add_left le b⟩

theorem Inside.holds {s t : Span} (inside : s.Inside t) {a : Nat} (held : s.Holds a) :
    t.Holds a :=
  ⟨Nat.le_trans inside.1 held.1, Nat.lt_of_lt_of_le held.2 inside.2⟩

theorem Apart.mono {s s' t t' : Span} (apart : s.Apart t) (left : s'.Inside s)
    (right : t'.Inside t) : s'.Apart t' := by
  obtain ⟨sl, sr⟩ := left
  obtain ⟨tl, tr⟩ := right
  rcases apart with before | after
  · exact Or.inl (Nat.le_trans sr (Nat.le_trans before tl))
  · exact Or.inr (Nat.le_trans tr (Nat.le_trans after sl))

theorem Apart.not_holds {s t : Span} (apart : s.Apart t) {a : Nat} (held : s.Holds a) :
    ¬ t.Holds a := by
  rcases apart with before | after
  · exact fun other => by have := held.2; have := other.1; omega
  · exact fun other => by have := held.1; have := other.2; omega

theorem Apart.base_ne {s t : Span} (apart : s.Apart t) (left : 0 < s.size)
    (right : 0 < t.size) : s.base ≠ t.base := by
  rcases apart with before | after
  · have := before; simp only [stop] at this; omega
  · have := after; simp only [stop] at this; omega

/-- In a list of things whose ranges are apart pair by pair, different ones have ranges apart. -/
theorem Apart.of_pairwise {α : Type*} {f : α → Span} {l : List α}
    (apart : l.Pairwise (fun x y => (f x).Apart (f y))) {x y : α} (left : x ∈ l) (right : y ∈ l)
    (different : x ≠ y) : (f x).Apart (f y) := by
  have symmetric : Std.Symm (fun x y => (f x).Apart (f y)) := ⟨fun _ _ here => here.symm⟩
  exact apart.forall left right different

end Span
