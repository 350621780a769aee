import Mathlib.Algebra.BigOperators.Group.List.Basic
import Mathlib.Algebra.Order.BigOperators.Group.List
import Mathlib.Algebra.Order.Ring.Nat
import Mathlib.Data.List.Nodup

set_option autoImplicit false

/- Sums and maxima of a quantity over the members of a group, when one member changes. -/
namespace Totals

variable {α : Type}

def total (f : α → Nat) (members : List α) : Nat := (members.map f).sum

def highest (f : α → Nat) (members : List α) : Nat := (members.map f).foldr max 0

@[simp] theorem total_nil (f : α → Nat) : total f [] = 0 := rfl

@[simp] theorem total_cons (f : α → Nat) (x : α) (xs : List α) :
    total f (x :: xs) = f x + total f xs := List.sum_cons

@[simp] theorem total_append (f : α → Nat) (xs ys : List α) :
    total f (xs ++ ys) = total f xs + total f ys := by
  simp [total]

@[simp] theorem highest_cons (f : α → Nat) (x : α) (xs : List α) :
    highest f (x :: xs) = max (f x) (highest f xs) := rfl

@[simp] theorem highest_append (f : α → Nat) (xs ys : List α) :
    highest f (xs ++ ys) = max (highest f xs) (highest f ys) := by
  induction xs with
  | nil => exact (Nat.zero_max _).symm
  | cons x xs ih => rw [List.cons_append, highest_cons, ih, highest_cons, Nat.max_assoc]

theorem total_congr {f g : α → Nat} {members : List α} (same : ∀ x ∈ members, f x = g x) :
    total f members = total g members := by
  rw [total, total, List.map_congr_left same]

@[simp] theorem total_zero (members : List α) : total (fun _ => 0) members = 0 := by
  simp [total]

theorem highest_congr {f g : α → Nat} {members : List α} (same : ∀ x ∈ members, f x = g x) :
    highest f members = highest g members := by
  rw [highest, highest, List.map_congr_left same]

theorem total_perm {f : α → Nat} {xs ys : List α} (perm : xs.Perm ys) :
    total f xs = total f ys := (perm.map f).sum_eq

theorem highest_perm {f : α → Nat} {xs ys : List α} (perm : xs.Perm ys) :
    highest f xs = highest f ys := by
  induction perm with
  | nil => rfl
  | cons x _ ih => rw [highest_cons, highest_cons, ih]
  | swap x y _ => simp only [highest_cons, ← Nat.max_assoc, Nat.max_comm]
  | trans _ _ first second => exact first.trans second

theorem le_total (f : α → Nat) {members : List α} {x : α} (member : x ∈ members) :
    f x ≤ total f members := List.le_sum_of_mem (List.mem_map_of_mem member)

theorem total_mono {f g : α → Nat} {members : List α} (grows : ∀ x ∈ members, f x ≤ g x) :
    total f members ≤ total g members := by
  induction members with
  | nil => exact Nat.le_refl _
  | cons x xs ih =>
      rw [total_cons, total_cons]
      exact Nat.add_le_add (grows x List.mem_cons_self)
        (ih (fun y member => grows y (List.mem_cons_of_mem _ member)))

theorem highest_mono {f g : α → Nat} {members : List α} (grows : ∀ x ∈ members, f x ≤ g x) :
    highest f members ≤ highest g members := by
  induction members with
  | nil => exact Nat.le_refl _
  | cons x xs ih =>
      rw [highest_cons, highest_cons]
      have head := grows x List.mem_cons_self
      have tail := ih (fun y member => grows y (List.mem_cons_of_mem _ member))
      omega

theorem total_filter (f : α → Nat) (members : List α) :
    total f (members.filter (fun x => f x ≠ 0)) = total f members := by
  induction members with
  | nil => rfl
  | cons x xs ih =>
      by_cases zero : f x = 0
      · rw [List.filter_cons_of_neg (by simpa using zero), ih, total_cons, zero, Nat.zero_add]
      · rw [List.filter_cons_of_pos (by simpa using zero), total_cons, total_cons, ih]

theorem highest_filter (f : α → Nat) (members : List α) :
    highest f (members.filter (fun x => f x ≠ 0)) = highest f members := by
  induction members with
  | nil => rfl
  | cons x xs ih =>
      by_cases zero : f x = 0
      · rw [List.filter_cons_of_neg (by simpa using zero), ih, highest_cons, zero, Nat.zero_max]
      · rw [List.filter_cons_of_pos (by simpa using zero), highest_cons, highest_cons, ih]

theorem filter_perm {f : α → Nat} {xs ys : List α} (first : xs.Nodup) (second : ys.Nodup)
    (same : ∀ x, f x ≠ 0 → (x ∈ xs ↔ x ∈ ys)) :
    (xs.filter (fun x => f x ≠ 0)).Perm (ys.filter (fun x => f x ≠ 0)) := by
  apply (List.perm_ext_iff_of_nodup (first.filter _) (second.filter _)).mpr
  intro x
  simp only [List.mem_filter, decide_eq_true_eq]
  constructor
  · exact fun ⟨member, counts⟩ => ⟨(same x counts).mp member, counts⟩
  · exact fun ⟨member, counts⟩ => ⟨(same x counts).mpr member, counts⟩

theorem total_support {f : α → Nat} {xs ys : List α} (first : xs.Nodup) (second : ys.Nodup)
    (same : ∀ x, f x ≠ 0 → (x ∈ xs ↔ x ∈ ys)) : total f xs = total f ys := by
  rw [← total_filter f xs, ← total_filter f ys]
  exact total_perm (filter_perm first second same)

theorem highest_support {f : α → Nat} {xs ys : List α} (first : xs.Nodup) (second : ys.Nodup)
    (same : ∀ x, f x ≠ 0 → (x ∈ xs ↔ x ∈ ys)) : highest f xs = highest f ys := by
  rw [← highest_filter f xs, ← highest_filter f ys]
  exact highest_perm (filter_perm first second same)

/-- When one member grows by `k` and nobody else changes, so does the total. -/
theorem total_add {f g : α → Nat} {members : List α} {x : α} {k : Nat}
    (distinct : members.Nodup) (member : x ∈ members) (grown : g x = f x + k)
    (others : ∀ y ∈ members, y ≠ x → g y = f y) :
    total g members = total f members + k := by
  obtain ⟨before, after, rfl⟩ := List.append_of_mem member
  have apart := (List.nodup_append'.mp distinct)
  have left : total g before = total f before := by
    apply total_congr
    intro y listed
    refine others y (List.mem_append_left _ listed) ?_
    rintro rfl
    exact apart.2.2 listed List.mem_cons_self
  have right : total g after = total f after := by
    apply total_congr
    intro y listed
    refine others y (List.mem_append_right _ (List.mem_cons_of_mem _ listed)) ?_
    rintro rfl
    exact (List.nodup_cons.mp apart.2.1).1 listed
  simp only [total_append, total_cons, left, right, grown]
  omega

end Totals
