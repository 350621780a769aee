import Mathlib.Data.List.Nodup

set_option autoImplicit false

/- Null-terminated singly linked lists given by a `next` function on addresses.
Address zero is the null pointer. -/
namespace Links

/-- Following `next` from `p` visits exactly `xs` and then stops at null. -/
def Linked (next : Nat → Nat) : Nat → List Nat → Prop
  | p, [] => p = 0
  | p, x :: xs => p = x ∧ x ≠ 0 ∧ Linked next (next x) xs

/-- The addresses visited from `p`, unless the chain is longer than the fuel. -/
def walk (next : Nat → Nat) : Nat → Nat → Option (List Nat)
  | 0, _ => none
  | fuel + 1, p => if p = 0 then some [] else (walk next fuel (next p)).map (p :: ·)

@[simp] theorem linked_nil (next : Nat → Nat) (p : Nat) : Linked next p [] ↔ p = 0 := Iff.rfl

theorem Linked.ne_zero {next : Nat → Nat} {p : Nat} {xs : List Nat} (linked : Linked next p xs) :
    ∀ x ∈ xs, x ≠ 0 := by
  induction xs generalizing p with
  | nil => intro x member; cases member
  | cons y xs ih =>
      obtain ⟨_, nonzero, rest⟩ := linked
      intro x member
      rcases List.mem_cons.mp member with rfl | member
      · exact nonzero
      · exact ih rest x member

theorem Linked.head_eq_zero {next : Nat → Nat} {p : Nat} {xs : List Nat}
    (linked : Linked next p xs) : p = 0 ↔ xs = [] := by
  cases xs with
  | nil => simpa using linked
  | cons x xs =>
      obtain ⟨rfl, nonzero, _⟩ := linked
      simp [nonzero]

theorem Linked.of_head {next : Nat → Nat} {p : Nat} {xs : List Nat}
    (linked : Linked next p xs) (nonnull : p ≠ 0) :
    ∃ rest, xs = p :: rest ∧ Linked next (next p) rest := by
  cases xs with
  | nil => exact absurd linked nonnull
  | cons x rest =>
      obtain ⟨rfl, _, tail⟩ := linked
      exact ⟨rest, rfl, tail⟩

theorem Linked.congr {next next' : Nat → Nat} {p : Nat} {xs : List Nat}
    (linked : Linked next p xs) (same : ∀ x ∈ xs, next' x = next x) : Linked next' p xs := by
  induction xs generalizing p with
  | nil => exact linked
  | cons x xs ih =>
      obtain ⟨rfl, nonzero, rest⟩ := linked
      refine ⟨rfl, nonzero, ?_⟩
      rw [same p List.mem_cons_self]
      exact ih rest (fun y member => same y (List.mem_cons_of_mem _ member))

theorem Linked.unique {next : Nat → Nat} {p : Nat} {xs ys : List Nat}
    (left : Linked next p xs) (right : Linked next p ys) : xs = ys := by
  induction xs generalizing p ys with
  | nil => exact (right.head_eq_zero.mp left).symm
  | cons x xs ih =>
      obtain ⟨rfl, nonzero, rest⟩ := left
      obtain ⟨tail, rfl, tailLinked⟩ := right.of_head nonzero
      rw [ih rest tailLinked]

theorem Linked.suffix {next : Nat → Nat} {p x : Nat} {before after : List Nat}
    (linked : Linked next p (before ++ x :: after)) : Linked next x (x :: after) := by
  induction before generalizing p with
  | nil =>
      obtain ⟨rfl, nonzero, rest⟩ := linked
      exact ⟨rfl, nonzero, rest⟩
  | cons y before ih => exact ih linked.2.2

/-- A null-terminated chain never repeats an address. -/
theorem Linked.nodup {next : Nat → Nat} {p : Nat} {xs : List Nat} (linked : Linked next p xs) :
    xs.Nodup := by
  induction xs generalizing p with
  | nil => exact List.nodup_nil
  | cons x xs ih =>
      obtain ⟨rfl, nonzero, rest⟩ := linked
      refine List.nodup_cons.mpr ⟨?_, ih rest⟩
      intro member
      obtain ⟨before, after, rfl⟩ := List.append_of_mem member
      have whole : Linked next p (p :: (before ++ p :: after)) := ⟨rfl, nonzero, rest⟩
      have again := rest.suffix.unique whole
      have lengths := congrArg List.length again
      simp only [List.length_cons, List.length_append] at lengths
      omega

/-- The walk of a linked chain terminates with it, given one step more than its length. -/
theorem walk_of_linked {next : Nat → Nat} {p : Nat} {xs : List Nat} (linked : Linked next p xs)
    {fuel : Nat} (enough : xs.length < fuel) : walk next fuel p = some xs := by
  induction xs generalizing p fuel with
  | nil =>
      cases fuel with
      | zero => simp at enough
      | succ fuel => simp [walk, (linked_nil next p).mp linked]
  | cons x xs ih =>
      obtain ⟨rfl, nonzero, rest⟩ := linked
      cases fuel with
      | zero => simp at enough
      | succ fuel =>
          rw [walk, if_neg nonzero, ih rest (by simpa using enough)]
          rfl

end Links
