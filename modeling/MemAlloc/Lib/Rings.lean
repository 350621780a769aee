import Mathlib.Data.Nat.Basic
import Mathlib.Data.List.Induction
import Mathlib.Data.List.Nodup

set_option autoImplicit false

/- Ring buffers of a fixed capacity, described by the history of everything pushed. -/
namespace Rings

universe u

variable {α : Type u}

/-- Slot `j % c` holds the `j`-th pushed element, for each of the last `c`. -/
def Holds (c : Nat) (buf : Nat → α) (history : List α) : Prop :=
  ∀ j x, history.length ≤ j + c → history[j]? = some x → buf (j % c) = x

/-- The contents of `take` slots from `first` on. -/
def window (c : Nat) (buf : Nat → α) (first take : Nat) : List α :=
  (List.range take).map (fun i => buf ((first + i) % c))

@[simp] theorem length_window (c : Nat) (buf : Nat → α) (first take : Nat) :
    (window c buf first take).length = take := by simp [window]

theorem window_congr {c first first' : Nat} (buf : Nat → α) (take : Nat)
    (same : first % c = first' % c) : window c buf first take = window c buf first' take := by
  apply List.map_congr_left
  intro i _
  rw [Nat.add_mod, same, ← Nat.add_mod]

theorem Holds.nil (c : Nat) (buf : Nat → α) : Holds c buf [] := by
  intro j x _ present
  cases present

theorem slot_ne {c j n : Nat} (less : j < n) (near : n < j + c) : j % c ≠ n % c := by
  intro same
  have whole : (n - j) % c = 0 := Nat.sub_mod_eq_zero_of_mod_eq same.symm
  rw [Nat.mod_eq_of_lt (by omega)] at whole
  omega

/-- A push replaces the oldest element of a full ring and no other. -/
theorem Holds.push {c : Nat} {buf : Nat → α} {history : List α} (holds : Holds c buf history)
    (x : α) :
    Holds c (Function.update buf (history.length % c) x) (history ++ [x]) := by
  intro j y recent present
  rw [List.length_append, List.length_singleton] at recent
  rcases Nat.lt_trichotomy j history.length with old | rfl | new
  · rw [List.getElem?_append_left old] at present
    rw [Function.update_of_ne (slot_ne old (by omega))]
    exact holds j y (by omega) present
  · rw [List.getElem?_concat_length] at present
    rw [Function.update_self]
    exact Option.some.inj present
  · have beyond : (history ++ [x]).length ≤ j := by
      rw [List.length_append, List.length_singleton]
      exact new
    rw [List.getElem?_eq_none beyond] at present
    cases present

theorem Holds.window {c : Nat} {buf : Nat → α} {history : List α} (holds : Holds c buf history)
    {a take : Nat} (within : a + take ≤ history.length) (recent : history.length ≤ a + c) :
    window c buf a take = (history.drop a).take take := by
  apply List.ext_getElem
  · simp
    omega
  · intro i left right
    rw [length_window] at left
    have bound : a + i < history.length := by omega
    simp only [Rings.window, List.getElem_map, List.getElem_range, List.getElem_take,
      List.getElem_drop]
    exact holds (a + i) _ (by omega) (List.getElem?_eq_getElem bound)

/-- A window of at most `c` elements: a push appends, and drops the oldest element of a
full one. -/
def slide (c : Nat) (window : List α) (x : α) : List α :=
  (window ++ [x]).drop (window.length + 1 - c)

/-- The window always shows the newest elements of the history. -/
theorem foldl_slide (c : Nat) (history : List α) :
    history.foldl (slide c) [] = history.drop (history.length - c) := by
  induction history using List.reverseRecOn with
  | nil => simp
  | append_singleton history x ih =>
      have joined : history.drop (history.length - c) ++ [x] =
          (history ++ [x]).drop (history.length - c) :=
        (List.drop_append_of_le_length (Nat.sub_le _ _)).symm
      rw [List.foldl_append, ih, List.foldl_cons, List.foldl_nil, slide, joined, List.drop_drop,
        List.length_drop, List.length_append, List.length_singleton]
      congr 1
      omega

/-- In an ordered window the newest element is the largest, and a push never drops it. -/
theorem slide_pairwise_iff {c : Nat} {window : List α} {x : α} {r : α → α → Prop}
    (trans : ∀ a b d, r a b → r b d → r a d) (large : 2 ≤ c) (size : window.length ≤ c)
    (ordered : window.Pairwise r) : (slide c window x).Pairwise r ↔ ∀ y ∈ window, r y x := by
  constructor
  · intro later y member
    obtain ⟨front, newest, rfl⟩ := (List.eq_nil_or_concat' window).resolve_left
      (List.ne_nil_of_mem member)
    rw [List.length_append, List.length_singleton] at size
    have kept : (front ++ [newest]).length + 1 - c ≤ front.length := by
      rw [List.length_append, List.length_singleton]
      omega
    rw [slide, List.append_assoc, List.drop_append_of_le_length kept] at later
    have last : r newest x :=
      List.rel_of_pairwise_cons (List.pairwise_append.mp later).2.1 (List.mem_singleton.mpr rfl)
    rcases List.mem_append.mp member with old | new
    · have below := (List.pairwise_append.mp ordered).2.2 y old newest (List.mem_singleton.mpr rfl)
      exact trans y newest x below last
    · rw [List.mem_singleton.mp new]
      exact last
  · intro below
    apply List.Pairwise.sublist (List.drop_sublist _ _)
    apply List.pairwise_append.mpr
    refine ⟨ordered, List.pairwise_singleton _ _, ?_⟩
    intro y member z single
    rw [List.mem_singleton.mp single]
    exact below y member

theorem length_foldl_slide (c : Nat) (history : List α) :
    (history.foldl (slide c) []).length = min history.length c := by
  rw [foldl_slide, List.length_drop]
  omega

/-- The slots of a ring, read from its oldest element on, show the window. -/
theorem Holds.window_recent {c : Nat} {buf : Nat → α} {history : List α}
    (holds : Holds c buf history) :
    Rings.window c buf (history.length - min history.length c) (min history.length c) =
      history.foldl (slide c) [] := by
  rw [holds.window (by omega) (by omega), foldl_slide]
  have same : history.length - min history.length c = history.length - c := by omega
  rw [same]
  apply List.take_of_length_le
  rw [List.length_drop]
  omega

/-- `n` slots from `s` on, read `k` pushes after the stretch `s, …, s + n - 1` was the end of
the history: slot `i` has been overwritten `k / c` times, and once more if the newest turn
has passed it. -/
theorem Holds.later {c : Nat} {buf : Nat → α} {history : List α} (holds : Holds c buf history)
    {s n k i : Nat} (length : history.length = s + n + k) (fits : n ≤ c) (inside : i < n) :
    history[s + i + (k / c + if i + c < n + k % c then 1 else 0) * c]? =
      some (buf ((s + i) % c)) := by
  have positive : 0 < c := by omega
  have split : k / c * c + k % c = k := by rw [Nat.mul_comm]; exact Nat.div_add_mod k c
  have rest : k % c < c := Nat.mod_lt k positive
  generalize turns : k / c = q at split
  have bound : s + i + (q + if i + c < n + k % c then 1 else 0) * c < history.length := by
    split
    · rw [Nat.add_mul, Nat.one_mul]
      omega
    · rw [Nat.add_zero]
      omega
  have recent : history.length ≤ s + i + (q + if i + c < n + k % c then 1 else 0) * c + c := by
    split
    · rw [Nat.add_mul, Nat.one_mul]
      omega
    · rw [Nat.add_zero]
      omega
  have read := holds _ _ recent (List.getElem?_eq_getElem bound)
  rw [Nat.add_mul_mod_self_right] at read
  rw [List.getElem?_eq_getElem bound, ← read]

def Contiguous (history out : List α) : Prop :=
  ∃ a b, a ≤ b ∧ b ≤ history.length ∧ out = (history.take b).drop a

/-- Reading such slots late gives a contiguous stretch when the newest turn has not
reached them. -/
theorem Holds.contiguous {c : Nat} {buf : Nat → α} {history : List α}
    (holds : Holds c buf history) {s n k : Nat} (length : history.length = s + n + k)
    (clear : n + k % c ≤ c) :
    Contiguous history (Rings.window c buf s n) := by
  have split : k / c * c + k % c = k := by rw [Nat.mul_comm]; exact Nat.div_add_mod k c
  refine ⟨s + k / c * c, s + k / c * c + n, Nat.le_add_right _ _, by omega, ?_⟩
  have shifted : Rings.window c buf s n = Rings.window c buf (s + k / c * c) n :=
    window_congr buf n (Nat.add_mul_mod_self_right s (k / c) c).symm
  rw [shifted, holds.window (by omega) (by omega), List.drop_take]
  congr 1
  omega

/-- When it has, the first slot is newer than the last: for a history without
repetitions the result is no stretch of it. -/
theorem Holds.not_contiguous {c : Nat} {buf : Nat → α} {history : List α}
    (holds : Holds c buf history) {s n k : Nat} (length : history.length = s + n + k)
    (nonempty : 0 < c) (fits : n ≤ c) (passed : c < n + k % c) (distinct : history.Nodup) :
    ¬ Contiguous history (Rings.window c buf s n) := by
  rintro ⟨a, b, ordered, within, same⟩
  have rest : k % c < c := Nat.mod_lt k nonempty
  have positive : 0 < n := by omega
  have size : b - a = n := by
    have lengths := congrArg List.length same
    simp only [length_window, List.length_drop, List.length_take] at lengths
    omega
  have read : ∀ i, i < n → history[a + i]? = some (buf ((s + i) % c)) := by
    intro i inside
    have entry := congrArg (fun out => out[i]?) same
    simp only [List.getElem?_drop, List.getElem?_take] at entry
    rw [if_pos (by omega)] at entry
    rw [← entry, Rings.window, List.getElem?_map, List.getElem?_range inside]
    rfl
  have newest := holds.later length fits (i := 0) positive
  have oldest := holds.later length fits (i := n - 1) (by omega)
  rw [if_pos (by omega)] at newest
  rw [if_neg (by omega)] at oldest
  have position : ∀ (i j : Nat) (x : α), history[i]? = some x → history[j]? = some x →
      i = j := by
    intro i j x left right
    obtain ⟨inside, _⟩ := List.getElem?_eq_some_iff.mp left
    exact (List.getElem?_inj inside distinct).mp (left.trans right.symm)
  have front := position _ _ _ newest (read 0 positive)
  have back := position _ _ _ oldest (read (n - 1) (by omega))
  rw [Nat.add_mul, Nat.one_mul] at front
  rw [Nat.add_zero] at back
  omega

end Rings
