import MemAlloc.Lib.Spans

set_option autoImplicit false

/- A correct but otherwise arbitrary C heap. The environment proposes the address
of every request; a proposal that overlaps an outstanding block, or lies outside the
user half of the address space, is refused. Blocks carry an owner tag that the
program never reads. -/
namespace Malloc

/-- User addresses end here. -/
abbrev addressLimit : Nat := 9223372036854775808

structure Block (τ : Type) where
  span : Span
  owner : τ

structure Heap (τ : Type) where
  blocks : List (Block τ)
  apart : blocks.Pairwise (fun b c => b.span.Apart c.span)
  bounded : ∀ b ∈ blocks, 0 < b.span.base ∧ 0 < b.span.size ∧ b.span.stop ≤ addressLimit

namespace Heap

variable {τ : Type}

def empty : Heap τ := ⟨[], .nil, fun b member => by cases member⟩

/-- The range a request of `n` bytes at `p` occupies; `malloc(0)` is a unique byte. -/
def request (p n : Nat) : Span := ⟨p, max n 1⟩

/-- The address may be handed out for `n` bytes at the given alignment. -/
def Fresh (h : Heap τ) (align n p : Nat) : Prop :=
  0 < p ∧ align ∣ p ∧ (request p n).stop ≤ addressLimit ∧
    ∀ b ∈ h.blocks, (request p n).Apart b.span

instance (h : Heap τ) (align n p : Nat) : Decidable (h.Fresh align n p) :=
  inferInstanceAs (Decidable (_ ∧ _ ∧ _ ∧ _))

def add (h : Heap τ) (owner : τ) (align n p : Nat) (fresh : h.Fresh align n p) : Heap τ where
  blocks := ⟨request p n, owner⟩ :: h.blocks
  apart := List.pairwise_cons.mpr ⟨fun b member => fresh.2.2.2 b member, h.apart⟩
  bounded := by
    intro b member
    rcases List.mem_cons.mp member with rfl | member
    · exact ⟨fresh.1, Nat.lt_of_lt_of_le Nat.zero_lt_one (Nat.le_max_right _ _), fresh.2.2.1⟩
    · exact h.bounded b member

/-- A request with the environment's answer. -/
def malloc (h : Heap τ) (owner : τ) (align n : Nat) : Option Nat → Option Nat × Heap τ
  | none => (none, h)
  | some p =>
      if fresh : h.Fresh align n p then (some p, h.add owner align n p fresh) else (none, h)

/-- Releases the block that starts at `p`. -/
def free (h : Heap τ) (p : Nat) : Heap τ where
  blocks := h.blocks.filter (fun b => b.span.base ≠ p)
  apart := h.apart.filter _
  bounded := fun b member => h.bounded b (List.mem_filter.mp member).1

theorem malloc_some {h : Heap τ} {owner : τ} {align n p : Nat} {answer : Option Nat}
    (granted : (h.malloc owner align n answer).1 = some p) :
    h.Fresh align n p ∧
      (h.malloc owner align n answer).2.blocks = ⟨request p n, owner⟩ :: h.blocks := by
  cases answer with
  | none => cases granted
  | some q =>
      by_cases fresh : h.Fresh align n q
      · simp only [malloc, fresh, ↓reduceDIte, Option.some.injEq] at granted ⊢
        subst granted
        exact ⟨fresh, rfl⟩
      · simp [malloc, fresh] at granted

theorem malloc_none {h : Heap τ} {owner : τ} {align n : Nat} {answer : Option Nat}
    (refused : (h.malloc owner align n answer).1 = none) :
    (h.malloc owner align n answer).2 = h := by
  cases answer with
  | none => rfl
  | some q =>
      by_cases fresh : h.Fresh align n q
      · simp [malloc, fresh] at refused
      · simp [malloc, fresh]

/-- The two outcomes of a request, read off its result. -/
theorem of_malloc_some {h h' : Heap τ} {owner : τ} {align n p : Nat} {answer : Option Nat}
    (granted : h.malloc owner align n answer = (some p, h')) :
    h.Fresh align n p ∧ h'.blocks = ⟨request p n, owner⟩ :: h.blocks := by
  have effect := malloc_some (h := h) (congrArg Prod.fst granted)
  rwa [granted] at effect

theorem of_malloc_none {h h' : Heap τ} {owner : τ} {align n : Nat} {answer : Option Nat}
    (refused : h.malloc owner align n answer = (none, h')) : h' = h := by
  have same := malloc_none (h := h) (congrArg Prod.fst refused)
  rwa [refused] at same

/-- The environment can make a request succeed at any fresh address. -/
theorem malloc_fresh {h : Heap τ} (owner : τ) {align n p : Nat} (fresh : h.Fresh align n p) :
    h.malloc owner align n (some p) = (some p, h.add owner align n p fresh) := by
  simp [malloc, fresh]

theorem mem_malloc {h : Heap τ} {owner : τ} {align n : Nat} {answer : Option Nat} {b : Block τ}
    (member : b ∈ h.blocks) : b ∈ (h.malloc owner align n answer).2.blocks := by
  cases granted : (h.malloc owner align n answer).1 with
  | none => rwa [malloc_none granted]
  | some p =>
      rw [(malloc_some granted).2]
      exact List.mem_cons_of_mem _ member

theorem mem_free {h : Heap τ} {p : Nat} {b : Block τ} :
    b ∈ (h.free p).blocks ↔ b ∈ h.blocks ∧ b.span.base ≠ p := by
  simp [free]

theorem apart_of_ne {h : Heap τ} {b c : Block τ} (left : b ∈ h.blocks) (right : c ∈ h.blocks)
    (different : b ≠ c) : b.span.Apart c.span :=
  Span.Apart.of_pairwise h.apart left right different

theorem apart_of_owner {h : Heap τ} {b c : Block τ} (left : b ∈ h.blocks) (right : c ∈ h.blocks)
    (different : b.owner ≠ c.owner) : b.span.Apart c.span :=
  apart_of_ne left right (fun same => different (congrArg Block.owner same))

theorem eq_of_holds {h : Heap τ} {b c : Block τ} (left : b ∈ h.blocks) (right : c ∈ h.blocks)
    {a : Nat} (first : b.span.Holds a) (second : c.span.Holds a) : b = c := by
  apply Classical.byContradiction
  intro different
  exact (apart_of_ne left right different).not_holds first second

theorem holds_base {h : Heap τ} {b : Block τ} (member : b ∈ h.blocks) :
    b.span.Holds b.span.base :=
  ⟨Nat.le_refl _, Nat.lt_add_of_pos_right (h.bounded b member).2.1⟩

theorem eq_of_base {h : Heap τ} {b c : Block τ} (left : b ∈ h.blocks) (right : c ∈ h.blocks)
    (same : b.span.base = c.span.base) : b = c :=
  eq_of_holds left right (holds_base left) (same ▸ holds_base right)

end Heap

end Malloc
