import Mathlib.Algebra.Order.BigOperators.Group.List
import Mathlib.Algebra.Order.Ring.Nat
import MemAlloc.Lib.Malloc

set_option autoImplicit false

/- A C heap divided among owners: what a request adds to a share, and what the release of a
list of addresses takes away. -/
namespace Malloc.Heap

variable {τ : Type} {h h' : Heap τ} {mine : τ → Bool}

/-- The outstanding blocks of the owners in `mine`, newest first. -/
def share (h : Heap τ) (mine : τ → Bool) : List (Block τ) :=
  h.blocks.filter (fun b => mine b.owner)

def bytes (blocks : List (Block τ)) : Nat := (blocks.map (fun b => b.span.size)).sum

def freeAll (h : Heap τ) (addresses : List Nat) : Heap τ := addresses.foldl free h

theorem mem_share {b : Block τ} : b ∈ h.share mine ↔ b ∈ h.blocks ∧ mine b.owner = true :=
  List.mem_filter

theorem share_congr (same : h'.blocks = h.blocks) (mine : τ → Bool) :
    h'.share mine = h.share mine := by
  rw [share, same, share]

theorem share_append {added : List (Block τ)} (grown : h'.blocks = added ++ h.blocks)
    (mine : τ → Bool) :
    h'.share mine = added.filter (fun b => mine b.owner) ++ h.share mine := by
  rw [share, grown, List.filter_append, share]

theorem share_cons {b : Block τ} (added : h'.blocks = b :: h.blocks) (mine : τ → Bool) :
    h'.share mine = if mine b.owner then b :: h.share mine else h.share mine := by
  rw [share, added, List.filter_cons, share]

theorem share_cons_other {b : Block τ} (added : h'.blocks = b :: h.blocks)
    (other : mine b.owner = false) : h'.share mine = h.share mine := by
  simp [share_cons added, other]

theorem blocks_freeAll (h : Heap τ) (addresses : List Nat) :
    (h.freeAll addresses).blocks = h.blocks.filter (fun b => decide (b.span.base ∉ addresses)) := by
  induction addresses generalizing h with
  | nil =>
      have all : h.blocks.filter (fun b => decide (b.span.base ∉ ([] : List Nat))) = h.blocks :=
        List.filter_eq_self.mpr (fun b _ => by simp)
      exact all.symm
  | cons p rest ih =>
      have unfolded : h.freeAll (p :: rest) = (h.free p).freeAll rest := rfl
      rw [unfolded, ih, free, List.filter_filter]
      apply List.filter_congr
      intro b _
      simp [Bool.and_comm]

theorem share_freeAll (h : Heap τ) (addresses : List Nat) (mine : τ → Bool) :
    (h.freeAll addresses).share mine =
      (h.share mine).filter (fun b => decide (b.span.base ∉ addresses)) := by
  rw [share, blocks_freeAll, share, List.filter_filter, List.filter_filter]
  apply List.filter_congr
  intro b _
  rw [Bool.and_comm]

theorem share_freeAll_own {addresses : List Nat}
    (released : ∀ b ∈ h.share mine, b.span.base ∈ addresses) :
    (h.freeAll addresses).share mine = [] := by
  rw [share_freeAll, List.filter_eq_nil_iff]
  intro b member
  simp [released b member]

/-- Releases of other owners' blocks leave a share alone: an address starts one block only. -/
theorem share_freeAll_other {addresses : List Nat}
    (owned : ∀ p ∈ addresses, ∃ b ∈ h.blocks, b.span.base = p ∧ mine b.owner = false) :
    (h.freeAll addresses).share mine = h.share mine := by
  rw [share_freeAll, List.filter_eq_self]
  intro c member
  obtain ⟨listed, ours⟩ := mem_share.mp member
  rw [decide_eq_true_eq]
  intro released
  obtain ⟨b, outstanding, base, theirs⟩ := owned c.span.base released
  have same : b = c := eq_of_base outstanding listed base
  rw [same, ours] at theirs
  cases theirs

theorem share_free_other {b : Block τ} (member : b ∈ h.blocks) (other : mine b.owner = false) :
    (h.free b.span.base).share mine = h.share mine := by
  have owned : ∀ p ∈ [b.span.base], ∃ c ∈ h.blocks, c.span.base = p ∧ mine c.owner = false :=
    fun p listed => ⟨b, member, (List.mem_singleton.mp listed).symm, other⟩
  exact share_freeAll_other owned

/-- Releasing what was added since restores the heap. -/
theorem freeAll_added {added : List (Block τ)} {addresses : List Nat}
    (grown : h'.blocks = added ++ h.blocks)
    (starts : ∀ p, p ∈ addresses ↔ ∃ b ∈ added, b.span.base = p) :
    (h'.freeAll addresses).blocks = h.blocks := by
  have apart := h'.apart
  rw [grown] at apart
  have across := (List.pairwise_append.mp apart).2.2
  have gone : added.filter (fun b => decide (b.span.base ∉ addresses)) = [] := by
    rw [List.filter_eq_nil_iff]
    intro b member
    simp [(starts b.span.base).mpr ⟨b, member, rfl⟩]
  have kept : h.blocks.filter (fun b => decide (b.span.base ∉ addresses)) = h.blocks := by
    rw [List.filter_eq_self]
    intro c old
    rw [decide_eq_true_eq]
    intro listed
    obtain ⟨b, member, same⟩ := (starts c.span.base).mp listed
    have new : b ∈ h'.blocks := grown ▸ List.mem_append_left _ member
    exact (across b member c old).base_ne (h'.bounded b new).2.1 (h.bounded c old).2.1 same
  rw [blocks_freeAll, grown, List.filter_append, gone, kept, List.nil_append]

theorem bytes_between {blocks : List (Block τ)} (least most : Block τ → Nat)
    (sized : ∀ b ∈ blocks, least b ≤ b.span.size ∧ b.span.size ≤ most b) :
    (blocks.map least).sum ≤ bytes blocks ∧ bytes blocks ≤ (blocks.map most).sum := by
  constructor
  · exact List.sum_le_sum (fun b member => (sized b member).1)
  · exact List.sum_le_sum (fun b member => (sized b member).2)

end Malloc.Heap
