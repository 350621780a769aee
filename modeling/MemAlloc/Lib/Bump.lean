import MemAlloc.Lib.Spans

set_option autoImplicit false

/- Blocks cut off one region from its start, never given back one by one. -/
namespace Bump

/-- The blocks, newest first, lie between `base` and `limit`, and each one starts at or
after the end of every earlier one. -/
structure Stacked (base limit : Nat) (blocks : List Span) : Prop where
  inside : ∀ b ∈ blocks, base ≤ b.base ∧ b.stop ≤ limit
  ascending : blocks.Pairwise (fun later earlier => earlier.stop ≤ later.base)

namespace Stacked

variable {base limit : Nat} {blocks : List Span}

theorem nil (base limit : Nat) : Stacked base limit [] :=
  ⟨by simp, List.Pairwise.nil⟩

theorem mono {limit' : Nat} (stacked : Stacked base limit blocks) (grows : limit ≤ limit') :
    Stacked base limit' blocks :=
  ⟨fun b member => ⟨(stacked.inside b member).1, Nat.le_trans (stacked.inside b member).2 grows⟩,
    stacked.ascending⟩

theorem push (stacked : Stacked base limit blocks) {p : Nat} (size : Nat)
    (low : base ≤ p) (above : limit ≤ p) : Stacked base (p + size) (⟨p, size⟩ :: blocks) := by
  refine ⟨?_, List.pairwise_cons.mpr ⟨?_, stacked.ascending⟩⟩
  · intro b member
    rcases List.mem_cons.mp member with rfl | old
    · exact ⟨low, Nat.le_refl _⟩
    · have bounds := stacked.inside b old
      exact ⟨bounds.1, by omega⟩
  · intro b old
    exact Nat.le_trans (stacked.inside b old).2 above

theorem apart (stacked : Stacked base limit blocks) :
    blocks.Pairwise (fun later earlier => later.Apart earlier) :=
  stacked.ascending.imp (fun order => Or.inr order)

end Stacked

end Bump
