import Mathlib.Algebra.Order.Field.Basic
import Mathlib.Algebra.Order.Field.Rat
import Mathlib.Data.Rat.Cast.Order
import Mathlib.Tactic.Ring
import MemAlloc.Stats

set_option autoImplicit false

namespace MemAlloc

/-- What conversion to `double` and division of doubles owe to IEEE 754: results are
rounded monotonically, zero and one are exact, and doubling an integer is. -/
structure Rounding where
  round : ℚ → ℚ
  monotone : Monotone round
  zero : round 0 = 0
  one : round 1 = 1
  double : ∀ n : ℕ, n < Words.radix → round ((2 * n : ℕ) : ℚ) = 2 * round n

/-- Arithmetic that rounds nothing. -/
def Rounding.exact : Rounding where
  round := id
  monotone := monotone_id
  zero := rfl
  one := rfl
  double := fun n _ => by simp

namespace Stats

/-- The subtraction is one of `size_t` values. -/
def internalFragmentation (R : Rounding) (s : Stats) : ℚ :=
  if s.allocated = 0 then 0
  else R.round (R.round (Words.sub s.allocated s.requested : ℕ) / R.round (s.allocated : ℕ))

/-- Without a wrapped difference the result is a fraction. -/
theorem internalFragmentation_mem (R : Rounding) {s : Stats} (ratio : s.requested ≤ s.allocated)
    (word : s.allocated < Words.radix) :
    Words.sub s.allocated s.requested = s.allocated - s.requested ∧
      0 ≤ s.internalFragmentation R ∧ s.internalFragmentation R ≤ 1 := by
  have difference : Words.sub s.allocated s.requested = s.allocated - s.requested :=
    Words.sub_of_le ratio word
  refine ⟨difference, ?_⟩
  rw [internalFragmentation, difference]
  split
  · exact ⟨le_refl _, zero_le_one⟩
  · rename_i some
    have atLeast : (1 : ℚ) ≤ R.round (s.allocated : ℕ) := by
      rw [← R.one]
      apply R.monotone
      exact_mod_cast Nat.pos_of_ne_zero some
    have positive : (0 : ℚ) < R.round (s.allocated : ℕ) := lt_of_lt_of_le zero_lt_one atLeast
    have numerator : (0 : ℚ) ≤ R.round ((s.allocated - s.requested : ℕ) : ℚ) := by
      rw [← R.zero]
      apply R.monotone
      exact_mod_cast Nat.zero_le _
    have below : R.round ((s.allocated - s.requested : ℕ) : ℚ) ≤ R.round (s.allocated : ℕ) := by
      apply R.monotone
      exact_mod_cast Nat.sub_le _ _
    constructor
    · rw [← R.zero]
      exact R.monotone (div_nonneg numerator positive.le)
    · rw [← R.one]
      exact R.monotone ((div_le_one positive).mpr below)

/-- The exact fraction lies between two bounds when the totals do. -/
theorem internalFragmentation_between {s : Stats} (lower upper scale : ℕ)
    (ratio : s.requested ≤ s.allocated) (word : s.allocated < Words.radix)
    (above : lower * s.allocated < scale * (s.allocated - s.requested))
    (below : scale * (s.allocated - s.requested) < upper * s.allocated) :
    (lower : ℚ) / scale < s.internalFragmentation Rounding.exact ∧
      s.internalFragmentation Rounding.exact < (upper : ℚ) / scale := by
  have some : 0 < s.allocated := by
    apply Nat.pos_of_ne_zero
    intro zero
    rw [zero, Nat.mul_zero] at below
    exact Nat.not_lt_zero _ below
  have scaled : 0 < scale := by
    apply Nat.pos_of_ne_zero
    intro zero
    rw [zero, Nat.zero_mul] at above
    exact Nat.not_lt_zero _ above
  have denominator : (0 : ℚ) < s.allocated := by exact_mod_cast some
  have positive : (0 : ℚ) < scale := by exact_mod_cast scaled
  rw [internalFragmentation, if_neg (Nat.ne_of_gt some), Words.sub_of_le ratio word]
  change (lower : ℚ) / scale < (s.allocated - s.requested : ℕ) / (s.allocated : ℚ) ∧
    ((s.allocated - s.requested : ℕ) : ℚ) / (s.allocated : ℚ) < (upper : ℚ) / scale
  constructor
  · rw [div_lt_div_iff₀ positive denominator, mul_comm ((s.allocated - s.requested : ℕ) : ℚ)]
    exact_mod_cast above
  · rw [div_lt_div_iff₀ denominator positive, mul_comm ((s.allocated - s.requested : ℕ) : ℚ)]
    exact_mod_cast below

/-- Doubling both totals keeps the fraction. -/
theorem internalFragmentation_double (R : Rounding) {s t : Stats}
    (allocated : t.allocated = 2 * s.allocated) (requested : t.requested = 2 * s.requested)
    (ratio : s.requested ≤ s.allocated) (word : t.allocated < Words.radix) :
    t.internalFragmentation R = s.internalFragmentation R := by
  have half : s.allocated < Words.radix := by omega
  have first : Words.sub s.allocated s.requested = s.allocated - s.requested :=
    Words.sub_of_le ratio half
  have second : Words.sub t.allocated t.requested = 2 * (s.allocated - s.requested) := by
    rw [Words.sub_of_le (by omega) word]
    omega
  rw [internalFragmentation, internalFragmentation, first, second, allocated]
  by_cases none : s.allocated = 0
  · rw [if_pos (by omega), if_pos none]
  · rw [if_neg (by omega), if_neg none, R.double _ (by omega), R.double _ half,
      mul_div_mul_left _ _ two_ne_zero]

/-- Exact fractions of two pairs of totals agree only if the totals are proportional. -/
theorem requested_of_exact {s t : Stats} (allocated : t.allocated = 2 * s.allocated)
    (ratio : s.requested ≤ s.allocated) (ratio' : t.requested ≤ t.allocated)
    (word : t.allocated < Words.radix)
    (same : t.internalFragmentation Rounding.exact = s.internalFragmentation Rounding.exact) :
    t.requested = 2 * s.requested := by
  have half : s.allocated < Words.radix := by omega
  by_cases none : s.allocated = 0
  · omega
  · rw [internalFragmentation, internalFragmentation, if_neg (by omega), if_neg none,
      Words.sub_of_le ratio half, Words.sub_of_le ratio' word, allocated] at same
    change (((2 * s.allocated - t.requested : ℕ) : ℚ) / ((2 * s.allocated : ℕ) : ℚ)) =
      ((s.allocated - s.requested : ℕ) : ℚ) / (s.allocated : ℚ) at same
    have positive : (s.allocated : ℚ) ≠ 0 := by exact_mod_cast none
    have doubled : ((2 * s.allocated : ℕ) : ℚ) ≠ 0 := by exact_mod_cast (by omega)
    rw [div_eq_div_iff doubled positive] at same
    have product : (2 * s.allocated - t.requested) * s.allocated =
        (s.allocated - s.requested) * (2 * s.allocated) := by exact_mod_cast same
    have reordered : (s.allocated - s.requested) * (2 * s.allocated) =
        2 * (s.allocated - s.requested) * s.allocated := by ring
    rw [reordered] at product
    have cancelled := Nat.eq_of_mul_eq_mul_right (Nat.pos_of_ne_zero none) product
    omega

end Stats

end MemAlloc
