import Mathlib.Algebra.Group.Nat.Defs

set_option autoImplicit false

/- Unsigned 64-bit arithmetic on natural numbers. Every operation reduces modulo
`2 ^ 64` exactly where a machine word would, so a caller can speak about wrap-around. -/
namespace Words

abbrev radix : Nat := 18446744073709551616

def add (x y : Nat) : Nat := (x + y) % radix

def sub (x y : Nat) : Nat := (x + (radix - y % radix)) % radix

def complement (x : Nat) : Nat := radix - (x + 1)

def PowerOfTwo (a : Nat) : Prop := ∃ k, k < 64 ∧ a = 2 ^ k

/-- The usual round-up idiom `(x + a - 1) & ~(a - 1)`. -/
def alignUp (x a : Nat) : Nat := (sub (add x a) 1) &&& complement (sub a 1)

theorem add_of_lt {x y : Nat} (fits : x + y < radix) : add x y = x + y :=
  Nat.mod_eq_of_lt fits

theorem add_of_wrap {x y : Nat} (wraps : radix ≤ x + y) (once : x + y < 2 * radix) :
    add x y = x + y - radix := by
  simp only [add, radix] at *
  omega

theorem sub_of_le {x y : Nat} (le : y ≤ x) (word : x < radix) : sub x y = x - y := by
  simp only [sub, radix] at *
  omega

theorem add_zero {x : Nat} (word : x < radix) : add x 0 = x := Nat.mod_eq_of_lt word

theorem add_add (x y z : Nat) : add (add x y) z = add x (y + z) := by
  simp only [add, Nat.mod_add_mod, Nat.add_assoc]

theorem add_assoc (x y z : Nat) : add (add x y) z = add x (add y z) := by
  rw [add_add]
  simp only [add, Nat.add_mod_mod]

theorem add_lt (x y : Nat) : add x y < radix := Nat.mod_lt _ (by decide)

theorem PowerOfTwo.positive {a : Nat} (power : PowerOfTwo a) : 0 < a := by
  obtain ⟨k, _, rfl⟩ := power
  exact Nat.two_pow_pos k

theorem PowerOfTwo.le {a : Nat} (power : PowerOfTwo a) : a ≤ 9223372036854775808 := by
  obtain ⟨k, small, rfl⟩ := power
  have bound : 2 ^ k ≤ 2 ^ 63 := Nat.pow_le_pow_right (by decide) (by omega)
  exact bound

theorem PowerOfTwo.dvd {a b : Nat} (left : PowerOfTwo a) (right : PowerOfTwo b) (le : a ≤ b) :
    a ∣ b := by
  obtain ⟨j, _, rfl⟩ := left
  obtain ⟨k, _, rfl⟩ := right
  exact Nat.pow_dvd_pow 2 ((Nat.pow_le_pow_iff_right (by decide)).mp le)

theorem PowerOfTwo.one : PowerOfTwo 1 := ⟨0, by decide, rfl⟩

/-- Masking with the complement of `2 ^ k - 1` clears exactly the low `k` bits. -/
theorem and_complement (x k : Nat) (word : x < radix) (small : k < 64) :
    x &&& complement (2 ^ k - 1) = x / 2 ^ k * 2 ^ k := by
  have bound : 2 ^ k ≤ 2 ^ 63 := Nat.pow_le_pow_right (by decide) (by omega)
  have below : 2 ^ k - 1 < 2 ^ 64 := by omega
  have wordPow : x < 2 ^ 64 := word
  apply Nat.eq_of_testBit_eq
  intro i
  have mask : (complement (2 ^ k - 1)).testBit i =
      (decide (i < 64) && !(2 ^ k - 1).testBit i) :=
    Nat.testBit_two_pow_sub_succ below i
  rw [Nat.testBit_and, mask, Nat.testBit_two_pow_sub_one, Nat.testBit_mul_two_pow,
    Nat.testBit_div_two_pow]
  by_cases high : k ≤ i
  · rw [show i - k + k = i by omega]
    by_cases inside : i < 64
    · simp [high, inside]
    · have absent : x.testBit i = false :=
        Nat.testBit_lt_two_pow (Nat.lt_of_lt_of_le wordPow (Nat.pow_le_pow_right (by decide)
          (by omega)))
      simp [absent]
  · have low : i < k := by omega
    simp [high, low]

/-- Rounding up without wrap-around is the ceiling division it is meant to be. -/
theorem alignUp_eq {x a : Nat} (power : PowerOfTwo a) (fits : x + a - 1 < radix) :
    alignUp x a = (x + a - 1) / a * a := by
  have positive := power.positive
  have bound := power.le
  have summed : sub (add x a) 1 = x + a - 1 := by
    simp only [sub, add, radix] at *
    omega
  have lowered : sub a 1 = a - 1 := sub_of_le (by omega) (by simp only [radix]; omega)
  obtain ⟨k, small, rfl⟩ := power
  rw [alignUp, summed, lowered]
  exact and_complement _ k fits small

/-- The word computed for an aligned address is the least multiple not below it. -/
theorem alignUp_spec {x a : Nat} (power : PowerOfTwo a) (fits : x + a - 1 < radix) :
    x ≤ alignUp x a ∧ alignUp x a < x + a ∧ a ∣ alignUp x a := by
  have positive := power.positive
  rw [alignUp_eq power fits]
  have split := Nat.div_add_mod (x + a - 1) a
  have remainder := Nat.mod_lt (x + a - 1) positive
  rw [Nat.mul_comm] at split
  refine ⟨by omega, by omega, Nat.dvd_mul_left a _⟩

/-- `d` is the least distance from `x` to a multiple of `a`. -/
def LeastPadding (x a d : Nat) : Prop := a ∣ x + d ∧ ∀ other, a ∣ x + other → d ≤ other

theorem LeastPadding.unique {x a d e : Nat} (first : LeastPadding x a d)
    (second : LeastPadding x a e) : d = e :=
  Nat.le_antisymm (first.2 e second.1) (second.2 d first.1)

/-- The distance that `alignUp` adds is the least possible. -/
theorem alignUp_least {x a : Nat} (power : PowerOfTwo a) (fits : x + a - 1 < radix) :
    LeastPadding x a (alignUp x a - x) := by
  obtain ⟨above, near, multiple⟩ := alignUp_spec power fits
  refine ⟨by rwa [Nat.add_sub_cancel' above], ?_⟩
  intro other divides
  apply Decidable.byContradiction
  intro smaller
  have apart : a ∣ alignUp x a - (x + other) := Nat.dvd_sub multiple divides
  have positive : 0 < alignUp x a - (x + other) := by omega
  have wide := Nat.le_of_dvd positive apart
  omega

/-- The distance from `x` up to a multiple of `a`, in unbounded arithmetic. -/
def padding (x a : Nat) : Nat := (a - x % a) % a

theorem padding_least {x a : Nat} (positive : 0 < a) : LeastPadding x a (padding x a) := by
  have remainder := Nat.mod_lt x positive
  have split := Nat.div_add_mod x a
  by_cases aligned : x % a = 0
  · have zero : padding x a = 0 := by simp [padding, aligned]
    rw [zero]
    exact ⟨Nat.dvd_of_mod_eq_zero aligned, fun _ _ => Nat.zero_le _⟩
  · have gap : padding x a = a - x % a := Nat.mod_eq_of_lt (by omega)
    rw [gap]
    refine ⟨⟨x / a + 1, by rw [Nat.mul_succ]; omega⟩, ?_⟩
    intro other divides
    have residue : (x % a + other) % a = 0 := by
      rw [Nat.mod_add_mod]
      exact Nat.mod_eq_zero_of_dvd divides
    apply Decidable.byContradiction
    intro smaller
    rw [Nat.mod_eq_of_lt (by omega)] at residue
    omega

theorem padding_dvd {x a : Nat} (positive : 0 < a) : a ∣ x + padding x a :=
  (padding_least positive).1

theorem padding_lt {x a : Nat} (positive : 0 < a) : padding x a < a := Nat.mod_lt _ positive

theorem padding_add {x a b : Nat} (multiple : a ∣ b) : padding (b + x) a = padding x a := by
  obtain ⟨k, rfl⟩ := multiple
  simp only [padding, Nat.mul_add_mod]

theorem padding_within {x a c : Nat} (positive : 0 < a) (multiple : a ∣ c) (within : x ≤ c) :
    x + padding x a ≤ c := by
  have least := (padding_least positive).2 (c - x) (by rwa [Nat.add_sub_cancel' within])
  omega

theorem alignUp_padding {x a : Nat} (power : PowerOfTwo a) (fits : x + a - 1 < radix) :
    alignUp x a = x + padding x a := by
  have same := (alignUp_least power fits).unique (padding_least power.positive)
  have above := (alignUp_spec power fits).1
  omega

end Words
