import Mathlib.Data.Nat.Basic
import Mathlib.Data.Fintype.Basic
import Mathlib.Algebra.Order.Ring.Nat

set_option autoImplicit false

namespace MemAlloc

def sizeClasses : List Nat := [16, 32, 64, 128, 256, 512, 1024]

def maxSmall : Nat := 1024

/-- Index of the smallest size class that holds `n` bytes; seven when there is none. -/
def sizeClassIndex (n : Nat) : Nat :=
  if n = 0 then 0 else sizeClasses.findIdx (fun c => decide (n ≤ c))

/-- Block size for a request of `n` bytes; zero means the large path. -/
def blockFor (n : Nat) : Nat :=
  if n = 0 then sizeClasses.getD 0 0
  else if maxSmall < n then 0
  else sizeClasses.getD (sizeClassIndex n) 0

abbrev SizeClass : Type := Fin 7

def SizeClass.bytes (i : SizeClass) : Nat := sizeClasses.get i

theorem sizeClasses_holds {n : Nat} (small : n ≤ maxSmall) :
    sizeClasses.findIdx (fun c => decide (n ≤ c)) < sizeClasses.length :=
  List.findIdx_lt_length_of_exists ⟨1024, by decide, by simpa [maxSmall] using small⟩

theorem sizeClassIndex_lt {n : Nat} (small : n ≤ maxSmall) : sizeClassIndex n < 7 := by
  rw [sizeClassIndex]
  split
  · decide
  · exact sizeClasses_holds small

def sizeClassOf (n : Nat) (small : n ≤ maxSmall) : SizeClass :=
  ⟨sizeClassIndex n, sizeClassIndex_lt small⟩

namespace SizeClass

theorem bytes_pow (i : SizeClass) : i.bytes = 2 ^ (i.val + 4) := by
  revert i
  decide

theorem bytes_ge (i : SizeClass) : 16 ≤ i.bytes := by
  revert i
  decide

theorem bytes_le (i : SizeClass) : i.bytes ≤ maxSmall := by
  revert i
  decide

theorem wide (i : SizeClass) : 8 ≤ i.bytes := Nat.le_trans (by decide) i.bytes_ge

theorem bytes_positive (i : SizeClass) : 0 < i.bytes :=
  Nat.lt_of_lt_of_le (by decide) i.bytes_ge

theorem bytes_injective {i j : SizeClass} (same : i.bytes = j.bytes) : i = j := by
  rw [bytes_pow, bytes_pow] at same
  have exponents := Nat.pow_right_injective (Nat.le_refl 2) same
  exact Fin.ext (by omega)

end SizeClass

theorem le_bytes_sizeClassOf {n : Nat} (small : n ≤ maxSmall) :
    n ≤ (sizeClassOf n small).bytes := by
  by_cases zero : n = 0
  · exact Nat.le_trans (Nat.le_of_eq zero) (Nat.zero_le _)
  · have found := List.findIdx_getElem (p := fun c => decide (n ≤ c))
      (w := sizeClasses_holds small)
    simp only [SizeClass.bytes, sizeClassOf, sizeClassIndex, zero, if_false]
    exact of_decide_eq_true found

theorem sizeClassOf_bytes (i : SizeClass) : sizeClassOf i.bytes i.bytes_le = i := by
  revert i
  decide

theorem blockFor_eq {n : Nat} (small : n ≤ maxSmall) :
    blockFor n = (sizeClassOf n small).bytes := by
  rw [blockFor]
  split
  · rename_i zero
    subst zero
    rfl
  · rw [if_neg (Nat.not_lt.mpr small), List.getD_eq_getElem?_getD,
      List.getElem?_eq_getElem (sizeClassIndex_lt small)]
    rfl

end MemAlloc
