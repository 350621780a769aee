import MemAlloc.Lib.Words
import MemAlloc.Lib.Bump
import MemAlloc.Lib.Runs
import MemAlloc.BlockPool

set_option autoImplicit false

namespace MemAlloc

open Malloc (Heap addressLimit)
open Runs (Run Transition)

structure Arena where
  base : Nat
  capacity : Nat
  used : Nat
  requested : Nat
  allocated : Nat
deriving DecidableEq, Repr

namespace Arena

/-- The constructor's members once `malloc` has returned the region. -/
def ofRegion (base capacity : Nat) : Arena := ⟨base, capacity, 0, 0, 0⟩

def new {τ : Type} (P : Platform) (h : Heap τ) (owner : τ) (capacity : Nat)
    (reply : Option Nat) : Except Exn Arena × Heap τ :=
  match h.malloc owner P.mallocAlign capacity reply with
  | (none, h') => (.error .badAlloc, h')
  | (some base, h') => (.ok (ofRegion base capacity), h')

def allocate (a : Arena) (size alignment : Nat) : Option Nat × Arena :=
  let cur := Words.add a.base a.used
  let aligned := Words.alignUp cur alignment
  let padding := Words.sub aligned cur
  if a.capacity < Words.add (Words.add a.used padding) size then (none, a)
  else
    (some aligned,
      { a with used := Words.add a.used (Words.add padding size),
               requested := Words.add a.requested size,
               allocated := Words.add a.allocated (Words.add padding size) })

def reset (a : Arena) : Arena := { a with used := 0, requested := 0, allocated := 0 }

def contains (a : Arena) (p : Nat) : Bool := decide (a.base ≤ p ∧ p < a.base + a.used)

/-- The region is user memory and the cursor has not left it. -/
structure Inv (a : Arena) : Prop where
  positive : 0 < a.base
  region : a.base + a.capacity ≤ addressLimit
  within : a.used ≤ a.capacity

theorem Inv.ofRegion {base capacity : Nat} (positive : 0 < base)
    (region : base + capacity ≤ addressLimit) : Inv (ofRegion base capacity) :=
  ⟨positive, region, Nat.zero_le _⟩

theorem Inv.reset {a : Arena} (inv : Inv a) : Inv a.reset :=
  ⟨inv.positive, inv.region, Nat.zero_le _⟩

def padding (a : Arena) (alignment : Nat) : Nat := Words.padding (a.base + a.used) alignment

def demand (a : Arena) (size alignment : Nat) : Nat := a.used + a.padding alignment + size

theorem demand_eq (a : Arena) (size alignment : Nat) :
    a.demand size alignment = a.used + (a.padding alignment + size) := Nat.add_assoc ..

/-- The call in unbounded arithmetic, except for the sum that admits it. -/
theorem allocate_eq {a : Arena} (inv : Inv a) {size alignment : Nat}
    (power : Words.PowerOfTwo alignment) :
    a.allocate size alignment =
      if a.capacity < a.demand size alignment % Words.radix then (none, a)
      else
        (some (a.base + a.used + a.padding alignment),
          { a with used := a.demand size alignment % Words.radix,
                   requested := Words.add a.requested size,
                   allocated := Words.add a.allocated
                     (Words.add (a.padding alignment) size) }) := by
  have bound := power.le
  have positive := power.positive
  have room : a.base + a.capacity ≤ 9223372036854775808 := inv.region
  have within := inv.within
  have small : a.padding alignment < alignment := Words.padding_lt positive
  have cursor : Words.add a.base a.used = a.base + a.used :=
    Words.add_of_lt (by simp only [Words.radix]; omega)
  have aligned : Words.alignUp (a.base + a.used) alignment =
      a.base + a.used + a.padding alignment :=
    Words.alignUp_padding power (by simp only [Words.radix]; omega)
  have gap : Words.sub (a.base + a.used + a.padding alignment) (a.base + a.used) =
      a.padding alignment := by
    rw [Words.sub_of_le (by omega) (by simp only [Words.radix]; omega)]
    omega
  have total : Words.add (Words.add a.used (a.padding alignment)) size =
      a.demand size alignment % Words.radix := by
    rw [Words.add_of_lt (y := a.padding alignment) (by simp only [Words.radix]; omega)]
    rfl
  have consumed : Words.add a.used (Words.add (a.padding alignment) size) =
      a.demand size alignment % Words.radix := by
    rw [Words.add, Words.add, Nat.add_mod_mod, demand_eq]
  simp only [allocate, cursor, aligned, gap, total, consumed]

/-- A request whose exact sum fits is served at the padded cursor. -/
theorem allocate_fits {a : Arena} (inv : Inv a) {size alignment : Nat}
    (power : Words.PowerOfTwo alignment) (fits : a.demand size alignment ≤ a.capacity) :
    a.allocate size alignment =
      (some (a.base + a.used + a.padding alignment),
        { a with used := a.demand size alignment,
                 requested := Words.add a.requested size,
                 allocated := Words.add a.allocated
                   (Words.add (a.padding alignment) size) }) := by
  have room : a.base + a.capacity ≤ 9223372036854775808 := inv.region
  have word : a.demand size alignment < Words.radix := by simp only [Words.radix]; omega
  rw [allocate_eq inv power, Nat.mod_eq_of_lt word, if_neg (by omega)]

/-- The sum that admits the request is right: it stays a word, or it wraps around to
something the capacity check still refuses. -/
def NoWrap (a : Arena) (size alignment : Nat) : Prop :=
  a.demand size alignment < Words.radix ∨
    a.capacity < a.demand size alignment - Words.radix

instance (a : Arena) (size alignment : Nat) : Decidable (a.NoWrap size alignment) :=
  inferInstanceAs (Decidable (_ ∨ _))

/-- Requests that end inside the user half of the address space never wrap. -/
theorem noWrap_of_bounded {a : Arena} (inv : Inv a) {size alignment : Nat}
    (power : Words.PowerOfTwo alignment) (bounded : size + alignment ≤ addressLimit) :
    a.demand size alignment < Words.radix := by
  have room : a.base + a.capacity ≤ 9223372036854775808 := inv.region
  have limit : size + alignment ≤ 9223372036854775808 := bounded
  have within := inv.within
  have small : a.padding alignment < alignment := Words.padding_lt power.positive
  simp only [demand, Words.radix]
  omega

theorem allocate_refuses {a : Arena} (inv : Inv a) {size alignment : Nat}
    (word : size < Words.radix) (power : Words.PowerOfTwo alignment)
    (noWrap : a.NoWrap size alignment) (large : a.capacity < a.demand size alignment) :
    a.allocate size alignment = (none, a) := by
  rw [allocate_eq inv power, if_pos]
  rcases noWrap with fits | refused
  · rwa [Nat.mod_eq_of_lt fits]
  · have bound := power.le
    have small : a.padding alignment < alignment := Words.padding_lt power.positive
    have room : a.base + a.capacity ≤ 9223372036854775808 := inv.region
    have within := inv.within
    have wrapped : a.demand size alignment % Words.radix =
        a.demand size alignment - Words.radix := by
      have once : a.demand size alignment < Words.radix + Words.radix := by
        simp only [demand, Words.radix] at word ⊢
        omega
      rw [Nat.mod_eq_sub_mod (by omega), Nat.mod_eq_of_lt (by omega)]
    omega

/-- What one call should do: succeed exactly when padding and size fit into what is left,
change nothing on failure, and otherwise return an aligned pointer and consume exactly
padding and size. -/
structure Exact (a : Arena) (size alignment : Nat) : Prop where
  succeeds : (a.allocate size alignment).1 ≠ none ↔
    a.used + (a.padding alignment + size) ≤ a.capacity
  failure : (a.allocate size alignment).1 = none → (a.allocate size alignment).2 = a
  success : ∀ p, (a.allocate size alignment).1 = some p →
    alignment ∣ p ∧
      (a.allocate size alignment).2.used = a.used + (a.padding alignment + size)

theorem exact_iff {a : Arena} (inv : Inv a) {size alignment : Nat} (word : size < Words.radix)
    (power : Words.PowerOfTwo alignment) :
    a.Exact size alignment ↔ a.NoWrap size alignment := by
  constructor
  · intro exact
    apply Decidable.byContradiction
    intro wraps
    simp only [NoWrap, not_or, Nat.not_lt] at wraps
    have admitted : (a.allocate size alignment).1 ≠ none := by
      have reduced := Nat.mod_le (a.demand size alignment - Words.radix) Words.radix
      rw [allocate_eq inv power, Nat.mod_eq_sub_mod wraps.1, if_neg (by omega)]
      exact Option.some_ne_none _
    have fits := exact.succeeds.mp admitted
    have room : a.base + a.capacity ≤ 9223372036854775808 := inv.region
    rw [← demand_eq] at fits
    simp only [Words.radix] at wraps
    omega
  · intro noWrap
    by_cases fits : a.demand size alignment ≤ a.capacity
    · have served := allocate_fits inv power fits
      refine ⟨?_, ?_, ?_⟩ <;> rw [served]
      · exact ⟨fun _ => demand_eq a size alignment ▸ fits, fun _ => Option.some_ne_none _⟩
      · intro impossible
        cases impossible
      · rintro p ⟨⟩
        exact ⟨Words.padding_dvd power.positive, demand_eq ..⟩
    · have refused := allocate_refuses inv word power noWrap (Nat.lt_of_not_le fits)
      refine ⟨?_, ?_, ?_⟩ <;> rw [refused]
      · rw [← demand_eq]
        exact ⟨fun impossible => absurd rfl impossible, fun room => absurd room fits⟩
      · exact fun _ => rfl
      · intro p impossible
        cases impossible

end Arena

end MemAlloc
