import MemAlloc.Arena

set_option autoImplicit false

namespace MemAlloc.Arena

open Malloc (addressLimit)
open Runs (Run Transition)
open Bump (Stacked)

inductive Event where
  | allocate (size alignment : Nat)
  | reset

/-- An arena and the blocks it returned since the last reset, newest first. -/
structure World where
  arena : Arena
  blocks : List Span

def World.start (base capacity : Nat) : World := ⟨ofRegion base capacity, []⟩

/-- One call with any `std::size_t` size and any power-of-two alignment. -/
inductive Step : World → Event → World → Prop
  | allocate (w : World) (size alignment : Nat) (word : size < Words.radix)
      (power : Words.PowerOfTwo alignment) :
      Step w (.allocate size alignment)
        ⟨(w.arena.allocate size alignment).2,
          ((w.arena.allocate size alignment).1.map (⟨·, size⟩)).toList ++ w.blocks⟩
  | reset (w : World) : Step w .reset ⟨w.arena.reset, []⟩

def ExactAt (w : World) : Event → Prop
  | .allocate size alignment => w.arena.Exact size alignment
  | .reset => True

def NoWrapAt (w : World) : Event → Prop
  | .allocate size alignment => w.arena.NoWrap size alignment
  | .reset => True

/-- What the arena promises of the blocks it has returned. -/
structure Regular (base capacity : Nat) (w : World) : Prop where
  used_le : w.arena.used ≤ capacity
  inside : ∀ b ∈ w.blocks, base ≤ b.base ∧ b.stop ≤ base + capacity
  ascending : w.blocks.Pairwise (fun later earlier => earlier.stop ≤ later.base)
  apart : w.blocks.Pairwise (fun later earlier => later.Apart earlier)

/-- The inductive form: the blocks end where the cursor stands. -/
structure Tracks (base capacity : Nat) (w : World) : Prop where
  inv : Inv w.arena
  sameBase : w.arena.base = base
  sameCapacity : w.arena.capacity = capacity
  stacked : Stacked base (base + w.arena.used) w.blocks

namespace Tracks

variable {base capacity : Nat} {w w' : World} {e : Event}

theorem start (positive : 0 < base) (region : base + capacity ≤ addressLimit) :
    Tracks base capacity (World.start base capacity) :=
  ⟨Inv.ofRegion positive region, rfl, rfl, Stacked.nil _ _⟩

theorem regular (tracks : Tracks base capacity w) : Regular base capacity w := by
  have within : w.arena.used ≤ capacity := tracks.sameCapacity ▸ tracks.inv.within
  refine ⟨within, fun b member => ?_, tracks.stacked.ascending, tracks.stacked.apart⟩
  have bounds := tracks.stacked.inside b member
  exact ⟨bounds.1, Nat.le_trans bounds.2 (Nat.add_le_add_left within base)⟩

/-- A served request goes on top of the stack, above its padding. -/
theorem served (tracks : Tracks base capacity w) {size alignment : Nat}
    (power : Words.PowerOfTwo alignment)
    (fits : w.arena.demand size alignment ≤ w.arena.capacity) :
    Tracks base capacity
      ⟨(w.arena.allocate size alignment).2,
        ((w.arena.allocate size alignment).1.map (⟨·, size⟩)).toList ++ w.blocks⟩ := by
  have inv := tracks.inv
  rw [allocate_fits inv power fits]
  refine ⟨⟨inv.positive, inv.region, fits⟩, tracks.sameBase, tracks.sameCapacity, ?_⟩
  have pushed := tracks.stacked.push (p := base + w.arena.used + w.arena.padding alignment)
    size (by omega) (by omega)
  rw [tracks.sameBase]
  have limit : base + w.arena.demand size alignment =
      base + w.arena.used + w.arena.padding alignment + size := by
    simp only [demand]
    omega
  exact limit ▸ pushed

theorem step (tracks : Tracks base capacity w) (noWrap : NoWrapAt w e) (taken : Step w e w') :
    Tracks base capacity w' := by
  cases taken with
  | allocate size alignment word power =>
      by_cases fits : w.arena.demand size alignment ≤ w.arena.capacity
      · exact tracks.served power fits
      · rw [allocate_refuses tracks.inv word power noWrap (Nat.lt_of_not_le fits)]
        exact tracks
  | reset => exact ⟨tracks.inv.reset, tracks.sameBase, tracks.sameCapacity, Stacked.nil _ _⟩

theorem exactAt_iff (tracks : Tracks base capacity w) (taken : Step w e w') :
    ExactAt w e ↔ NoWrapAt w e := by
  cases taken with
  | allocate _ _ word power => exact exact_iff tracks.inv word power
  | reset => exact Iff.rfl

end Tracks

/-- Every call of a run is exact, and the blocks stay disjoint, ascending and inside the
region, if and only if no admission check of the run is fooled by a wrapped sum. -/
theorem run_exact_iff (base capacity : Nat) (positive : 0 < base)
    (region : base + capacity ≤ addressLimit) {trace : List (Transition World Event)}
    {w : World} (run : Run Step (World.start base capacity) trace w) :
    ((∀ x ∈ trace, ExactAt x.before x.event) ∧ Regular base capacity w) ↔
      ∀ x ∈ trace, NoWrapAt x.before x.event := by
  have start := Tracks.start positive region
  constructor
  · rintro ⟨exact, _⟩
    have keep : ∀ s e t, Tracks base capacity s → ExactAt s e → Step s e t →
        Tracks base capacity t :=
      fun _ _ _ tracks exact taken => tracks.step ((tracks.exactAt_iff taken).mp exact) taken
    intro x member
    have tracks := run.invariantBefore start keep exact x member
    obtain ⟨_, _, _, _, taken⟩ := run.reached x member
    exact (tracks.exactAt_iff taken).mp (exact x member)
  · intro noWrap
    have keep : ∀ s e t, Tracks base capacity s → NoWrapAt s e → Step s e t →
        Tracks base capacity t := fun _ _ _ tracks noWrap taken => tracks.step noWrap taken
    refine ⟨?_, (run.invariantWhere start keep noWrap).regular⟩
    intro x member
    have tracks := run.invariantBefore start keep noWrap x member
    obtain ⟨_, _, _, _, taken⟩ := run.reached x member
    exact (tracks.exactAt_iff taken).mpr (noWrap x member)

theorem run_exact_iff_served : Regular 4096 4096
    ⟨((World.start 4096 4096).arena.allocate 100 16).2, [⟨4096, 100⟩]⟩ := by
  have first := Step.allocate (World.start 4096 4096) 100 16 (by decide)
    ⟨4, by decide, rfl⟩
  refine ((run_exact_iff 4096 4096 (by decide) (by decide) (Run.nil.snoc first)).mpr ?_).2
  intro x member
  obtain rfl := List.mem_singleton.mp member
  exact Or.inl (by decide)

/-- After 2000 bytes a request for `2 ^ 64 - 1008` bytes is admitted, the cursor moves back
to 992, and the next ordinary request is served inside the first block. -/
theorem not_always_exact : ¬ ∀ (base capacity : Nat), 0 < base →
    base + capacity ≤ addressLimit → ∀ (trace : List (Transition World Event)) (w : World),
      Run Step (World.start base capacity) trace w →
        (∀ x ∈ trace, ExactAt x.before x.event) ∧ Regular base capacity w := by
  intro claimed
  have power : Words.PowerOfTwo 16 := ⟨4, by decide, rfl⟩
  have run := ((Run.nil.snoc (Step.allocate (World.start 4096 4096) 2000 16 (by decide)
    power)).snoc (Step.allocate _ 18446744073709550608 16 (by decide) power)).snoc
      (Step.allocate _ 16 16 (by decide) power)
  have apart := (claimed 4096 4096 (by decide) (by decide) _ _ run).2.apart
  revert apart
  decide

end MemAlloc.Arena
