import MemAlloc.GroundedRuns
import MemAlloc.OverAllocation

set_option autoImplicit false

namespace MemAlloc

open Malloc (Heap)
open Runs (Run Transition)

/-- A nonnull pointer, or `std::bad_alloc`. -/
def Allocates (x : Except Exn (Option Nat)) : Prop :=
  x = .error .badAlloc ∨ ∃ p, p ≠ 0 ∧ x = .ok (some p)

/-- `Allocates`, or the null pointer. -/
def Answers (x : Except Exn (Option Nat)) : Prop := x = .ok none ∨ Allocates x

theorem Allocates.bad : Allocates (.error .badAlloc) := Or.inl rfl

theorem Allocates.pointer {p : Nat} (nonnull : p ≠ 0) : Allocates (.ok (some p)) :=
  Or.inr ⟨p, nonnull, rfl⟩

namespace SingleThreadAllocator

variable {P : Platform} {σ : Type} {a : SingleThreadAllocator} {source : ChunkSource σ}
  {recorded : Bool} {n : Nat} {e : σ} {m : ByteMemory} {i : SizeClass}

theorem poolAllocate_nonnull {p : Nat} (popped : (a.poolAllocate i m).1 = some p) : p ≠ 0 := by
  simp only [poolAllocate, BlockPool.allocate] at popped
  split at popped
  · cases popped
  · rename_i nonnull
    cases popped
    exact nonnull

theorem arenaAllocate_answers {alignment : Nat} (arena : a.arena.Inv)
    (power : Words.PowerOfTwo alignment) : Answers (.ok (a.arenaAllocate n alignment).1) := by
  have call : a.arena.allocate n alignment = _ := Arena.allocate_eq arena power
  have positive := arena.positive
  rw [arenaAllocate, call]
  split
  · exact Or.inl rfl
  · exact Or.inr (.pointer (by omega))

end SingleThreadAllocator

namespace NewDelete

variable {P : Platform} {w w' : NewDelete} {r : Replies} {active : Bool} {t size alignment : Nat}
  {x : Except Exn (Option Nat)}

/-- What a throwing form of `operator new` owes its caller, with no null pointer added to the
fallback registry. -/
def NewSound (w : NewDelete) (x : Except Exn (Option Nat)) (w' : NewDelete) : Prop :=
  Allocates x ∧ (0 ∈ w'.mallocRecs → 0 ∈ w.mallocRecs)

/-- The call takes the plain fallback, and `malloc` has no memory for the block. -/
def NullFallback (P : Platform) (r : Replies) (active : Bool) (t size : Nat) (w : NewDelete) :
    Prop :=
  takesFallback w.ready active (w.allocatorGone t) = true ∧
    (w.malloc P .fallback (if size = 0 then 1 else size) r.block).1 = none

/-- The plain fallback hands on whatever `malloc` answers. -/
theorem fallbackNew_outcome (done : w.fallbackNew P r t size = (x, w')) :
    ((w.malloc P .fallback size r.block).1 = none ∧ x = .ok none) ∨
      ((w.malloc P .fallback size r.block).1 ≠ none ∧ NewSound w x w') := by
  rw [fallbackNew] at done
  split at done
  · rename_i w₁ refused
    cases done
    rw [refused]
    exact Or.inl ⟨rfl, rfl⟩
  · rename_i p w₁ granted
    cases done
    obtain ⟨h, rfl, fresh, _⟩ := of_malloc_some granted
    have nonnull : p ≠ 0 := Nat.ne_of_gt fresh.1
    rw [granted]
    refine Or.inr ⟨Option.some_ne_none p, .pointer nonnull, fun null => ?_⟩
    obtain ⟨h', recs, same, _, grown⟩ :=
      of_recordMallocPtr P r.node p { w with sys := w.sys.setHeap h }
    rw [same] at null
    change 0 ∈ recs at null
    rcases grown with rfl | rfl
    · exact null
    · rcases List.mem_cons.mp null with impossible | old
      · exact absurd impossible.symm nonnull
      · exact old

end NewDelete

namespace NewDelete

variable {P : Platform} {w w' : NewDelete} {t : Nat}

section Run

variable {m : ByteMemory} {h : Heap Owner} {trace : List (Transition NewDelete Event)}

end Run

end NewDelete

end MemAlloc
