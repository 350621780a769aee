import MemAlloc.Batches
import MemAlloc.ChunkCounts

set_option autoImplicit false

/- The visualizer's worker threads. -/
namespace MemAlloc

open Malloc (Heap)
open Programs (Program Interface Crew)
open Runs (Run Transition)
open SingleThreadAllocator (chunkSlab maxBlocks)

namespace Worker

structure HeldBlock where
  ptr : Nat
  size : Nat

def pointerBytes : Nat := 8

/-- The requests of a burst, without those that were refused. -/
def burst : Task (List Nat) :=
  Program.loop (fun _ blocks => do
    match ← Task.allocate 64 with
    | some p => return .yield (blocks ++ [p])
    | none => return .yield blocks) 0 300 []

/-- The held blocks that came from a pool, with their classes, and those from the arena. -/
def poolLoans (held : List HeldBlock) : List (Nat × SizeClass) :=
  held.filterMap fun b =>
    if small : b.size ≤ maxSmall then some (b.ptr, sizeClassOf b.size small) else none

def arenaSpans (held : List HeldBlock) : List Span :=
  held.filterMap fun b => if b.size ≤ maxSmall then none else some ⟨b.ptr, b.size⟩

def burstClass : SizeClass := class64

/-- Chunks have been linked for the burst class only. -/
def burstChunks (bodies : List Nat) : SizeClass → List Nat :=
  Function.update (fun _ => []) burstClass bodies

/-- A worker with a new allocator, while it holds `held` and the blocks `blocks` of a burst. -/
structure Working (slab : SizeClass → Nat) (bodies : List Nat) (held : List HeldBlock)
    (blocks : List Nat) (v : View) : Prop where
  lent : (View.new slab).Lent (burstChunks bodies)
    (blocks.map (fun p => (p, burstClass)) ++ poolLoans held) v
  bumped : v.ledger.bumped.Perm (arenaSpans held)
  once : bodies.length ≤ 1

/-- What never happens in a worker: more blocks out than the burst and the held ones, or a chunk
besides the one of the burst class. -/
structure Modest (v : View) : Prop where
  burst : (v.ledger.held burstClass).length ≤ 309 ∧ (v.ledger.linked burstClass).length ≤ 2
  others : ∀ i, i ≠ burstClass →
    (v.ledger.held i).length ≤ 9 ∧ (v.ledger.linked i).length = 1

theorem length_poolLoans_le (held : List HeldBlock) : (poolLoans held).length ≤ held.length :=
  List.length_filterMap_le _ _

namespace Working

variable {slab : SizeClass → Nat} {bodies : List Nat} {held : List HeldBlock} {blocks : List Nat}
  {v : View}

theorem start (slab : SizeClass → Nat) : Working slab [] [] [] (View.new slab) := by
  refine ⟨?_, List.Perm.refl _, Nat.zero_le _⟩
  have none : burstChunks [] = fun _ => [] := Function.update_eq_self burstClass _
  rw [none]
  exact .refl _

theorem loans_length (blocks : List Nat) (held : List HeldBlock) (i : SizeClass) :
    (View.loansOf i (blocks.map (fun p => (p, burstClass)) ++ poolLoans held)).length ≤
      (if i = burstClass then blocks.length else 0) + held.length := by
  rw [View.loansOf_append, List.length_append]
  have pool := Nat.le_trans (View.length_loansOf_le i (poolLoans held)) (length_poolLoans_le held)
  have drawn : (View.loansOf i (blocks.map fun p => (p, burstClass))).length ≤
      if i = burstClass then blocks.length else 0 := by
    split
    · have bound := View.length_loansOf_le i (blocks.map fun p => (p, burstClass))
      rwa [List.length_map] at bound
    · rename_i other
      simp [View.loansOf, List.filter_map, Function.comp_def, Ne.symm other]
  omega

theorem modest (working : Working slab bodies held blocks v) (few : held.length ≤ 9)
    (burst : blocks.length ≤ 300) : Modest v := by
  have out (i : SizeClass) := (working.lent.held i).length_eq
  have linked (i : SizeClass) := congrArg List.length (working.lent.linked i)
  have bound (i : SizeClass) : (v.ledger.held i).length ≤
      (if i = burstClass then blocks.length else 0) + held.length := by
    rw [out i]
    simpa [View.new] using loans_length blocks held i
  refine ⟨⟨?_, ?_⟩, ?_⟩
  · have here := bound burstClass
    rw [if_pos rfl] at here
    omega
  · rw [linked burstClass]
    have once := working.once
    simp only [View.new, burstChunks, Function.update_self, List.length_append, List.length_map,
      List.length_singleton]
    omega
  · intro i other
    have here := bound i
    rw [if_neg other] at here
    refine ⟨by omega, ?_⟩
    rw [linked i]
    simp [View.new, burstChunks, other]

end Working

/-- A thread knows only modest allocators. -/
def AtMost (k : Knowledge) : Prop := k ≠ .broken ∧ ∀ v, k = .live v → Modest v

section Rounds

variable {P : Platform} {throws : Exn → Knowledge → Prop} {slab : SizeClass → Nat}
  {bodies : List Nat} {held : List HeldBlock} {blocks : List Nat} {v : View}

theorem Modest.atMost (modest : Modest v) : AtMost (.live v) := by
  constructor
  · intro broken
    cases broken
  · intro w same
    cases same
    exact modest

/-- A held block goes back. -/
theorem deallocate_held {returns : Unit → Knowledge → Prop} {b : HeldBlock}
    (working : Working slab bodies (b :: held) [] v) (few : held.length ≤ 8)
    (done : ∀ w, Working slab bodies held [] w → returns () (.live w)) :
    ((AllocatorCall.interface P).always AtMost).Meets returns throws
      (Task.deallocate (some b.ptr) b.size) (.live v) := by
  have now : AtMost (.live v) :=
    (working.modest (by rw [List.length_cons]; omega) (Nat.zero_le _)).atMost
  by_cases small : b.size ≤ maxSmall
  · have loans : poolLoans (b :: held) = (b.ptr, sizeClassOf b.size small) :: poolLoans held := by
      simp [poolLoans, small]
    have spans : arenaSpans (b :: held) = arenaSpans held := by simp [arenaSpans, small]
    have lent := working.lent
    rw [loans] at lent
    apply Task.deallocate_pool now small lent.out
    apply done
    refine ⟨lent.giveBack, ?_, working.once⟩
    rw [← spans]
    exact working.bumped
  · have loans : poolLoans (b :: held) = poolLoans held := by simp [poolLoans, small]
    have spans : arenaSpans (b :: held) = ⟨b.ptr, b.size⟩ :: arenaSpans held := by
      simp [arenaSpans, small]
    have bumped := working.bumped
    rw [spans] at bumped
    apply Task.deallocate_arena now (Nat.not_le.mp small)
      (bumped.symm.subset List.mem_cons_self) rfl
    apply done
    refine ⟨?_, ?_, working.once⟩
    · rw [← loans]
      exact working.lent.congr rfl rfl rfl
    · have erased := bumped.erase ⟨b.ptr, b.size⟩
      rwa [List.erase_cons_head] at erased

end Rounds

section Interleaved

variable {P : Platform}

end Interleaved

end Worker

end MemAlloc
