import MemAlloc.ChunkCounts
import MemAlloc.Fragmentation
import MemAlloc.RegistrySafety

set_option autoImplicit false

namespace MemAlloc

open Malloc (Heap addressLimit)
open Runs (Run Transition)
open SingleThreadAllocator (Occupancy)
open AllocatorRuns (Whole)

/-- `std::clamp`. -/
def clamp (x low high : ℚ) : ℚ := if x < low then low else if high < x then high else x

/-- How far a bar is filled. -/
def barFraction (F : Rounding) (part whole : Nat) : ℚ :=
  if 0 < whole then clamp (F.round (F.round part / F.round whole)) 0 1 else 0

structure ProgressBar where
  fraction : ℚ
  overlay : String

/-- The collapsible section of one thread. -/
structure PoolSection where
  title : String
  bars : List ProgressBar

namespace SingleThreadAllocator.Occupancy

/-- The subtraction is one of `size_t` values. -/
def used (o : Occupancy) (i : SizeClass) : Nat := Words.sub (o.cap i) (o.freeCount i)

def bars (F : Rounding) (o : Occupancy) : List ProgressBar :=
  (List.finRange 7).map (fun i =>
    ⟨barFraction F (o.used i) (o.cap i),
      toString (SizeClass.bytes i) ++ "  " ++ toString (o.used i) ++ "/" ++ toString (o.cap i)⟩) ++
  [⟨barFraction F o.arenaUsed o.arenaCap,
    "arena  " ++ toString o.arenaUsed ++ "/" ++ toString o.arenaCap⟩]

end SingleThreadAllocator.Occupancy

def PoolSection.ofThread (F : Rounding) (a : ThreadPoolAlloc) (o : Occupancy) : PoolSection where
  title := "Thread " ++ toString a.threadId
  bars := o.bars F

namespace ThreadInv

variable {m : ByteMemory} {g : Shared} {t : Nat} {a : SingleThreadAllocator} {client : Client}
  {free : SizeClass → List Nat}

/-- What the pools of a thread show while their tables hold all linked slabs. -/
def shown (g : Shared) (t : Nat) (a : SingleThreadAllocator) (free : SizeClass → List Nat) :
    Occupancy where
  freeCount := fun i => (free i).length
  cap := fun i => blocksPerSlab + g.chunkCount t i * SingleThreadAllocator.maxBlocks i
  arenaUsed := a.arena.used
  arenaCap := a.arena.capacity

end ThreadInv

namespace Sys

variable {P : Platform} {s s' : Sys}

/-- Memory safety, and slab tables that are complete. -/
structure Tables (s : Sys) : Prop where
  inv : SysInv s.solid
  tabled : s.solid.Keeps Tabled

/-- What the slabs of a step's tables rest on: sums do not wrap around, no empty block is
freed, and the table of a pool that links a chunk grows. -/
def Steady (P : Platform) (s : Sys) (e : Event) (s' : Sys) : Prop :=
  s.Proper P e ∧ s.Records P e s'

theorem Tables.initial (m : ByteMemory) (h : Heap Owner) : (Sys.initial m h).Tables :=
  ⟨(SysInv.initial m h).congr rfl rfl rfl, Keeps.initial m h⟩

theorem Tables.step {e : Event} (tables : s.Tables) (power : Words.PowerOfTwo P.maxAlign)
    (steady : s.Steady P e s') (taken : Step P s e s') : s'.Tables := by
  obtain ⟨proper, records⟩ := steady
  refine ⟨tables.inv.next_solid power proper.1 proper.2 taken, ?_⟩
  exact tables.tabled.step taken power tables.inv proper records (fun _ external => .new external)
    (fun _ _ _ _ _ _ _ _ _ tabled move => tabled.move move)

section Depicts

variable {t : Nat} {pool : ThreadPoolAlloc} {client : Client} {free : SizeClass → List Nat}

end Depicts

end Sys

namespace Process

/-- What a step of the process does to the threads and the heap. -/
def Event.sys : Event → Option Sys.Event
  | .construct t x => some (.start t x)
  | .operate e => some e
  | .around e => some e
  | .destroy t => some (.exit t)
  | _ => none

variable {P : Platform} {offset : Nat} {m : ByteMemory} {h : Heap Owner}
  {trace : List (Transition Process Event)} {s s' : Process}

theorem Step.sys {e : Event} (taken : Step P offset s e s') :
    (e.sys = none ∧ s'.sys = s.sys) ∨ ∃ e', e.sys = some e' ∧ Sys.Step P s.sys e' s'.sys := by
  cases taken with
  | construct absent unused started => exact Or.inr ⟨_, rfl, started⟩
  | constructFails absent failed => exact Or.inr ⟨_, rfl, failed⟩
  | operate caller registered taken => exact Or.inr ⟨_, rfl, taken⟩
  | around noCall noLife taken => exact Or.inr ⟨_, rfl, taken⟩
  | destroy retired live taken => exact Or.inr ⟨_, rfl, taken⟩
  | register | retire | globalStats => exact Or.inl ⟨rfl, rfl⟩

end Process

end MemAlloc
