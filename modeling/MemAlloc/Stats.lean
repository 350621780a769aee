import MemAlloc.Lib.Words

set_option autoImplicit false

namespace MemAlloc

/-- Lifetime totals, in `std::size_t` arithmetic. -/
structure Stats where
  requested : Nat
  allocated : Nat
  peakAllocated : Nat
  allocCount : Nat
  freeCount : Nat
  live : Nat
deriving DecidableEq, Repr

namespace Stats

def zero : Stats := ⟨0, 0, 0, 0, 0, 0⟩

def recordAlloc (s : Stats) (req got : Nat) : Stats :=
  let live := Words.add s.live got
  { requested := Words.add s.requested req
    allocated := Words.add s.allocated got
    peakAllocated := if s.peakAllocated < live then live else s.peakAllocated
    allocCount := Words.add s.allocCount 1
    freeCount := s.freeCount
    live := live }

def recordFree (s : Stats) (req got : Nat) : Stats :=
  { requested := Words.add s.requested req
    allocated := Words.add s.allocated got
    peakAllocated := s.peakAllocated
    allocCount := s.allocCount
    freeCount := Words.add s.freeCount 1
    live := Words.sub s.live got }

/-- None of the additions that record an operation wraps around. -/
def Room (s : Stats) (req got : Nat) : Prop :=
  s.requested + req < Words.radix ∧ s.allocated + got < Words.radix ∧
    s.allocCount + 1 < Words.radix ∧ s.freeCount + 1 < Words.radix

/-- The counters describe `bytesOut` bytes in `blocksOut` blocks that are out. -/
structure Counted (s : Stats) (bytesOut blocksOut : Nat) : Prop where
  live : s.live = bytesOut
  counts : s.allocCount = s.freeCount + blocksOut
  ratio : s.requested ≤ s.allocated
  liveAllocated : s.live ≤ s.allocated
  livePeak : s.live ≤ s.peakAllocated

theorem Counted.zero : Counted Stats.zero 0 0 :=
  ⟨rfl, rfl, Nat.le_refl _, Nat.le_refl _, Nat.le_refl _⟩

theorem Counted.recordAlloc {s : Stats} {bytesOut blocksOut req got : Nat}
    (counted : Counted s bytesOut blocksOut) (room : s.Room req got) (covers : req ≤ got) :
    Counted (s.recordAlloc req got) (bytesOut + got) (blocksOut + 1) ∧
      (s.recordAlloc req got).peakAllocated =
        max s.peakAllocated (s.recordAlloc req got).live := by
  obtain ⟨requested, allocated, allocs, _⟩ := room
  obtain ⟨live, counts, ratio, liveAllocated, livePeak⟩ := counted
  have liveRoom : Words.add s.live got = s.live + got := Words.add_of_lt (by omega)
  simp only [Stats.recordAlloc, liveRoom, Words.add_of_lt requested, Words.add_of_lt allocated,
    Words.add_of_lt allocs]
  refine ⟨⟨by simp only; omega, by simp only; omega, by simp only; omega, by simp only; omega, ?_⟩,
    ?_⟩
  · simp only
    split <;> omega
  · split <;> omega

theorem Counted.recordFree {s : Stats} {bytesOut blocksOut req got : Nat}
    (counted : Counted s (bytesOut + got) (blocksOut + 1)) (room : s.Room req got)
    (covers : req ≤ got) :
    Counted (s.recordFree req got) bytesOut blocksOut ∧
      (s.recordFree req got).peakAllocated =
        max s.peakAllocated (s.recordFree req got).live := by
  obtain ⟨requested, allocated, _, frees⟩ := room
  obtain ⟨live, counts, ratio, liveAllocated, livePeak⟩ := counted
  have liveRoom : Words.sub s.live got = s.live - got :=
    Words.sub_of_le (by omega) (by omega)
  simp only [Stats.recordFree, liveRoom, Words.add_of_lt requested, Words.add_of_lt allocated,
    Words.add_of_lt frees]
  refine ⟨⟨by simp only; omega, by simp only; omega, by simp only; omega, by simp only; omega,
    by simp only; omega⟩, by omega⟩

/-- What the counters have grown by between two moments, modulo the word size. -/
structure Adds (s : Stats) (req got allocs frees : Nat) (t : Stats) : Prop where
  requested : t.requested % Words.radix = (s.requested + req) % Words.radix
  allocated : t.allocated % Words.radix = (s.allocated + got) % Words.radix
  allocCount : t.allocCount % Words.radix = (s.allocCount + allocs) % Words.radix
  freeCount : t.freeCount % Words.radix = (s.freeCount + frees) % Words.radix
  words : s.requested < Words.radix ∧ s.allocated < Words.radix →
    t.requested < Words.radix ∧ t.allocated < Words.radix

namespace Adds

variable {s t u : Stats} {req got allocs frees req' got' allocs' frees' : Nat}

theorem refl (s : Stats) : s.Adds 0 0 0 0 s := ⟨rfl, rfl, rfl, rfl, id⟩

theorem trans (first : s.Adds req got allocs frees t) (second : t.Adds req' got' allocs' frees' u) :
    s.Adds (req + req') (got + got') (allocs + allocs') (frees + frees') u := by
  obtain ⟨requested, allocated, allocCount, freeCount, words⟩ := first
  obtain ⟨requested', allocated', allocCount', freeCount', words'⟩ := second
  refine ⟨?_, ?_, ?_, ?_, fun fits => words' (words fits)⟩ <;> simp only [Words.radix] at * <;>
    omega

theorem recordAlloc (s : Stats) (req got : Nat) : s.Adds req got 1 0 (s.recordAlloc req got) := by
  refine ⟨?_, ?_, ?_, rfl, fun _ => ⟨Words.add_lt _ _, Words.add_lt _ _⟩⟩ <;>
    simp [Stats.recordAlloc, Words.add]

theorem recordFree (s : Stats) (req got : Nat) : s.Adds req got 0 1 (s.recordFree req got) := by
  refine ⟨?_, ?_, rfl, ?_, fun _ => ⟨Words.add_lt _ _, Words.add_lt _ _⟩⟩ <;>
    simp [Stats.recordFree, Words.add]

theorem exact (adds : Stats.zero.Adds req got allocs frees t)
    (fits : req < Words.radix ∧ got < Words.radix) : t.requested = req ∧ t.allocated = got := by
  obtain ⟨requested, allocated, _, _, words⟩ := adds
  have word := words ⟨by decide, by decide⟩
  rw [Nat.mod_eq_of_lt word.1] at requested
  rw [Nat.mod_eq_of_lt word.2] at allocated
  refine ⟨requested.trans ?_, allocated.trans ?_⟩
  · exact (congrArg (· % Words.radix) (Nat.zero_add req)).trans (Nat.mod_eq_of_lt fits.1)
  · exact (congrArg (· % Words.radix) (Nat.zero_add got)).trans (Nat.mod_eq_of_lt fits.2)

end Adds

end Stats

end MemAlloc
