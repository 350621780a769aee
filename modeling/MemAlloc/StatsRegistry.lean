import MemAlloc.Stats
import MemAlloc.Lib.Totals

set_option autoImplicit false

namespace MemAlloc

/-- The counters that `global_stats` adds up. -/
inductive Counter where
  | requested
  | allocated
  | allocCount
  | freeCount
deriving DecidableEq, Repr

def Counter.of : Counter → Stats → Nat
  | .requested, s => s.requested
  | .allocated, s => s.allocated
  | .allocCount, s => s.allocCount
  | .freeCount, s => s.freeCount

/-- The entry of a counter in a list of four. -/
def Counter.entry (c : Counter) (requested allocated allocs frees : Nat) : Nat :=
  match c with
  | .requested => requested
  | .allocated => allocated
  | .allocCount => allocs
  | .freeCount => frees

/-- The registry of per-thread statistics. `live` and `liveAllocators` hold addresses. -/
structure StatsRegistry where
  live : List Nat
  liveAllocators : List Nat
  retired : List Stats

/-- The lambda of `global_stats`. The running total's `live_` stays zero. -/
def addStats (total s : Stats) : Stats where
  requested := Words.add total.requested s.requested
  allocated := Words.add total.allocated s.allocated
  peakAllocated :=
    if total.peakAllocated < s.peakAllocated then s.peakAllocated else total.peakAllocated
  allocCount := Words.add total.allocCount s.allocCount
  freeCount := Words.add total.freeCount s.freeCount
  live := total.live

namespace StatsRegistry

def empty : StatsRegistry := ⟨[], [], []⟩

def registerStats (r : StatsRegistry) (s allocator : Nat) : StatsRegistry :=
  { r with live := r.live ++ [s], liveAllocators := r.liveAllocators ++ [allocator] }

/-- `snapshot` is what the address `s` holds at the time. -/
def retireStats (r : StatsRegistry) (s : Nat) (snapshot : Stats) : StatsRegistry :=
  let index := r.live.idxOf s
  if index < r.live.length then
    { live := r.live.eraseIdx index
      liveAllocators := r.liveAllocators.eraseIdx index
      retired := r.retired ++ [snapshot] }
  else { r with retired := r.retired ++ [snapshot] }

/-- `read` follows a pointer to a live thread's counters. -/
def globalStats (read : Nat → Stats) (r : StatsRegistry) : Stats :=
  r.retired.foldl addStats ((r.live.map read).foldl addStats Stats.zero)

end StatsRegistry

theorem Counter.of_addStats (c : Counter) (total s : Stats) :
    c.of (addStats total s) = Words.add (c.of total) (c.of s) := by
  cases c <;> rfl

/-- Adding up a list of counters, modulo the word size. -/
theorem Counter.of_foldl (c : Counter) (list : List Stats) {start : Stats}
    (word : c.of start < Words.radix) :
    c.of (list.foldl addStats start) =
      (c.of start + Totals.total c.of list) % Words.radix := by
  induction list generalizing start with
  | nil => exact (Nat.mod_eq_of_lt word).symm
  | cons s rest ih =>
      have next : c.of (addStats start s) < Words.radix := by
        rw [c.of_addStats]
        exact Words.add_lt _ _
      rw [List.foldl_cons, ih next, c.of_addStats, Words.add, Totals.total_cons,
        Nat.mod_add_mod, Nat.add_assoc]

theorem peak_foldl (list : List Stats) (start : Stats) :
    (list.foldl addStats start).peakAllocated =
      max start.peakAllocated (Totals.highest Stats.peakAllocated list) := by
  induction list generalizing start with
  | nil => exact (Nat.max_zero _).symm
  | cons s rest ih =>
      have first : (addStats start s).peakAllocated =
          max start.peakAllocated s.peakAllocated := by
        simp only [addStats]
        split <;> omega
      rw [List.foldl_cons, ih, first, Totals.highest_cons, Nat.max_assoc]

theorem live_foldl (list : List Stats) (start : Stats) :
    (list.foldl addStats start).live = start.live := by
  induction list generalizing start with
  | nil => rfl
  | cons s rest ih => exact ih (addStats start s)

theorem Stats.ext_counters {s s' : Stats} (counters : ∀ c : Counter, c.of s = c.of s')
    (peak : s.peakAllocated = s'.peakAllocated) (live : s.live = s'.live) : s = s' := by
  obtain ⟨requested, allocated, peakAllocated, allocCount, freeCount, live₀⟩ := s
  obtain rfl : requested = _ := counters .requested
  obtain rfl : allocated = _ := counters .allocated
  obtain rfl : allocCount = _ := counters .allocCount
  obtain rfl : freeCount = _ := counters .freeCount
  obtain rfl : peakAllocated = _ := peak
  obtain rfl : live₀ = _ := live
  rfl

/-- The total's counters are the sums over the given threads, and its peak is their
largest. -/
structure Stats.IsTotal (g : Stats) (counters : Nat → Stats) (threads : List Nat) : Prop where
  sums : ∀ c : Counter, c.of g = Totals.total (fun t => c.of (counters t)) threads
  peak : g.peakAllocated = Totals.highest (fun t => (counters t).peakAllocated) threads

/-- Nothing that is displayed has decreased. -/
structure Stats.Le (older newer : Stats) : Prop where
  sums : ∀ c : Counter, c.of older ≤ c.of newer
  peak : older.peakAllocated ≤ newer.peakAllocated

namespace StatsRegistry

variable {r : StatsRegistry} {read : Nat → Stats} {counters : Nat → Stats}
  {address : Nat → Nat} {alive done : List Nat}

/-- The registry lists the live threads by address and the others by their final counters. -/
theorem of_globalStats (live : r.live = alive.map address) (retired : r.retired = done.map counters)
    (reads : ∀ t ∈ alive, read (address t) = counters t) (c : Counter) :
    c.of (r.globalStats read) =
      Totals.total (fun t => c.of (counters t)) (alive ++ done) % Words.radix := by
  have current : r.live.map read = alive.map counters := by
    rw [live, List.map_map]
    exact List.map_congr_left reads
  have zero : c.of Stats.zero = 0 := by cases c <;> rfl
  have word : c.of ((alive.map counters).foldl addStats Stats.zero) < Words.radix := by
    rw [c.of_foldl _ (by rw [zero]; decide)]
    exact Nat.mod_lt _ (by decide)
  rw [globalStats, current, retired, c.of_foldl _ word, c.of_foldl _ (by rw [zero]; decide), zero,
    Nat.zero_add, Nat.mod_add_mod, Totals.total_append]
  simp only [Totals.total, List.map_map]
  rfl

theorem peak_globalStats (live : r.live = alive.map address)
    (retired : r.retired = done.map counters)
    (reads : ∀ t ∈ alive, read (address t) = counters t) :
    (r.globalStats read).peakAllocated =
      Totals.highest (fun t => (counters t).peakAllocated) (alive ++ done) := by
  have current : r.live.map read = alive.map counters := by
    rw [live, List.map_map]
    exact List.map_congr_left reads
  rw [globalStats, current, retired, peak_foldl, peak_foldl, Totals.highest_append]
  simp only [Totals.highest, List.map_map, Stats.zero, Nat.zero_max]
  rfl

theorem live_globalStats (r : StatsRegistry) (read : Nat → Stats) :
    (r.globalStats read).live = 0 := by
  rw [globalStats, live_foldl, live_foldl]
  rfl

theorem idxOf_map {xs : List Nat} {x : Nat} (distinct : ∀ y ∈ xs, address y = address x → y = x) :
    (xs.map address).idxOf (address x) = xs.idxOf x := by
  induction xs with
  | nil => rfl
  | cons y ys ih =>
      have tail := ih (fun z member => distinct z (List.mem_cons_of_mem _ member))
      rw [List.map_cons]
      by_cases same : y = x
      · rw [same, List.idxOf_cons_self, List.idxOf_cons_self]
      · have other : address y ≠ address x :=
          fun equal => same (distinct y List.mem_cons_self equal)
        rw [List.idxOf_cons_ne _ other, List.idxOf_cons_ne _ same, tail]

/-- Retiring a registered thread removes exactly its entries from both vectors. -/
theorem retireStats_eq {object : Nat → Nat} {t : Nat} (live : r.live = alive.map address)
    (allocators : r.liveAllocators = alive.map object) (member : t ∈ alive)
    (distinct : ∀ y ∈ alive, address y = address t → y = t) (snapshot : Stats) :
    r.retireStats (address t) snapshot =
      ⟨(alive.erase t).map address, (alive.erase t).map object, r.retired ++ [snapshot]⟩ := by
  have inside : alive.idxOf t < (alive.map address).length := by
    rw [List.length_map]
    exact List.idxOf_lt_length_of_mem member
  have erased : alive.eraseIdx (alive.idxOf t) = alive.erase t :=
    (List.erase_eq_eraseIdx_of_idxOf rfl).symm
  simp only [retireStats, live, allocators, idxOf_map distinct, inside, ↓reduceIte,
    List.eraseIdx_map, erased]

end StatsRegistry

end MemAlloc
