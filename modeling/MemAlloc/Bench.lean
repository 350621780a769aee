import MemAlloc.Batches
import MemAlloc.Fragmentation
import MemAlloc.GrantedCalls

set_option autoImplicit false

/- The benchmark's custom workloads, as programs against the thread's allocator. -/
namespace MemAlloc

open Malloc (Heap)
open Programs (Program Interface Crew)
open Runs (Run Transition)
open SingleThreadAllocator (chunkSlab maxBlocks)

namespace Stats

/-- As many bytes were consumed as requested between the two moments, modulo the word size. -/
def Even (s t : Stats) : Prop :=
  (t.requested + s.allocated) % Words.radix = (t.allocated + s.requested) % Words.radix

theorem Adds.even {s t : Stats} {bytes allocs frees : Nat}
    (adds : s.Adds bytes bytes allocs frees t) : s.Even t := by
  obtain ⟨requested, allocated, _, _, _⟩ := adds
  simp only [Even, Words.radix] at *
  omega

end Stats

namespace Bench

def kSizes : List Nat := [16, 64, 256, 1024]

/-- Fragmentation of a workload, from the totals before and after it. The subtractions are ones
of `size_t` values. -/
def deltaFrag (R : Rounding) (before after : Stats) : ℚ :=
  let req := Words.sub after.requested before.requested
  let got := Words.sub after.allocated before.allocated
  if got = 0 then 0 else R.round (R.round (Words.sub got req : ℕ) / R.round (got : ℕ))

/-- Requests of whole blocks waste nothing, whether or not the totals have wrapped around. -/
theorem deltaFrag_even (R : Rounding) {before after : Stats} (even : before.Even after) :
    deltaFrag R before after = 0 := by
  have same : Words.sub after.requested before.requested =
      Words.sub after.allocated before.allocated := by
    simp only [Stats.Even, Words.sub, Words.radix] at *
    omega
  have none (x : Nat) : Words.sub x x = 0 := by
    simp only [Words.sub, Words.radix]
    omega
  rw [deltaFrag, same]
  split
  · rfl
  · rw [none, Nat.cast_zero, R.zero, zero_div, R.zero]

/-- `count` pairs of calls, with sizes cycling through `kSizes`. -/
def opLoop (count : Nat) : Task Unit := do
  Task.allocatorInstance
  Task.repeated (fun i => do
    let n := kSizes.getD (i % kSizes.length) 0
    let p ← Task.allocate n
    Task.deallocate p n) 0 count

/-- A warmup and five trials. -/
def measure (f : Task Unit) : Task Unit := do
  f
  Task.repeated (fun _ => f) 0 5

/-- The counters around the single-thread measurement. -/
def latency (ops : Nat) : Task (Stats × Stats) := do
  Task.allocatorInstance
  let before ← Task.stats
  measure (opLoop ops)
  Task.allocatorInstance
  let after ← Task.stats
  return (before, after)

/-- `p->field = 1` for an `int`, whose low byte comes first. -/
def setField (p : Option Nat) : Task Unit := do
  let a := p.getD 0
  Task.write a 1
  Task.write (a + 1) 0
  Task.write (a + 2) 0
  Task.write (a + 3) 0

/-- One run of the locality measurement: `count` nodes are made and then freed in order. -/
def localityRun (count : Nat) : Task (List (Option Nat)) := do
  Task.allocatorInstance
  let ptrs ← Program.loop (fun _ ptrs => do
    let p ← Task.allocate 64
    setField p
    return .yield (ptrs ++ [p])) 0 count []
  Program.each (fun p => do
    Task.allocatorInstance
    Task.deallocate p 64) ptrs
  return ptrs

/-- The pointers of the warmup and of the five trials. -/
def locality (count : Nat) : Task (List (List (Option Nat))) := do
  let warmup ← localityRun count
  Program.loop (fun _ runs => do
    let ptrs ← localityRun count
    return .yield (runs ++ [ptrs])) 0 5 [warmup]

theorem kSizes_class (i : Nat) :
    ∃ c : SizeClass, c.bytes ∈ kSizes ∧ kSizes.getD (i % kSizes.length) 0 = c.bytes := by
  have classes : ∀ j < kSizes.length,
      ∃ c : SizeClass, c.bytes ∈ kSizes ∧ kSizes.getD j 0 = c.bytes := by decide
  exact classes _ (Nat.mod_lt i (by decide))

/-- After `pairs` requests with their frees the allocator is as before, but that a class which had
no free block may have got one chunk. -/
structure Settled (v₀ : View) (pairs : Nat) (v : View) : Prop where
  held : v.ledger.held = v₀.ledger.held
  bumped : v.ledger.bumped = v₀.ledger.bumped
  arenaUsed : v.arenaUsed = v₀.arenaUsed
  classes : ∀ i,
    (v.ledger.free i = v₀.ledger.free i ∧ v.ledger.linked i = v₀.ledger.linked i) ∨
      (v₀.ledger.free i = [] ∧ ∃ body,
        v.ledger.free i = (chunkSlab i body).blocks i.bytes ∧
        v.ledger.linked i = v₀.ledger.linked i ++ [chunkSlab i body])
  adds : ∃ bytes, v₀.stats.Adds bytes bytes pairs pairs v.stats

namespace Settled

variable {v₀ v : View} {pairs more : Nat} {i : SizeClass}

theorem refl (v : View) : Settled v 0 v :=
  ⟨rfl, rfl, rfl, fun _ => Or.inl ⟨rfl, rfl⟩, 0, .refl _⟩

theorem cycle (settled : Settled v₀ pairs v) (i : SizeClass) :
    Settled v₀ (pairs + 1) (v.cycle i i.bytes) := by
  obtain ⟨bytes, adds⟩ := settled.adds
  refine ⟨settled.held, settled.bumped, settled.arenaUsed, settled.classes, ?_⟩
  have pair := (Stats.Adds.recordAlloc v.stats i.bytes i.bytes).trans
    (.recordFree _ i.bytes i.bytes)
  exact ⟨_, adds.trans pair⟩

/-- A chunk is linked to a class that had no free block from the start, and only once. -/
theorem link (settled : Settled v₀ pairs v) (empty : v.ledger.free i = []) (body : Nat) :
    v₀.ledger.free i = [] ∧ Settled v₀ pairs (v.link i body) := by
  have first : v₀.ledger.free i = [] ∧ v.ledger.linked i = v₀.ledger.linked i := by
    rcases settled.classes i with ⟨free, linked⟩ | ⟨_, other, blocks, _⟩
    · exact ⟨free.symm.trans empty, linked⟩
    · have none := congrArg List.length (blocks.symm.trans empty)
      have some := SingleThreadAllocator.maxBlocks_positive i
      simp only [Slab.length_blocks, chunkSlab, List.length_nil] at none
      omega
  refine ⟨first.1, ?_, settled.bumped, settled.arenaUsed, ?_, settled.adds⟩
  · rw [← settled.held]
    simp [View.link, Ledger.link, Ledger.setPool]
  · intro j
    by_cases same : j = i
    · subst same
      refine Or.inr ⟨first.1, body, ?_, ?_⟩
      · simp [View.link, Ledger.link, Ledger.setPool, empty]
      · simp [View.link, Ledger.link, Ledger.setPool, first.2]
    · have before := settled.classes j
      simpa [View.link, Ledger.link, Ledger.setPool, same] using before

theorem trans {v₁ : View} (first : Settled v₀ pairs v₁) (second : Settled v₁ more v) :
    Settled v₀ (pairs + more) v := by
  obtain ⟨bytes, adds⟩ := first.adds
  obtain ⟨bytes', adds'⟩ := second.adds
  refine ⟨second.held.trans first.held, second.bumped.trans first.bumped,
    second.arenaUsed.trans first.arenaUsed, ?_, _, adds.trans adds'⟩
  intro i
  rcases second.classes i with ⟨free, linked⟩ | ⟨empty, body, blocks, linked⟩
  · rw [free, linked]
    exact first.classes i
  · obtain ⟨empty₀, _⟩ := first.link empty body
    rcases first.classes i with ⟨_, linked₁⟩ | ⟨_, other, blocks₁, _⟩
    · exact Or.inr ⟨empty₀, body, blocks, by rw [linked, linked₁]⟩
    · have none := congrArg List.length (blocks₁.symm.trans empty)
      have some := SingleThreadAllocator.maxBlocks_positive i
      simp only [Slab.length_blocks, chunkSlab, List.length_nil] at none
      omega

end Settled

section Loops

variable {P : Platform} {k : Knowledge} {v : View}

def Short (v : View) : Prop := ∃ i : SizeClass, i.bytes ∈ kSizes ∧ v.ledger.free i = []

theorem not_short_new (slab : SizeClass → Nat) : ¬ Short (View.new slab) := by
  intro ⟨i, _, empty⟩
  have none := congrArg List.length empty
  simp [View.new, Slab.length_blocks, blocksPerSlab] at none

/-- A program that runs pairs of calls: it leaves the allocator settled, and throws only if the
allocator cannot be built or a class was short of blocks. -/
abbrev Pairs {α : Type} (P : Platform) (k : Knowledge) (pairs : Nat) (p : Task α)
    (returns : α → View → View → Prop) : Prop :=
  ((AllocatorCall.interface P).always fun _ => True).Meets
    (fun a k' => ∃ v₀ v, Task.Begins k v₀ ∧ k' = .live v ∧ Settled v₀ pairs v ∧ returns a v₀ v)
    (fun _ k' => (k = .unborn ∧ k' = .unborn) ∨ ∃ v₀, k = .live v₀ ∧ Short v₀) p k

theorem opLoop_round (aligns : P.Aligns) {v₀ : View} {i : Nat} (settled : Settled v₀ i v)
    {throws : Exn → Knowledge → Prop} (short : Short v₀ → ∀ x k, throws x k) :
    ((AllocatorCall.interface P).always fun _ => True).Meets
      (fun _ k' => ∃ v', k' = .live v' ∧ Settled v₀ (i + 1) v') throws
      ((Task.allocate (kSizes.getD (i % kSizes.length) 0)).bind fun p =>
        Task.deallocate p (kSizes.getD (i % kSizes.length) 0)) (.live v) := by
  obtain ⟨c, listed, size⟩ := kSizes_class i
  have missing (empty : v.ledger.free c = []) : Short v₀ :=
    ⟨c, listed, (settled.link empty 0).1⟩
  rw [size]
  apply Task.cycle_meets (aligns.bounded (Nat.le_trans c.bytes_le (by decide))) c.bytes_le
    (sizeClassOf_bytes c) trivial
  · intros
    trivial
  · intro _
    exact ⟨_, rfl, settled.cycle c⟩
  · intro empty body
    exact ⟨_, rfl, (settled.link empty body).2.cycle c⟩
  · intro empty x
    exact short (missing empty) _ _
  · intro empty
    exact short (missing empty) _ _

/-- A class is short only on a thread that has had an allocator for longer. -/
theorem Short.begins {v₀ : View} (short : Short v₀) (begins : Task.Begins k v₀) :
    ∃ v₀, k = .live v₀ ∧ Short v₀ := by
  cases begins with
  | live => exact ⟨_, rfl, short⟩
  | unborn slab => exact (not_short_new slab short).elim

theorem opLoop_pairs (aligns : P.Aligns) (known : k ≠ .broken) (count : Nat) :
    Pairs P k count (opLoop count) fun _ _ _ => True := by
  apply Interface.Meets.andThen
  apply Task.allocatorInstance_meets known trivial
  · intro v₀ begins
    apply Task.repeated_meets (fun i k' => ∃ v, k' = .live v ∧ Settled v₀ i v)
    · exact ⟨v₀, rfl, .refl v₀⟩
    · rintro i _ _ _ ⟨v, rfl, settled⟩
      apply opLoop_round aligns settled
      intro short x k'
      exact Or.inr (short.begins begins)
    · rintro _ ⟨v, rfl, settled⟩
      rw [Nat.zero_add] at settled
      exact ⟨v₀, v, begins, rfl, settled, trivial⟩
  · intro unborn x
    exact Or.inl ⟨unborn, rfl⟩

theorem measure_pairs (aligns : P.Aligns) (known : k ≠ .broken) (count : Nat) :
    Pairs P k (6 * count) (measure (opLoop count)) fun _ _ _ => True := by
  apply Interface.Meets.bind (opLoop_pairs aligns known count)
  rintro _ _ ⟨v₀, v, begins, rfl, settled, _⟩
  apply Task.repeated_meets (fun i k' => ∃ w, k' = .live w ∧ Settled v₀ (count + i * count) w)
  · exact ⟨v, rfl, by simpa using settled⟩
  · rintro i _ _ _ ⟨w, rfl, before⟩
    apply (opLoop_pairs aligns (by simp) count).mono
    · rintro _ _ ⟨w₀, w', begins', rfl, after, _⟩
      cases begins'
      refine ⟨w', rfl, ?_⟩
      have both := before.trans after
      rwa [Nat.add_assoc, ← Nat.succ_mul] at both
    · rintro _ _ (⟨unborn, _⟩ | ⟨_, same, i, listed, empty⟩)
      · cases unborn
      · cases same
        have short : Short v₀ := ⟨i, listed, (before.link empty 0).1⟩
        exact Or.inr (short.begins begins)
  · rintro _ ⟨w, rfl, after⟩
    refine ⟨v₀, w, begins, rfl, ?_, trivial⟩
    rwa [show count + (0 + 5) * count = 6 * count by omega] at after

/-- The benchmark reports a fragmentation of zero for its own workload, whatever the number of
operations and whatever the totals were before. -/
theorem latency_pairs (aligns : P.Aligns) (known : k ≠ .broken) (ops : Nat) :
    Pairs P k (6 * ops) (latency ops) fun a v₀ v => a = (v₀.stats, v.stats) := by
  apply Interface.Meets.andThen
  apply Task.allocatorInstance_meets known trivial
  · intro v₀ begins
    apply Interface.Meets.andThen
    apply Task.stats_meets trivial
    apply Interface.Meets.andThen
    apply (measure_pairs aligns (by simp) ops).mono
    · rintro _ _ ⟨_, v, begins', rfl, settled, _⟩
      cases begins'
      apply Interface.Meets.andThen
      apply Task.allocatorInstance_again trivial
      apply Interface.Meets.andThen
      apply Task.stats_meets trivial
      exact ⟨v₀, v, begins, rfl, settled, rfl⟩
    · rintro _ _ (⟨unborn, _⟩ | ⟨_, same, short⟩)
      · cases unborn
      · cases same
        exact Or.inr (short.begins begins)
  · intro unborn x
    exact Or.inl ⟨unborn, rfl⟩

end Loops

section Scaling

variable {P : Platform}

/-- The fragmentation that the benchmark reports for its single-thread workload is zero, whatever
the number of operations, the totals before it and the other threads. -/
theorem latency_wastes_nothing {ops : Nat} {begins : Nat → Knowledge}
    {x y : TaskCrew (Stats × Stats)}
    {trace : List (Transition (TaskCrew (Stats × Stats)) (Crew.Event AllocatorCall.Answer))}
    (aligns : P.Aligns) (starts : x.Starts P (fun _ => latency ops) begins)
    (known : ∀ t, begins t ≠ .broken) (run : Run (TaskCrew.Step P) x trace y) {t : Nat}
    {measured : Stats × Stats} (halted : y.programs t = some (.ret measured)) (R : Rounding) :
    deltaFrag R measured.1 measured.2 = 0 ∧
      measured.2.allocCount % Words.radix = (measured.1.allocCount + 6 * ops) % Words.radix ∧
      measured.2.freeCount % Words.radix = (measured.1.freeCount + 6 * ops) % Words.radix ∧
      ∃ v₀ v, Task.Begins (begins t) v₀ ∧ Sees P y.shared t (.live v) ∧
        v.ledger.held = v₀.ledger.held ∧ measured = (v₀.stats, v.stats) := by
  have meets (t : Nat) := latency_pairs aligns (known t) ops
  obtain ⟨_, k, sees, v₀, v, first, rfl, settled, rfl⟩ := starts.interleaved aligns meets run halted
  obtain ⟨bytes, adds⟩ := settled.adds
  exact ⟨deltaFrag_even R adds.even, adds.allocCount, adds.freeCount, v₀, v, first, sees,
    settled.held, rfl⟩

/-- Three operations on a new allocator, measured. -/
theorem latency_wastes_nothing_three : ∃ (measured : Stats × Stats) (trace : List (Transition
      (TaskCrew (Stats × Stats)) (Crew.Event AllocatorCall.Answer)))
    (x y : TaskCrew (Stats × Stats)), Run (TaskCrew.Step desktop) x trace y ∧
      y.programs 0 = some (.ret measured) ∧
      deltaFrag Rounding.exact measured.1 measured.2 = 0 := by
  have known (slab : SizeClass → Nat) : Knowledge.live (View.new slab) ≠ .broken := by simp
  obtain ⟨x, y, slab, measured, trace, starts, run, halted⟩ :=
    TaskCrew.returns_once (latency 3) (fun slab =>
      (latency_pairs desktop_aligns (known slab) 3).mono (fun _ _ _ => trivial) (by
        rintro _ _ (⟨unborn, _⟩ | ⟨_, same, short⟩)
        · cases unborn
        · cases same
          exact not_short_new slab short))
  exact ⟨measured, trace, x, y, run, halted,
    (latency_wastes_nothing desktop_aligns starts (fun _ => known slab) run halted
      Rounding.exact).1⟩

end Scaling

section Locality

variable {P : Platform} {k : Knowledge} {v₀ v : View}

def nodeClass : SizeClass := class64

theorem setField_meets {returns : Unit → Knowledge → Prop} {throws : Exn → Knowledge → Prop}
    {p : Nat} (out : p ∈ v.ledger.held nodeClass) (set : returns () (.live v)) :
    ((AllocatorCall.interface P).always fun _ => True).Meets returns throws (setField (some p))
      (.live v) := by
  have inside (j : Nat) (few : j < 64) : v.Classifies (p + j) nodeClass.bytes :=
    .pool out ⟨Nat.le_add_right _ _, Nat.add_lt_add_left few p⟩
  apply Interface.Meets.andThen
  apply Task.write_meets trivial (inside 0 (by decide))
  apply Interface.Meets.andThen
  apply Task.write_meets trivial (inside 1 (by decide))
  apply Interface.Meets.andThen
  apply Task.write_meets trivial (inside 2 (by decide))
  exact Task.write_meets trivial (inside 3 (by decide)) set

/-- The nodes of a run come off the free list and then off as few chunks as hold them, and go back
in the opposite order. -/
theorem localityRun_meets (aligns : P.Aligns) (known : k ≠ .broken) (count : Nat) :
    ((AllocatorCall.interface P).always fun _ => True).Meets
      (fun a k' => ∃ v₀ v bodies ptrs left, Task.Begins k v₀ ∧ k' = .live v ∧
        a = ptrs.map some ∧ ptrs.length = count ∧ v₀.Batched nodeClass bodies ptrs left v ∧
        v₀.stats.Adds (128 * count) (128 * count) count count v.stats)
      (fun _ k' => (k = .unborn ∧ k' = .unborn) ∨
        ∃ v₀, Task.Begins k v₀ ∧ (v₀.ledger.free nodeClass).length < count)
      (localityRun count) k := by
  apply Interface.Meets.andThen
  apply Task.allocatorInstance_meets known trivial
  · intro v₀ begins
    apply Interface.Meets.andThen
    apply Interface.Meets.loop (fun i a k' => ∃ v bodies ptrs, k' = .live v ∧
      a = ptrs.map some ∧ ptrs.length = i ∧ v₀.Drawn nodeClass bodies ptrs v ∧
      v₀.stats.Adds (64 * i) (64 * i) i 0 v.stats)
    · exact ⟨v₀, [], [], rfl, rfl, rfl, .refl _ v₀, .refl _⟩
    · rintro i _ _ _ below ⟨v, bodies, ptrs, rfl, rfl, rfl, drawn, adds⟩
      apply Interface.Meets.andThen
      apply Task.allocate_drawn (i := nodeClass) aligns trivial drawn
      · intro p bodies' v' drawn' stats out
        apply Interface.Meets.andThen
        apply setField_meets out
        refine ⟨v', bodies', ptrs ++ [p], rfl, by simp, by simp, drawn', ?_⟩
        rw [stats]
        exact adds.trans (.recordAlloc v.stats 64 64)
      · intro short x
        exact Or.inr ⟨v₀, begins, by omega⟩
      · intro short
        exact Or.inr ⟨v₀, begins, by omega⟩
    · rintro _ _ ⟨v, bodies, ptrs, rfl, rfl, size, drawn, adds⟩
      rw [Nat.zero_add] at size adds
      apply Interface.Meets.andThen
      apply Interface.Meets.each (fun xs k' => ∃ v' rest, k' = .live v' ∧
        xs = rest.map some ∧
        v₀.Returning nodeClass bodies ptrs (v.ledger.free nodeClass) rest v' ∧
        ∃ freed, freed + rest.length = count ∧
          v₀.stats.Adds (64 * count + 64 * freed) (64 * count + 64 * freed) count freed v'.stats)
      · exact ⟨v, ptrs, rfl, rfl, .start drawn, 0, by omega, adds⟩
      · rintro _ _ _ ⟨v', rest, rfl, list, returning, freed, total, adds'⟩
        cases rest with
        | nil => cases list
        | cons p rest =>
            obtain ⟨rfl, rfl⟩ := List.cons.inj list
            apply Interface.Meets.andThen
            apply Task.allocatorInstance_again trivial
            apply Task.deallocate_returning (i := nodeClass) trivial returning
            intro w next stats
            refine ⟨w, rest, rfl, rfl, next, freed + 1, ?_, ?_⟩
            · rw [List.length_cons] at total
              omega
            · rw [stats]
              exact adds'.trans (.recordFree v'.stats 64 64)
      · rintro _ ⟨w, rest, rfl, none, returning, freed, total, adds'⟩
        obtain rfl := List.map_eq_nil_iff.mp none.symm
        obtain rfl : freed = count := total
        refine ⟨v₀, w, bodies, ptrs, _, begins, rfl, rfl, size, returning.done, ?_⟩
        rwa [show 128 * freed = 64 * freed + 64 * freed by omega]
  · intro unborn x
    exact Or.inl ⟨unborn, rfl⟩

/-- The pointers of the `j`-th run. -/
def turned (ptrs : List Nat) (j : Nat) : List Nat := if j % 2 = 0 then ptrs else ptrs.reverse

theorem turned_succ (ptrs : List Nat) (j : Nat) :
    turned ptrs (j + 1) = (turned ptrs j).reverse := by
  unfold turned
  by_cases even : j % 2 = 0
  · rw [if_pos even, if_neg (by omega)]
  · rw [if_neg even, if_pos (by omega), List.reverse_reverse]

/-- After some runs: the free list starts with the nodes in the order the next run will visit
them, and no chunk has been linked after the first run. -/
structure Toured (v₀ : View) (count runs : Nat) (bodies ptrs left : List Nat) (v : View) :
    Prop where
  size : ptrs.length = count
  deck : v₀.ledger.free nodeClass ++ chunkBlocks nodeClass bodies = ptrs ++ left
  free : v.ledger.free nodeClass = turned ptrs runs ++ left
  held : (v.ledger.held nodeClass).Perm (v₀.ledger.held nodeClass)
  linked : v.ledger.linked nodeClass =
    v₀.ledger.linked nodeClass ++ bodies.map (chunkSlab nodeClass)
  chunks : bodies.length =
    (count - (v₀.ledger.free nodeClass).length + (maxBlocks nodeClass - 1)) / maxBlocks nodeClass
  beside : v₀.Beside nodeClass v
  adds : v₀.stats.Adds (128 * count * runs) (128 * count * runs) (count * runs) (count * runs)
    v.stats

theorem length_turned (ptrs : List Nat) (j : Nat) : (turned ptrs j).length = ptrs.length := by
  unfold turned
  split
  · rfl
  · exact List.length_reverse

/-- One more run draws the nodes from the top of the free list. -/
theorem Toured.next {count runs : Nat} {bodies ptrs left bodies' ptrs' left' : List Nat} {w : View}
    (toured : Toured v₀ count runs bodies ptrs left v)
    (run : v.Batched nodeClass bodies' ptrs' left' w) (size : ptrs'.length = count)
    (adds : v.stats.Adds (128 * count) (128 * count) count count w.stats) :
    ptrs' = turned ptrs runs ∧ Toured v₀ count (runs + 1) bodies ptrs left w := by
  have top : v.ledger.free nodeClass = (turned ptrs runs).reverse.reverse ++ left := by
    rw [List.reverse_reverse]
    exact toured.free
  obtain ⟨none, same, rest⟩ := View.Batched.again top run (by
    rw [List.length_reverse, length_turned, size, toured.size])
  rw [List.reverse_reverse] at same
  refine ⟨same, toured.size, toured.deck, ?_, run.held.trans toured.held, ?_, toured.chunks,
    toured.beside.trans run.beside, toured.adds.trans adds⟩
  · rw [run.free, same, rest, turned_succ]
  · rw [run.linked, none, toured.linked]
    simp

/-- Every run visits the nodes in the opposite order of the run before it, and only the first one
links chunks. -/
theorem locality_meets (aligns : P.Aligns) (known : k ≠ .broken) (count : Nat) :
    ((AllocatorCall.interface P).always fun _ => True).Meets
      (fun a k' => ∃ v₀ v bodies ptrs left, Task.Begins k v₀ ∧ k' = .live v ∧
        a = (List.range 6).map (fun j => (turned ptrs j).map some) ∧
        Toured v₀ count 6 bodies ptrs left v)
      (fun _ k' => (k = .unborn ∧ k' = .unborn) ∨
        ∃ v₀, Task.Begins k v₀ ∧ (v₀.ledger.free nodeClass).length < count)
      (locality count) k := by
  apply Interface.Meets.bind (localityRun_meets aligns known count)
  rintro _ _ ⟨v₀, v, bodies, ptrs, left, begins, rfl, rfl, size, batched, adds⟩
  have first : Toured v₀ count 1 bodies ptrs left v := by
    refine ⟨size, batched.deck, batched.free, batched.held, batched.linked, ?_, batched.beside, ?_⟩
    · rw [batched.chunks, size]
    · rwa [Nat.mul_one, Nat.mul_one]
  apply Interface.Meets.loop (fun i a k' => ∃ w, k' = .live w ∧
    a = (List.range (i + 1)).map (fun j => (turned ptrs j).map some) ∧
    Toured v₀ count (i + 1) bodies ptrs left w)
  · exact ⟨v, rfl, rfl, first⟩
  · rintro i _ _ _ _ ⟨w, rfl, rfl, toured⟩
    apply Interface.Meets.andThen
    apply (localityRun_meets aligns (by simp) count).mono
    · rintro _ _ ⟨w₀, w', bodies', ptrs', left', begins', rfl, rfl, size', batched', adds'⟩
      cases begins'
      obtain ⟨same, next⟩ := toured.next batched' size' adds'
      refine ⟨w', rfl, ?_, next⟩
      rw [same, List.range_succ (n := i + 1)]
      simp
    · rintro _ _ (⟨unborn, _⟩ | ⟨_, begins', short⟩)
      · cases unborn
      · cases begins'
        have nodes := toured.size
        rw [toured.free, List.length_append, length_turned] at short
        omega
  · rintro _ _ ⟨w, rfl, rfl, toured⟩
    exact ⟨v₀, w, bodies, ptrs, left, begins, rfl, rfl, toured⟩

theorem setField_within (p : Option Nat) : Task.Within (setField p) (fun _ => True) 4 :=
  (Task.within_write _ _).bind fun _ _ => (Task.within_write _ _).bind fun _ _ =>
    (Task.within_write _ _).bind fun _ _ => Task.within_write _ _

theorem localityRun_within (count : Nat) :
    Task.Within (localityRun count) (fun ptrs => ptrs.length = count) (1 + 7 * count) := by
  have run : Task.Within (localityRun count) (fun ptrs => ptrs.length = count)
      (1 + (count * (1 + (4 + 0)) + (count * (1 + 1) + 0))) := by
    apply Task.within_allocatorInstance.bind
    intro _ _
    refine Program.Within.bind (?_ : Task.Within _ (fun ptrs => ptrs.length = count) _) ?_
    · apply Program.Within.loop (fun i ptrs => ptrs.length = i)
      · rfl
      · intro i ptrs size
        apply Task.within_allocate.bind
        intro p _
        apply (setField_within p).bind
        intro _ _
        exact .ret ⟨_, rfl, by simp [size]⟩
      · intro ptrs size
        rwa [Nat.zero_add] at size
    · intro ptrs size
      have freed : Task.Within (Program.each (fun p => do
          Task.allocatorInstance
          Task.deallocate p 64) ptrs) (fun _ => True) (ptrs.length * (1 + 1)) := by
        apply Program.Within.each
        intro p
        exact Task.within_allocatorInstance.bind fun _ _ => Task.within_deallocate p
      rw [size] at freed
      exact freed.bind fun _ _ => .ret size
  exact run.mono (by omega) fun _ size => size

theorem locality_within (count : Nat) :
    Task.Within (locality count) (fun _ => True) (6 * (1 + 7 * count)) := by
  have run := localityRun_within count
  have all : Task.Within (locality count) (fun _ => True)
      (1 + 7 * count + 5 * (1 + 7 * count + 0)) := by
    apply run.bind
    intro warmup _
    apply Program.Within.loop (fun _ _ => True) trivial
    · intro i runs _
      exact run.bind fun ptrs _ => .ret ⟨_, rfl, trivial⟩
    · intros
      trivial
  exact all.mono (by omega) fun _ _ => trivial

/-- In every interleaving, the runs of the locality measurement visit the same nodes, every run in
the opposite order of the run before it: first the free blocks and then those of as few chunks as
hold the rest, block after block. In the end all nodes are free in the order of the first run, and
the reported fragmentation is zero. -/
theorem locality_order {count : Nat} {begins : Nat → Knowledge}
    {x y : TaskCrew (List (List (Option Nat)))}
    {trace : List (Transition (TaskCrew (List (List (Option Nat))))
      (Crew.Event AllocatorCall.Answer))}
    (aligns : P.Aligns) (starts : x.Starts P (fun _ => locality count) begins)
    (known : ∀ t, begins t ≠ .broken) (run : Run (TaskCrew.Step P) x trace y) {t : Nat}
    {runs : List (List (Option Nat))} (halted : y.programs t = some (.ret runs)) :
    ∃ v₀ v bodies ptrs left, Task.Begins (begins t) v₀ ∧ Sees P y.shared t (.live v) ∧
      runs = (List.range 6).map (fun j => (turned ptrs j).map some) ∧
      ptrs.length = count ∧
      v₀.ledger.free nodeClass ++ chunkBlocks nodeClass bodies = ptrs ++ left ∧
      bodies.length = (count - (v₀.ledger.free nodeClass).length + 255) / 256 ∧
      v.ledger.linked nodeClass =
        v₀.ledger.linked nodeClass ++ bodies.map (chunkSlab nodeClass) ∧
      v.ledger.free nodeClass = ptrs ++ left ∧
      (v.ledger.held nodeClass).Perm (v₀.ledger.held nodeClass) ∧
      v₀.Beside nodeClass v ∧
      ∀ R, deltaFrag R v₀.stats v.stats = 0 := by
  have meets (t : Nat) := locality_meets aligns (known t) count
  obtain ⟨_, k, sees, v₀, v, bodies, ptrs, left, first, rfl, order, toured⟩ :=
    starts.interleaved aligns meets run halted
  exact ⟨v₀, v, bodies, ptrs, left, first, sees, order, toured.size, toured.deck, toured.chunks,
    toured.linked, toured.free, toured.held, toured.beside,
    fun R => deltaFrag_even R toured.adds.even⟩

/-- Three hundred nodes on a thread without an allocator: a new pool has 256 blocks, so that one
chunk is linked. -/
theorem locality_order_few : ∃ (runs : List (List (Option Nat))) (bodies ptrs left : List Nat)
    (slab : SizeClass → Nat) (trace : List (Transition (TaskCrew (List (List (Option Nat))))
      (Crew.Event AllocatorCall.Answer))) (y : TaskCrew (List (List (Option Nat)))),
    Run (TaskCrew.Step desktop) (TaskCrew.launch (fun _ => locality 300) 1) trace y ∧
      y.programs 0 = some (.ret runs) ∧ bodies.length = 1 ∧ ptrs.length = 300 ∧
      (View.new slab).ledger.free nodeClass ++ chunkBlocks nodeClass bodies = ptrs ++ left ∧
      runs = (List.range 6).map (fun j => (turned ptrs j).map some) := by
  have known : Knowledge.unborn ≠ .broken := by simp
  obtain ⟨trace, y, runs, run, halted, _⟩ := TaskCrew.returns_within (locality_within 300)
    (by decide) (locality_meets desktop_aligns known 300)
  obtain ⟨_, _, bodies, ptrs, left, begins, _, order, size, deck, chunks, _⟩ :=
    locality_order desktop_aligns (TaskCrew.Starts.launch _ 1) (fun _ => known) run halted
  cases begins with
  | unborn slab =>
      refine ⟨runs, bodies, ptrs, left, slab, trace, y, run, halted, ?_, size, deck, order⟩
      rw [chunks]
      simp [View.new, Slab.length_blocks, blocksPerSlab]

end Locality

end Bench

end MemAlloc
