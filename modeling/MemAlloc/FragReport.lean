import MemAlloc.Batches
import MemAlloc.Fragmentation

set_option autoImplicit false

/- The workload of the fragmentation report: large blocks that stay, then requests of mixed sizes,
of which some blocks are held and recovered by their class. -/
namespace MemAlloc

open Malloc (Heap)
open Programs (Program Interface Crew)
open Runs (Run Transition)
open SingleThreadAllocator (chunkSlab kArenaPointer)

namespace FragReport

def kArenaAllocs : Nat := 200

def kSizes : List Nat := [17, 65, 129, 500, 900]

/-- The large phase; it ends early when the arena is exhausted. -/
def largePhase : Task (List Nat) :=
  Program.loop (fun _ blocks => do
    match ← Task.allocate 5000 with
    | none => return .done blocks
    | some p => do
        Task.write p 65
        return .yield (blocks ++ [p])) 0 kArenaAllocs []

/-- The churn phase: every eighth block is held, up to 32 of them. -/
def churn (iterations : Nat) : Task (List Nat) :=
  Program.loop (fun i held => do
    let size := kSizes.getD (i % kSizes.length) 0
    match ← Task.allocate size with
    | none => return .done held
    | some p => do
        Task.write p (UInt8.ofNat i)
        if i % 8 = 0 ∧ held.length < 32 then
          return .yield (held ++ [p])
        else do
          Task.deallocate (some p) size
          return .yield held) 0 iterations []

/-- The held blocks go back by the class that `classify` finds for them. -/
def release (held : List Nat) : Task Unit :=
  Program.each (fun p => do
    let cls ← Task.classify p
    if cls ≠ 0 ∧ cls ≠ kArenaPointer then
      Task.deallocateContaining p cls
    else return ()) held

def runWorkload (iterations : Nat) : Task Nat := do
  Task.allocatorInstance
  let arenaBlocks ← largePhase
  let held ← churn iterations
  release held
  return Words.add iterations arenaBlocks.length

/-- The request of iteration `i`, and the class that serves it. -/
def request (i : Nat) : Nat := kSizes.getD (i % kSizes.length) 0

def classAt (i : Nat) : SizeClass :=
  sizeClassOf (min (request i) maxSmall) (Nat.min_le_right _ _)

theorem request_class (i : Nat) :
    ∃ small : request i ≤ maxSmall, sizeClassOf (request i) small = classAt i := by
  have each : ∀ j < 5, ∃ small : kSizes.getD j 0 ≤ maxSmall, sizeClassOf (kSizes.getD j 0) small =
      sizeClassOf (min (kSizes.getD j 0) maxSmall) (Nat.min_le_right _ _) := by decide
  exact each _ (Nat.mod_lt i (by decide))

section Phases

variable {P : Platform} {throws : Exn → Knowledge → Prop} {v₀ v : View}

/-- The large phase stops at 200 blocks or when the arena has no room for another one. -/
theorem largePhase_meets {returns : List Nat → Knowledge → Prop} (aligns : P.Aligns)
    (done : ∀ blocks v, v₀.Cut P 5000 blocks v → blocks.length = kArenaAllocs ∨
      (blocks.length < kArenaAllocs ∧ kArenaCapacity < v.arenaUsed + v.arenaBytes P 5000) →
      returns blocks (.live v)) :
    ((AllocatorCall.interface P).always fun _ => True).Meets returns throws largePhase
      (.live v₀) := by
  apply Interface.Meets.loop (fun i blocks k => ∃ v, k = .live v ∧ blocks.length = i ∧
    v₀.Cut P 5000 blocks v)
  · exact ⟨v₀, rfl, rfl, .refl P 5000 v₀⟩
  · rintro i blocks _ _ below ⟨v, rfl, rfl, cut⟩
    apply Interface.Meets.andThen
    apply Task.allocate_arena (aligns.bounded (by decide)) trivial (by decide)
    · intro fits p
      have inside : (v.bump P 5000 p).Classifies p kArenaPointer :=
        .arena List.mem_cons_self (Span.Holds.base (Nat.succ_pos 4999))
      apply Interface.Meets.andThen
      apply Task.write_meets trivial inside
      exact ⟨_, rfl, by simp, cut.bump aligns p⟩
    · intro full
      exact done blocks v cut (Or.inr ⟨by omega, full⟩)
  · rintro blocks _ ⟨v, rfl, size, cut⟩
    exact done blocks v cut (Or.inl (by omega))

/-- The classes in the mix have more free blocks than the workload ever holds. -/
def Roomy (v : View) : Prop := ∀ i, 32 < (v.ledger.free i).length

/-- The requests of a round, with the block sizes that serve them. -/
theorem round_bytes (i : Nat) : (request i, (classAt i).bytes) =
    [(17, 32), (65, 128), (129, 256), (500, 512), (900, 1024)].getD (i % 5) (0, 0) := by
  have each : ∀ j < 5, (kSizes.getD j 0,
      (sizeClassOf (min (kSizes.getD j 0) maxSmall) (Nat.min_le_right _ _)).bytes) =
        [(17, 32), (65, 128), (129, 256), (500, 512), (900, 1024)].getD j (0, 0) := by decide
  exact each _ (Nat.mod_lt i (by decide))

/-- How many blocks the first `n` iterations hold. -/
def heldAfter (n : Nat) : Nat := min 32 ((n + 7) / 8)

/-- What `n` iterations add to the allocated bytes, the frees of held blocks included: five
requests take 1952 bytes, and each counts twice. -/
def churnAllocated (n : Nat) : Nat :=
  3904 * (n / 5) + [0, 64, 320, 832, 1856].getD (n % 5) 0

/-- What they add to the requested bytes. A held block goes back with the size of its class; for
five of them this makes 341 bytes more than they were requested with. -/
def churnRequested (n : Nat) : Nat :=
  3222 * (n / 5) + [0, 34, 164, 422, 1422].getD (n % 5) 0 +
    (341 * (heldAfter n / 5) + [0, 15, 27, 90, 214].getD (heldAfter n % 5) 0)

theorem churn_round (i : Nat) : churnAllocated (i + 1) = churnAllocated i + 2 * (classAt i).bytes ∧
    3222 * ((i + 1) / 5) + [0, 34, 164, 422, 1422].getD ((i + 1) % 5) 0 =
      3222 * (i / 5) + [0, 34, 164, 422, 1422].getD (i % 5) 0 + 2 * request i := by
  have round := round_bytes i
  have phase : i % 5 = 0 ∨ i % 5 = 1 ∨ i % 5 = 2 ∨ i % 5 = 3 ∨ i % 5 = 4 := by omega
  rw [churnAllocated, churnAllocated]
  rcases phase with here | here | here | here | here <;> rw [here] at round ⊢ <;>
    obtain ⟨request, bytes⟩ := Prod.mk.inj round <;> rw [request, bytes]
  · have next : (i + 1) % 5 = 1 ∧ (i + 1) / 5 = i / 5 := by omega
    simp [next]
  · have next : (i + 1) % 5 = 2 ∧ (i + 1) / 5 = i / 5 := by omega
    simp [next]
  · have next : (i + 1) % 5 = 3 ∧ (i + 1) / 5 = i / 5 := by omega
    simp [next]
  · have next : (i + 1) % 5 = 4 ∧ (i + 1) / 5 = i / 5 := by omega
    simp [next]
  · have next : (i + 1) % 5 = 0 ∧ (i + 1) / 5 = i / 5 + 1 := by omega
    simp [next]
    omega

/-- A held block adds its request now and its class when it goes back. -/
theorem churnRequested_keep {i : Nat} (kept : i % 8 = 0 ∧ i < 256) :
    churnRequested (i + 1) = churnRequested i + request i + (classAt i).bytes := by
  have each : ∀ j < 32, churnRequested (8 * j + 1) =
      churnRequested (8 * j) + request (8 * j) + (classAt (8 * j)).bytes := by decide +kernel
  have here : 8 * (i / 8) = i := by omega
  have known := each (i / 8) (by omega)
  rwa [here] at known

/-- Any other block adds its request twice. -/
theorem churnRequested_cycle {i : Nat} (passed : ¬ (i % 8 = 0 ∧ i < 256)) :
    churnRequested (i + 1) = churnRequested i + 2 * request i := by
  have same : heldAfter (i + 1) = heldAfter i := by
    simp only [heldAfter]
    omega
  have round := (churn_round i).2
  simp only [churnRequested, same]
  omega

def lentBytes (loans : List (Nat × SizeClass)) : Nat := (loans.map fun loan => loan.2.bytes).sum

/-- After `i` iterations of which the blocks `loans` are still held. The counters lack only the
frees of these. -/
structure Churned (v₁ : View) (i : Nat) (loans : List (Nat × SizeClass)) (v : View) : Prop where
  lent : v₁.Lent (fun _ => []) loans v
  bumped : v.ledger.bumped = v₁.ledger.bumped
  arenaUsed : v.arenaUsed = v₁.arenaUsed
  adds : ∃ req got frees, v₁.stats.Adds req got i frees v.stats ∧
    req + lentBytes loans = churnRequested i ∧ got + lentBytes loans = churnAllocated i ∧
    frees + loans.length = i

namespace Churned

variable {v₁ : View} {i p : Nat} {loans : List (Nat × SizeClass)} {rest : List Nat}

theorem refl (v : View) : Churned v 0 [] v :=
  ⟨.refl v, rfl, rfl, 0, 0, 0, .refl v.stats, rfl, rfl, rfl⟩

theorem keep (churned : Churned v₁ i loans v) (kept : i % 8 = 0 ∧ i < 256)
    (stocked : v.ledger.free (classAt i) = p :: rest) :
    Churned v₁ (i + 1) ((p, classAt i) :: loans) (v.take (classAt i) (request i) p rest) := by
  obtain ⟨req, got, frees, adds, requested, allocated, freed⟩ := churned.adds
  refine ⟨churned.lent.take stocked, churned.bumped, churned.arenaUsed,
    req + request i, got + (classAt i).bytes, frees, ?_, ?_, ?_, ?_⟩
  · exact adds.trans (.recordAlloc v.stats (request i) (classAt i).bytes)
  · rw [churnRequested_keep kept]
    simp only [lentBytes, List.map_cons, List.sum_cons] at *
    omega
  · rw [(churn_round i).1]
    simp only [lentBytes, List.map_cons, List.sum_cons] at *
    omega
  · rw [List.length_cons]
    omega

theorem cycle (churned : Churned v₁ i loans v) (passed : ¬ (i % 8 = 0 ∧ i < 256)) :
    Churned v₁ (i + 1) loans (v.cycle (classAt i) (request i)) := by
  obtain ⟨req, got, frees, adds, requested, allocated, freed⟩ := churned.adds
  refine ⟨churned.lent.congr rfl rfl rfl, churned.bumped, churned.arenaUsed,
    req + (request i + request i), got + ((classAt i).bytes + (classAt i).bytes), frees + 1,
    ?_, ?_, ?_, ?_⟩
  · exact adds.trans ((Stats.Adds.recordAlloc v.stats (request i) (classAt i).bytes).trans
      (.recordFree _ (request i) (classAt i).bytes))
  · rw [churnRequested_cycle passed]
    omega
  · rw [(churn_round i).1]
    omega
  · omega

theorem perm {loans' : List (Nat × SizeClass)} (churned : Churned v₁ i loans v)
    (perm : loans.Perm loans') : Churned v₁ i loans' v := by
  have bytes : lentBytes loans' = lentBytes loans := (perm.symm.map _).sum_eq
  have length := perm.length_eq
  obtain ⟨req, got, frees, adds, requested, allocated, freed⟩ := churned.adds
  exact ⟨churned.lent.perm perm, churned.bumped, churned.arenaUsed, req, got, frees, adds,
    by omega, by omega, by omega⟩

theorem giveBack {c : SizeClass} (churned : Churned v₁ i ((p, c) :: loans) v) :
    Churned v₁ i loans (v.giveBack c c.bytes p) := by
  obtain ⟨req, got, frees, adds, requested, allocated, freed⟩ := churned.adds
  refine ⟨churned.lent.giveBack, churned.bumped, churned.arenaUsed, req + c.bytes, got + c.bytes,
    frees + 1, ?_, ?_, ?_, ?_⟩
  · exact adds.trans (.recordFree v.stats c.bytes c.bytes)
  · simp only [lentBytes, List.map_cons, List.sum_cons] at *
    omega
  · simp only [lentBytes, List.map_cons, List.sum_cons] at *
    omega
  · rw [List.length_cons] at freed
    omega

end Churned

theorem churn_meets {returns : List Nat → Knowledge → Prop} {iterations : Nat} (aligns : P.Aligns)
    (roomy : Roomy v₀)
    (done : ∀ loans v, Churned v₀ iterations loans v →
      returns (loans.reverse.map Prod.fst) (.live v)) :
    ((AllocatorCall.interface P).always fun _ => True).Meets returns throws (churn iterations)
      (.live v₀) := by
  apply Interface.Meets.loop (fun i held k => ∃ v loans, k = .live v ∧
    held = loans.reverse.map Prod.fst ∧ loans.length = min 32 ((i + 7) / 8) ∧
    Churned v₀ i loans v)
  · exact ⟨v₀, [], rfl, rfl, rfl, .refl v₀⟩
  · rintro i _ _ _ _ ⟨v, loans, rfl, rfl, size, churned⟩
    obtain ⟨small, cls⟩ := request_class i
    have few : (View.loansOf (classAt i) loans).length < (v₀.ledger.free (classAt i)).length := by
      have enough := roomy (classAt i)
      have bound := View.length_loansOf_le (classAt i) loans
      omega
    obtain ⟨p, rest, head⟩ := churned.lent.stocked (Nat.lt_of_lt_of_le few (Nat.le_add_right _ _))
    apply Interface.Meets.andThen
    apply Task.allocate_stocked (aligns.bounded (Nat.le_trans small (by decide))) trivial small
      (cls.symm ▸ head)
    rw [cls]
    have taken : p ∈ (v.take (classAt i) (request i) p rest).ledger.held (classAt i) := by
      simp [View.take, Ledger.take, Ledger.setPool]
    apply Interface.Meets.andThen
    apply Task.write_meets trivial (.pool taken (Span.Holds.base (SizeClass.bytes_positive _)))
    by_cases kept : i % 8 = 0 ∧ i < 256
    · rw [if_pos (by simp only [List.length_map, List.length_reverse]; omega)]
      exact ⟨_, (p, classAt i) :: loans, rfl, by simp, by rw [List.length_cons]; omega,
        churned.keep kept head⟩
    · rw [if_neg (by simp only [List.length_map, List.length_reverse]; omega)]
      apply Interface.Meets.andThen
      apply Task.deallocate_pool trivial small (cls.symm ▸ taken)
      rw [cls, View.giveBack_take head]
      exact ⟨_, loans, rfl, rfl, by omega, churned.cycle kept⟩
  · rintro _ _ ⟨v, loans, rfl, rfl, _, churned⟩
    rw [Nat.zero_add] at churned
    exact done loans v churned

theorem class_pooled (c : SizeClass) : c.bytes ≠ 0 ∧ c.bytes ≠ kArenaPointer := by
  revert c
  decide

theorem release_meets {returns : Unit → Knowledge → Prop} {i : Nat}
    {loans : List (Nat × SizeClass)} (churned : Churned v₀ i loans v)
    (done : ∀ v, Churned v₀ i [] v → returns () (.live v)) :
    ((AllocatorCall.interface P).always fun _ => True).Meets returns throws
      (release (loans.reverse.map Prod.fst)) (.live v) := by
  apply Interface.Meets.each (fun held k => ∃ v loans, k = .live v ∧ held = loans.map Prod.fst ∧
    Churned v₀ i loans v)
  · exact ⟨v, loans.reverse, rfl, rfl, churned.perm loans.reverse_perm.symm⟩
  · rintro _ _ _ ⟨v, loans, rfl, list, churned⟩
    cases loans with
    | nil => cases list
    | cons loan loans =>
        obtain ⟨p, c⟩ := loan
        obtain ⟨rfl, rfl⟩ := List.cons.inj list
        apply Interface.Meets.andThen
        apply Task.classify_held trivial churned.lent.out
        rw [if_pos (class_pooled c)]
        apply Task.deallocateContaining_pool trivial churned.lent.out
        exact ⟨_, loans, rfl, rfl, churned.giveBack⟩
  · rintro _ ⟨v, loans, rfl, none, churned⟩
    obtain rfl := List.map_eq_nil_iff.mp none.symm
    exact done v churned

/-- What the workload leaves: the large blocks, the free blocks of before in some order, no chunk,
and the counters. -/
structure Worked (P : Platform) (v₀ : View) (iterations : Nat) (blocks : List Nat) (v : View) :
    Prop where
  free : ∀ i, (v.ledger.free i).Perm (v₀.ledger.free i)
  held : ∀ i, (v.ledger.held i).Perm (v₀.ledger.held i)
  linked : v.ledger.linked = v₀.ledger.linked
  bumped : v.ledger.bumped = (blocks.map fun p => ⟨p, 5000⟩).reverse ++ v₀.ledger.bumped
  ended : blocks.length = kArenaAllocs ∨
    (blocks.length < kArenaAllocs ∧ kArenaCapacity < v.arenaUsed + v.arenaBytes P 5000)
  used : v₀.arenaUsed + blocks.length * 5000 ≤ v.arenaUsed ∧
    v.arenaUsed ≤ v₀.arenaUsed + blocks.length * (5000 + P.maxAlign)
  adds : v₀.stats.Adds (blocks.length * 5000 + churnRequested iterations)
    (v.arenaUsed - v₀.arenaUsed + churnAllocated iterations) (blocks.length + iterations)
    iterations v.stats

theorem runWorkload_meets {k : Knowledge} (aligns : P.Aligns) (known : k ≠ .broken)
    (roomy : ∀ v, Task.Begins k v → Roomy v) (iterations : Nat) :
    ((AllocatorCall.interface P).always fun _ => True).Meets
      (fun n k' => ∃ v₀ v blocks, Task.Begins k v₀ ∧ k' = .live v ∧
        n = Words.add iterations blocks.length ∧ Worked P v₀ iterations blocks v)
      (fun _ k' => k = .unborn ∧ k' = .unborn) (runWorkload iterations) k := by
  apply Interface.Meets.andThen
  apply Task.allocatorInstance_meets known trivial
  · intro v₀ begins
    apply Interface.Meets.andThen
    apply largePhase_meets aligns
    intro blocks v₁ cut ended
    have roomy₁ : Roomy v₁ := by
      intro i
      rw [cut.free]
      exact roomy v₀ begins i
    apply Interface.Meets.andThen
    apply churn_meets aligns roomy₁
    intro loans v₂ churned
    apply Interface.Meets.andThen
    apply release_meets churned
    intro v released
    obtain ⟨req, got, frees, adds, requested, allocated, freed⟩ := released.adds
    simp only [lentBytes, List.map_nil, List.sum_nil, Nat.add_zero, List.length_nil] at *
    subst requested allocated freed
    refine ⟨v₀, v, blocks, begins, rfl, rfl, ?_, ?_, ?_, ?_, ?_, ?_, ?_⟩
    · intro i
      rw [← cut.free]
      simpa [chunkBlocks] using (released.lent.settled i).1
    · intro i
      rw [← cut.held]
      exact (released.lent.settled i).2
    · rw [← cut.linked]
      funext i
      simpa using released.lent.linked i
    · rw [released.bumped]
      exact cut.bumped
    · rcases ended with all | ⟨fewer, full⟩
      · exact Or.inl all
      · refine Or.inr ⟨fewer, ?_⟩
        rw [View.arenaBytes_congr released.arenaUsed, released.arenaUsed]
        exact full
    · rw [released.arenaUsed]
      exact ⟨cut.least, cut.most⟩
    · rw [released.arenaUsed]
      have both := cut.adds.trans adds
      rwa [Nat.zero_add] at both
  · intro unborn x
    exact ⟨unborn, rfl⟩

end Phases

/-- The wasted share lies between 17 and 17.5 per cent of a total that is not too large. -/
structure Near17 (s : Stats) : Prop where
  size : s.allocated < 2 ^ 60
  above : 100 * s.requested < 83 * s.allocated
  below : 825 * s.allocated < 1000 * s.requested

/-- So does the share of the sum of up to sixteen such totals. -/
theorem fragmentation_near17 {list : List Stats} (some : list ≠ []) (few : list.length ≤ 16)
    (each : ∀ s ∈ list, Near17 s) :
    17 / 100 < (list.foldl addStats Stats.zero).internalFragmentation Rounding.exact ∧
      (list.foldl addStats Stats.zero).internalFragmentation Rounding.exact < 175 / 1000 := by
  have totals : ∀ list : List Stats, (∀ s ∈ list, Near17 s) →
      Totals.total Stats.allocated list + list.length ≤ list.length * 2 ^ 60 ∧
      100 * Totals.total Stats.requested list + list.length ≤
        83 * Totals.total Stats.allocated list ∧
      825 * Totals.total Stats.allocated list + list.length ≤
        1000 * Totals.total Stats.requested list := by
    intro list each
    induction list with
    | nil => simp
    | cons s rest ih =>
        obtain ⟨size, above, below⟩ := each s List.mem_cons_self
        have others := ih (fun t member => each t (List.mem_cons_of_mem s member))
        rw [Totals.total_cons, Totals.total_cons, List.length_cons]
        omega
  have positive := List.length_pos_iff.mpr some
  obtain ⟨size, above, below⟩ := totals list each
  have requested : (list.foldl addStats Stats.zero).requested = _ :=
    Counter.of_foldl .requested list (by decide)
  have allocated : (list.foldl addStats Stats.zero).allocated = _ :=
    Counter.of_foldl .allocated list (by decide)
  have summed : (list.foldl addStats Stats.zero).requested =
      Totals.total Stats.requested list ∧ (list.foldl addStats Stats.zero).allocated =
      Totals.total Stats.allocated list := by
    change _ = (0 + Totals.total Stats.requested list) % _ at requested
    change _ = (0 + Totals.total Stats.allocated list) % _ at allocated
    rw [requested, allocated]
    simp only [Words.radix]
    omega
  obtain ⟨requested, allocated⟩ := summed
  have bounds := Stats.internalFragmentation_between 170 175 1000
    (s := list.foldl addStats Stats.zero) (by omega) (by simp only [Words.radix]; omega) (by omega)
    (by omega)
  norm_num at bounds ⊢
  exact bounds

section Shares

variable {P : Platform} {v : View} {slab : SizeClass → Nat} {n : Nat} {blocks : List Nat}

/-- On a new allocator the large phase is never cut short. -/
theorem Worked.all_large (worked : Worked P (View.new slab) n blocks v)
    (narrow : P.maxAlign ≤ 16) (positive : 0 < P.maxAlign) : blocks.length = kArenaAllocs := by
  rcases worked.ended with all | ⟨fewer, full⟩
  · exact all
  · have gap : Words.padding v.arenaUsed P.maxAlign < P.maxAlign := Words.padding_lt positive
    have used := worked.used.2
    have most : blocks.length * (5000 + P.maxAlign) ≤ 199 * 5016 :=
      Nat.mul_le_mul (Nat.le_of_lt_succ fewer) (by omega)
    rw [show (View.new slab).arenaUsed = 0 from rfl, Nat.zero_add] at used
    rw [View.arenaBytes] at full
    generalize Words.padding v.arenaUsed P.maxAlign = gap' at *
    simp only [kArenaCapacity] at full
    omega

theorem Worked.near17 (worked : Worked P (View.new slab) n blocks v) (narrow : P.maxAlign ≤ 16)
    (positive : 0 < P.maxAlign) (many : 50000 ≤ n) (few : n < 2 ^ 50) : Near17 v.stats := by
  have all : blocks.length = 200 := worked.all_large narrow positive
  have most : blocks.length * (5000 + P.maxAlign) ≤ 200 * 5016 :=
    Nat.mul_le_mul (Nat.le_of_eq all) (by omega)
  have used := worked.used
  have adds := worked.adds
  have start : (View.new slab).arenaUsed = 0 := rfl
  rw [start, Nat.sub_zero] at adds
  rw [start, Nat.zero_add, Nat.zero_add] at used
  rw [all] at adds used
  -- the rest of the last, incomplete round of five requests
  have rest : (n % 5 = 0 ∨ n % 5 = 1 ∨ n % 5 = 2) ∨ n % 5 = 3 ∨ n % 5 = 4 := by omega
  have cycle : ∃ a b, churnAllocated n = 3904 * (n / 5) + a ∧
      churnRequested n = 3222 * (n / 5) + b + 2073 ∧ 100 * b ≤ 83 * a ∧
      825 * a ≤ 1000 * b + 300000 ∧ a ≤ 1856 := by
    have all : heldAfter n = 32 := by
      simp only [heldAfter]
      omega
    refine ⟨_, _, rfl, by rw [churnRequested, all]; rfl, ?_⟩
    rcases rest with (here | here | here) | here | here <;> rw [here] <;> decide
  obtain ⟨a, b, allocated, requested, upper, lower, small⟩ := cycle
  obtain ⟨total, total'⟩ := adds.exact (by simp only [Words.radix]; omega)
  rw [all] at most
  rw [requested] at total
  rw [allocated] at total'
  exact ⟨by omega, by omega, by omega⟩

end Shares

section Interleaved

variable {P : Platform}

theorem roomy_new (slab : SizeClass → Nat) : Roomy (View.new slab) := by
  intro i
  simp [View.new, Slab.length_blocks, blocksPerSlab]

theorem live_unbroken (v : View) : Knowledge.live v ≠ .broken := by
  intro broken
  cases broken

/-- On a new allocator the workload runs to its end. -/
theorem runWorkload_possible (iterations : Nat) :
    ∃ (x y : TaskCrew Nat) (slab : SizeClass → Nat) (n : Nat)
      (trace : List (Transition (TaskCrew Nat) (Crew.Event AllocatorCall.Answer))),
      x.Starts desktop (fun _ => runWorkload iterations) (fun _ => .live (View.new slab)) ∧
        Run (TaskCrew.Step desktop) x trace y ∧ y.programs 0 = some (.ret n) := by
  apply TaskCrew.returns_once
  intro slab
  have roomy : ∀ v, Task.Begins (.live (View.new slab)) v → Roomy v := by
    intro v begins
    cases begins
    exact roomy_new slab
  apply (runWorkload_meets desktop_aligns (live_unbroken _) roomy iterations).mono
  · intros
    trivial
  · intro _ _ failed
    cases failed.1

/-- In every interleaving of threads that run the workload on the allocators they have, each can
finish, none fails, and a thread that has returned has all its pool blocks back, without a chunk. -/
theorem runWorkload_completes {iterations : Nat → Nat} {v₀ : Nat → View}
    {x y : TaskCrew Nat}
    {trace : List (Transition (TaskCrew Nat) (Crew.Event AllocatorCall.Answer))}
    (aligns : P.Aligns)
    (starts : x.Starts P (fun t => runWorkload (iterations t)) fun t => .live (v₀ t))
    (roomy : ∀ t, Roomy (v₀ t)) (run : Run (TaskCrew.Step P) x trace y) {t : Nat} {p : Task Nat}
    (running : y.programs t = some p) :
    y.Finishes P t ∧ (∀ e, p ≠ .throw e) ∧
      ∀ n, p = .ret n → ∃ v blocks, Sees P y.shared t (.live v) ∧
        n = Words.add (iterations t) blocks.length ∧
        Worked P (v₀ t) (iterations t) blocks v := by
  have meets (t : Nat) := runWorkload_meets (k := .live (v₀ t)) aligns (live_unbroken _)
    (by rintro _ ⟨⟩; exact roomy t) (iterations t)
  obtain ⟨finishes, k, sees, now⟩ := starts.interleaved aligns meets run running
  refine ⟨finishes, ?_, ?_⟩
  · rintro e rfl
    obtain ⟨unborn, _⟩ := now
    cases unborn
  · rintro n rfl
    obtain ⟨_, v, blocks, ⟨⟩, rfl, count, worked⟩ := now
    exact ⟨v, blocks, sees, count, worked⟩

/-- The main thread's call of the report, on a new allocator. -/
theorem runWorkload_completes_once : ∃ (y : TaskCrew Nat) (v₀ v : View) (blocks : List Nat),
    y.programs 0 = some (.ret (Words.add 100000 blocks.length)) ∧
      Sees desktop y.shared 0 (.live v) ∧ Worked desktop v₀ 100000 blocks v := by
  obtain ⟨x, y, slab, n, trace, starts, run, halted⟩ := runWorkload_possible 100000
  obtain ⟨v, blocks, sees, rfl, worked⟩ :=
    (runWorkload_completes desktop_aligns starts (fun _ => roomy_new slab) run halted).2.2 n rfl
  exact ⟨y, View.new slab, v, blocks, halted, sees, worked⟩

/-- Threads with new allocators that run the workload with at least 50000 iterations have made 200
large and all their small allocations when they return, and the counters of up to sixteen of them,
summed up, show that between 17 and 17.5 per cent of the bytes are wasted. A thread whose allocator
was built before can finish. -/
theorem runWorkload_fragmentation {iterations : Nat → Nat} {begins : Nat → Knowledge}
    {x y : TaskCrew Nat}
    {trace : List (Transition (TaskCrew Nat) (Crew.Event AllocatorCall.Answer))}
    (aligns : P.Aligns) (narrow : P.maxAlign ≤ 16)
    (starts : x.Starts P (fun t => runWorkload (iterations t)) begins)
    (known : ∀ t, begins t ≠ .broken)
    (fresh : ∀ t v, Task.Begins (begins t) v → ∃ slab, v = View.new slab)
    (many : ∀ t, 50000 ≤ iterations t) (few : ∀ t, iterations t < 2 ^ 50)
    (run : Run (TaskCrew.Step P) x trace y) :
    (∀ t v p, begins t = .live v → y.programs t = some p → y.Finishes P t) ∧
      (∀ t n, y.programs t = some (.ret n) → n = iterations t + 200) ∧
      ∀ (threads : List Nat) (stats : Nat → Stats), threads ≠ [] → threads.length ≤ 16 →
        (∀ t ∈ threads, (∃ n, y.programs t = some (.ret n)) ∧
          ∃ v, Sees P y.shared t (.live v) ∧ stats t = v.stats) →
        17 / 100 < ((threads.map stats).foldl addStats Stats.zero).internalFragmentation
          Rounding.exact ∧
        ((threads.map stats).foldl addStats Stats.zero).internalFragmentation
          Rounding.exact < 175 / 1000 := by
  have roomy : ∀ t v, Task.Begins (begins t) v → Roomy v := by
    intro t v first
    obtain ⟨slab, rfl⟩ := fresh t v first
    exact roomy_new slab
  have meets (t : Nat) := runWorkload_meets aligns (known t) (roomy t) (iterations t)
  have positive := aligns.power.positive
  have worked (t n : Nat) (halted : y.programs t = some (.ret n)) :
      ∃ slab v blocks, Sees P y.shared t (.live v) ∧
        n = Words.add (iterations t) blocks.length ∧
        Worked P (View.new slab) (iterations t) blocks v := by
    obtain ⟨_, k, sees, v₀, v, blocks, first, rfl, count, worked⟩ :=
      starts.interleaved aligns meets run halted
    obtain ⟨slab, rfl⟩ := fresh t v₀ first
    exact ⟨slab, v, blocks, sees, count, worked⟩
  refine ⟨?_, ?_, ?_⟩
  · intro t v p _ running
    exact (starts.interleaved aligns meets run running).1
  · intro t n halted
    obtain ⟨slab, v, blocks, _, count, worked⟩ := worked t n halted
    have bound := few t
    rw [count, worked.all_large narrow positive, kArenaAllocs, Words.add_of_lt]
    simp only [Words.radix]
    omega
  · intro threads stats some size finished
    apply fragmentation_near17
    · exact fun none => some (List.map_eq_nil_iff.mp none)
    · rwa [List.length_map]
    · intro s member
      obtain ⟨t, listed, rfl⟩ := List.mem_map.mp member
      obtain ⟨⟨n, halted⟩, w, sees', same⟩ := finished t listed
      obtain ⟨slab, v, blocks, sees, _, worked⟩ := worked t n halted
      rw [same, sees'.stats sees]
      exact worked.near17 narrow positive (many t) (few t)

/-- One of the report's threads. -/
theorem runWorkload_fragmentation_once : ∃ (y : TaskCrew Nat) (v : View),
    y.programs 0 = some (.ret 50200) ∧ Sees desktop y.shared 0 (.live v) ∧
      17 / 100 < (addStats Stats.zero v.stats).internalFragmentation Rounding.exact ∧
      (addStats Stats.zero v.stats).internalFragmentation Rounding.exact < 175 / 1000 := by
  obtain ⟨x, y, slab, n, trace, starts, run, halted⟩ := runWorkload_possible 50000
  have fresh : ∀ (t : Nat) v, Task.Begins (.live (View.new slab)) v →
      ∃ slab, v = View.new slab := by
    intro t v begins
    cases begins
    exact ⟨slab, rfl⟩
  have roomy : ∀ v, Task.Begins (.live (View.new slab)) v → Roomy v := by
    intro v begins
    cases begins
    exact roomy_new slab
  have meets (t : Nat) := runWorkload_meets desktop_aligns (live_unbroken (View.new slab)) roomy
    50000
  obtain ⟨_, k, sees, v₀, v, blocks, _, rfl, _⟩ :=
    starts.interleaved desktop_aligns meets run halted
  have result := runWorkload_fragmentation desktop_aligns
    (by decide) starts (fun _ => live_unbroken _) fresh (fun _ => Nat.le_refl _)
    (fun _ => by decide) run
  obtain rfl := result.2.1 0 n halted
  have share := result.2.2 [0] (fun _ => v.stats) (by simp) (by simp) (by
    intro t member
    obtain rfl := List.mem_singleton.mp member
    exact ⟨⟨_, halted⟩, v, sees, rfl⟩)
  exact ⟨y, v, halted, sees, share⟩

end Interleaved

end FragReport

end MemAlloc
