import Mathlib.Data.Finset.Max
import Mathlib.Tactic.NormNum
import MemAlloc.Fragmentation
import MemAlloc.RegistrySafety

set_option autoImplicit false

namespace MemAlloc

open Malloc (Heap)
open Runs (Run Transition)

/-- What a type of `size` bytes loses of its size class, as the compiler computes it. -/
def compileTimeFragmentation (R : Rounding) (size : Nat) : ℚ :=
  let cls := blockFor size
  if cls = 0 then 0 else R.round (R.round (Words.sub cls size : ℕ) / R.round (cls : ℕ))

def allBelow (R : Rounding) (sizes : List Nat) (threshold : ℚ) : Bool :=
  sizes.all (fun size => decide (compileTimeFragmentation R size < threshold))

/- `int`, `double` and `char`. -/
example : allBelow Rounding.exact [4, 8, 1] (95 / 100) = true ∧
    allBelow Rounding.exact [4, 8, 1] (80 / 100) = false := by decide +kernel

/-- Integers that a `double` represents are not rounded. -/
def Rounding.Integral (R : Rounding) : Prop := ∀ n : ℕ, n ≤ 2 ^ 53 → R.round n = n

/-- The share of its block that a request wastes, without rounding. -/
def wasteRatio (size : Nat) : ℚ := ((blockFor size - size : ℕ) : ℚ) / (blockFor size : ℕ)

theorem blockFor_bounds {n : Nat} (small : n ≤ maxSmall) :
    n ≤ blockFor n ∧ 16 ≤ blockFor n ∧ blockFor n ≤ maxSmall := by
  rw [blockFor_eq small]
  exact ⟨le_bytes_sizeClassOf small, SizeClass.bytes_ge _, SizeClass.bytes_le _⟩

theorem compileTimeFragmentation_small {R : Rounding} (integral : R.Integral) {size : Nat}
    (small : size ≤ maxSmall) :
    compileTimeFragmentation R size = R.round (wasteRatio size) := by
  obtain ⟨covers, atLeast, atMost⟩ := blockFor_bounds small
  have bound : maxSmall ≤ 2 ^ 53 := by decide
  have word : maxSmall < Words.radix := by decide
  have some : blockFor size ≠ 0 := by omega
  rw [compileTimeFragmentation, wasteRatio]
  simp only [some, ↓reduceIte]
  rw [Words.sub_of_le covers (by omega), integral _ (by omega), integral _ (by omega)]

namespace Stats

/-- At most the given share of the bytes allocated was not requested. -/
structure Wastes (share : ℚ) (s : Stats) : Prop where
  ratio : s.requested ≤ s.allocated
  share : ((s.allocated - s.requested : ℕ) : ℚ) ≤ share * s.allocated

namespace Wastes

variable {share : ℚ} {s s' : Stats}

theorem zero (share : ℚ) : Wastes share Stats.zero := ⟨Nat.le_refl _, by simp [Stats.zero]⟩

theorem add {req got : Nat} (wastes : Wastes share s) (covers : req ≤ got)
    (within : ((got - req : ℕ) : ℚ) ≤ share * got) (requested : s'.requested = s.requested + req)
    (allocated : s'.allocated = s.allocated + got) : Wastes share s' := by
  obtain ⟨ratio, lost⟩ := wastes
  have split : s'.allocated - s'.requested = s.allocated - s.requested + (got - req) := by omega
  refine ⟨by omega, ?_⟩
  rw [split, allocated]
  push_cast
  calc ((s.allocated - s.requested : ℕ) : ℚ) + ((got - req : ℕ) : ℚ)
      ≤ share * s.allocated + share * got := add_le_add lost within
    _ = share * (s.allocated + got) := by ring

theorem total {counters : Nat → Stats} {threads : List Nat} {g : Stats}
    (sums : g.IsTotal counters threads) (wastes : ∀ t ∈ threads, Wastes share (counters t)) :
    Wastes share g := by
  have requested : g.requested = Totals.total (fun t => (counters t).requested) threads :=
    sums.sums .requested
  have allocated : g.allocated = Totals.total (fun t => (counters t).allocated) threads :=
    sums.sums .allocated
  clear sums
  induction threads generalizing g with
  | nil => exact ⟨by simp [requested], by simp [requested, allocated]⟩
  | cons t threads ih =>
      let rest : Stats := ⟨Totals.total (fun t => (counters t).requested) threads,
        Totals.total (fun t => (counters t).allocated) threads, 0, 0, 0, 0⟩
      have tail : Wastes share rest :=
        ih (fun u member => wastes u (List.mem_cons_of_mem _ member)) rfl rfl
      have head := wastes t List.mem_cons_self
      rw [Totals.total_cons] at requested allocated
      exact tail.add head.ratio head.share (requested.trans (Nat.add_comm _ _))
        (allocated.trans (Nat.add_comm _ _))

/-- The fraction displayed is no larger than the share, rounded. -/
theorem internalFragmentation_le {R : Rounding} (integral : R.Integral) (wastes : Wastes share s)
    (range : s.allocated ≤ 2 ^ 53) (some : s.allocated ≠ 0) :
    s.internalFragmentation R ≤ R.round share := by
  have word : s.allocated < Words.radix := Nat.lt_of_le_of_lt range (by decide)
  have denominator : (0 : ℚ) < s.allocated := by exact_mod_cast Nat.pos_of_ne_zero some
  rw [internalFragmentation, if_neg some, Words.sub_of_le wastes.ratio word,
    integral _ (Nat.le_trans (Nat.sub_le _ _) range), integral _ range]
  apply R.monotone
  rw [div_le_iff₀ denominator]
  exact wastes.share

end Wastes

end Stats

theorem wasteRatio_nonneg (size : Nat) : 0 ≤ wasteRatio size :=
  div_nonneg (Nat.cast_nonneg _) (Nat.cast_nonneg _)

theorem waste_le {size : Nat} {share : ℚ} (small : size ≤ maxSmall)
    (within : wasteRatio size ≤ share) :
    ((blockFor size - size : ℕ) : ℚ) ≤ share * (blockFor size : ℕ) := by
  have positive : (0 : ℚ) < (blockFor size : ℕ) := by
    have atLeast := (blockFor_bounds small).2.1
    exact_mod_cast (by omega : 0 < blockFor size)
  exact (div_le_iff₀ positive).mp within

theorem blockFor_class {n : Nat} (cls : n ∈ sizeClasses) : n ≤ maxSmall ∧ blockFor n = n := by
  revert n
  decide

theorem blockFor_even {n : Nat} (small : n ≤ maxSmall) : blockFor n % 2 = 0 := by
  rw [blockFor_eq small]
  generalize sizeClassOf n small = i
  revert i
  decide

theorem blockFor_lt {n : Nat} (above : 16 < n) (small : n ≤ maxSmall) : blockFor n < 2 * n := by
  rw [blockFor_eq small]
  obtain ⟨i, cls⟩ : ∃ i, sizeClassOf n small = i := ⟨_, rfl⟩
  have index : sizeClasses.findIdx (fun c => decide (n ≤ c)) = i.val := by
    rw [← cls]
    change _ = sizeClassIndex n
    rw [sizeClassIndex, if_neg (by omega)]
  have held : n ≤ i.bytes := cls ▸ le_bytes_sizeClassOf small
  rw [cls]
  cases place : i.val with
  | zero =>
      have smallest : i.bytes = 16 := by
        rw [SizeClass.bytes_pow, place]
        rfl
      omega
  | succ k =>
      have inside : k < sizeClasses.length := by
        have bound := i.isLt
        simp only [sizeClasses, List.length_cons, List.length_nil]
        omega
      have refused : ¬ n ≤ sizeClasses[k] := by
        have earlier : k < sizeClasses.findIdx (fun c => decide (n ≤ c)) := by omega
        simpa using List.not_of_lt_findIdx earlier
      have previous : sizeClasses[k] = 2 ^ (k + 4) :=
        SizeClass.bytes_pow ⟨k, by omega⟩
      have doubled : i.bytes = 2 * 2 ^ (k + 4) := by
        rw [SizeClass.bytes_pow, place]
        ring
      omega

/-- The worst request of a class is the first one that the class below cannot hold, and wastes
less than half of its block. -/
theorem wasteRatio_le {n : Nat} (above : 16 < n) (small : n ≤ maxSmall) :
    wasteRatio n ≤ ((blockFor n - (blockFor n / 2 + 1) : ℕ) : ℚ) / (blockFor n : ℕ) ∧
      wasteRatio n ≤ 511 / 1024 := by
  obtain ⟨covers, atLeast, atMost⟩ := blockFor_bounds small
  have half := blockFor_lt above small
  have positive : (0 : ℚ) < (blockFor n : ℕ) := by exact_mod_cast (by omega : 0 < blockFor n)
  constructor
  · apply div_le_div_of_nonneg_right _ positive.le
    exact_mod_cast (by omega : blockFor n - n ≤ blockFor n - (blockFor n / 2 + 1))
  · rw [wasteRatio, div_le_div_iff₀ positive (by norm_num)]
    have even := blockFor_even small
    simp only [maxSmall] at atMost
    exact_mod_cast (by omega : (blockFor n - n) * 1024 ≤ 511 * blockFor n)

/-- A request of at least one byte wastes at most fifteen parts in sixteen. -/
theorem wasteRatio_le_tiny {n : Nat} (some : 0 < n) (small : n ≤ maxSmall) :
    wasteRatio n ≤ 15 / 16 := by
  obtain ⟨covers, atLeast, _⟩ := blockFor_bounds small
  have positive : (0 : ℚ) < (blockFor n : ℕ) := by exact_mod_cast (by omega : 0 < blockFor n)
  rw [wasteRatio, div_le_div_iff₀ positive (by norm_num)]
  by_cases above : 16 < n
  · have half := blockFor_lt above small
    exact_mod_cast (by omega : (blockFor n - n) * 16 ≤ 15 * blockFor n)
  · have smallest : ∀ k < 17, blockFor k = 16 := by decide
    rw [smallest n (by omega)]
    exact_mod_cast (by omega : (16 - n) * 16 ≤ 15 * 16)

/-- What `all_below` has checked of the sizes is a share that bounds them all. -/
theorem exists_share {R : Rounding} (integral : R.Integral) {sizes : List Nat} {threshold : ℚ}
    (positive : 0 < threshold) (small : ∀ n ∈ sizes, n ≤ maxSmall)
    (below : allBelow R sizes threshold = true) :
    ∃ share, 0 ≤ share ∧ (∀ n ∈ sizes, wasteRatio n ≤ share) ∧ R.round share < threshold := by
  by_cases none : sizes = []
  · refine ⟨0, le_refl _, ?_, ?_⟩
    · rw [none]
      exact List.forall_mem_nil _
    · rw [R.zero]
      exact positive
  · obtain ⟨first, listed⟩ := List.exists_mem_of_ne_nil sizes none
    obtain ⟨worst, member, most⟩ := Finset.exists_max_image sizes.toFinset wasteRatio
      ⟨first, List.mem_toFinset.mpr listed⟩
    rw [List.mem_toFinset] at member
    refine ⟨wasteRatio worst, wasteRatio_nonneg worst, ?_, ?_⟩
    · exact fun n other => most n (List.mem_toFinset.mpr other)
    · rw [← compileTimeFragmentation_small integral (small worst member)]
      exact of_decide_eq_true (List.all_eq_true.mp below worst member)

/-- The call asks for one of the sizes, or frees a block under one of them or under the size of
its class. -/
def Sys.Event.DrawnFrom (sizes : List Nat) : Sys.Event → Prop
  | .allocate _ n _ => n ∈ sizes
  | .allocateAligned _ _ _ _ => False
  | .free _ _ _ n => n ∈ sizes ∨ n ∈ sizeClasses ∨ maxSmall < n
  | _ => True

namespace Process

def Event.DrawnFrom (sizes : List Nat) : Event → Prop
  | .operate e => e.DrawnFrom sizes
  | _ => True

variable {P : Platform} {offset : Nat} {s s' : Process} {alive done sizes : List Nat} {share : ℚ}

/-- A call adds to the counters of its thread what it records. -/
theorem Inv.operate_adds {t object : Nat} {e : Sys.Event} {sys' : Sys}
    (inv : Inv offset s alive done) (caller : e.caller = some t)
    (registered : s.phase t = .registered object) (fits : s.Fits P (.operate e))
    (taken : Sys.Step P s.sys e sys') :
    ∃ a : SingleThreadAllocator, ∀ c : Counter,
      c.of (counters { s with sys := sys' } t) = c.of (s.counters t) + e.adds P a c := by
  obtain ⟨pool, client, pool', client', live, live', counts⟩ := taken.caller_counts caller
  have own : s.counters t = pool.alloc.stats := by simp only [counters, live]
  have after : counters { s with sys := sys' } t = pool'.alloc.stats := by
    simp only [counters, live']
  refine ⟨pool.alloc, fun c => ?_⟩
  have part : c.of (s.counters t) ≤ s.total c :=
    Totals.le_total (fun u => c.of (s.counters u)) (inv.registered_seen registered)
  rw [own] at part ⊢
  rw [after]
  apply counts.adds c
  exact Nat.lt_of_le_of_lt (Nat.add_le_add_right part _) (fits t pool client caller live c)

/-- What a call records wastes at most the share. -/
theorem adds_within {e : Sys.Event} (a : SingleThreadAllocator) (drawn : e.DrawnFrom sizes)
    (nonneg : 0 ≤ share) (within : ∀ n ∈ sizes, n ≤ maxSmall ∧ wasteRatio n ≤ share) :
    e.adds P a .requested ≤ e.adds P a .allocated ∧
      ((e.adds P a .allocated - e.adds P a .requested : ℕ) : ℚ) ≤
        share * (e.adds P a .allocated : ℕ) := by
  have block : ∀ n, n ≤ maxSmall → wasteRatio n ≤ share →
      n ≤ blockFor n ∧ ((blockFor n - n : ℕ) : ℚ) ≤ share * (blockFor n : ℕ) :=
    fun n small held => ⟨(blockFor_bounds small).1, waste_le small held⟩
  have nothing : (0 : ℕ) ≤ 0 ∧ ((0 - 0 : ℕ) : ℚ) ≤ share * (0 : ℕ) := by simp
  cases e with
  | allocate t n x =>
      obtain ⟨small, held⟩ := within n drawn
      have charge : a.charge P n = blockFor n := if_pos small
      rcases x with _ | (_ | p)
      · exact nothing
      · exact nothing
      · simp only [Sys.Event.adds, Counter.entry, charge]
        exact block n small held
  | allocateAligned t n alignment x => exact drawn.elim
  | free t form p n =>
      by_cases small : n ≤ maxSmall
      · simp only [Sys.Event.adds, small, ↓reduceIte, Counter.entry]
        rcases drawn with listed | cls | large
        · exact block n small (within n listed).2
        · rw [(blockFor_class cls).2]
          refine ⟨Nat.le_refl _, ?_⟩
          rw [Nat.sub_self, Nat.cast_zero]
          exact mul_nonneg nonneg (Nat.cast_nonneg _)
        · exact absurd small (Nat.not_le.mpr large)
      · simp only [Sys.Event.adds, small, ↓reduceIte]
        exact nothing
  | _ => exact nothing

/-- A step keeps every thread's waste within the share. -/
theorem wastes_step {e : Event} (exact : Exact offset s)
    (wastes : ∀ t, (s.counters t).Wastes share) (nonneg : 0 ≤ share)
    (within : ∀ n ∈ sizes, n ≤ maxSmall ∧ wasteRatio n ≤ share) (fits : s.Fits P e)
    (drawn : e.DrawnFrom sizes) (taken : Step P offset s e s') :
    ∀ t, (s'.counters t).Wastes share := by
  obtain ⟨⟨alive, done, inv⟩, _⟩ := exact
  have unchanged : ∀ {t}, s'.counters t = s.counters t → (s'.counters t).Wastes share := by
    intro t same
    rw [same]
    exact wastes t
  intro t
  cases taken with
  | @construct u object sys' absent unused started =>
      by_cases same : t = u
      · subst same
        obtain ⟨pool, client, live, zero⟩ := started.fresh_stats
        simp only [counters, live, zero]
        exact Stats.Wastes.zero share
      · apply unchanged
        refine counters_congr (started.others (by simp [Sys.Event.caller]) ?_) rfl
        exact fun lifetime => same (Option.some.inj lifetime).symm
  | constructFails absent failed =>
      exact unchanged (counters_congr (by rw [failed.failed_start]) rfl)
  | @operate u object e sys' caller registered taken =>
      by_cases same : t = u
      · subst same
        obtain ⟨a, adds⟩ := inv.operate_adds caller registered fits taken
        obtain ⟨covers, held⟩ := adds_within (P := P) a drawn nonneg within
        exact (wastes t).add covers held (adds .requested) (adds .allocated)
      · apply unchanged
        have noLife : e.lifetime = none := by
          cases e with
          | allocate | allocateAligned | free => rfl
          | start | exit | acquireChunk | write | malloc | mfree => cases caller
        refine counters_congr (taken.others ?_ (by rw [noLife]; simp)) rfl
        rw [caller]
        exact fun called => same (Option.some.inj called).symm
  | around noCall noLife taken =>
      apply unchanged
      exact counters_congr (taken.others (by rw [noCall]; simp) (by rw [noLife]; simp)) rfl
  | destroy retired live taken => exact unchanged (Inv.destroyed_counters live taken t)
  | register | retire | globalStats => exact unchanged rfl

theorem wastes_run {m : ByteMemory} {h : Heap Owner} {trace : List (Transition Process Event)}
    (run : Run (Step P offset) (initial m h) trace s)
    (fits : ∀ x ∈ trace, x.before.Fits P x.event) (drawn : ∀ x ∈ trace, x.event.DrawnFrom sizes)
    (nonneg : 0 ≤ share) (within : ∀ n ∈ sizes, n ≤ maxSmall ∧ wasteRatio n ≤ share) :
    (∀ t, (s.counters t).Wastes share) ∧ Exact offset s := by
  have first : ∀ t, ((initial m h).counters t).Wastes share := fun t => .zero share
  have keep : ∀ s e s', ((∀ t, (s.counters t).Wastes share) ∧ Exact offset s) →
      (s.Fits P e ∧ e.DrawnFrom sizes) → Step P offset s e s' →
      (∀ t, (s'.counters t).Wastes share) ∧ Exact offset s' := by
    rintro s e s' ⟨wastes, exact⟩ ⟨room, sized⟩ taken
    refine ⟨?_, (exact.next room taken).1⟩
    exact wastes_step exact wastes nonneg within room sized taken
  exact run.invariantWhere ⟨first, Exact.initial offset m h⟩ keep
    (fun x member => ⟨fits x member, drawn x member⟩)

theorem total_allocated_le {t : Nat} (member : t ∈ s.seen) (range : s.total .allocated ≤ 2 ^ 53) :
    (s.counters t).allocated ≤ 2 ^ 53 :=
  Nat.le_trans (Totals.le_total (fun u => (s.counters u).allocated) member) range

/-- What bounds the waste of every request bounds every fraction displayed. -/
theorem displayed_le {R : Rounding} {m : ByteMemory} {h : Heap Owner}
    {trace : List (Transition Process Event)} (integral : R.Integral)
    (run : Run (Step P offset) (initial m h) trace s)
    (fits : ∀ x ∈ trace, x.before.Fits P x.event) (drawn : ∀ x ∈ trace, x.event.DrawnFrom sizes)
    (nonneg : 0 ≤ share) (within : ∀ n ∈ sizes, n ≤ maxSmall ∧ wasteRatio n ≤ share)
    (range : s.total .allocated ≤ 2 ^ 53) :
    (∀ t ∈ s.seen, (s.counters t).internalFragmentation R ≤ R.round share) ∧
      (s.registry.globalStats (s.read offset)).internalFragmentation R ≤ R.round share := by
  obtain ⟨wastes, ⟨alive, done, inv⟩, bounded⟩ := wastes_run run fits drawn nonneg within
  have displayed : ∀ g : Stats, g.Wastes share → g.allocated ≤ 2 ^ 53 →
      g.internalFragmentation R ≤ R.round share := by
    intro g held word
    by_cases none : g.allocated = 0
    · rw [Stats.internalFragmentation, if_pos none, ← R.zero]
      exact R.monotone nonneg
    · exact held.internalFragmentation_le integral word none
  have sums := inv.isTotal bounded
  have total : (s.registry.globalStats (s.read offset)).allocated = s.total .allocated :=
    sums.sums .allocated
  refine ⟨fun t member => displayed _ (wastes t) (total_allocated_le member range), ?_⟩
  exact displayed _ (Stats.Wastes.total sums (fun t _ => wastes t)) (total ▸ range)

/-- What `all_below` has checked of the types' sizes when compiling holds of the fractions that
are displayed in every run: of each thread's, and of that of `global_stats`. -/
theorem fragmentation_below {R : Rounding} {m : ByteMemory} {h : Heap Owner}
    {trace : List (Transition Process Event)} {threshold : ℚ} (integral : R.Integral)
    (positive : 0 < threshold) (small : ∀ n ∈ sizes, n ≤ maxSmall)
    (below : allBelow R sizes threshold = true)
    (run : Run (Step P offset) (initial m h) trace s)
    (fits : ∀ x ∈ trace, x.before.Fits P x.event) (drawn : ∀ x ∈ trace, x.event.DrawnFrom sizes)
    (range : s.total .allocated ≤ 2 ^ 53) :
    (∀ t ∈ s.seen, (s.counters t).internalFragmentation R < threshold) ∧
      (s.registry.globalStats (s.read offset)).internalFragmentation R < threshold := by
  obtain ⟨share, nonneg, within, rounded⟩ := exists_share integral positive small below
  obtain ⟨each, all⟩ := displayed_le integral run fits drawn nonneg
    (fun n member => ⟨small n member, within n member⟩) range
  exact ⟨fun t member => lt_of_le_of_lt (each t member) rounded, lt_of_le_of_lt all rounded⟩

theorem total_single {t : Nat} (seen : s.seen = [t]) (c : Counter) :
    s.total c = c.of (s.counters t) := by
  simp only [total, seen, Totals.total_cons, Totals.total_nil, Nat.add_zero]

/-- One thread starts and asks for 24 bytes. -/
theorem first_small : ∃ (trace : List (Transition Process Event)) (s : Process),
    Run (Step desktop 0) (initial (fun _ => 0) Heap.empty) trace s ∧ s.seen = [0] ∧
      (∃ x ∈ trace, ∃ r, x.event = .operate (.allocate 0 24 r)) ∧
      (∀ x ∈ trace, x.before.Fits desktop x.event) ∧
      (∀ x ∈ trace, x.event.DrawnFrom [24]) ∧ s.total .allocated ≤ 2 ^ 53 := by
  obtain ⟨a, m, h', built, _⟩ := SingleThreadAllocator.new_possible (Owner.slab 0)
    (.arena 0) (fun _ => 0) Heap.empty (Nat.dvd_zero _) (by decide)
    (fun b member => by cases member)
  have zero : a.stats = Stats.zero := (SingleThreadAllocator.new_ok
    (fun i j same => (Owner.slab.inj same).2) (fun i same => by cases same) built).2.2.1
  obtain ⟨s₁, construct, phase₁, live₁, seen₁⟩ : ∃ s₁,
      Step desktop 0 (initial (fun _ => 0) Heap.empty) (.construct 0 (.ok ())) s₁ ∧
        s₁.phase 0 = .built 4096 ∧ s₁.sys.threads 0 = .live ⟨a, 0, 0, 0⟩ Client.none ∧
        s₁.seen = [] := ⟨_, .construct rfl rfl (Sys.Step.start rfl built), rfl, rfl, rfl⟩
  obtain ⟨s₂, register, phase₂, live₂, seen₂⟩ : ∃ s₂, Step desktop 0 s₁ (.register 0) s₂ ∧
      s₂.phase 0 = .registered 4096 ∧ s₂.sys.threads 0 = .live ⟨a, 0, 0, 0⟩ Client.none ∧
      s₂.seen = [0] :=
    ⟨_, .register phase₁, rfl, live₁, congrArg (· ++ [0]) seen₁⟩
  obtain ⟨x, pool, g', m', done⟩ : ∃ x pool g' m', (⟨a, 0, 0, 0⟩ : ThreadPoolAlloc).allocate desktop
      (acquireChunkCb desktop 0 ⟨none, none⟩ true) true 24 s₂.sys.shared s₂.sys.mem =
        (x, pool, g', m') := ⟨_, _, _, _, rfl⟩
  have word : 24 < Words.radix := by decide
  obtain ⟨sys₃, taken⟩ : ∃ sys₃, Sys.Step desktop s₂.sys (.allocate 0 24 x) sys₃ :=
    ⟨_, .allocate live₂ word done⟩
  have little : ∀ (b : SingleThreadAllocator) (c : Counter),
      Sys.Event.adds desktop b c (.allocate 0 24 x) ≤ 32 := by
    intro b c
    rcases x with _ | (_ | p)
    · exact Nat.zero_le _
    · exact Nat.zero_le _
    · have charge : b.charge desktop 24 = 32 := rfl
      simp only [Sys.Event.adds, charge]
      cases c <;> decide
  have nothing : s₂.counters 0 = Stats.zero := by simp only [counters, live₂, zero]
  have empty : ∀ c : Counter, s₂.total c = 0 := by
    intro c
    rw [total_single seen₂, nothing]
    cases c <;> rfl
  have room : s₂.Fits desktop (.operate (.allocate 0 24 x)) := by
    intro t pool client caller live c
    rw [empty c]
    have few := little pool.alloc c
    simp only [Words.radix]
    omega
  have run := (Run.nil.snoc construct).snoc register
  obtain ⟨alive, done', inv⟩ := run_inv run
  obtain ⟨b, adds⟩ := inv.operate_adds rfl phase₂ room taken
  refine ⟨_, _, run.snoc (.operate rfl phase₂ taken), seen₂, ?_, ?_, ?_, ?_⟩
  · exact ⟨_, List.mem_append_right _ (List.mem_singleton.mpr rfl), x, rfl⟩
  · intro y member
    simp only [List.nil_append, List.mem_append, List.mem_singleton] at member
    rcases member with (rfl | rfl) | rfl
    · trivial
    · trivial
    · exact room
  · intro y member
    simp only [List.nil_append, List.mem_append, List.mem_singleton] at member
    rcases member with (rfl | rfl) | rfl
    · trivial
    · trivial
    · exact List.mem_singleton.mpr rfl
  · have few := little b .allocated
    have single := total_single (s := { s₂ with sys := sys₃ }) seen₂ .allocated
    rw [single, adds, nothing]
    simp only [Counter.of, Stats.zero]
    omega

theorem fragmentation_below_first : ∃ (trace : List (Transition Process Event)) (s : Process),
    (∃ x ∈ trace, ∃ r, x.event = .operate (.allocate 0 24 r)) ∧
      (s.counters 0).internalFragmentation Rounding.exact < 3 / 10 ∧
      (s.registry.globalStats (s.read 0)).internalFragmentation Rounding.exact < 3 / 10 := by
  obtain ⟨trace, s, run, seen, asked, fits, drawn, range⟩ := first_small
  have positive : (0 : ℚ) < 3 / 10 := by norm_num
  obtain ⟨each, all⟩ := fragmentation_below (R := Rounding.exact) (fun _ _ => rfl) positive
    (by decide) (by decide +kernel) run fits drawn range
  refine ⟨trace, s, asked, each 0 ?_, all⟩
  rw [seen]
  exact List.mem_singleton.mpr rfl

/-- With requests of at least one byte no more than fifteen parts in sixteen of the bytes that
have been handed out were not asked for; with requests above the smallest class, less than half. -/
theorem fragmentation_worst {R : Rounding} {m : ByteMemory} {h : Heap Owner}
    {trace : List (Transition Process Event)} (integral : R.Integral)
    (small : ∀ n ∈ sizes, 0 < n ∧ n ≤ maxSmall) (run : Run (Step P offset) (initial m h) trace s)
    (fits : ∀ x ∈ trace, x.before.Fits P x.event) (drawn : ∀ x ∈ trace, x.event.DrawnFrom sizes)
    (range : s.total .allocated ≤ 2 ^ 53) :
    (s.registry.globalStats (s.read offset)).internalFragmentation R ≤ R.round (15 / 16) ∧
      ((∀ n ∈ sizes, 16 < n) →
        (s.registry.globalStats (s.read offset)).internalFragmentation R ≤
          R.round (511 / 1024)) := by
  constructor
  · exact (displayed_le integral run fits drawn (by norm_num)
      (fun n member => ⟨(small n member).2,
        wasteRatio_le_tiny (small n member).1 (small n member).2⟩) range).2
  · intro above
    exact (displayed_le integral run fits drawn (by norm_num)
      (fun n member => ⟨(small n member).2,
        (wasteRatio_le (above n member) (small n member).2).2⟩) range).2

theorem fragmentation_worst_first : ∃ (trace : List (Transition Process Event)) (s : Process),
    (∃ x ∈ trace, ∃ r, x.event = .operate (.allocate 0 24 r)) ∧
      (s.registry.globalStats (s.read 0)).internalFragmentation Rounding.exact ≤ 511 / 1024 := by
  obtain ⟨trace, s, run, seen, asked, fits, drawn, range⟩ := first_small
  have bounds := fragmentation_worst (R := Rounding.exact) (fun _ _ => rfl) (by decide) run fits
    drawn range
  exact ⟨trace, s, asked, bounds.2 (by decide)⟩

end Process

end MemAlloc
