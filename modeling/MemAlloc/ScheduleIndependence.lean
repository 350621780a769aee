import Mathlib.Algebra.Order.BigOperators.Group.Finset
import MemAlloc.ScheduleRuns
import MemAlloc.SuppliedRuns

set_option autoImplicit false

namespace MemAlloc

open Malloc (Heap)
open Runs (Run Transition)
open SingleThreadAllocator (FreeForm Occupancy)

theorem requestSpan_large {size start : Nat} (large : maxSmall < (requestSpan size start).size) :
    maxSmall < size := by
  apply Classical.byContradiction
  intro small
  have fits := Nat.le_of_not_lt small
  simp only [requestSpan, fits, ↓reduceIte, blockFor_eq fits] at large
  exact absurd large (Nat.not_lt.mpr (SizeClass.bytes_le _))

namespace Schedule

def outcome (q : Nat × Except Exn (Option Nat)) : Nat × Except Exn Bool :=
  (q.1, q.2.map Option.isSome)

/-- The thread gives back, with size `n`, a block that is out, and the call returns or not. -/
inductive Gives (s : Schedule) (t : Nat) (form : FreeForm) (request n : Nat) : Prop → Prop
  | intro {pool : ThreadPoolAlloc} {client : Client} {size p q : Nat}
      (live : s.process.sys.threads t = .live pool client)
      (returned : (s.requests t)[request]? = some (size, .ok (some q)))
      (out : requestSpan size q ∈ client.spans) (names : form.Names (requestSpan size q) p) :
      Gives s t form request n
        (∃ pool' m', pool.free form s.process.sys.mem p n = .ok (pool', m'))

/-- What a thread sees of its calls does not tell the two states apart, up to where its slabs,
chunks and arena lie. -/
structure Agrees (s₁ s₂ : Schedule) (t : Nat) : Prop where
  outcomes : (s₁.requests t).map outcome = (s₂.requests t).map outcome
  addresses : ∃ places : List (Nat × Option Place),
    s₁.requests t = places.map (fun q => (q.1, .ok (q.2.map (Place.address (s₁.layout t))))) ∧
      s₂.requests t = places.map (fun q => (q.1, .ok (q.2.map (Place.address (s₂.layout t)))))
  frees : ∀ form request n returns₁ returns₂, s₁.Gives t form request n returns₁ →
    s₂.Gives t form request n returns₂ → (returns₁ ↔ returns₂)
  stats : s₁.process.counters t = s₂.process.counters t
  occupancy : ∀ pool₁ client₁ pool₂ client₂, s₁.process.sys.threads t = .live pool₁ client₁ →
    s₂.process.sys.threads t = .live pool₂ client₂ → ∃ (occupancy : Occupancy) (least : Nat),
      ∀ fuel, least < fuel →
        pool₁.alloc.occupancy fuel s₁.process.sys.mem = some occupancy ∧
          pool₂.alloc.occupancy fuel s₂.process.sys.mem = some occupancy

variable {P : Platform} {offset : Nat} {programs : Nat → List ProgramCall} {s s₁ s₂ : Schedule}
  {t n : Nat}

/-- Whether a free returns depends on the place of the block only. -/
theorem Follows.gives {form : FreeForm} {request : Nat} {returns : Prop}
    (follows : Follows P programs s t) (gives : s.Gives t form request n returns) :
    returns ↔ maxSmall < n ∨ ∃ place,
      (s.progress P programs t).place request = some place ∧ place.Serves n := by
  cases gives with
  | @intro pool client size p q live returned out names =>
      obtain ⟨_, real⟩ := follows.live pool client live
      obtain ⟨free, thread, rep, tabled⟩ := real.inv
      obtain ⟨place, listed, _, serves⟩ := follows.place returned
      have found : (s.progress P programs t).place request = some place := by
        rw [Progress.place, listed]
        rfl
      simp only [found, Option.some.injEq, exists_eq_left']
      rcases Client.mem_spans.mp out with ⟨i, x, held, same⟩ | bumped
      · obtain ⟨rfl, small, rfl⟩ := Realizes.requestSpan_block same.symm
        rw [same] at names
        rw [thread.free_returns_iff tabled held names]
        cases place with
        | arena offset => exact absurd serves (Nat.not_lt.mpr small)
        | block j slab index =>
            obtain ⟨_, rfl⟩ := serves
            exact Iff.rfl
      · have large := requestSpan_large (real.large _ bumped)
        rw [thread.free_arena_returns_iff bumped names]
        cases place with
        | arena offset => exact (or_self_iff).symm
        | block j slab index =>
            obtain ⟨small, _⟩ := serves
            exact absurd large (Nat.not_lt.mpr small)

/-- Threads that have made the same calls have got the same. -/
theorem Follows.agrees (first : Follows P programs s₁ t) (second : Follows P programs s₂ t)
    (placed₁ : SysPlaced P s₁.process.sys) (placed₂ : SysPlaced P s₂.process.sys)
    (made : s₁.made t = s₂.made t) : Agrees s₁ s₂ t := by
  have same : s₂.progress P programs t = s₁.progress P programs t := progress_same made.symm
  have requests₂ := second.requests
  have counters₂ := second.counters
  rw [same] at requests₂ counters₂
  refine ⟨?_, ⟨_, first.requests, requests₂⟩, ?_, first.counters.trans counters₂.symm, ?_⟩
  · rw [first.requests, requests₂, List.map_map, List.map_map]
    apply List.map_congr_left
    intro q _
    obtain ⟨k, place⟩ := q
    cases place with
    | none => rfl
    | some place => rfl
  · intro form request n returns₁ returns₂ gives₁ gives₂
    rw [first.gives gives₁, second.gives gives₂, same]
  · intro pool₁ client₁ pool₂ client₂ live₁ live₂
    obtain ⟨_, real₁⟩ := first.live pool₁ client₁ live₁
    obtain ⟨_, real₂⟩ := second.live pool₂ client₂ live₂
    obtain ⟨free₁, thread₁, rep₁, tabled₁⟩ := real₁.inv
    obtain ⟨free₂, thread₂, rep₂, tabled₂⟩ := real₂.inv
    rw [same] at rep₂
    let longest := ∑ i, ((s₁.progress P programs t).alloc.free i).length
    refine ⟨(s₁.progress P programs t).alloc.occupancy, longest, fun fuel above => ?_⟩
    have enough : ∀ i, ((s₁.progress P programs t).alloc.free i).length < fuel := fun i =>
      Nat.lt_of_le_of_lt (Finset.single_le_sum (f := fun i =>
        ((s₁.progress P programs t).alloc.free i).length) (fun _ _ => Nat.zero_le _)
        (Finset.mem_univ i)) above
    exact ⟨thread₁.occupancy rep₁ tabled₁ (placed₁.arena t pool₁ client₁ live₁).1 enough,
      thread₂.occupancy rep₂ tabled₂ (placed₂.arena t pool₂ client₂ live₂).1 enough⟩

/-- Every chunk counts for a thread and a class, and each pool has taken as many. -/
theorem Inv.totalChunks (first : Inv P offset programs s₁) (second : Inv P offset programs s₂)
    (made : s₁.made = s₂.made) : s₁.process.sys.shared.central.totalChunks =
      s₂.process.sys.shared.central.totalChunks := by
  have counts : ∀ t i, s₁.process.sys.shared.chunkCount t i =
      s₂.process.sys.shared.chunkCount t i := by
    intro t i
    have left := (first.follows t).chunks i
    have right := (second.follows t).chunks i
    rw [progress_same (congrFun made.symm t)] at right
    omega
  let carved₁ := s₁.process.sys.shared.carved
  let carved₂ := s₂.process.sys.shared.carved
  let users : Finset Nat := ((carved₁ ++ carved₂).filterMap Chunk.user).toFinset
  have listed : ∀ c ∈ carved₁ ++ carved₂, ∀ t, c.user = some t → t ∈ users := by
    intro c member t user
    exact List.mem_toFinset.mpr (List.mem_filterMap.mpr ⟨c, member, user⟩)
  have nobody : ∀ {carved : List Chunk}, (∀ c ∈ carved, c.user ≠ none) →
      carved.countP (fun c => c.user = none) = 0 := by
    intro carved owned
    exact List.countP_eq_zero.mpr (fun c member => by simpa using owned c member)
  have left := Shared.length_carved (T := users)
    (fun c member => listed c (List.mem_append_left _ member)) first.placed.counted.bytes
  have right := Shared.length_carved (T := users)
    (fun c member => listed c (List.mem_append_right _ member)) second.placed.counted.bytes
  rw [nobody first.placed.owned] at left
  rw [nobody second.placed.owned] at right
  have sums : ∑ t ∈ users, ∑ i : SizeClass, carved₁.countP (fun c => c.For t i) =
      ∑ t ∈ users, ∑ i : SizeClass, carved₂.countP (fun c => c.For t i) :=
    Finset.sum_congr rfl (fun t _ => Finset.sum_congr rfl (fun i _ => counts t i))
  rw [first.placed.counted.total, second.placed.counted.total, left, right]
  exact congrArg (fun k => (0 + k) % Words.radix) sums

/-- Threads that have made no call add nothing, and all others have registered. -/
theorem Inv.globalStats (first : Inv P offset programs s₁) (second : Inv P offset programs s₂)
    (made : s₁.made = s₂.made) :
    s₁.process.registry.globalStats (s₁.process.read offset) =
      s₂.process.registry.globalStats (s₂.process.read offset) := by
  obtain ⟨alive₁, done₁, registry₁⟩ := first.registry
  obtain ⟨alive₂, done₂, registry₂⟩ := second.registry
  have counters : s₁.process.counters = s₂.process.counters := by
    funext t
    have right := (second.follows t).counters
    rw [progress_same (congrFun made.symm t)] at right
    exact (first.follows t).counters.trans right.symm
  have idle : ∀ t, s₁.made t = 0 → s₁.process.counters t = Stats.zero := by
    intro t none
    rw [(first.follows t).counters, progress_idle none]
    rfl
  have seen : ∀ (f : Stats → Nat), f Stats.zero = 0 → ∀ t, f (s₁.process.counters t) ≠ 0 →
      (t ∈ s₁.process.seen ↔ t ∈ s₂.process.seen) := by
    intro f zero t counts
    have started : s₁.made t ≠ 0 := by
      intro none
      rw [idle t none] at counts
      exact counts zero
    have started₂ : s₂.made t ≠ 0 := by rwa [← made]
    exact iff_of_true ((first.follows t).seen started) ((second.follows t).seen started₂)
  apply Stats.ext_counters
  · intro c
    have zero : c.of Stats.zero = 0 := by cases c <;> rfl
    rw [StatsRegistry.of_globalStats registry₁.live registry₁.retired
        (fun t member => registry₁.reads member) c,
      StatsRegistry.of_globalStats registry₂.live registry₂.retired
        (fun t member => registry₂.reads member) c,
      Totals.total_perm registry₁.perm, Totals.total_perm registry₂.perm, ← counters,
      Totals.total_support registry₁.nodup registry₂.nodup (seen c.of zero)]
  · rw [StatsRegistry.peak_globalStats registry₁.live registry₁.retired
        (fun t member => registry₁.reads member),
      StatsRegistry.peak_globalStats registry₂.live registry₂.retired
        (fun t member => registry₂.reads member),
      Totals.highest_perm registry₁.perm, Totals.highest_perm registry₂.perm, ← counters,
      Totals.highest_support registry₁.nodup registry₂.nodup (seen Stats.peakAllocated rfl)]
  · rw [StatsRegistry.live_globalStats, StatsRegistry.live_globalStats]

/-- Schedule independence. Two runs of the same programs, in which every chunk that is asked
for is granted, cannot be told apart by a thread that has made as many calls in one as in the
other, except by where its slabs, chunks and arena lie. When this goes for every thread, as at
the end, the process-wide counts agree as well. -/
theorem schedule_independence {m₁ m₂ : ByteMemory} {h₁ h₂ : Heap Owner} (aligns : P.Aligns)
    (bounded : Bounded programs) {trace₁ trace₂ : List (Transition Schedule Process.Event)}
    (run₁ : Run (Step P offset programs) (initial m₁ h₁) trace₁ s₁)
    (supplied₁ : ∀ x ∈ trace₁, Supplied P x.before x.event x.after)
    (run₂ : Run (Step P offset programs) (initial m₂ h₂) trace₂ s₂)
    (supplied₂ : ∀ x ∈ trace₂, Supplied P x.before x.event x.after) :
    (∀ t, s₁.made t = s₂.made t → Agrees s₁ s₂ t) ∧
      (s₁.made = s₂.made →
        s₁.process.sys.shared.central.totalChunks = s₂.process.sys.shared.central.totalChunks ∧
          s₁.process.registry.globalStats (s₁.process.read offset) =
            s₂.process.registry.globalStats (s₂.process.read offset)) := by
  have first := run_inv aligns bounded run₁ supplied₁
  have second := run_inv aligns bounded run₂ supplied₂
  constructor
  · intro t made
    exact (first.follows t).agrees (second.follows t) first.placed second.placed made
  · intro made
    exact ⟨first.totalChunks second made, first.globalStats second made⟩

/-- The thread has not started, and its object's address is unused. -/
structure Waits (s : Schedule) (t object : Nat) : Prop where
  absent : s.process.phase t = .absent
  unborn : s.process.sys.threads t = .unborn
  unused : s.process.storage object = none
  idle : s.made t = 0

/-- A thread starts and registers, and its pool of the smallest class is stocked. -/
theorem registered_possible {limit : Nat} (offset : Nat) (programs : Nat → List ProgramCall)
    (object base : Nat) (waits : s.Waits t object) (small : 16 ≤ maxSmall) (positive : 0 < base)
    (aligned : 1048576 ∣ base) (room : base + 33554432 ≤ Malloc.addressLimit)
    (below : Below s.process.sys.shared.heap limit) (above : limit ≤ base) :
    ∃ trace s' pool, Run (Step desktop offset programs) s trace s' ∧
      (∀ x ∈ trace, Supplied desktop x.before x.event x.after) ∧ trace.length = 2 ∧
      s'.made = s.made ∧ s'.process.phase t = .registered object ∧
      s'.process.sys.threads t = .live pool Client.none ∧
      (pool.alloc.pools (sizeClassOf 16 small)).head ≠ 0 ∧
      Below s'.process.sys.shared.heap (base + 33554432) ∧
      ∀ u other, u ≠ t → other ≠ object → s.Waits u other → s'.Waits u other := by
  have higher : Below s.process.sys.shared.heap (base + 1048576) :=
    fun b member => Nat.le_trans (below b member) (by omega)
  obtain ⟨a, m, h, built, slabs, _, below', _⟩ := SingleThreadAllocator.new_possible (Owner.slab t)
    (.arena t) s.process.sys.mem s.process.sys.shared.heap aligned room higher
  have different : Function.Injective (Owner.slab t) := fun i j same => (Owner.slab.inj same).2
  have head := (SingleThreadAllocator.new_heads different (fun i same => by cases same) built
    (sizeClassOf 16 small)).1
  rw [slabs] at head
  have nonnull : spreadAddress base (sizeClassOf 16 small) ≠ 0 := by
    rw [spreadAddress]
    omega
  obtain ⟨sys₁, started, live, heap, others⟩ : ∃ sys₁,
      Sys.Step desktop s.process.sys (.start t (.ok ())) sys₁ ∧
        sys₁.threads t = .live ⟨a, 0, 0, s.process.sys.nextThreadId⟩ Client.none ∧
        sys₁.shared.heap = h ∧ ∀ u, u ≠ t → sys₁.threads u = s.process.sys.threads u :=
    ⟨_, .start waits.unborn built, Function.update_self t _ _, rfl,
      fun u different => Function.update_of_ne different _ _⟩
  -- The object is constructed, then registered.
  let p₁ : Process := { s.process with
    sys := sys₁
    storage := Function.update s.process.storage object (some t)
    phase := Function.update s.process.phase t (.built object) }
  let s₁ : Schedule := { s with process := p₁, layout := s.placed p₁ }
  have first : Step desktop offset programs s (.construct t (.ok ())) s₁ :=
    .around (fun _ same => by cases same) (fun _ _ same => by cases same)
      (.construct waits.absent waits.unused started)
  have phase : p₁.phase t = .built object := Function.update_self t _ _
  let p₂ : Process := { p₁ with
    registry := p₁.registry.registerStats (object + offset) object
    phase := Function.update p₁.phase t (.registered object)
    seen := p₁.seen ++ [t] }
  let s₂ : Schedule := { s₁ with process := p₂, layout := s₁.placed p₂ }
  have second : Step desktop offset programs s₁ (.register t) s₂ :=
    .around (fun _ same => by cases same) (fun _ _ same => by cases same) (.register phase)
  refine ⟨_, s₂, _, (Run.nil.snoc first).snoc second, ?_, rfl, rfl, Function.update_self t _ _,
    live, ?_, ?_, ?_⟩
  · intro x member
    simp only [List.mem_append, List.mem_singleton, List.nil_append] at member
    rcases member with (rfl | rfl)
    · exact fun _ impossible => by cases impossible
    · exact fun _ impossible => by cases impossible
  · show (a.pools _).head ≠ 0
    rw [head]
    exact nonnull
  · show Below sys₁.shared.heap _
    rw [heap]
    exact below'
  · intro u other different apart waiting
    refine ⟨?_, (others u different).trans waiting.unborn, ?_, waiting.idle⟩
    · show Function.update (Function.update s.process.phase t _) t _ u = _
      rw [Function.update_of_ne different, Function.update_of_ne different]
      exact waiting.absent
    · show Function.update s.process.storage object (some t) other = none
      rw [Function.update_of_ne apart]
      exact waiting.unused

/-- A thread whose program asks for 16 bytes starts, registers and makes its call. -/
theorem turn_possible {limit : Nat} (offset : Nat) (programs : Nat → List ProgramCall)
    (object base : Nat) (waits : s.Waits t object) (program : programs t = [.allocate 16])
    (positive : 0 < base) (aligned : 1048576 ∣ base) (room : base + 33554432 ≤ Malloc.addressLimit)
    (below : Below s.process.sys.shared.heap limit) (above : limit ≤ base) :
    ∃ trace s', Run (Step desktop offset programs) s trace s' ∧
      (∀ x ∈ trace, Supplied desktop x.before x.event x.after) ∧
      trace.length = 3 ∧ s'.made = Function.update s.made t 1 ∧
      Below s'.process.sys.shared.heap (base + 33554432) ∧
      ∀ u other, u ≠ t → other ≠ object → s.Waits u other → s'.Waits u other := by
  have small : 16 ≤ maxSmall := by decide
  obtain ⟨trace, s₂, pool₂, run, steps, size, made, registered, live, head, below', kept⟩ :=
    registered_possible offset programs object base waits small positive aligned room below above
  obtain ⟨sys₃, pool, taken, supplied, same, _⟩ :=
    Sys.stocked_possible (P := desktop) (s := s₂.process.sys) live small rfl head
  have next : (programs t)[s₂.made t]? = some (.allocate 16) := by
    rw [program, made, waits.idle]
    rfl
  have last : Step desktop offset programs s₂ _ _ :=
    .call next .allocate (.operate rfl registered taken)
  refine ⟨_, _, run.snoc last, ?_, ?_, ?_, ?_, ?_⟩
  · intro x member
    rcases List.mem_append.mp member with old | new
    · exact steps x old
    · obtain rfl := List.mem_singleton.mp new
      intro e called
      cases called
      exact supplied
  · rw [List.length_append, size]
    rfl
  · show Function.update s₂.made t (s₂.made t + 1) = _
    rw [made, waits.idle]
  · show Below sys₃.shared.heap _
    rw [same]
    exact below'
  · intro u other different apart waiting
    have before := kept u other different apart waiting
    refine ⟨before.absent, ?_, before.unused, ?_⟩
    · show sys₃.threads u = _
      rw [same, Sys.setThread_other _ _ different]
      exact before.unborn
    · show Function.update s₂.made t _ u = 0
      rw [Function.update_of_ne different]
      exact before.idle

/-- Two threads each take a turn, the first one at the lower addresses. -/
theorem turns_possible (programs : Nat → List ProgramCall) {u : Nat} (different : u ≠ t)
    (first : programs t = [.allocate 16]) (second : programs u = [.allocate 16]) :
    ∃ trace s, Run (Step desktop 0 programs) (initial (fun _ => 0) Heap.empty) trace s ∧
      (∀ x ∈ trace, Supplied desktop x.before x.event x.after) ∧ trace.length = 6 ∧
      s.made = Function.update (Function.update (fun _ => 0) t 1) u 1 := by
  have waits : ∀ t object, (initial (fun _ => 0) Heap.empty).Waits t object :=
    fun _ _ => ⟨rfl, rfl, rfl, rfl⟩
  have empty : Below (initial (fun _ => 0) Heap.empty).process.sys.shared.heap 0 :=
    fun b member => by cases member
  obtain ⟨front, s, run, supplied, size, made, below, kept⟩ := turn_possible 0 programs 4096
    1048576 (waits t 4096) first (by decide) (by decide) (by decide) empty (by decide)
  obtain ⟨back, s', run', supplied', size', made', _⟩ := turn_possible 0 programs 8192 67108864
    (kept u 8192 different (by decide) (waits u 8192)) second (by decide) (by decide) (by decide)
    below (by decide)
  refine ⟨_, s', run.append run', ?_, ?_, ?_⟩
  · intro x member
    rcases List.mem_append.mp member with old | new
    · exact supplied x old
    · exact supplied' x new
  · rw [List.length_append, size, size']
  · rw [made', made]
    rfl

/-- Two threads ask for 16 bytes each, in either order. -/
theorem schedule_independence_swapped : ∃ (trace₁ trace₂ : List (Transition Schedule Process.Event))
    (s₁ s₂ : Schedule) (programs : Nat → List ProgramCall),
    Run (Step desktop 0 programs) (initial (fun _ => 0) Heap.empty) trace₁ s₁ ∧
      Run (Step desktop 0 programs) (initial (fun _ => 0) Heap.empty) trace₂ s₂ ∧
      trace₁.length = 6 ∧ trace₂.length = 6 ∧
      (∀ t, s₁.made t = (programs t).length) ∧ (∀ t, s₂.made t = (programs t).length) ∧
      (∀ t, Agrees s₁ s₂ t) ∧
      s₁.process.registry.globalStats (s₁.process.read 0) =
        s₂.process.registry.globalStats (s₂.process.read 0) := by
  let programs : Nat → List ProgramCall := fun t => if t < 2 then [.allocate 16] else []
  obtain ⟨trace₁, s₁, run₁, supplied₁, size₁, made₁⟩ :=
    turns_possible programs (t := 0) (u := 1) (by decide) rfl rfl
  obtain ⟨trace₂, s₂, run₂, supplied₂, size₂, made₂⟩ :=
    turns_possible programs (t := 1) (u := 0) (by decide) rfl rfl
  have aligns : desktop.Aligns := ⟨⟨4, by decide, rfl⟩, by decide, by decide⟩
  have bounded : Bounded programs := by
    intro t n member
    simp only [programs] at member
    split at member
    · obtain rfl := ProgramCall.allocate.inj (List.mem_singleton.mp member)
      decide
    · cases member
  have same : s₁.made = s₂.made := by
    rw [made₁, made₂]
    exact Function.update_comm (by decide) _ _ _
  have final : ∀ t, s₁.made t = (programs t).length := by
    intro t
    rw [made₁]
    by_cases zero : t = 0
    · subst zero
      rfl
    · by_cases one : t = 1
      · subst one
        rfl
      · rw [Function.update_of_ne one, Function.update_of_ne zero]
        simp only [programs]
        rw [if_neg (by omega)]
        rfl
  obtain ⟨each, all⟩ := schedule_independence aligns bounded run₁ supplied₁ run₂ supplied₂
  exact ⟨trace₁, trace₂, s₁, s₂, programs, run₁, run₂, size₁, size₂, final,
    fun t => same ▸ final t, fun t => each t (congrFun same t), (all same).2⟩

end Schedule

end MemAlloc
