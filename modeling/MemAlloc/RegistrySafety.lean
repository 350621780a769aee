import MemAlloc.RegistryRuns

set_option autoImplicit false

namespace MemAlloc

open Malloc (Heap)
open Runs (Run Transition)

namespace Process

def objectOf (s : Process) (t : Nat) : Nat := (s.phase t).object.getD 0

theorem objectOf_eq {s : Process} {t p : Nat} (phase : (s.phase t).object = some p) :
    s.objectOf t = p := by
  rw [objectOf, phase]
  rfl

theorem objectOf_congr {s s' : Process} {t : Nat}
    (same : (s'.phase t).object = (s.phase t).object) : s'.objectOf t = s.objectOf t := by
  rw [objectOf, objectOf, same]

theorem counters_congr {s s' : Process} {t : Nat}
    (thread : s'.sys.threads t = s.sys.threads t) (final : s'.final t = s.final t) :
    s'.counters t = s.counters t := by
  rw [counters, counters, thread, final]

/-- The registry's view of one thread fits the phase the thread is in. -/
structure Tracked (s : Process) (alive done : List Nat) (t : Nat) : Prop where
  listed : t ∈ alive ↔ ∃ p, s.phase t = .registered p
  finished : t ∈ done ↔ (∃ p, s.phase t = .retired p) ∨ s.phase t = .gone
  stored : ∀ p, (s.phase t).object = some p →
    s.storage p = some t ∧ ∃ pool client, s.sys.threads t = .live pool client
  built : ∀ p, s.phase t = .built p → s.counters t = Stats.zero
  gone : s.phase t = .gone → s.sys.threads t = .exited

theorem Tracked.congr {s s' : Process} {alive alive' done done' : List Nat} {t : Nat}
    (tracked : Tracked s alive done t) (phase : s'.phase t = s.phase t)
    (thread : s'.sys.threads t = s.sys.threads t) (final : s'.final t = s.final t)
    (storage : ∀ p, s.storage p = some t → s'.storage p = some t)
    (listed : t ∈ alive' ↔ t ∈ alive) (finished : t ∈ done' ↔ t ∈ done) :
    Tracked s' alive' done' t := by
  refine ⟨?_, ?_, ?_, ?_, ?_⟩
  · rw [listed, phase]
    exact tracked.listed
  · rw [finished, phase]
    exact tracked.finished
  · intro p held
    rw [phase] at held
    obtain ⟨stored, running⟩ := tracked.stored p held
    exact ⟨storage p stored, thread ▸ running⟩
  · intro p built
    rw [phase] at built
    exact (counters_congr thread final).trans (tracked.built p built)
  · intro gone
    rw [phase] at gone
    exact thread.trans (tracked.gone gone)

/-- `alive` are the registered threads in the order of the vectors, `done` the retired ones. -/
structure Inv (offset : Nat) (s : Process) (alive done : List Nat) : Prop where
  live : s.registry.live = alive.map (fun t => s.objectOf t + offset)
  allocators : s.registry.liveAllocators = alive.map s.objectOf
  retired : s.registry.retired = done.map s.counters
  perm : (alive ++ done).Perm s.seen
  nodup : s.seen.Nodup
  tracked : ∀ t, Tracked s alive done t

namespace Inv

variable {offset : Nat} {s s' : Process} {alive alive' done done' : List Nat} {t object : Nat}

theorem initial (offset : Nat) (m : ByteMemory) (h : Heap Owner) :
    Inv offset (initial m h) [] [] := by
  refine ⟨rfl, rfl, rfl, .nil, .nil, fun t => ⟨?_, ?_, ?_, ?_, ?_⟩⟩
  · simp [Process.initial]
  · simp [Process.initial]
  · intro p held
    cases held
  · intro p built
    cases built
  · intro gone
    cases gone

/-- Two threads never have their objects at one address. -/
theorem object_injective (inv : Inv offset s alive done) {u : Nat}
    (left : (s.phase t).object = some object) (right : (s.phase u).object = some object) :
    t = u := by
  have first := ((inv.tracked t).stored object left).1
  rw [((inv.tracked u).stored object right).1] at first
  exact (Option.some.inj first).symm

theorem alive_object (inv : Inv offset s alive done) (member : t ∈ alive) :
    (s.phase t).object = some (s.objectOf t) := by
  obtain ⟨p, registered⟩ := (inv.tracked t).listed.mp member
  have held : (s.phase t).object = some p := by rw [registered]; rfl
  rw [objectOf_eq held, held]

theorem reads (inv : Inv offset s alive done) (member : t ∈ alive) :
    s.read offset (s.objectOf t + offset) = s.counters t := by
  have stored := ((inv.tracked t).stored _ (inv.alive_object member)).1
  simp only [read, Nat.add_sub_cancel, stored]

theorem not_listed (inv : Inv offset s alive done)
    (early : s.phase t = .absent ∨ ∃ p, s.phase t = .built p) : t ∉ alive ∧ t ∉ done := by
  constructor
  · intro member
    obtain ⟨p, registered⟩ := (inv.tracked t).listed.mp member
    rcases early with absent | ⟨q, built⟩
    · rw [absent] at registered
      cases registered
    · rw [built] at registered
      cases registered
  · intro member
    rcases early with absent | ⟨q, built⟩
    · rcases (inv.tracked t).finished.mp member with ⟨p, retired⟩ | gone
      · rw [absent] at retired
        cases retired
      · rw [absent] at gone
        cases gone
    · rcases (inv.tracked t).finished.mp member with ⟨p, retired⟩ | gone
      · rw [built] at retired
        cases retired
      · rw [built] at gone
        cases gone

/-- The registry is untouched, the objects of registered threads stay where they are, and
the counters of retired threads are final. -/
theorem unregistered (inv : Inv offset s alive done) (registry : s'.registry = s.registry)
    (seen : s'.seen = s.seen) (objects : ∀ u ∈ alive, s'.objectOf u = s.objectOf u)
    (counters : ∀ u ∈ done, s'.counters u = s.counters u)
    (tracked : ∀ u, Tracked s' alive done u) : Inv offset s' alive done := by
  refine ⟨?_, ?_, ?_, ?_, ?_, tracked⟩
  · rw [registry, inv.live]
    exact List.map_congr_left (fun u member => by rw [objects u member])
  · rw [registry, inv.allocators]
    exact List.map_congr_left (fun u member => (objects u member).symm)
  · rw [registry, inv.retired]
    exact List.map_congr_left (fun u member => (counters u member).symm)
  · rw [seen]
    exact inv.perm
  · rw [seen]
    exact inv.nodup

/-- The threads ran on, and only a registered one was changed. -/
theorem sysStep {sys' : Sys} (inv : Inv offset s alive done)
    (same : ∀ u, (∀ p, s.phase u ≠ .registered p) → sys'.threads u = s.sys.threads u)
    (running : ∀ u p, s.phase u = .registered p →
      ∃ pool client, sys'.threads u = .live pool client) :
    Inv offset { s with sys := sys' } alive done := by
  have settled : ∀ u, (∀ p, s.phase u ≠ .registered p) →
      Tracked { s with sys := sys' } alive done u := fun u outside =>
    (inv.tracked u).congr rfl (same u outside) rfl (fun _ stored => stored) Iff.rfl Iff.rfl
  refine inv.unregistered rfl rfl (fun _ _ => rfl) ?_ ?_
  · intro u member
    refine counters_congr (same u ?_) rfl
    intro p registered
    rcases (inv.tracked u).finished.mp member with ⟨q, retired⟩ | gone
    · rw [registered] at retired
      cases retired
    · rw [registered] at gone
      cases gone
  · intro u
    cases phase : s.phase u with
    | registered p =>
        have tracked := inv.tracked u
        refine ⟨tracked.listed, tracked.finished,
          fun q held => ⟨(tracked.stored q held).1, running u p phase⟩, ?_, ?_⟩
        · intro q built
          rw [show s.phase u = .built q from built] at phase
          cases phase
        · intro gone
          rw [show s.phase u = .gone from gone] at phase
          cases phase
    | absent | built | retired | gone => exact settled u (by simp [phase])

/-- A new object at an unused address; it is not registered yet. -/
theorem construct {P : Platform} {sys' : Sys} (inv : Inv offset s alive done)
    (absent : s.phase t = .absent) (unused : s.storage object = none)
    (started : Sys.Step P s.sys (.start t (.ok ())) sys') :
    Inv offset { s with sys := sys'
                        storage := Function.update s.storage object (some t)
                        phase := Function.update s.phase t (.built object) } alive done := by
  obtain ⟨notAlive, notDone⟩ := inv.not_listed (Or.inl absent)
  have others : ∀ u, u ≠ t → sys'.threads u = s.sys.threads u := fun u different =>
    started.others (by simp [Sys.Event.caller]) (fun same => different (Option.some.inj same).symm)
  have away : ∀ {u : Nat} {xs : List Nat}, t ∉ xs → u ∈ xs → u ≠ t := by
    rintro u xs missing member rfl
    exact missing member
  obtain ⟨pool, client, live, zero⟩ := started.fresh_stats
  refine inv.unregistered rfl rfl ?_ ?_ ?_
  · intro u member
    exact objectOf_congr (congrArg Phase.object
      (Function.update_of_ne (away notAlive member) _ _))
  · intro u member
    exact counters_congr (others u (away notDone member)) rfl
  · intro u
    by_cases same : u = t
    · subst same
      have phase : Function.update s.phase u (.built object) u = .built object :=
        Function.update_self _ _ _
      refine ⟨?_, ?_, ?_, ?_, ?_⟩
      · simp [notAlive]
      · simp [notDone]
      · intro p held
        simp only [phase, Phase.object, Option.some.injEq] at held
        subst held
        exact ⟨Function.update_self _ _ _, pool, client, live⟩
      · intro p _
        simp only [counters, live, zero]
      · intro gone
        rw [show Function.update s.phase u (.built object) u = .gone from gone] at phase
        cases phase
    · refine (inv.tracked u).congr (Function.update_of_ne same _ _) (others u same) rfl ?_
        Iff.rfl Iff.rfl
      intro p stored
      refine (Function.update_of_ne ?_ _ _).trans stored
      rintro rfl
      rw [unused] at stored
      cases stored

theorem register (inv : Inv offset s alive done) (built : s.phase t = .built object) :
    Inv offset { s with registry := s.registry.registerStats (object + offset) object
                        phase := Function.update s.phase t (.registered object)
                        seen := s.seen ++ [t] } (alive ++ [t]) done := by
  obtain ⟨notAlive, notDone⟩ := inv.not_listed (Or.inr ⟨object, built⟩)
  have held : (s.phase t).object = some object := by rw [built]; rfl
  have phase : Function.update s.phase t (.registered object) t = .registered object :=
    Function.update_self _ _ _
  have objects : objectOf { s with
      registry := s.registry.registerStats (object + offset) object
      phase := Function.update s.phase t (.registered object)
      seen := s.seen ++ [t] } = s.objectOf := by
    funext u
    by_cases same : u = t
    · subst same
      exact objectOf_congr ((congrArg Phase.object phase).trans held.symm)
    · exact objectOf_congr (congrArg Phase.object (Function.update_of_ne same _ _))
  have own : s.objectOf t = object := objectOf_eq held
  refine ⟨?_, ?_, inv.retired, ?_, ?_, ?_⟩
  · rw [objects]
    simp only [StatsRegistry.registerStats, inv.live, List.map_append, List.map_singleton, own]
  · rw [objects]
    simp only [StatsRegistry.registerStats, inv.allocators, List.map_append, List.map_singleton,
      own]
  · have moved : (alive ++ [t] ++ done).Perm (alive ++ done ++ [t]) := by
      rw [List.append_assoc, List.append_assoc]
      exact List.perm_append_comm.append_left alive
    exact moved.trans (inv.perm.append_right [t])
  · refine List.nodup_append'.mpr ⟨inv.nodup, List.nodup_singleton t, ?_⟩
    rw [List.disjoint_singleton]
    intro member
    rcases List.mem_append.mp (inv.perm.mem_iff.mpr member) with first | second
    · exact notAlive first
    · exact notDone second
  · intro u
    by_cases same : u = t
    · subst same
      have stored := (inv.tracked u).stored object held
      refine ⟨?_, ?_, ?_, ?_, ?_⟩
      · simp
      · simp [notDone]
      · intro p occupied
        simp only [phase, Phase.object, Option.some.injEq] at occupied
        subst occupied
        exact stored
      · intro p new
        rw [show Function.update s.phase u (.registered object) u = .built p from new] at phase
        cases phase
      · intro gone
        rw [show Function.update s.phase u (.registered object) u = .gone from gone] at phase
        cases phase
    · exact (inv.tracked u).congr (Function.update_of_ne same _ _) rfl rfl (fun _ stored => stored)
        (by simp [same]) Iff.rfl

theorem retire {pool : ThreadPoolAlloc} {client : Client} (inv : Inv offset s alive done)
    (registered : s.phase t = .registered object)
    (live : s.sys.threads t = .live pool client) :
    Inv offset { s with registry := s.registry.retireStats (object + offset) pool.alloc.stats
                        phase := Function.update s.phase t (.retired object) }
      (alive.erase t) (done ++ [t]) := by
  have member : t ∈ alive := (inv.tracked t).listed.mpr ⟨object, registered⟩
  have held : (s.phase t).object = some object := by rw [registered]; rfl
  have own : s.objectOf t = object := objectOf_eq held
  have distinct : alive.Nodup := (List.nodup_append'.mp (inv.perm.nodup_iff.mpr inv.nodup)).1
  have phase : Function.update s.phase t (.retired object) t = .retired object :=
    Function.update_self _ _ _
  have objects : objectOf { s with
      registry := s.registry.retireStats (object + offset) pool.alloc.stats
      phase := Function.update s.phase t (.retired object) } = s.objectOf := by
    funext u
    by_cases same : u = t
    · subst same
      exact objectOf_congr ((congrArg Phase.object phase).trans held.symm)
    · exact objectOf_congr (congrArg Phase.object (Function.update_of_ne same _ _))
  have injective : ∀ u ∈ alive, s.objectOf u + offset = s.objectOf t + offset → u = t := by
    intro u listed same
    have left := inv.alive_object listed
    rw [Nat.add_right_cancel same] at left
    exact inv.object_injective left (inv.alive_object member)
  have registry : s.registry.retireStats (object + offset) pool.alloc.stats =
      ⟨(alive.erase t).map (fun u => s.objectOf u + offset), (alive.erase t).map s.objectOf,
        s.registry.retired ++ [pool.alloc.stats]⟩ := by
    rw [← own]
    exact StatsRegistry.retireStats_eq inv.live inv.allocators member injective _
  have counted : s.counters t = pool.alloc.stats := by simp only [counters, live]
  refine ⟨?_, ?_, ?_, ?_, inv.nodup, ?_⟩
  · rw [objects]
    exact congrArg StatsRegistry.live registry
  · rw [objects]
    exact congrArg StatsRegistry.liveAllocators registry
  · rw [registry]
    change s.registry.retired ++ [pool.alloc.stats] = (done ++ [t]).map s.counters
    rw [inv.retired, List.map_append, List.map_singleton, counted]
  · have moved : (alive.erase t ++ (done ++ [t])).Perm (t :: alive.erase t ++ done) := by
      rw [← List.append_assoc]
      exact List.perm_append_comm
    exact (moved.trans ((List.perm_cons_erase member).symm.append_right done)).trans inv.perm
  · intro u
    by_cases same : u = t
    · subst same
      have stored := (inv.tracked u).stored object held
      refine ⟨?_, ?_, ?_, ?_, ?_⟩
      · simp [distinct.not_mem_erase]
      · simp
      · intro p occupied
        simp only [phase, Phase.object, Option.some.injEq] at occupied
        subst occupied
        exact stored
      · intro p new
        rw [show Function.update s.phase u (.retired object) u = .built p from new] at phase
        cases phase
      · intro gone
        rw [show Function.update s.phase u (.retired object) u = .gone from gone] at phase
        cases phase
    · exact (inv.tracked u).congr (Function.update_of_ne same _ _) rfl rfl (fun _ stored => stored)
        (List.mem_erase_of_ne same) (by simp [same])

/-- The counters a destroyed allocator ended with are kept. -/
theorem destroyed_counters {P : Platform} {pool : ThreadPoolAlloc} {client : Client} {sys' : Sys}
    (live : s.sys.threads t = .live pool client) (taken : Sys.Step P s.sys (.exit t) sys')
    (u : Nat) :
    counters { s with sys := sys'
                      storage := Function.update s.storage object none
                      phase := Function.update s.phase t .gone
                      final := Function.update s.final t pool.alloc.stats } u =
      s.counters u := by
  by_cases here : u = t
  · subst here
    simp only [counters, taken.exited, live, Function.update_self]
  · have thread : sys'.threads u = s.sys.threads u :=
      taken.others (by simp [Sys.Event.caller]) (fun same => here (Option.some.inj same).symm)
    exact counters_congr thread (Function.update_of_ne here _ _)

theorem destroy {P : Platform} {pool : ThreadPoolAlloc} {client : Client} {sys' : Sys}
    (inv : Inv offset s alive done) (retired : s.phase t = .retired object)
    (live : s.sys.threads t = .live pool client) (taken : Sys.Step P s.sys (.exit t) sys') :
    Inv offset { s with sys := sys'
                        storage := Function.update s.storage object none
                        phase := Function.update s.phase t .gone
                        final := Function.update s.final t pool.alloc.stats } alive done := by
  have held : (s.phase t).object = some object := by rw [retired]; rfl
  have unlisted : t ∉ alive := by
    intro member
    obtain ⟨p, registered⟩ := (inv.tracked t).listed.mp member
    rw [registered] at retired
    cases retired
  have phase : Function.update s.phase t .gone t = .gone := Function.update_self _ _ _
  refine inv.unregistered rfl rfl ?_ (fun u _ => destroyed_counters live taken u) ?_
  · intro u member
    have different : u ≠ t := by
      rintro rfl
      exact unlisted member
    exact objectOf_congr (congrArg Phase.object (Function.update_of_ne different _ _))
  · intro u
    by_cases here : u = t
    · subst here
      refine ⟨?_, ?_, ?_, ?_, fun _ => taken.exited⟩
      · simp [unlisted]
      · simp [(inv.tracked u).finished.mpr (Or.inl ⟨object, retired⟩)]
      · intro p occupied
        simp only [phase, Phase.object] at occupied
        cases occupied
      · intro p new
        rw [show Function.update s.phase u .gone u = .built p from new] at phase
        cases phase
    · refine (inv.tracked u).congr (Function.update_of_ne here _ _) ?_
        (Function.update_of_ne here _ _) ?_ Iff.rfl Iff.rfl
      · exact taken.others (by simp [Sys.Event.caller])
          (fun same => here (Option.some.inj same).symm)
      · intro p stored
        refine (Function.update_of_ne ?_ _ _).trans stored
        rintro rfl
        rw [((inv.tracked t).stored p held).1] at stored
        exact here (Option.some.inj stored).symm

theorem registered_live (inv : Inv offset s alive done)
    (registered : s.phase t = .registered object) :
    ∃ pool client, s.sys.threads t = .live pool client :=
  ((inv.tracked t).stored object (by rw [registered]; rfl)).2

theorem next {P : Platform} {e : Event} (inv : Inv offset s alive done)
    (taken : Step P offset s e s') : ∃ alive' done', Inv offset s' alive' done' := by
  cases taken with
  | construct absent unused started => exact ⟨_, _, inv.construct absent unused started⟩
  | constructFails absent failed =>
      have same := failed.failed_start
      refine ⟨_, _, inv.sysStep (fun u _ => by rw [same]) (fun u p registered => ?_)⟩
      rw [same]
      exact inv.registered_live registered
  | register built => exact ⟨_, _, inv.register built⟩
  | @operate t object e sys' caller registered taken =>
      have noLife : e.lifetime = none := by
        cases e with
        | allocate | allocateAligned | free => rfl
        | start | exit | acquireChunk | write | malloc | mfree => cases caller
      refine ⟨_, _, inv.sysStep ?_ ?_⟩
      · intro u outside
        refine taken.others ?_ (by rw [noLife]; simp)
        intro called
        rw [caller] at called
        cases called
        exact outside object registered
      · intro u p registered'
        by_cases same : u = t
        · subst same
          obtain ⟨_, _, pool', client', _, live', _⟩ := taken.caller_counts caller
          exact ⟨pool', client', live'⟩
        · have notCaller : e.caller ≠ some u := by
            rw [caller]
            exact fun called => same (Option.some.inj called).symm
          rw [taken.others notCaller (by rw [noLife]; simp)]
          exact inv.registered_live registered'
  | @around e sys' noCall noLife taken =>
      have same : ∀ u, sys'.threads u = s.sys.threads u := fun u =>
        taken.others (by rw [noCall]; simp) (by rw [noLife]; simp)
      refine ⟨_, _, inv.sysStep (fun u _ => same u) (fun u p registered => ?_)⟩
      rw [same u]
      exact inv.registered_live registered
  | retire registered live => exact ⟨_, _, inv.retire registered live⟩
  | destroy retired live taken => exact ⟨_, _, inv.destroy retired live taken⟩
  | globalStats => exact ⟨_, _, inv⟩

theorem not_seen (inv : Inv offset s alive done)
    (early : s.phase t = .absent ∨ ∃ p, s.phase t = .built p) : t ∉ s.seen := by
  obtain ⟨notAlive, notDone⟩ := inv.not_listed early
  intro member
  rcases List.mem_append.mp (inv.perm.mem_iff.mpr member) with first | second
  · exact notAlive first
  · exact notDone second

theorem registered_seen (inv : Inv offset s alive done)
    (registered : s.phase t = .registered object) : t ∈ s.seen :=
  inv.perm.mem_iff.mp
    (List.mem_append_left _ ((inv.tracked t).listed.mpr ⟨object, registered⟩))

end Inv

/-- The process-wide totals have not decreased. -/
structure Grown (s s' : Process) : Prop where
  sums : ∀ c, s.total c ≤ s'.total c
  peak : s.highestPeak ≤ s'.highestPeak

theorem Grown.refl (s : Process) : Grown s s := ⟨fun _ => Nat.le_refl _, Nat.le_refl _⟩

theorem Grown.trans (s t u : Process) (first : Grown s t) (second : Grown t u) : Grown s u :=
  ⟨fun c => Nat.le_trans (first.sums c) (second.sums c), Nat.le_trans first.peak second.peak⟩

def Bounded (s : Process) : Prop := ∀ c : Counter, s.total c < Words.radix

theorem Grown.same {s s' : Process} (bounded : s.Bounded) (seen : s'.seen = s.seen)
    (counters : ∀ u ∈ s.seen, s'.counters u = s.counters u) : Grown s s' ∧ s'.Bounded := by
  have sums : ∀ c, s'.total c = s.total c := by
    intro c
    simp only [total, seen]
    exact Totals.total_congr (fun u member => by rw [counters u member])
  have peak : s'.highestPeak = s.highestPeak := by
    simp only [highestPeak, seen]
    exact Totals.highest_congr (fun u member => by rw [counters u member])
  refine ⟨⟨fun c => Nat.le_of_eq (sums c).symm, Nat.le_of_eq peak.symm⟩, fun c => ?_⟩
  rw [sums c]
  exact bounded c

namespace Inv

variable {offset : Nat} {s s' : Process} {alive done : List Nat}

/-- One call adds what it records to the totals, and no other thread's counters change. -/
theorem grown_operate {P : Platform} {t object : Nat} {e : Sys.Event} {sys' : Sys}
    (inv : Inv offset s alive done) (caller : e.caller = some t)
    (registered : s.phase t = .registered object) (fits : s.Fits P (.operate e))
    (taken : Sys.Step P s.sys e sys') :
    Grown s { s with sys := sys' } ∧ Bounded { s with sys := sys' } := by
  obtain ⟨pool, client, pool', client', live, live', counts⟩ := taken.caller_counts caller
  have member := inv.registered_seen registered
  have own : s.counters t = pool.alloc.stats := by simp only [counters, live]
  have after : counters { s with sys := sys' } t = pool'.alloc.stats := by
    simp only [counters, live']
  have noLife : e.lifetime = none := by
    cases e with
    | allocate | allocateAligned | free => rfl
    | start | exit | acquireChunk | write | malloc | mfree => cases caller
  have others : ∀ u ∈ s.seen, u ≠ t → counters { s with sys := sys' } u = s.counters u := by
    intro u _ different
    refine counters_congr (taken.others ?_ (by rw [noLife]; simp)) rfl
    rw [caller]
    exact fun called => different (Option.some.inj called).symm
  have room := fits t pool client caller live
  have totals : ∀ c, total { s with sys := sys' } c = s.total c + e.adds P pool.alloc c := by
    intro c
    have share : c.of (s.counters t) ≤ s.total c :=
      Totals.le_total (fun u => c.of (s.counters u)) member
    refine Totals.total_add inv.nodup member ?_ (fun u listed different => by
      rw [others u listed different])
    rw [after, own]
    refine counts.adds c ?_
    rw [own] at share
    exact Nat.lt_of_le_of_lt (Nat.add_le_add_right share _) (room c)
  refine ⟨⟨fun c => ?_, ?_⟩, fun c => ?_⟩
  · rw [totals c]
    exact Nat.le_add_right _ _
  · refine Totals.highest_mono (fun u listed => ?_)
    by_cases same : u = t
    · subst same
      rw [after, own]
      exact counts.peak
    · rw [others u listed same]
  · rw [totals c]
    exact room c

/-- While nothing wraps around, no total ever decreases. -/
theorem grown {P : Platform} {e : Event} (inv : Inv offset s alive done) (bounded : s.Bounded)
    (fits : s.Fits P e) (taken : Step P offset s e s') : Grown s s' ∧ s'.Bounded := by
  cases taken with
  | @construct t object sys' absent unused started =>
      refine Grown.same bounded rfl (fun u member => counters_congr ?_ rfl)
      refine started.others (by simp [Sys.Event.caller]) (fun same => ?_)
      obtain rfl := Option.some.inj same
      exact inv.not_seen (Or.inl absent) member
  | constructFails absent failed =>
      exact Grown.same bounded rfl (fun u _ => counters_congr (by rw [failed.failed_start]) rfl)
  | @register t object built =>
      have zero : s.counters t = Stats.zero := (inv.tracked t).built object built
      have sums : ∀ c : Counter, total { s with
          registry := s.registry.registerStats (object + offset) object
          phase := Function.update s.phase t (.registered object)
          seen := s.seen ++ [t] } c = s.total c := by
        intro c
        have none : c.of (s.counters t) = 0 := by
          rw [zero]
          cases c <;> rfl
        have split : total { s with
            registry := s.registry.registerStats (object + offset) object
            phase := Function.update s.phase t (.registered object)
            seen := s.seen ++ [t] } c = s.total c + (c.of (s.counters t) + 0) :=
          Totals.total_append (fun u => c.of (s.counters u)) s.seen [t]
        rw [split, none]
        rfl
      refine ⟨⟨fun c => Nat.le_of_eq (sums c).symm, ?_⟩, fun c => ?_⟩
      · have split := Totals.highest_append (fun u => (s.counters u).peakAllocated) s.seen [t]
        exact Nat.le_trans (Nat.le_max_left _ _) (Nat.le_of_eq split.symm)
      · rw [sums c]
        exact bounded c
  | operate caller registered taken =>
      exact inv.grown_operate caller registered fits taken
  | around noCall noLife taken =>
      refine Grown.same bounded rfl (fun u _ => counters_congr ?_ rfl)
      exact taken.others (by rw [noCall]; simp) (by rw [noLife]; simp)
  | retire registered live => exact Grown.same bounded rfl (fun _ _ => rfl)
  | destroy retired live taken =>
      exact Grown.same bounded rfl (fun u _ => destroyed_counters live taken u)
  | globalStats => exact ⟨Grown.refl s, bounded⟩

/-- What `global_stats` returns. -/
theorem isTotal (inv : Inv offset s alive done) (bounded : s.Bounded) :
    (s.registry.globalStats (s.read offset)).IsTotal s.counters s.seen := by
  have reads : ∀ t ∈ alive, s.read offset (s.objectOf t + offset) = s.counters t :=
    fun t member => inv.reads member
  refine ⟨fun c => ?_, ?_⟩
  · rw [StatsRegistry.of_globalStats inv.live inv.retired reads, Totals.total_perm inv.perm]
    exact Nat.mod_eq_of_lt (bounded c)
  · rw [StatsRegistry.peak_globalStats inv.live inv.retired reads, Totals.highest_perm inv.perm]

end Inv

/-- The registry counts every thread once, and no total has wrapped around. -/
structure Exact (offset : Nat) (s : Process) : Prop where
  inv : ∃ alive done, Inv offset s alive done
  bounded : s.Bounded

theorem Exact.initial (offset : Nat) (m : ByteMemory) (h : Heap Owner) :
    Exact offset (initial m h) :=
  ⟨⟨[], [], Inv.initial offset m h⟩, fun _ => (by decide : 0 < Words.radix)⟩

theorem Exact.next {P : Platform} {offset : Nat} {s s' : Process} {e : Event}
    (exact : Exact offset s) (fits : s.Fits P e) (taken : Step P offset s e s') :
    Exact offset s' ∧ Grown s s' := by
  obtain ⟨⟨alive, done, inv⟩, bounded⟩ := exact
  obtain ⟨grown, bounded'⟩ := inv.grown bounded fits taken
  exact ⟨⟨inv.next taken, bounded'⟩, grown⟩

theorem Step.result {P : Platform} {offset : Nat} {s s' : Process} {g : Stats}
    (taken : Step P offset s (.globalStats g) s') :
    g = s.registry.globalStats (s.read offset) := by
  cases taken
  rfl

theorem run_inv {P : Platform} {offset : Nat} {m : ByteMemory} {h : Heap Owner}
    {trace : List (Transition Process Event)} {s : Process}
    (run : Run (Step P offset) (initial m h) trace s) : ∃ alive done, Inv offset s alive done := by
  induction run with
  | nil => exact ⟨[], [], Inv.initial offset m h⟩
  | snoc _ taken ih =>
      obtain ⟨alive, done, inv⟩ := ih
      exact inv.next taken

/-- The threads whose registration a run shows, in order. -/
def registrants (trace : List (Transition Process Event)) : List Nat :=
  trace.filterMap (fun x => match x.event with
    | .register t => some t
    | _ => none)

section Run

variable {P : Platform} {offset : Nat} {m : ByteMemory} {h : Heap Owner}
  {trace : List (Transition Process Event)} {s : Process}

theorem seen_eq (run : Run (Step P offset) (initial m h) trace s) :
    s.seen = registrants trace := by
  induction run with
  | nil => rfl
  | @snoc trace s t e _ taken ih =>
      rw [registrants, List.filterMap_append, ← registrants, ← ih]
      cases taken with
      | register built => rfl
      | construct | constructFails | operate | around | retire | destroy | globalStats =>
          exact (List.append_nil _).symm

/-- The registry counts every thread exactly once. In a run in which no recorded operation
wraps a process-wide total around, the two vectors list the same allocators in the same
order, every `global_stats` call returns the sums and the largest peak over all threads
that have registered so far, and later results are never smaller. -/
theorem global_stats_exact (run : Run (Step P offset) (initial m h) trace s)
    (fits : ∀ x ∈ trace, x.before.Fits P x.event) :
    s.seen = registrants trace ∧ s.seen.Nodup ∧
      s.registry.live = s.registry.liveAllocators.map (· + offset) ∧
      (s.registry.globalStats (s.read offset)).IsTotal s.counters s.seen ∧
      (∀ x ∈ trace, ∀ g, x.event = .globalStats g → g.IsTotal x.before.counters x.before.seen) ∧
      trace.Pairwise (fun x y => ∀ g g', x.event = .globalStats g → y.event = .globalStats g' →
        g.Le g') := by
  have start := Exact.initial offset m h
  have keep : ∀ s e s', Exact offset s → s.Fits P e → Step P offset s e s' → Exact offset s' :=
    fun s e s' exact room taken => (exact.next room taken).1
  have advance : ∀ s e s', Exact offset s → s.Fits P e → Step P offset s e s' → Grown s s' :=
    fun s e s' exact room taken => (exact.next room taken).2
  obtain ⟨⟨alive, done, inv⟩, bounded⟩ := run.invariantWhere start keep fits
  have before := run.invariantBefore start keep fits
  have results : ∀ x ∈ trace, ∀ g, x.event = .globalStats g →
      g.IsTotal x.before.counters x.before.seen := by
    intro x member g shown
    obtain ⟨past, rest, _, reached, taken⟩ := run.reached x member
    obtain ⟨⟨alive', done', inv'⟩, bounded'⟩ := before x member
    rw [shown] at taken
    rw [taken.result]
    exact inv'.isTotal bounded'
  refine ⟨seen_eq run, inv.nodup, ?_, inv.isTotal bounded, results, ?_⟩
  · rw [inv.live, inv.allocators, List.map_map]
    rfl
  · have ordered := (run.ascending Grown.trans start keep advance fits).1
    refine List.Pairwise.imp_of_mem ?_ ordered
    intro x y left right grown g g' first second
    have old := results x left g first
    have new := results y right g' second
    refine ⟨fun c => ?_, ?_⟩
    · rw [old.sums c, new.sums c]
      exact grown.sums c
    · rw [old.peak, new.peak]
      exact grown.peak

end Run

/-- A request that the arena serves, on a registered thread. -/
theorem large_request {s : Process} {t object n p : Nat} {pool : ThreadPoolAlloc}
    {client : Client} {arena : Arena} (registered : s.phase t = .registered object)
    (live : s.sys.threads t = .live pool client) (large : maxSmall < n) (word : n < Words.radix)
    (served : pool.alloc.arena.allocate n desktop.maxAlign = (some p, arena)) :
    ∃ s' pool' client', Step desktop 0 s (.operate (.allocate t n (.ok (some p)))) s' ∧
      s'.phase = s.phase ∧ s'.seen = s.seen ∧ s'.sys.threads t = .live pool' client' ∧
      pool'.alloc.arena = arena ∧ pool'.alloc.stats =
        pool.alloc.stats.recordAlloc n (Words.sub arena.used pool.alloc.arena.used) := by
  have called : pool.alloc.arenaAllocate n desktop.maxAlign =
      (some p, { pool.alloc with arena := arena }.recordAlloc n
        (Words.sub arena.used pool.alloc.arena.used)) := by
    rw [SingleThreadAllocator.arenaAllocate, served]
    rfl
  have done := pool.allocate_large (acquireChunkCb desktop t ⟨none, none⟩ true) true s.sys.shared
    s.sys.mem large called
  exact ⟨_, _, _, .operate rfl registered (Sys.Step.allocate live word done), rfl, rfl,
    Function.update_self t _ _, rfl, rfl⟩

/-- With one thread, `global_stats` shows that thread's counters. -/
theorem requested_single {offset : Nat} {s : Process} {alive done : List Nat} {t : Nat}
    {pool : ThreadPoolAlloc} {client : Client} (inv : Inv offset s alive done)
    (seen : s.seen = [t]) (live : s.sys.threads t = .live pool client) :
    (s.registry.globalStats (s.read offset)).requested =
      pool.alloc.stats.requested % Words.radix := by
  have reads : ∀ t ∈ alive, s.read offset (s.objectOf t + offset) = s.counters t :=
    fun t member => inv.reads member
  have own : s.counters t = pool.alloc.stats := by simp only [counters, live]
  have sum := StatsRegistry.of_globalStats inv.live inv.retired reads .requested
  rw [Totals.total_perm inv.perm, seen] at sum
  rw [← own]
  exact sum

/-- One thread has started and registered. -/
theorem started : ∃ (trace : List (Transition Process Event)) (s : Process)
    (pool : ThreadPoolAlloc) (client : Client),
    Run (Step desktop 0) (initial (fun _ => 0) Heap.empty) trace s ∧
      (∀ x ∈ trace, x.before.Fits desktop x.event) ∧ s.phase 0 = .registered 4096 ∧
      s.sys.threads 0 = .live pool client ∧ s.seen = [0] ∧
      pool.alloc.arena = Arena.ofRegion 16777216 kArenaCapacity ∧
      pool.alloc.stats = Stats.zero ∧
      ∀ x ∈ trace, x.event = .construct 0 (.ok ()) ∨ x.event = .register 0 := by
  obtain ⟨a, m, h', built, _, arena, _⟩ := SingleThreadAllocator.new_possible (Owner.slab 0)
    (.arena 0) (fun _ => 0) Heap.empty (Nat.dvd_zero _) (by decide)
    (fun b member => by cases member)
  have fresh := SingleThreadAllocator.new_ok
    (fun i j same => (Owner.slab.inj same).2) (fun i same => by cases same) built
  obtain ⟨s₁, construct, phase, live, seen⟩ : ∃ s₁,
      Step desktop 0 (initial (fun _ => 0) Heap.empty) (.construct 0 (.ok ())) s₁ ∧
        s₁.phase 0 = .built 4096 ∧ s₁.sys.threads 0 = .live ⟨a, 0, 0, 0⟩ Client.none ∧
        s₁.seen = [] := ⟨_, .construct rfl rfl (Sys.Step.start rfl built), rfl, rfl, rfl⟩
  have run := (Run.nil.snoc construct).snoc (.register phase)
  refine ⟨_, _, ⟨a, 0, 0, 0⟩, Client.none, run, ?_, rfl, live, congrArg (· ++ [0]) seen, arena,
    fresh.2.2.1, ?_⟩
  · intro x member
    rcases List.mem_append.mp member with first | second
    · obtain rfl := List.mem_singleton.mp first
      exact trivial
    · obtain rfl := List.mem_singleton.mp second
      exact trivial
  · simp

theorem first_served {a : SingleThreadAllocator}
    (arena : a.arena = Arena.ofRegion 16777216 kArenaCapacity) :
    a.arena.allocate 2000 desktop.maxAlign =
      (some 16777216, ⟨16777216, 4194304, 2000, 2000, 2000⟩) := by
  rw [arena]
  decide

/-- The thread has asked for 2000 bytes. -/
theorem requested : ∃ (trace : List (Transition Process Event)) (s : Process)
    (pool : ThreadPoolAlloc) (client : Client),
    Run (Step desktop 0) (initial (fun _ => 0) Heap.empty) trace s ∧
      (∀ x ∈ trace, x.before.Fits desktop x.event) ∧ s.phase 0 = .registered 4096 ∧
      s.sys.threads 0 = .live pool client ∧ s.seen = [0] ∧
      pool.alloc.stats = Stats.zero.recordAlloc 2000 2000 ∧
      (∃ x ∈ trace, x.event = .operate (.allocate 0 2000 (.ok (some 16777216)))) ∧
      ∀ x ∈ trace, x.event = .construct 0 (.ok ()) ∨ x.event = .register 0 ∨
        x.event = .operate (.allocate 0 2000 (.ok (some 16777216))) ∧ ∃ pool client,
          x.before.sys.threads 0 = .live pool client ∧
            pool.alloc.arena = Arena.ofRegion 16777216 kArenaCapacity := by
  obtain ⟨trace, s, pool, client, run, fits, phase, live, seen, arena, zero, events⟩ := started
  have served := first_served arena
  obtain ⟨s', pool', client', first, phase', seen', live', _, stats⟩ :=
    large_request phase live (by decide) (by decide) served
  have room : s.Fits desktop (.operate (.allocate 0 2000 (.ok (some 16777216)))) := by
    intro t pool₂ client₂ caller live₂ c
    cases caller
    rw [live] at live₂
    cases live₂
    have nothing : s.total c = 0 := by
      simp only [total, seen, Totals.total_cons, Totals.total_nil, counters, live, zero]
      cases c <;> rfl
    have charge : pool.alloc.charge desktop 2000 = 2000 := by
      rw [SingleThreadAllocator.charge, if_neg (by decide), SingleThreadAllocator.cursorMove,
        served, arena]
      rfl
    rw [nothing, Nat.zero_add]
    simp only [Sys.Event.adds, charge]
    cases c <;> decide
  refine ⟨_, s', pool', client', run.snoc first, ?_, by rw [phase']; exact phase, live',
    by rw [seen']; exact seen, ?_, ⟨_, List.mem_append_right _ (List.mem_singleton.mpr rfl), rfl⟩,
    ?_⟩
  · intro x member
    rcases List.mem_append.mp member with old | new
    · exact fits x old
    · obtain rfl := List.mem_singleton.mp new
      exact room
  · rw [stats, zero, arena]
    rfl
  · intro x member
    rcases List.mem_append.mp member with old | new
    · exact (events x old).imp_right Or.inl
    · obtain rfl := List.mem_singleton.mp new
      exact Or.inr (Or.inr ⟨rfl, pool, client, live, arena⟩)

/-- After the request the statistics are shown. -/
theorem global_stats_exact_first : ∃ (trace : List (Transition Process Event)) (s : Process),
    Run (Step desktop 0) (initial (fun _ => 0) Heap.empty) trace s ∧ s.seen = registrants trace ∧
      s.registry.live = s.registry.liveAllocators.map (· + 0) := by
  obtain ⟨trace, s, pool, client, run, fits, _⟩ := requested
  have shown := run.snoc .globalStats
  obtain ⟨listed, _, parallel, _⟩ := global_stats_exact shown (by
    intro x member
    rcases List.mem_append.mp member with earlier | last
    · exact fits x earlier
    · obtain rfl := List.mem_singleton.mp last
      exact trivial)
  exact ⟨_, _, shown, listed, parallel⟩

/-- Without the condition, results can decrease: a request of nearly `2 ^ 64` bytes is
admitted behind one of 2000 bytes and wraps the requested bytes around. -/
theorem not_always_monotone : ¬ ∀ (trace : List (Transition Process Event)) (s : Process),
    Run (Step desktop 0) (initial (fun _ => 0) Heap.empty) trace s →
      trace.Pairwise (fun x y => ∀ g g', x.event = .globalStats g → y.event = .globalStats g' →
        g.Le g') := by
  intro monotone
  obtain ⟨trace, s₂, pool₂, client₂, before₂, _, phase₂, live₂, seen₂, arena₂, zero, _⟩ :=
    started
  have served := first_served arena₂
  obtain ⟨s₃, pool₃, client₃, first, phase₃, seen₃, live₃, arena₃, stats₃⟩ :=
    large_request phase₂ live₂ (by decide) (by decide) served
  have wrapped : pool₃.alloc.arena.allocate 18446744073709550608 desktop.maxAlign =
      (some 16779216, ⟨16777216, 4194304, 992, 992, 992⟩) := by
    rw [arena₃]
    decide
  obtain ⟨s₄, pool₄, client₄, second, phase₄, seen₄, live₄, arena₄, stats₄⟩ :=
    large_request ((congrFun phase₃ 0).trans phase₂) live₃ (by decide) (by decide) wrapped
  have first₃ := before₂.snoc first
  have second₄ := (first₃.snoc .globalStats).snoc second
  obtain ⟨_, _, inv₃⟩ := run_inv first₃
  obtain ⟨_, _, inv₄⟩ := run_inv second₄
  have ordered := (List.pairwise_append.mp (monotone _ _ (second₄.snoc .globalStats))).2.2
    ⟨s₃, .globalStats (s₃.registry.globalStats (s₃.read 0)), s₃⟩ (by simp)
    ⟨s₄, .globalStats (s₄.registry.globalStats (s₄.read 0)), s₄⟩ (by simp) _ _ rfl rfl
  have decreased := ordered.sums .requested
  have before := requested_single inv₃ (seen₃.trans seen₂) live₃
  have after := requested_single inv₄ (seen₄.trans (seen₃.trans seen₂)) live₄
  rw [stats₃, zero] at before
  rw [stats₄, stats₃, zero] at after
  simp only [Counter.of, before, after] at decreased
  change Words.add 0 2000 % Words.radix ≤
    Words.add (Words.add 0 2000) 18446744073709550608 % Words.radix at decreased
  exact absurd decreased (by decide)

end Process

end MemAlloc
