import MemAlloc.Schedules

set_option autoImplicit false

namespace MemAlloc

open Malloc (Heap)
open Runs (Run Transition)
open SingleThreadAllocator (ArenaPlaced)

/-- What holds of the threads whatever programs they run: they are well, their arenas are where
`malloc` put them, and every chunk has been counted and belongs to a thread. -/
structure SysPlaced (P : Platform) (s : Sys) : Prop where
  inv : SysInv s
  arena : s.Each (ArenaPlaced P)
  counted : s.shared.Counted
  owned : ∀ c ∈ s.shared.carved, c.user ≠ none

namespace SysPlaced

variable {P : Platform} {s s' : Sys} {e : Sys.Event}

theorem initial (P : Platform) (m : ByteMemory) (h : Heap Owner) :
    SysPlaced P (Sys.initial m h) := by
  refine ⟨SysInv.initial m h, ?_, ⟨rfl, List.forall_mem_nil _⟩, List.forall_mem_nil _⟩
  intro t pool client live
  cases live

theorem owned_step (placed : SysPlaced P s) (noChunk : ∀ bytes x, e ≠ .acquireChunk bytes x)
    (taken : Sys.Step P s e s') : ∀ c ∈ s'.shared.carved, c.user ≠ none := by
  cases taken.gains with
  | none carved total =>
      rw [carved]
      exact placed.owned
  | @one c carved total owner bytes =>
      intro d member
      rw [carved] at member
      rcases List.mem_append.mp member with old | new
      · exact placed.owned d old
      · obtain rfl := List.mem_singleton.mp new
        rw [owner]
        intro nobody
        have unchanged : s'.shared.carved = s.shared.carved := by
          cases taken with
          | acquireChunk done => exact absurd rfl (noChunk _ _)
          | write | malloc | mfree => rfl
          | start | startFails | exit | allocate | allocateAligned | free | freeArena =>
              cases nobody
        have longer := congrArg List.length (unchanged.symm.trans carved)
        rw [List.length_append, List.length_singleton] at longer
        omega

theorem step (placed : SysPlaced P s) (power : Words.PowerOfTwo P.maxAlign)
    (sums : s.NoWrap P e) (nonempty : e.Nonempty)
    (noChunk : ∀ bytes x, e ≠ .acquireChunk bytes x) (taken : Sys.Step P s e s') :
    SysPlaced P s' ∧ ∀ u, e.thread ≠ some u → s.Spares s' u := by
  have settles := placed.inv.settles power sums nonempty taken
  exact ⟨⟨settles.inv, Sys.each_step (arenaPlaced_lasting P) placed.arena taken,
    placed.counted.gains taken.gains, placed.owned_step noChunk taken⟩, settles.spares⟩

end SysPlaced

theorem Sys.Spares.refl (s : Sys) (u : Nat) : s.Spares s u :=
  ⟨rfl, fun _ => rfl, fun _ member _ => member, fun _ _ _ _ thread => thread⟩

theorem Sys.Step.failed_spares {P : Platform} {s s' : Sys} {t : Nat} {x : Exn}
    (taken : Sys.Step P s (.start t (.error x)) s') : s.Spares s' t := by
  cases taken with
  | startFails unborn done =>
      have growth := SingleThreadAllocator.new_error done
      refine .intro rfl ?_ (fun b old _ => growth b old) (Or.inl rfl)
      intro pool client live
      cases unborn.symm.trans live

theorem Sys.Step.failed_carved {P : Platform} {s s' : Sys} {t : Nat} {x : Exn}
    (taken : Sys.Step P s (.start t (.error x)) s') : s'.shared.carved = s.shared.carved := by
  cases taken with
  | startFails unborn done => rfl

namespace Schedule

/-- The thread has got what its calls amount to. -/
structure Follows (P : Platform) (programs : Nat → List ProgramCall) (s : Schedule) (t : Nat) :
    Prop where
  requests : s.requests t = (s.progress P programs t).requests.map
    (fun q => (q.1, .ok (q.2.map (Place.address (s.layout t)))))
  counters : s.process.counters t = (s.progress P programs t).alloc.stats
  chunks : ∀ i, s.process.sys.shared.chunkCount t i + 1 = (s.progress P programs t).alloc.slabs i
  live : ∀ pool client, s.process.sys.threads t = .live pool client →
    s.layout t = s.process.sys.shared.layout t pool.alloc ∧
      Realizes (s.progress P programs t) s.process.sys t pool client
  unborn : s.process.sys.threads t = .unborn → s.made t = 0
  seen : s.made t ≠ 0 → t ∈ s.process.seen

section Follows

variable {P : Platform} {offset : Nat} {programs : Nat → List ProgramCall} {s s' : Schedule}
  {t n : Nat} {pool : ThreadPoolAlloc} {client : Client}

theorem progress_idle (none : s.made t = 0) : s.progress P programs t = Progress.start := by
  rw [progress, none, List.take_zero]
  rfl

theorem progress_same (made : s'.made t = s.made t) :
    s'.progress P programs t = s.progress P programs t := by
  rw [progress, made, progress]

theorem progress_next {c : ProgramCall} (next : (programs t)[s.made t]? = some c)
    (made : s'.made t = s.made t + 1) :
    s'.progress P programs t = (s.progress P programs t).call P c := by
  rw [progress, made, List.take_add_one, next, progress]
  exact Progress.after_snoc P _ c

/-- A step that leaves the thread alone. -/
theorem Follows.spared (follows : Follows P programs s t)
    (spares : s.process.sys.Spares s'.process.sys t)
    (chunks : ∀ i, s'.process.sys.shared.chunkCount t i = s.process.sys.shared.chunkCount t i)
    (made : s'.made t = s.made t) (requests : s'.requests t = s.requests t)
    (placed : s'.layout t = s.placed s'.process t)
    (counters : s'.process.counters t = s.process.counters t)
    (seen : t ∈ s.process.seen → t ∈ s'.process.seen) : Follows P programs s' t := by
  have layout : s'.layout t = s.layout t := by
    rw [placed]
    cases status : s'.process.sys.threads t with
    | live pool client =>
        have before := (follows.live pool client (spares.threads.symm.trans status)).1
        rw [placed_live status, before, Shared.layout, spares.linked, ← Shared.layout]
    | unborn => exact placed_absent (fun _ _ live => by cases status.symm.trans live)
    | exited => exact placed_absent (fun _ _ live => by cases status.symm.trans live)
  have same : s'.progress P programs t = s.progress P programs t := progress_same made
  refine ⟨?_, ?_, ?_, ?_, ?_, ?_⟩
  · rw [requests, layout, same]
    exact follows.requests
  · rw [counters, same]
    exact follows.counters
  · intro i
    rw [chunks, same]
    exact follows.chunks i
  · intro pool client live
    have live₀ := spares.threads.symm.trans live
    obtain ⟨before, real⟩ := follows.live pool client live₀
    rw [layout, same, before, Shared.layout, Shared.layout, spares.linked]
    exact ⟨rfl, real.spared spares live₀⟩
  · intro unborn
    rw [made]
    exact follows.unborn (spares.threads.symm.trans unborn)
  · rw [made]
    exact fun started => seen (follows.seen started)

/-- A live thread whose allocator is that of its progress. -/
theorem Follows.intro (live : s.process.sys.threads t = .live pool client)
    (layout : s.layout t = s.process.sys.shared.layout t pool.alloc)
    (real : Realizes (s.progress P programs t) s.process.sys t pool client)
    (requests : s.requests t = (s.progress P programs t).requests.map
      (fun q => (q.1, .ok (q.2.map (Place.address (s.layout t))))))
    (seen : s.made t ≠ 0 → t ∈ s.process.seen) : Follows P programs s t := by
  obtain ⟨free, thread, rep, tabled⟩ := real.inv
  refine ⟨requests, ?_, ?_, ?_, ?_, seen⟩
  · simp only [Process.counters, live]
    exact rep.stats
  · intro i
    rw [← rep.linked i]
    exact Shared.length_linkedBy.symm
  · intro pool₁ client₁ live₁
    obtain ⟨rfl, rfl⟩ := Thread.live.inj (live.symm.trans live₁)
    exact ⟨layout, real⟩
  · intro unborn
    cases live.symm.trans unborn

/-- A new allocator has served no call. -/
theorem Follows.constructed {process' : Process} (follows : Follows P programs s t)
    (inv : SysInv s.process.sys)
    (taken : Sys.Step P s.process.sys (.start t (.ok ())) process'.sys) :
    Follows P programs { s with process := process', layout := s.placed process' } t := by
  obtain ⟨absent, pool, client, live, real⟩ := Realizes.started inv taken
  have none := follows.unborn absent
  have idle : s.progress P programs t = Progress.start := progress_idle none
  have requests := follows.requests
  rw [idle] at requests
  apply Follows.intro live (placed_live live)
  · show Realizes (s.progress P programs t) process'.sys t pool client
    rw [idle]
    exact real
  · show s.requests t = (s.progress P programs t).requests.map _
    rw [idle]
    exact requests
  · exact fun started => absurd none started

/-- A destroyed allocator leaves its chunks and its counters behind. -/
theorem Follows.destroyed {process' : Process} (follows : Follows P programs s t)
    (taken : Sys.Step P s.process.sys (.exit t) process'.sys)
    (counters : process'.counters t = s.process.counters t)
    (seen : process'.seen = s.process.seen) :
    Follows P programs { s with process := process', layout := s.placed process' } t := by
  have exited := taken.exited
  have absent : ∀ pool client, process'.sys.threads t ≠ .live pool client := by
    intro pool client live
    cases exited.symm.trans live
  have carved := taken.carved_absent rfl absent
  have layout : s.placed process' t = s.layout t := placed_absent absent
  refine ⟨?_, ?_, ?_, ?_, ?_, ?_⟩
  · show s.requests t = (s.progress P programs t).requests.map
      (fun q => (q.1, .ok (q.2.map (Place.address (s.placed process' t)))))
    rw [layout]
    exact follows.requests
  · exact counters.trans follows.counters
  · intro i
    show process'.sys.shared.chunkCount t i + 1 = _
    rw [Shared.chunkCount, carved]
    exact follows.chunks i
  · exact fun pool client live => absurd live (absent pool client)
  · intro unborn
    cases exited.symm.trans unborn
  · show s.made t ≠ 0 → t ∈ process'.seen
    rw [seen]
    exact follows.seen

/-- A request adds what its program asks for to the thread's progress. -/
theorem Follows.allocated {x : Except Exn (Option Nat)} {process' : Process}
    (follows : Follows P programs s t) (placed : SysPlaced P s.process.sys) (aligns : P.Aligns)
    (bounded : n + kArenaCapacity < Words.radix)
    (next : (programs t)[s.made t]? = some (.allocate n))
    (live : s.process.sys.threads t = .live pool client)
    (supplied : s.process.sys.Supplied P (.allocate t n x) process'.sys)
    (seen : t ∈ process'.seen) :
    Follows P programs (s.called t (.allocate t n x) process') t := by
  obtain ⟨layout, real⟩ := follows.live pool client live
  have sound : (s.progress P programs t).Sound := Progress.sound_after P _
  have answered : n ≤ maxSmall → ∃ q, x = .ok (some q) := by
    intro small
    obtain ⟨q, same, _⟩ := supplied.answered placed.inv.solid small
    exact ⟨q, same⟩
  obtain ⟨pool', client', live', real', result, stable⟩ := real.allocate sound placed.inv aligns
    (placed.arena t pool client live) bounded live supplied answered
  have made : (s.called t (.allocate t n x) process').made t = s.made t + 1 :=
    Function.update_self t _ _
  have progress := progress_next (P := P) next made
  have placed' : (s.called t (.allocate t n x) process').layout t =
      process'.sys.shared.layout t pool'.alloc := placed_live live'
  apply Follows.intro live' placed'
  · rw [progress]
    exact real'
  · have requests : (s.called t (.allocate t n x) process').requests t =
        s.requests t ++ [(n, x)] := Function.update_self t _ _
    rw [requests, progress, placed', follows.requests, layout, result]
    simp only [Progress.call, List.map_append, List.map_singleton]
    congr 1
    apply List.map_congr_left
    intro q member
    obtain ⟨k, place⟩ := q
    cases place with
    | none => rfl
    | some place =>
        have known := (sound.places k place member).2
        simp only [Option.map_some, stable place known]
  · exact fun _ => seen

theorem Follows.place {request size q : Nat} (follows : Follows P programs s t)
    (returned : (s.requests t)[request]? = some (size, .ok (some q))) :
    ∃ place, (s.progress P programs t).requests[request]? = some (size, some place) ∧
      q = place.address (s.layout t) ∧ place.Serves size := by
  have sound : (s.progress P programs t).Sound := Progress.sound_after P _
  rw [follows.requests, List.getElem?_map] at returned
  obtain ⟨⟨k, place⟩, listed, same⟩ := Option.map_eq_some_iff.mp returned
  obtain ⟨rfl, answer⟩ := Prod.mk.inj same
  obtain ⟨place, rfl, address⟩ := Option.map_eq_some_iff.mp (Except.ok.inj answer)
  exact ⟨place, listed, address.symm, (sound.places k place (List.mem_of_getElem? listed)).1⟩

/-- A free gives back the place of the block that the program names. -/
theorem Follows.freed {form : SingleThreadAllocator.FreeForm} {request size p q : Nat}
    {process' : Process} (follows : Follows P programs s t)
    (next : (programs t)[s.made t]? = some (.free form request n))
    (live : s.process.sys.threads t = .live pool client)
    (returned : (s.requests t)[request]? = some (size, .ok (some q)))
    (out : requestSpan size q ∈ s.process.sys.liveSpans t)
    (names : form.Names (requestSpan size q) p)
    (taken : Sys.Step P s.process.sys (.free t form p n) process'.sys)
    (seen : t ∈ process'.seen) :
    Follows P programs (s.called t (.free t form p n) process') t := by
  obtain ⟨layout, real⟩ := follows.live pool client live
  obtain ⟨place, listed, address, serves⟩ := follows.place returned
  rw [layout] at address
  rw [Sys.liveSpans_live live] at out
  obtain ⟨pool', client', live', real', same⟩ := real.free live serves address out names taken
  have made : (s.called t (.free t form p n) process').made t = s.made t + 1 :=
    Function.update_self t _ _
  have progress := progress_next (P := P) next made
  have found : (s.progress P programs t).place request = some place := by
    rw [Progress.place, listed]
    rfl
  have placed' : (s.called t (.free t form p n) process').layout t =
      process'.sys.shared.layout t pool'.alloc := placed_live live'
  have call : (s.progress P programs t).call P (.free form request n) =
      { s.progress P programs t with
        alloc := (s.progress P programs t).alloc.deallocate n place } := by
    rw [Progress.call, found]
    rfl
  apply Follows.intro live' placed'
  · rw [progress, call]
    exact real'
  · have requests : (s.called t (.free t form p n) process').requests t = s.requests t ++ [] :=
      Function.update_self t _ _
    rw [requests, List.append_nil, progress, call, placed', same, ← layout]
    exact follows.requests
  · exact fun _ => seen

end Follows

/-- Every thread has got what its calls amount to, and the registry lists its counters. -/
structure Inv (P : Platform) (offset : Nat) (programs : Nat → List ProgramCall) (s : Schedule) :
    Prop where
  placed : SysPlaced P s.process.sys
  registry : ∃ alive done, Process.Inv offset s.process alive done
  follows : ∀ t, Follows P programs s t

/-- No request of a program is so large that its sum with the arena's capacity wraps around. -/
def Bounded (programs : Nat → List ProgramCall) : Prop :=
  ∀ t n, ProgramCall.allocate n ∈ programs t → n + kArenaCapacity < Words.radix

section Inv

variable {P : Platform} {offset : Nat} {programs : Nat → List ProgramCall} {s s' : Schedule}

theorem Inv.initial (P : Platform) (offset : Nat) (programs : Nat → List ProgramCall)
    (m : ByteMemory) (h : Heap Owner) : Inv P offset programs (initial m h) := by
  refine ⟨SysPlaced.initial P m h, ⟨[], [], Process.Inv.initial offset m h⟩, ?_⟩
  intro t
  have idle : (Schedule.initial m h).progress P programs t = Progress.start := progress_idle rfl
  refine ⟨?_, ?_, ?_, ?_, fun _ => rfl, fun started => absurd rfl started⟩
  · rw [idle]
    rfl
  · rw [idle]
    rfl
  · rw [idle]
    exact fun _ => rfl
  · intro pool client live
    cases live

/-- A step of the threads that is no call, and leaves the counters alone. -/
theorem Inv.others {e : Sys.Event} {process' : Process} (inv : Inv P offset programs s)
    (spares : ∀ u, e.thread ≠ some u → s.process.sys.Spares process'.sys u)
    (taken : Sys.Step P s.process.sys e process'.sys) {made : Nat → Nat}
    {requests : Nat → List (Nat × Except Exn (Option Nat))} {u : Nat} (other : e.thread ≠ some u)
    (sameMade : made u = s.made u) (sameRequests : requests u = s.requests u)
    (counters : process'.counters u = s.process.counters u)
    (seen : process'.seen = s.process.seen) :
    Follows P programs ⟨process', made, requests, s.placed process'⟩ u := by
  apply (inv.follows u).spared (spares u other) _ sameMade sameRequests rfl counters
  · intro member
    show u ∈ process'.seen
    rwa [seen]
  · exact fun i => Sys.chunkCount_other taken.gains other

/-- A call of one thread. -/
theorem Inv.call {t : Nat} {c : ProgramCall} {e : Sys.Event} {process' : Process}
    (inv : Inv P offset programs s) (aligns : P.Aligns) (bounded : Bounded programs)
    (next : (programs t)[s.made t]? = some c) (means : s.Means t c e)
    (taken : Process.Step P offset s.process (.operate e) process')
    (supplied : s.process.sys.Supplied P e process'.sys) :
    Inv P offset programs (s.called t e process') := by
  obtain ⟨alive, done, registry⟩ := inv.registry
  have registry' := registry.next taken
  cases taken with
  | @operate u object _ sys' caller registered taken =>
      have acting : e.caller = some t ∧ e.thread = some t ∧ e.lifetime = none ∧ e.Nonempty ∧
          ∀ bytes x, e ≠ .acquireChunk bytes x := by
        cases means with
        | allocate => exact ⟨rfl, rfl, rfl, trivial, fun _ _ same => by cases same⟩
        | free returned out names => exact ⟨rfl, rfl, rfl, trivial, fun _ _ same => by cases same⟩
      obtain ⟨calls, thread, noLife, nonempty, noChunk⟩ := acting
      obtain rfl := Option.some.inj (caller.symm.trans calls)
      obtain ⟨pool, client, _, _, live, _, _⟩ := taken.caller_counts calls
      have seen : u ∈ s.process.seen := registry.registered_seen registered
      have sums : s.process.sys.NoWrap P e := by
        cases means with
        | @allocate n x =>
            intro _ pool₁ client₁ live₁
            have real := ((inv.follows u).live pool₁ client₁ live₁).2
            exact real.noWrap aligns (inv.placed.arena u pool₁ client₁ live₁)
              (bounded u n (List.mem_of_getElem? next))
        | free returned out names => trivial
      obtain ⟨placed, spares⟩ := inv.placed.step aligns.power sums nonempty noChunk taken
      refine ⟨placed, registry', ?_⟩
      intro v
      by_cases same : v = u
      · subst same
        cases means with
        | @allocate n x =>
            exact (inv.follows v).allocated inv.placed aligns
              (bounded v n (List.mem_of_getElem? next)) next live supplied seen
        | free returned out names =>
            exact (inv.follows v).freed next live returned out names taken seen
      · have other : e.thread ≠ some v := by
          rw [thread]
          exact fun equal => same (Option.some.inj equal).symm
        have threads := (spares v other).threads
        exact inv.others spares taken other (Function.update_of_ne same _ _)
          (Function.update_of_ne same _ _) (Process.counters_congr threads rfl) rfl

/-- The registry or nothing has changed. -/
theorem Inv.unmoved {process' : Process} (inv : Inv P offset programs s)
    (registry : ∃ alive done, Process.Inv offset process' alive done)
    (sys : process'.sys = s.process.sys) (final : process'.final = s.process.final)
    (seen : ∀ t ∈ s.process.seen, t ∈ process'.seen) :
    Inv P offset programs { s with process := process', layout := s.placed process' } := by
  refine ⟨?_, registry, ?_⟩
  · show SysPlaced P process'.sys
    rw [sys]
    exact inv.placed
  · intro t
    have spares : s.process.sys.Spares process'.sys t := by
      rw [sys]
      exact Sys.Spares.refl _ t
    have counters : process'.counters t = s.process.counters t :=
      Process.counters_congr (congrFun (congrArg Sys.threads sys) t) (congrFun final t)
    refine (inv.follows t).spared spares ?_ rfl rfl rfl counters (seen t)
    intro i
    show process'.sys.shared.chunkCount t i = _
    rw [sys]

/-- A step around the calls. -/
theorem Inv.around {e : Process.Event} {process' : Process} (inv : Inv P offset programs s)
    (aligns : P.Aligns) (noCall : ∀ e', e ≠ .operate e')
    (noChunk : ∀ bytes x, e ≠ .around (.acquireChunk bytes x))
    (taken : Process.Step P offset s.process e process') :
    Inv P offset programs { s with process := process', layout := s.placed process' } := by
  obtain ⟨alive, done, registry⟩ := inv.registry
  have registry' := registry.next taken
  cases taken with
  | @construct t object sys' absent unused started =>
      obtain ⟨placed, spares⟩ := inv.placed.step aligns.power (by trivial) (by trivial)
        (fun _ _ same => by cases same) started
      refine ⟨placed, registry', ?_⟩
      intro u
      by_cases same : u = t
      · subst same
        exact (inv.follows u).constructed inv.placed.inv started
      · have other : (Sys.Event.start t (.ok ())).thread ≠ some u :=
          fun equal => same (Option.some.inj equal).symm
        exact inv.others spares started other rfl rfl
          (Process.counters_congr (spares u other).threads rfl) rfl
  | @constructFails t x sys' absent failed =>
      obtain ⟨placed, spares⟩ := inv.placed.step aligns.power (by trivial) (by trivial)
        (fun _ _ same => by cases same) failed
      refine ⟨placed, registry', ?_⟩
      intro u
      by_cases same : u = t
      · subst same
        have spared := failed.failed_spares
        refine (inv.follows u).spared spared ?_ rfl rfl rfl
          (Process.counters_congr spared.threads rfl) (fun member => member)
        intro i
        exact congrArg (fun carved : List Chunk => carved.countP (fun c => c.For u i))
          failed.failed_carved
      · have other : (Sys.Event.start t (.error x)).thread ≠ some u :=
          fun equal => same (Option.some.inj equal).symm
        exact inv.others spares failed other rfl rfl
          (Process.counters_congr (spares u other).threads rfl) rfl
  | register built =>
      exact inv.unmoved registry' rfl rfl (fun t member => List.mem_append_left _ member)
  | operate caller registered taken => exact absurd rfl (noCall _)
  | @around e sys' noCaller noLife taken =>
      have outside : e.thread = none ∧ s.process.sys.NoWrap P e ∧ e.Nonempty := by
        cases e with
        | start | exit => cases noLife
        | allocate | allocateAligned | free => cases noCaller
        | acquireChunk | write | malloc | mfree => exact ⟨rfl, trivial, trivial⟩
      obtain ⟨nobody, sums, nonempty⟩ := outside
      obtain ⟨placed, spares⟩ := inv.placed.step aligns.power sums nonempty
        (fun bytes x same => noChunk bytes x (congrArg _ same)) taken
      refine ⟨placed, registry', ?_⟩
      intro u
      have other : e.thread ≠ some u := by
        rw [nobody]
        intro same
        cases same
      exact inv.others spares taken other rfl rfl
        (Process.counters_congr (spares u other).threads rfl) rfl
  | retire registered live => exact inv.unmoved registry' rfl rfl (fun t member => member)
  | @destroy t object pool client sys' retired live taken =>
      obtain ⟨placed, spares⟩ := inv.placed.step aligns.power (by trivial) (by trivial)
        (fun _ _ same => by cases same) taken
      refine ⟨placed, registry', ?_⟩
      intro u
      by_cases same : u = t
      · subst same
        exact (inv.follows u).destroyed taken (Process.Inv.destroyed_counters live taken u) rfl
      · have other : (Sys.Event.exit t).thread ≠ some u :=
          fun equal => same (Option.some.inj equal).symm
        exact inv.others spares taken other rfl rfl
          (Process.Inv.destroyed_counters live taken u) rfl
  | globalStats => exact inv.unmoved registry' rfl rfl (fun t member => member)

theorem Inv.step {e : Process.Event} (inv : Inv P offset programs s) (aligns : P.Aligns)
    (bounded : Bounded programs) (taken : Step P offset programs s e s')
    (supplied : Supplied P s e s') : Inv P offset programs s' := by
  cases taken with
  | call next means taken => exact inv.call aligns bounded next means taken (supplied _ rfl)
  | around noCall noChunk taken => exact inv.around aligns noCall noChunk taken

theorem run_inv {m : ByteMemory} {h : Heap Owner}
    {trace : List (Transition Schedule Process.Event)} (aligns : P.Aligns)
    (bounded : Bounded programs) (run : Run (Step P offset programs) (initial m h) trace s)
    (supplied : ∀ x ∈ trace, Supplied P x.before x.event x.after) :
    Inv P offset programs s := by
  have keep : ∀ s e s', Inv P offset programs s →
      Step P offset programs s e s' ∧ Supplied P s e s' → Inv P offset programs s' :=
    fun s e s' inv meets => inv.step aligns bounded meets.1 meets.2
  exact (run.restrict supplied).invariant (Inv.initial P offset programs m h) keep

end Inv

end Schedule

end MemAlloc
