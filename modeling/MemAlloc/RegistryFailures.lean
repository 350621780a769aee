import MemAlloc.BlockPool
import MemAlloc.StatsRegistry
import MemAlloc.Lib.Runs

set_option autoImplicit false

namespace MemAlloc.StatsRegistry

open Runs (Run Transition)

/-- `register_stats` with the outcome of growing each of the two vectors: a `push_back` that
cannot grow its vector throws. -/
def registerStatsGrowing (r : StatsRegistry) (s allocator : Nat)
    (liveGrows allocatorsGrow : Bool) : Except Exn Unit × StatsRegistry :=
  if liveGrows then
    if allocatorsGrow then (.ok (), r.registerStats s allocator)
    else (.error .badAlloc, { r with live := r.live ++ [s] })
  else (.error .badAlloc, r)

/-- The life of a `ThreadPoolAlloc` object as the registry sees it. An object whose
registration throws is destroyed. -/
inductive Stage where
  | built
  | registered
  | retired
  | abandoned
deriving DecidableEq, Repr

/-- `objects` tells which addresses hold an allocator object, and its stage. -/
structure World where
  registry : StatsRegistry
  objects : Nat → Option Stage

namespace World

def initial : World := ⟨empty, fun _ => none⟩

/-- A new registry, and a new stage for the object at `a`. -/
def put (w : World) (r : StatsRegistry) (a : Nat) (stage : Option Stage) : World :=
  ⟨r, Function.update w.objects a stage⟩

@[simp] theorem put_registry (w : World) (r : StatsRegistry) (a : Nat) (stage : Option Stage) :
    (w.put r a stage).registry = r := rfl

theorem put_same (w : World) (r : StatsRegistry) (a : Nat) (stage : Option Stage) :
    (w.put r a stage).objects a = stage := Function.update_self _ _ _

theorem put_other (w : World) (r : StatsRegistry) {a b : Nat} (stage : Option Stage)
    (different : b ≠ a) : (w.put r a stage).objects b = w.objects b :=
  Function.update_of_ne different _ _

end World

inductive Event where
  | construct (a : Nat)
  | register (a : Nat) (liveGrows allocatorsGrow : Bool) (result : Except Exn Unit)
  | retire (a : Nat) (snapshot : Stats)
  | destroy (a : Nat)

/-- The constructor's last step leaves the object registered, or throws. -/
def Stage.ofRegister : Except Exn Unit → Stage
  | .ok _ => .registered
  | .error _ => .abandoned

/-- One step of a thread's constructor or destructor; each registry call runs under the
mutex. The `Stats` member lies `offset` bytes into the object. -/
inductive Step (offset : Nat) : World → Event → World → Prop
  | construct {w : World} {a : Nat} (vacant : w.objects a = none) :
      Step offset w (.construct a)
        (w.put w.registry a (some .built))
  | register {w : World} {a : Nat} {liveGrows allocatorsGrow : Bool} {x : Except Exn Unit}
      {r' : StatsRegistry} (built : w.objects a = some .built)
      (done : w.registry.registerStatsGrowing (a + offset) a liveGrows allocatorsGrow = (x, r')) :
      Step offset w (.register a liveGrows allocatorsGrow x)
        (w.put r' a (some (.ofRegister x)))
  | retire {w : World} {a : Nat} {snapshot : Stats} (registered : w.objects a = some .registered) :
      Step offset w (.retire a snapshot)
        (w.put (w.registry.retireStats (a + offset) snapshot) a (some .retired))
  | destroy {w : World} {a : Nat}
      (ended : w.objects a = some .retired ∨ w.objects a = some .abandoned) :
      Step offset w (.destroy a) (w.put w.registry a none)

/-- The two vectors list the same objects in the same order, and every one of them exists. -/
structure Parallel (offset : Nat) (w : World) : Prop where
  matching : w.registry.live = w.registry.liveAllocators.map (· + offset)
  existing : ∀ a ∈ w.registry.liveAllocators, w.objects a = some .registered

/-- The vectors are parallel before the step; a registration that throws leaves them as they
were, and a retirement erases its own object from both. -/
structure Lawful (offset : Nat) (x : Transition World Event) : Prop where
  parallel : Parallel offset x.before
  atomic : ∀ a liveGrows allocatorsGrow error,
    x.event = .register a liveGrows allocatorsGrow (.error error) →
      x.after.registry = x.before.registry
  erases : ∀ a snapshot, x.event = .retire a snapshot →
    a ∈ x.before.registry.liveAllocators ∧
      x.after.registry.live = x.before.registry.live.erase (a + offset) ∧
      x.after.registry.liveAllocators = x.before.registry.liveAllocators.erase a

/-- `live_allocators` grows whenever `live` has grown. -/
def GrowsTogether : Event → Prop
  | .register _ liveGrows allocatorsGrow _ => liveGrows = true → allocatorsGrow = true
  | _ => True

/-- Besides, every registered object is listed, once. -/
structure Inv (offset : Nat) (w : World) : Prop where
  parallel : Parallel offset w
  listed : ∀ a, w.objects a = some .registered → a ∈ w.registry.liveAllocators
  nodup : w.registry.liveAllocators.Nodup

section Preservation

variable {offset : Nat} {w w' : World}

theorem Inv.initial (offset : Nat) : Inv offset World.initial := by
  refine ⟨⟨rfl, ?_⟩, ?_, List.nodup_nil⟩
  · intro a member; cases member
  · intro a registered; cases registered

theorem Inv.objects (inv : Inv offset w) {a : Nat} (stage : Option Stage)
    (unlisted : w.objects a ≠ some .registered) (other : stage ≠ some .registered) :
    Inv offset (w.put w.registry a stage) := by
  refine ⟨⟨inv.parallel.matching, ?_⟩, ?_, inv.nodup⟩
  · intro b member
    have present := inv.parallel.existing b member
    have different : b ≠ a := by
      intro same
      subst same
      exact unlisted present
    rw [w.put_other _ _ different]
    exact present
  · intro b registered
    by_cases same : b = a
    · subst same
      rw [w.put_same] at registered
      exact absurd registered other
    · rw [w.put_other _ _ same] at registered
      exact inv.listed b registered

theorem Inv.register (inv : Inv offset w) {a : Nat} (built : w.objects a = some .built) :
    Inv offset (w.put (w.registry.registerStats (a + offset) a) a (some .registered)) := by
  have fresh : ∀ b ∈ w.registry.liveAllocators, b ≠ a := by
    intro b member same
    subst same
    have registered := inv.parallel.existing b member
    rw [built] at registered
    cases registered
  refine ⟨⟨?_, ?_⟩, ?_, ?_⟩
  · simp [World.put, registerStats, inv.parallel.matching]
  · intro b member
    rcases List.mem_append.mp member with old | new
    · rw [w.put_other _ _ (fresh b old)]
      exact inv.parallel.existing b old
    · obtain rfl := List.mem_singleton.mp new
      exact w.put_same _ _ _
  · intro b registered
    by_cases same : b = a
    · exact List.mem_append_right _ (List.mem_singleton.mpr same)
    · rw [w.put_other _ _ same] at registered
      exact List.mem_append_left _ (inv.listed b registered)
  · refine List.nodup_append'.mpr ⟨inv.nodup, List.nodup_singleton a, ?_⟩
    intro b old new
    exact fresh b old (List.mem_singleton.mp new)

/-- What retiring a registered object does to the two vectors. -/
theorem Inv.retireStats (inv : Inv offset w) {a : Nat}
    (registered : w.objects a = some .registered) (snapshot : Stats) :
    w.registry.retireStats (a + offset) snapshot =
      ⟨w.registry.live.erase (a + offset), w.registry.liveAllocators.erase a,
        w.registry.retired ++ [snapshot]⟩ := by
  have matching := inv.parallel.matching
  have injective : Function.Injective (· + offset) := fun x y same => Nat.add_right_cancel same
  have same : w.registry.liveAllocators = w.registry.liveAllocators.map id :=
    (List.map_id _).symm
  rw [StatsRegistry.retireStats_eq matching same (inv.listed a registered)
    (fun y _ equal => injective equal) snapshot, List.map_id, matching, List.map_erase injective]

theorem Inv.retire (inv : Inv offset w) {a : Nat} (registered : w.objects a = some .registered)
    (snapshot : Stats) :
    Inv offset (w.put (w.registry.retireStats (a + offset) snapshot) a (some .retired)) := by
  rw [inv.retireStats registered]
  have injective : Function.Injective (· + offset) := fun x y same => Nat.add_right_cancel same
  have gone : ∀ b, b ∈ w.registry.liveAllocators.erase a → b ≠ a := by
    intro b member same
    subst same
    exact inv.nodup.not_mem_erase member
  refine ⟨⟨?_, ?_⟩, ?_, inv.nodup.erase a⟩
  · change w.registry.live.erase (a + offset) =
      (w.registry.liveAllocators.erase a).map (· + offset)
    rw [inv.parallel.matching, List.map_erase injective]
  · intro b member
    rw [w.put_other _ _ (gone b member)]
    exact inv.parallel.existing b (List.mem_of_mem_erase member)
  · intro b still
    by_cases same : b = a
    · subst same
      rw [w.put_same] at still
      cases still
    · rw [w.put_other _ _ same] at still
      exact (List.mem_erase_of_ne same).mpr (inv.listed b still)

/-- Each step is lawful and keeps the registry parallel when the two vectors grow together. -/
theorem Inv.step {e : Event} (inv : Inv offset w) (together : GrowsTogether e)
    (taken : Step offset w e w') : Inv offset w' ∧ Lawful offset ⟨w, e, w'⟩ := by
  cases taken with
  | @construct a vacant =>
      refine ⟨inv.objects (some .built) (by simp [vacant]) (by simp), inv.parallel, ?_, ?_⟩
      · intro _ _ _ _ same; cases same
      · intro _ _ same; cases same
  | @register a liveGrows allocatorsGrow x r' built done =>
      have idle : w.objects a ≠ some .registered := by simp [built]
      cases liveGrows with
      | false =>
          cases done
          refine ⟨inv.objects (some .abandoned) idle (by simp), inv.parallel, ?_, ?_⟩
          · intro _ _ _ _ _; rfl
          · intro _ _ same; cases same
      | true =>
          obtain rfl := together rfl
          cases done
          refine ⟨inv.register built, inv.parallel, ?_, ?_⟩
          · intro _ _ _ _ same; cases same
          · intro _ _ same; cases same
  | @retire a snapshot registered =>
      refine ⟨inv.retire registered snapshot, inv.parallel, ?_, ?_⟩
      · intro _ _ _ _ same; cases same
      · intro _ _ same
        cases same
        refine ⟨inv.listed a registered, ?_, ?_⟩ <;> rw [inv.retireStats registered] <;> rfl
  | @destroy a ended =>
      have idle : w.objects a ≠ some .registered := by
        rcases ended with retired | abandoned
        · simp [retired]
        · simp [abandoned]
      refine ⟨inv.objects none idle (by simp), inv.parallel, ?_, ?_⟩
      · intro _ _ _ _ same; cases same
      · intro _ _ same; cases same

/-- A registration that lists the statistics but not the allocator is not atomic. -/
theorem together_of_lawful {e : Event} (taken : Step offset w e w')
    (lawful : Lawful offset ⟨w, e, w'⟩) : GrowsTogether e := by
  cases taken with
  | @register a liveGrows allocatorsGrow x r' built done =>
      intro grows
      subst grows
      cases allocatorsGrow with
      | true => rfl
      | false =>
          cases done
          have same := congrArg (fun r => r.live.length) (lawful.atomic _ _ _ _ rfl)
          simp at same
  | construct _ => trivial
  | retire _ => trivial
  | destroy _ => trivial

end Preservation

/-- The two vectors stay parallel, every listed object exists, failing registrations change
nothing and retirements erase their own entries, if and only if `live_allocators` never fails
to grow after `live` has grown. -/
theorem registry_lawful_iff {offset : Nat} {trace : List (Transition World Event)} {w : World}
    (run : Run (Step offset) World.initial trace w) :
    ((∀ x ∈ trace, Lawful offset x) ∧ Parallel offset w) ↔
      ∀ x ∈ trace, GrowsTogether x.event := by
  constructor
  · rintro ⟨lawful, _⟩ x member
    obtain ⟨_, _, _, _, taken⟩ := run.reached x member
    exact together_of_lawful taken (lawful x member)
  · intro together
    have keep : ∀ w e w', Inv offset w → (fun _ e => GrowsTogether e) w e →
        Step offset w e w' → Inv offset w' := fun w e w' inv grows taken =>
      (inv.step grows taken).1
    have last := run.invariantWhere (Inv.initial offset) keep together
    refine ⟨?_, last.parallel⟩
    intro x member
    have before := run.invariantBefore (Inv.initial offset) keep together x member
    obtain ⟨_, _, _, _, taken⟩ := run.reached x member
    exact (before.step (together x member) taken).2

/-- A thread that registers, after which its object at 4096 is known. -/
theorem registry_lawful_iff_first : ∃ trace w, Run (Step 64) World.initial trace w ∧
    w.registry.liveAllocators = [4096] ∧ Parallel 64 w := by
  let built := World.initial.put empty 4096 (some .built)
  have first : Step 64 World.initial (.construct 4096) built := .construct rfl
  have second : Step 64 built (.register 4096 true true (.ok ())) _ := .register rfl rfl
  have run := (Run.nil.snoc first).snoc second
  refine ⟨_, _, run, rfl, ((registry_lawful_iff run).mpr ?_).2⟩
  intro x member
  simp only [List.nil_append, List.cons_append, List.mem_cons, List.not_mem_nil, or_false]
    at member
  rcases member with rfl | rfl
  · trivial
  · exact fun grown => grown

/-- The first registration throws between its two `push_back` calls: `live` keeps the address
of an object that is destroyed. -/
theorem not_always_lawful : ∃ trace w, Run (Step 64) World.initial trace w ∧
    ¬ Parallel 64 w := by
  let built := World.initial.put empty 4096 (some .built)
  have first : Step 64 World.initial (.construct 4096) built := .construct rfl
  have second : Step 64 built (.register 4096 true false (.error .badAlloc)) _ :=
    .register rfl rfl
  have run := (Run.nil.snoc first).snoc second
  refine ⟨_, _, run, ?_⟩
  intro parallel
  have lengths := congrArg List.length parallel.matching
  change 1 = 0 at lengths
  cases lengths

end MemAlloc.StatsRegistry
