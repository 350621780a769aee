import MemAlloc.CentralHeap
import MemAlloc.EventRing
import MemAlloc.Lib.Runs

set_option autoImplicit false

namespace MemAlloc.EventTimes

open EventRing
open Runs (Run Transition)

/-- The operations that are recorded; the last one runs in the critical section of the central
heap. -/
inductive Operation where
  | allocate (n p : Nat)
  | free (n p : Nat)
  | acquireChunk (body : Nat)

def Operation.event (tsNs threadId : Nat) : Operation → AllocEvent
  | .allocate n p => ⟨tsNs, n, p, threadId, kEventAlloc⟩
  | .free n p => ⟨tsNs, n, p, threadId, kEventFree⟩
  | .acquireChunk body => ⟨tsNs, CentralHeap.chunkSize, body, threadId, kEventChunk⟩

/-- Where a thread is between its test of `enabled()` and the end of `push`. -/
inductive Progress where
  | idle
  | recording (op : Operation)
  | stamped (op : Operation) (tsNs : Nat)

/-- The thread holds the mutex of the central heap. -/
def Progress.InChunk : Progress → Prop
  | .recording (.acquireChunk _) => True
  | .stamped (.acquireChunk _) _ => True
  | _ => False

structure State where
  clock : Nat
  enabled : Bool
  ring : EventRing
  progress : Nat → Progress

def State.initial (clock : Nat) : State := ⟨clock, false, EventRing.new, fun _ => .idle⟩

inductive Event where
  | tick
  | setEnabled (on : Bool)
  | check (t : Nat)
  | stamp (t : Nat)
  | push (t : Nat)

def State.setProgress (s : State) (t : Nat) (progress : Progress) : State :=
  { s with progress := Function.update s.progress t progress }

/-- The steps of all threads, interleaved. `threadIds` are the ids that tag the events. The
clock is read before the ring's mutex is taken. -/
inductive Step (threadIds : Nat → Nat) : State → Event → State → Prop
  | tick {s : State} {clock : Nat} (later : s.clock ≤ clock) :
      Step threadIds s .tick { s with clock := clock }
  | setEnabled {s : State} (on : Bool) :
      Step threadIds s (.setEnabled on) { s with enabled := on }
  | check {s : State} {t : Nat} {op : Operation} (idle : s.progress t = .idle)
      (enabled : s.enabled = true)
      (alone : (Progress.recording op).InChunk → ∀ u, ¬ (s.progress u).InChunk) :
      Step threadIds s (.check t) (s.setProgress t (.recording op))
  | stamp {s : State} {t : Nat} {op : Operation} (recording : s.progress t = .recording op) :
      Step threadIds s (.stamp t) (s.setProgress t (.stamped op s.clock))
  | push {s : State} {t tsNs : Nat} {op : Operation}
      (stamped : s.progress t = .stamped op tsNs) :
      Step threadIds s (.push t)
        ({ s with ring := s.ring.push (op.event tsNs (threadIds t)) }.setProgress t .idle)

/-- The timestamps of the stored events, oldest first, do not decrease. -/
def Ordered (r : EventRing) : Prop :=
  ∃ stored, snapshot r r = some stored ∧ stored.Pairwise (fun x y => x.tsNs ≤ y.tsNs)

/-- An event is stored that was stamped later than the one the thread is about to push. -/
def Overtaken (s : State) (t : Nat) : Prop :=
  ∃ op tsNs stored, s.progress t = .stamped op tsNs ∧ snapshot s.ring s.ring = some stored ∧
    ∃ x ∈ stored, tsNs < x.tsNs

theorem Operation.event_tsNs (tsNs threadId : Nat) (op : Operation) :
    (op.event tsNs threadId).tsNs = tsNs := by
  cases op with
  | allocate n p => rfl
  | free n p => rfl
  | acquireChunk body => rfl

theorem ordered_iff (history : List AllocEvent) :
    Ordered (EventRing.new.pushAll history) ↔
      (slidingWindow history).Pairwise (fun x y => x.tsNs ≤ y.tsNs) := by
  simp only [Ordered, snapshot_quiescent, Option.some.injEq, exists_eq_left']

theorem overtaken_iff {s : State} {t tsNs : Nat} {op : Operation} {history : List AllocEvent}
    (stamped : s.progress t = .stamped op tsNs) (ring : s.ring = EventRing.new.pushAll history) :
    Overtaken s t ↔ ∃ x ∈ slidingWindow history, tsNs < x.tsNs := by
  rw [Overtaken, ring]
  constructor
  · intro overtaken
    obtain ⟨op', tsNs', stored, same, shown, later⟩ := overtaken
    rw [stamped] at same
    rw [snapshot_quiescent] at shown
    cases same
    cases shown
    exact later
  · intro later
    exact ⟨op, tsNs, _, stamped, snapshot_quiescent history, later⟩

theorem pushAll_concat (history : List AllocEvent) (e : AllocEvent) :
    (EventRing.new.pushAll history).push e = EventRing.new.pushAll (history ++ [e]) := by
  rw [EventRing.pushAll, EventRing.pushAll, List.foldl_append]
  rfl

theorem slidingWindow_concat (history : List AllocEvent) (e : AllocEvent) :
    slidingWindow (history ++ [e]) = Rings.slide kCapacity (slidingWindow history) e :=
  List.foldl_concat _ _ _ _

theorem length_slidingWindow (history : List AllocEvent) :
    (slidingWindow history).length ≤ kCapacity := by
  rw [slidingWindow, Rings.length_foldl_slide]
  exact Nat.min_le_right _ _

/-- A push into an ordered ring keeps the order exactly when no stored event is later. -/
theorem window_ordered_iff {history : List AllocEvent} {e : AllocEvent}
    (ordered : (slidingWindow history).Pairwise (fun x y => x.tsNs ≤ y.tsNs)) :
    (slidingWindow (history ++ [e])).Pairwise (fun x y => x.tsNs ≤ y.tsNs) ↔
      ∀ x ∈ slidingWindow history, x.tsNs ≤ e.tsNs := by
  have large : 2 ≤ kCapacity := by decide
  rw [slidingWindow_concat]
  exact Rings.slide_pairwise_iff (fun _ _ _ => Nat.le_trans) large
    (length_slidingWindow history) ordered

section Runs

variable {threadIds : Nat → Nat} {clock : Nat} {trace : List (Transition State Event)}
  {s s' : State} {e : Event}

/-- The ring holds what has been pushed since the start. -/
def Fed (s : State) : Prop := ∃ history, s.ring = EventRing.new.pushAll history

theorem Fed.step (fed : Fed s) (taken : Step threadIds s e s') : Fed s' := by
  obtain ⟨history, ring⟩ := fed
  cases taken with
  | tick later => exact ⟨history, ring⟩
  | setEnabled on => exact ⟨history, ring⟩
  | check idle enabled alone => exact ⟨history, ring⟩
  | stamp recording => exact ⟨history, ring⟩
  | @push t tsNs op stamped =>
      refine ⟨history ++ [op.event tsNs (threadIds t)], ?_⟩
      change s.ring.push _ = _
      rw [ring, pushAll_concat]

theorem run_fed (run : Run (Step threadIds) (State.initial clock) trace s) : Fed s := by
  apply run.invariant
  · exact ⟨[], rfl⟩
  · intro s e t fed taken
    exact fed.step taken

/-- One step keeps the order unless it is the push of a thread that has been overtaken. -/
theorem step_ordered_iff (fed : Fed s) (ordered : Ordered s.ring)
    (taken : Step threadIds s e s') :
    Ordered s'.ring ↔ ∀ t, e = .push t → ¬ Overtaken s t := by
  obtain ⟨history, ring⟩ := fed
  cases taken with
  | tick later => exact iff_of_true ordered (fun t same => by cases same)
  | setEnabled on => exact iff_of_true ordered (fun t same => by cases same)
  | check idle enabled alone => exact iff_of_true ordered (fun t same => by cases same)
  | stamp recording => exact iff_of_true ordered (fun t same => by cases same)
  | @push t tsNs op stamped =>
      have pushed : (s.ring.push (op.event tsNs (threadIds t))) =
          EventRing.new.pushAll (history ++ [op.event tsNs (threadIds t)]) := by
        rw [ring]
        exact pushAll_concat history _
      rw [ring, ordered_iff] at ordered
      change Ordered (s.ring.push _) ↔ _
      rw [pushed, ordered_iff, window_ordered_iff ordered]
      constructor
      · intro below u same overtaken
        cases same
        obtain ⟨x, member, later⟩ := (overtaken_iff stamped ring).mp overtaken
        have bound := below x member
        rw [Operation.event_tsNs] at bound
        omega
      · intro intime x member
        rw [Operation.event_tsNs]
        apply Nat.le_of_not_lt
        intro later
        exact intime t rfl ((overtaken_iff stamped ring).mpr ⟨x, member, later⟩)

theorem ordered_new : Ordered EventRing.new := by
  apply (ordered_iff []).mpr
  exact List.Pairwise.nil

theorem run_ordered (run : Run (Step threadIds) (State.initial clock) trace s)
    (every : ∀ x ∈ trace, Ordered x.after.ring) : Ordered s.ring := by
  cases run with
  | nil => exact ordered_new
  | @snoc trace before _ e run taken => exact every ⟨before, e, s⟩ (by simp)

theorem ordered_of_intime (run : Run (Step threadIds) (State.initial clock) trace s)
    (intime : ∀ x ∈ trace, ∀ t, x.event = .push t → ¬ Overtaken x.before t) :
    ∀ x ∈ trace, Ordered x.after.ring := by
  induction run with
  | nil => simp
  | @snoc trace s t e run taken ih =>
      rw [List.forall_mem_append, List.forall_mem_singleton] at intime ⊢
      have earlier := ih intime.1
      exact ⟨earlier, (step_ordered_iff (run_fed run) (run_ordered run earlier) taken).mpr intime.2⟩

/-- The stored timestamps are in order in every state of a run exactly when no thread pushes
after it has been overtaken between its reading of the clock and its push. -/
theorem timestamps_ordered_iff (run : Run (Step threadIds) (State.initial clock) trace s) :
    (∀ x ∈ trace, Ordered x.after.ring) ↔
      ∀ x ∈ trace, ∀ t, x.event = .push t → ¬ Overtaken x.before t := by
  constructor
  · intro every x member
    obtain ⟨past, rest, split, reached, taken⟩ := run.reached x member
    have earlier : ∀ y ∈ past, Ordered y.after.ring := by
      intro y old
      exact every y (split ▸ List.mem_append_left _ old)
    exact (step_ordered_iff (run_fed reached) (run_ordered reached earlier) taken).mp
      (every x member)
  · exact ordered_of_intime run

/-- The push leaves no thread behind whose event was stamped earlier. -/
def InTurn (s : State) : Event → Prop
  | .push t => ∀ u op op' tsNs tsNs', s.progress t = .stamped op tsNs →
      s.progress u = .stamped op' tsNs' → tsNs ≤ tsNs'
  | _ => True

/-- Nothing has been pushed with a time later than the clock's, or than that of an event which
a thread is about to push. -/
structure Current (s : State) (history : List AllocEvent) : Prop where
  ring : s.ring = EventRing.new.pushAll history
  clock : ∀ x ∈ history, x.tsNs ≤ s.clock
  stamped : ∀ u op tsNs, s.progress u = .stamped op tsNs →
    tsNs ≤ s.clock ∧ ∀ x ∈ history, x.tsNs ≤ tsNs

theorem Current.setProgress {history : List AllocEvent} {t : Nat} {progress : Progress}
    (current : Current s history) (unstamped : ∀ op tsNs, progress = .stamped op tsNs →
      tsNs = s.clock) : Current (s.setProgress t progress) history := by
  refine ⟨current.ring, current.clock, ?_⟩
  intro u op tsNs stamped
  by_cases same : u = t
  · rw [same] at stamped
    change Function.update s.progress t progress t = _ at stamped
    rw [Function.update_self] at stamped
    rw [unstamped op tsNs stamped]
    exact ⟨Nat.le_refl _, current.clock⟩
  · change Function.update s.progress t progress u = _ at stamped
    rw [Function.update_of_ne same] at stamped
    exact current.stamped u op tsNs stamped

def Timely (s : State) : Prop := ∃ history, Current s history

theorem timely_initial : Timely (State.initial clock) := by
  refine ⟨[], rfl, ?_, ?_⟩
  · intro x member
    cases member
  · intro u op tsNs stamped
    cases stamped

theorem Timely.step (timely : Timely s) (turn : InTurn s e) (taken : Step threadIds s e s') :
    Timely s' := by
  obtain ⟨history, current⟩ := timely
  cases taken with
  | tick later =>
      refine ⟨history, current.ring, ?_, ?_⟩
      · intro x member
        exact Nat.le_trans (current.clock x member) later
      · intro u op tsNs stamped
        obtain ⟨past, above⟩ := current.stamped u op tsNs stamped
        exact ⟨Nat.le_trans past later, above⟩
  | setEnabled on => exact ⟨history, current.ring, current.clock, current.stamped⟩
  | check idle enabled alone =>
      exact ⟨history, current.setProgress (fun op tsNs same => by cases same)⟩
  | stamp recording =>
      exact ⟨history, current.setProgress (fun op tsNs same => by cases same; rfl)⟩
  | @push t tsNs op stamped =>
      obtain ⟨past, above⟩ := current.stamped t op tsNs stamped
      refine ⟨history ++ [op.event tsNs (threadIds t)], Current.setProgress ⟨?_, ?_, ?_⟩
        (fun op tsNs same => by cases same)⟩
      · change s.ring.push _ = _
        rw [current.ring, pushAll_concat]
      · intro x member
        rcases List.mem_append.mp member with old | new
        · exact current.clock x old
        · rw [List.mem_singleton.mp new, Operation.event_tsNs]
          exact past
      · intro u op' tsNs' held
        obtain ⟨past', above'⟩ := current.stamped u op' tsNs' held
        refine ⟨past', ?_⟩
        intro x member
        rcases List.mem_append.mp member with old | new
        · exact above' x old
        · rw [List.mem_singleton.mp new, Operation.event_tsNs]
          exact turn u op op' tsNs tsNs' stamped held

theorem Timely.not_overtaken (timely : Timely s) (t : Nat) : ¬ Overtaken s t := by
  obtain ⟨history, current⟩ := timely
  intro overtaken
  have same := overtaken
  obtain ⟨op, tsNs, _, stamped, _⟩ := same
  obtain ⟨x, member, later⟩ := (overtaken_iff stamped current.ring).mp overtaken
  have old : x ∈ history := by
    rw [slidingWindow, Rings.foldl_slide] at member
    exact List.mem_of_mem_drop member
  have below := (current.stamped t op tsNs stamped).2 x old
  omega

/-- Threads that push in the order of their timestamps keep the ring ordered, as a single
thread does. -/
theorem ordered_of_inTurn (run : Run (Step threadIds) (State.initial clock) trace s)
    (turns : ∀ x ∈ trace, InTurn x.before x.event) : ∀ x ∈ trace, Ordered x.after.ring := by
  apply ordered_of_intime run
  have keep : ∀ s e s', Timely s → InTurn s e → Step threadIds s e s' → Timely s' :=
    fun _ _ _ timely turn taken => timely.step turn taken
  intro x member t _
  exact (run.invariantBefore timely_initial keep turns x member).not_overtaken t

/-- Two threads read the clock and push in the same order. -/
theorem timestamps_ordered_two : ∃ (trace : List (Transition State Event)) (s : State),
    Run (Step id) (State.initial 5) trace s ∧
      s.ring = (EventRing.new.push ⟨5, 16, 4096, 0, kEventAlloc⟩).push
        ⟨7, 16, 8192, 1, kEventAlloc⟩ ∧
      ∀ x ∈ trace, Ordered x.after.ring := by
  let first : Operation := .allocate 16 4096
  let second : Operation := .allocate 16 8192
  let s₁ : State := { State.initial 5 with enabled := true }
  let s₂ := s₁.setProgress 0 (.recording first)
  let s₃ := s₂.setProgress 1 (.recording second)
  let s₄ := s₃.setProgress 0 (.stamped first 5)
  let s₅ : State := { s₄ with clock := 7 }
  let s₆ := s₅.setProgress 1 (.stamped second 7)
  let s₇ := { s₆ with ring := s₆.ring.push (first.event 5 0) }.setProgress 0 .idle
  let s₈ := { s₇ with ring := s₇.ring.push (second.event 7 1) }.setProgress 1 .idle
  have run₁ : Run (Step id) (State.initial 5) _ s₁ := Run.nil.snoc (.setEnabled true)
  have run₂ : Run (Step id) (State.initial 5) _ s₂ :=
    run₁.snoc (.check rfl rfl (fun inChunk => inChunk.elim))
  have run₃ : Run (Step id) (State.initial 5) _ s₃ :=
    run₂.snoc (.check rfl rfl (fun inChunk => inChunk.elim))
  have run₄ : Run (Step id) (State.initial 5) _ s₄ := run₃.snoc (.stamp rfl)
  have run₅ : Run (Step id) (State.initial 5) _ s₅ := run₄.snoc (.tick (by decide))
  have run₆ : Run (Step id) (State.initial 5) _ s₆ := run₅.snoc (.stamp rfl)
  have run₇ : Run (Step id) (State.initial 5) _ s₇ := run₆.snoc (.push rfl)
  have run₈ : Run (Step id) (State.initial 5) _ s₈ := run₇.snoc (.push rfl)
  refine ⟨_, s₈, run₈, rfl, ?_⟩
  apply (timestamps_ordered_iff run₈).mpr
  simp only [List.nil_append, List.cons_append, List.forall_mem_cons]
  refine ⟨?_, ?_, ?_, ?_, ?_, ?_, ?_, ?_, List.forall_mem_nil _⟩
  iterate 6
    intro t same
    cases same
  · intro t same overtaken
    cases same
    have empty : s₆.ring = EventRing.new.pushAll [] := rfl
    obtain ⟨x, member, _⟩ := (overtaken_iff rfl empty).mp overtaken
    cases member
  · intro t same overtaken
    cases same
    have single : s₇.ring = EventRing.new.pushAll [first.event 5 0] := rfl
    obtain ⟨x, member, late⟩ := (overtaken_iff rfl single).mp overtaken
    obtain rfl := List.mem_singleton.mp member
    exact absurd late (by decide)

/-- Two threads: the one that reads the clock first pushes last. -/
theorem timestamps_not_always_ordered : ∃ (trace : List (Transition State Event)) (s : State),
    Run (Step id) (State.initial 0) trace s ∧ ¬ Ordered s.ring := by
  let first : Operation := .allocate 16 4096
  let second : Operation := .allocate 16 8192
  let s₁ : State := { State.initial 0 with enabled := true }
  let s₂ := s₁.setProgress 0 (.recording first)
  let s₃ := s₂.setProgress 0 (.stamped first 0)
  let s₄ : State := { s₃ with clock := 1 }
  let s₅ := s₄.setProgress 1 (.recording second)
  let s₆ := s₅.setProgress 1 (.stamped second 1)
  let s₇ := { s₆ with ring := s₆.ring.push (second.event 1 1) }.setProgress 1 .idle
  let s₈ := { s₇ with ring := s₇.ring.push (first.event 0 0) }.setProgress 0 .idle
  have run₁ : Run (Step id) (State.initial 0) _ s₁ := Run.nil.snoc (.setEnabled true)
  have run₂ : Run (Step id) (State.initial 0) _ s₂ :=
    run₁.snoc (.check rfl rfl (fun inChunk => inChunk.elim))
  have run₃ : Run (Step id) (State.initial 0) _ s₃ := run₂.snoc (.stamp rfl)
  have run₄ : Run (Step id) (State.initial 0) _ s₄ := run₃.snoc (.tick (Nat.zero_le 1))
  have run₅ : Run (Step id) (State.initial 0) _ s₅ :=
    run₄.snoc (.check rfl rfl (fun inChunk => inChunk.elim))
  have run₆ : Run (Step id) (State.initial 0) _ s₆ := run₅.snoc (.stamp rfl)
  have run₇ : Run (Step id) (State.initial 0) _ s₇ := run₆.snoc (.push rfl)
  have run₈ : Run (Step id) (State.initial 0) _ s₈ := run₇.snoc (.push rfl)
  refine ⟨_, s₈, run₈, ?_⟩
  change ¬ Ordered (EventRing.new.pushAll [second.event 1 1, first.event 0 0])
  rw [ordered_iff, slidingWindow, Rings.foldl_slide]
  decide

end Runs

end MemAlloc.EventTimes
