import MemAlloc.EventRing
import Mathlib.Data.List.DropRight

set_option autoImplicit false

namespace MemAlloc

open EventRing

/-- Hundredths of red, green, blue and alpha. -/
structure Color where
  red : Nat
  green : Nat
  blue : Nat
  alpha : Nat
deriving DecidableEq, Repr

/-- What one `TextColored("[T%u] %s %zu @0x%llX")` of the feed window shows. -/
structure FeedLine where
  color : Color
  threadId : Nat
  tag : String
  size : Nat
  ptr : Nat
deriving DecidableEq, Repr

def feedLine (e : AllocEvent) : FeedLine :=
  if e.kind = kEventChunk then ⟨⟨95, 85, 20, 100⟩, e.threadId, "chunk +64KiB", e.size, e.ptr⟩
  else if e.kind = kEventAlloc then ⟨⟨35, 90, 35, 100⟩, e.threadId, "alloc", e.size, e.ptr⟩
  else ⟨⟨95, 45, 45, 100⟩, e.threadId, "free ", e.size, e.ptr⟩

/-- The variables that `main` keeps for the feed window between frames. -/
structure FeedState where
  feed : List AllocEvent
  lastCount : Nat
  scrollToBottom : Bool

def FeedState.initial : FeedState := ⟨[], 0, true⟩

/-- One frame of the window: the state it leaves, whether it scrolled, and its lines. -/
structure FeedFrame where
  state : FeedState
  scrolled : Bool
  lines : List FeedLine

/-- `draw_event_feed`, no push falling into the call. -/
def drawEventFeed (ring : EventRing) (s : FeedState) : Option FeedFrame := do
  let ringCount := ring.count
  let refreshed ←
    if ringCount ≠ s.lastCount then do
      let feed ← snapshotTail ring ring 200
      pure { feed := feed, lastCount := ringCount, scrollToBottom := true }
    else pure s
  return {
    state := { refreshed with scrollToBottom := false }
    scrolled := refreshed.scrollToBottom
    lines := refreshed.feed.map feedLine }

namespace EventFeed

inductive Action where
  | push (e : AllocEvent)
  | draw

structure World where
  ring : EventRing
  view : FeedState

def World.initial : World := ⟨EventRing.new, FeedState.initial⟩

def step (w : World) : Action → Option World
  | .push e => some { w with ring := w.ring.push e }
  | .draw => (drawEventFeed w.ring w.view).map (fun frame => { w with view := frame.state })

def run (w : World) (actions : List Action) : Option World := actions.foldlM step w

/-- Everything that was pushed, oldest first. -/
def pushed : List Action → List AllocEvent
  | [] => []
  | .push e :: rest => e :: pushed rest
  | .draw :: rest => pushed rest

@[simp] theorem pushed_append (first second : List Action) :
    pushed (first ++ second) = pushed first ++ pushed second := by
  induction first with
  | nil => rfl
  | cons action rest ih => cases action <;> simp [pushed, ih]

@[simp] theorem pushed_pushes (events : List AllocEvent) :
    pushed (events.map Action.push) = events := by
  induction events with
  | nil => rfl
  | cons e rest ih => simp [pushed, ih]

theorem run_append (w : World) (first second : List Action) :
    run w (first ++ second) = (run w first).bind (fun v => run v second) := by
  simp [run, List.foldlM_append]

def recent (history : List AllocEvent) : List AllocEvent := history.rtake 200

theorem ring_count (history : List AllocEvent) :
    (EventRing.new.pushAll history).count = min history.length kCapacity :=
  (represents_before history).count

theorem ring_push (history : List AllocEvent) (e : AllocEvent) :
    (EventRing.new.pushAll history).push e = EventRing.new.pushAll (history ++ [e]) := by
  simp [EventRing.pushAll]

theorem ring_tail (history : List AllocEvent) :
    snapshotTail (EventRing.new.pushAll history) (EventRing.new.pushAll history) 200 =
      some (recent history) := by
  have copied := snapshotTail_eq history [] 200
  rw [List.append_nil, ring_count] at copied
  have capped : history.length - min (min history.length kCapacity) 200 =
      history.length - 200 := by
    have large : 200 ≤ kCapacity := by decide
    omega
  rw [capped] at copied
  exact copied

/-- The state after a frame over the ring that holds `history`. -/
def drawn (history : List AllocEvent) (s : FeedState) : FeedState where
  feed := if min history.length kCapacity ≠ s.lastCount then recent history else s.feed
  lastCount := min history.length kCapacity
  scrollToBottom := false

theorem draw_state (history : List AllocEvent) (s : FeedState) :
    step ⟨EventRing.new.pushAll history, s⟩ .draw =
      some ⟨EventRing.new.pushAll history, drawn history s⟩ := by
  simp only [step, drawEventFeed, ring_tail, ring_count, drawn]
  by_cases changed : min history.length kCapacity ≠ s.lastCount
  · simp [changed]
  · have unchanged := Decidable.not_not.mp changed
    simp [unchanged]

section Runs

variable (history : List AllocEvent) (s : FeedState)

theorem run_push (e : AllocEvent) (rest : List Action) :
    run ⟨EventRing.new.pushAll history, s⟩ (.push e :: rest) =
      run ⟨EventRing.new.pushAll (history ++ [e]), s⟩ rest := by
  simp [run, step, ring_push]

theorem run_draw (rest : List Action) :
    run ⟨EventRing.new.pushAll history, s⟩ (.draw :: rest) =
      run ⟨EventRing.new.pushAll history, drawn history s⟩ rest := by
  simp [run, draw_state]

theorem run_pushes (events : List AllocEvent) :
    run ⟨EventRing.new.pushAll history, s⟩ (events.map Action.push) =
      some ⟨EventRing.new.pushAll (history ++ events), s⟩ := by
  induction events generalizing history with
  | nil => simp [run]
  | cons e rest ih =>
      rw [List.map_cons, run_push, ih, List.append_assoc]
      rfl

theorem run_total (actions : List Action) :
    ∃ view, run ⟨EventRing.new.pushAll history, s⟩ actions =
      some ⟨EventRing.new.pushAll (history ++ pushed actions), view⟩ := by
  induction actions generalizing history s with
  | nil => exact ⟨s, by simp [run, pushed]⟩
  | cons action rest ih =>
      cases action with
      | push e =>
          obtain ⟨view, rested⟩ := ih (history ++ [e]) s
          refine ⟨view, ?_⟩
          rw [run_push, rested, List.append_assoc]
          rfl
      | draw =>
          obtain ⟨view, rested⟩ := ih history (drawn history s)
          exact ⟨view, by rw [run_draw, rested]; rfl⟩

end Runs

theorem run_initial (actions : List Action) :
    ∃ view, run World.initial actions = some ⟨EventRing.new.pushAll (pushed actions), view⟩ := by
  obtain ⟨view, ran⟩ := run_total [] FeedState.initial actions
  rw [List.nil_append] at ran
  exact ⟨view, ran⟩

/-- A frame drawn with the ring full stores the largest count there is. The feed stays
as it is from then on. -/
theorem run_frozen (actions : List Action) (history : List AllocEvent) (s : FeedState)
    (full : kCapacity ≤ history.length) (saturated : s.lastCount = kCapacity) :
    ∃ view, run ⟨EventRing.new.pushAll history, s⟩ actions =
      some ⟨EventRing.new.pushAll (history ++ pushed actions), view⟩ ∧ view.feed = s.feed := by
  induction actions generalizing history s with
  | nil => exact ⟨s, by simp [run, pushed], rfl⟩
  | cons action rest ih =>
      cases action with
      | push e =>
          have stillFull : kCapacity ≤ (history ++ [e]).length := by
            rw [List.length_append]
            omega
          obtain ⟨view, rested, same⟩ := ih (history ++ [e]) s stillFull saturated
          refine ⟨view, ?_, same⟩
          rw [run_push, rested, List.append_assoc]
          rfl
      | draw =>
          have count : min history.length kCapacity = kCapacity := Nat.min_eq_right full
          obtain ⟨view, rested, same⟩ := ih history (drawn history s) full count
          refine ⟨view, by rw [run_draw, rested]; rfl, ?_⟩
          rw [same]
          simp [drawn, count, saturated]

/-- The stored count is that of the last frame, drawn when `seen` had been pushed and the
ring was not full. -/
def Tracks (history : List AllocEvent) (s : FeedState) : Prop :=
  ∃ seen, seen <+: history ∧ seen.length < kCapacity ∧ s.lastCount = seen.length ∧
    s.feed = recent seen

theorem Tracks.initial : Tracks [] FeedState.initial :=
  ⟨[], List.nil_prefix, kCapacity_positive, rfl, rfl⟩

theorem Tracks.push {history : List AllocEvent} {s : FeedState} (tracks : Tracks history s)
    (e : AllocEvent) : Tracks (history ++ [e]) s := by
  obtain ⟨seen, earlier, partly, count, feed⟩ := tracks
  exact ⟨seen, earlier.trans (List.prefix_append _ _), partly, count, feed⟩

theorem Tracks.current {history : List AllocEvent} {s : FeedState} (tracks : Tracks history s) :
    (drawn history s).feed = recent history := by
  obtain ⟨seen, earlier, partly, count, feed⟩ := tracks
  simp only [drawn]
  split
  · rfl
  · rename_i same
    have length : seen.length = history.length := by
      have shorter := earlier.length_le
      omega
    rw [feed, earlier.eq_of_length length]

theorem Tracks.draw {history : List AllocEvent} {s : FeedState} (tracks : Tracks history s)
    (partly : history.length < kCapacity) : Tracks history (drawn history s) :=
  ⟨history, List.prefix_rfl, partly, Nat.min_eq_left (Nat.le_of_lt partly), tracks.current⟩

/-- No frame is drawn with the ring full, `history` being pushed before the first action. -/
def NeverFull (history : List AllocEvent) : List Action → Prop
  | [] => True
  | .push e :: rest => NeverFull (history ++ [e]) rest
  | .draw :: rest => history.length < kCapacity ∧ NeverFull history rest

theorem Tracks.run (actions : List Action) (history : List AllocEvent) (s : FeedState)
    (tracks : Tracks history s) (never : NeverFull history actions) :
    ∃ view, run ⟨EventRing.new.pushAll history, s⟩ actions =
      some ⟨EventRing.new.pushAll (history ++ pushed actions), view⟩ ∧
      Tracks (history ++ pushed actions) view := by
  induction actions generalizing history s with
  | nil => exact ⟨s, by simp [EventFeed.run, pushed], by simpa [pushed] using tracks⟩
  | cons action rest ih =>
      cases action with
      | push e =>
          have rested := ih (history ++ [e]) s (tracks.push e) never
          rwa [List.append_assoc, ← run_push] at rested
      | draw =>
          have rested := ih history (drawn history s) (tracks.draw never.1) never.2
          rwa [← run_draw] at rested

/-- Either no frame sees a full ring, or one is the first to. -/
theorem neverFull_or (actions : List Action) (history : List AllocEvent) :
    NeverFull history actions ∨ ∃ past rest, actions = past ++ .draw :: rest ∧
      NeverFull history past ∧ kCapacity ≤ (history ++ pushed past).length := by
  induction actions generalizing history with
  | nil => exact Or.inl trivial
  | cons action rest ih =>
      cases action with
      | push e =>
          rcases ih (history ++ [e]) with never | ⟨past, later, split, never, full⟩
          · exact Or.inl never
          · refine Or.inr ⟨.push e :: past, later, by rw [split]; rfl, never, ?_⟩
            simpa [pushed] using full
      | draw =>
          by_cases full : kCapacity ≤ history.length
          · exact Or.inr ⟨[], rest, rfl, trivial, by simpa [pushed] using full⟩
          · rcases ih history with never | ⟨past, later, split, never, later_full⟩
            · exact Or.inl ⟨Nat.lt_of_not_le full, never⟩
            · exact Or.inr ⟨.draw :: past, later, by rw [split]; rfl,
                ⟨Nat.lt_of_not_le full, never⟩, later_full⟩

/-- The frame after `past` leaves the newest 200 events in the feed. -/
def FrameCurrent (past : List Action) : Prop :=
  ∃ w, run World.initial (past ++ [.draw]) = some w ∧
    snapshotTail w.ring w.ring 200 = some w.view.feed ∧ w.view.feed = recent (pushed past)

def EveryFrameCurrent (actions : List Action) : Prop :=
  ∀ past rest, actions = past ++ .draw :: rest → FrameCurrent past

/-- The test of a frame sees that `between` was pushed since the frame before. -/
def Detected (past : List Action) (between : List AllocEvent) : Prop :=
  ∃ w, run World.initial (past ++ .draw :: between.map Action.push) = some w ∧
    w.ring.count ≠ w.view.lastCount

def EveryPushDetected (actions : List Action) : Prop :=
  ∀ past between rest, actions = past ++ .draw :: (between.map Action.push ++ .draw :: rest) →
    between ≠ [] → Detected past between

/-- No frame finds newer events than an earlier frame that was drawn with the ring full. -/
def SameWindow (actions : List Action) : Prop :=
  ∀ past between rest, actions = past ++ .draw :: (between ++ .draw :: rest) →
    kCapacity ≤ (pushed past).length → recent (pushed (past ++ between)) = recent (pushed past)

/-- After a frame drawn with the ring full, nothing is pushed before the next frame. -/
def Quiet (actions : List Action) : Prop :=
  ∀ past between rest, actions = past ++ .draw :: (between.map Action.push ++ .draw :: rest) →
    kCapacity ≤ (pushed past).length → between = []

/-- A run up to a frame, its last state written out. -/
theorem run_to_frame (past : List Action) :
    ∃ view, run World.initial past = some ⟨EventRing.new.pushAll (pushed past), view⟩ ∧
      run World.initial (past ++ [.draw]) =
        some ⟨EventRing.new.pushAll (pushed past), drawn (pushed past) view⟩ := by
  obtain ⟨view, ran⟩ := run_initial past
  refine ⟨view, ran, ?_⟩
  rw [run_append, ran, Option.bind_some, run_draw]
  rfl

theorem frameCurrent_iff {past : List Action} {w : World}
    (ran : run World.initial (past ++ [.draw]) = some w) :
    FrameCurrent past ↔ w.view.feed = recent (pushed past) := by
  constructor
  · rintro ⟨w', ran', _, current⟩
    rw [ran] at ran'
    cases ran'
    exact current
  · intro current
    obtain ⟨view, _, drew⟩ := run_to_frame past
    rw [ran] at drew
    cases drew
    exact ⟨_, ran, by rw [ring_tail, ← current], current⟩

theorem frameCurrent_of_neverFull {past : List Action} (never : NeverFull [] past) :
    FrameCurrent past := by
  obtain ⟨view, ran, tracks⟩ := Tracks.run past [] FeedState.initial Tracks.initial never
  rw [List.nil_append] at ran tracks
  have drew : run World.initial (past ++ [.draw]) =
      some ⟨EventRing.new.pushAll (pushed past), drawn (pushed past) view⟩ := by
    have ranPast : run World.initial past = _ := ran
    rw [run_append, ranPast, Option.bind_some, run_draw]
    rfl
  exact (frameCurrent_iff drew).mpr tracks.current

/-- The feed of a frame drawn with the ring full is that of every later frame. -/
theorem frame_frozen {past between : List Action} (full : kCapacity ≤ (pushed past).length)
    (current : FrameCurrent past) :
    FrameCurrent (past ++ .draw :: between) ↔
      recent (pushed (past ++ between)) = recent (pushed past) := by
  obtain ⟨view, _, drew⟩ := run_to_frame past
  have feed := (frameCurrent_iff drew).mp current
  obtain ⟨later, ran, frozen⟩ := run_frozen (between ++ [.draw]) (pushed past)
    (drawn (pushed past) view) full (Nat.min_eq_right full)
  have whole : run World.initial ((past ++ .draw :: between) ++ [.draw]) =
      some ⟨EventRing.new.pushAll (pushed past ++ pushed (between ++ [.draw])), later⟩ := by
    have split : (past ++ .draw :: between) ++ [.draw] =
        (past ++ [.draw]) ++ (between ++ [.draw]) := by simp
    rw [split, run_append, drew, Option.bind_some, ran]
  rw [frameCurrent_iff whole, frozen, feed]
  simp only [pushed_append, pushed]
  exact eq_comm

theorem sameWindow_of_current {actions : List Action} (current : EveryFrameCurrent actions) :
    SameWindow actions := by
  intro past between rest split full
  have frame := current past _ split
  have next := current (past ++ .draw :: between) rest (by simp [split])
  exact (frame_frozen full frame).mp next

theorem current_of_sameWindow {actions : List Action} (same : SameWindow actions) :
    EveryFrameCurrent actions := by
  intro past rest split
  rcases neverFull_or past [] with never | ⟨first, between, early, never, full⟩
  · exact frameCurrent_of_neverFull never
  · subst early
    have window := same first between rest (by simp [split]) full
    exact (frame_frozen full (frameCurrent_of_neverFull never)).mpr window

theorem detected_iff {past : List Action} {between : List AllocEvent} (some_pushed : between ≠ []) :
    Detected past between ↔ (pushed past).length < kCapacity := by
  obtain ⟨view, _, drew⟩ := run_to_frame past
  have whole : run World.initial (past ++ .draw :: between.map Action.push) =
      some ⟨EventRing.new.pushAll (pushed past ++ between), drawn (pushed past) view⟩ := by
    have split : past ++ .draw :: between.map Action.push =
        (past ++ [.draw]) ++ between.map Action.push := by simp
    rw [split, run_append, drew, Option.bind_some, run_pushes]
  have positive := List.length_pos_iff.mpr some_pushed
  have test : Detected past between ↔
      min (pushed past ++ between).length kCapacity ≠ min (pushed past).length kCapacity := by
    constructor
    · rintro ⟨w, ran, changed⟩
      rw [whole] at ran
      cases ran
      rwa [ring_count] at changed
    · intro changed
      exact ⟨_, whole, by rwa [ring_count]⟩
  rw [test, List.length_append]
  omega

/-- The feed of every frame is the newest 200 events exactly when no frame finds newer ones
than an earlier frame with the ring full; the change test misses no push exactly when
nothing is pushed between such a frame and the next. -/
theorem feed_current_iff (actions : List Action) :
    (EveryFrameCurrent actions ↔ SameWindow actions) ∧
      (EveryPushDetected actions ↔ Quiet actions) := by
  refine ⟨⟨sameWindow_of_current, current_of_sameWindow⟩, ?_, ?_⟩
  · intro detected past between rest split full
    apply Classical.byContradiction
    intro some_pushed
    have partly := (detected_iff some_pushed).mp (detected past between rest split some_pushed)
    omega
  · intro quiet past between rest split some_pushed
    rw [detected_iff some_pushed]
    apply Nat.lt_of_not_le
    intro full
    exact some_pushed (quiet past between rest split full)

/-- 65536 pushes, a frame, one more push, and a frame that still shows the old feed. -/
theorem feed_not_always_current : ∃ actions, ¬ EveryFrameCurrent actions := by
  let event : Nat → AllocEvent := fun i => ⟨i, 16, 4096, 0, 0⟩
  let filling := ((List.range 65536).map event).map Action.push
  refine ⟨filling ++ .draw :: ([.push (event 65536)] ++ .draw :: []), ?_⟩
  intro current
  have full : kCapacity ≤ (pushed filling).length := by
    rw [pushed_pushes, List.length_map, List.length_range]
    exact Nat.le_refl _
  have same := sameWindow_of_current current _ _ _ rfl full
  rw [pushed_append, pushed_pushes] at same
  change recent (_ ++ [event 65536]) = _ at same
  simp only [recent, List.rtake_concat_succ] at same
  have listed : event 65536 ∈ ((List.range 65536).map event).rtake 200 := by
    rw [← same]
    simp
  obtain ⟨i, bounded, equal⟩ := List.mem_map.mp (List.mem_of_mem_drop listed)
  have index : i = 65536 := congrArg AllocEvent.tsNs equal
  rw [List.mem_range] at bounded
  omega

end EventFeed

end MemAlloc
