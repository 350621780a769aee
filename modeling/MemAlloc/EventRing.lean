import MemAlloc.Lib.Rings

set_option autoImplicit false

namespace MemAlloc

structure AllocEvent where
  tsNs : Nat
  size : Nat
  ptr : Nat
  threadId : Nat
  kind : Nat
deriving DecidableEq, Repr

def kEventAlloc : Nat := 0

def kEventFree : Nat := 1

def kEventChunk : Nat := 2

def AllocEvent.zero : AllocEvent := ⟨0, 0, 0, 0, 0⟩

/-- `buf` lists the slots below `kCapacity`; the others do not exist. -/
structure EventRing where
  buf : Nat → AllocEvent
  head : Nat
  count : Nat

namespace EventRing

def kCapacity : Nat := 65536

theorem kCapacity_positive : 0 < kCapacity := by decide

def new : EventRing := ⟨fun _ => AllocEvent.zero, 0, 0⟩

def push (r : EventRing) (e : AllocEvent) : EventRing where
  buf := Function.update r.buf r.head e
  head := (r.head + 1) % kCapacity
  count := if r.count < kCapacity then r.count + 1 else r.count

def start (r : EventRing) : Nat := if r.count < kCapacity then 0 else r.head

/-- The copy loop of both readers, at its iteration `i`: `out[i] = buf_[(first + i) %
kCapacity]`. Nothing is returned when an index leaves one of the two arrays. -/
def copyFrom (r : EventRing) (first : Nat) : Nat → Nat → List AllocEvent →
    Option (List AllocEvent)
  | _, 0, out => some out
  | i, remaining + 1, out =>
      let slot := (first + i) % kCapacity
      if slot < kCapacity ∧ i < out.length then
        copyFrom r first (i + 1) remaining (out.set i (r.buf slot))
      else none

/-- `snapshot()`: the ring as its first locked section sees it, and as its second does. -/
def snapshot (first second : EventRing) : Option (List AllocEvent) :=
  let n := first.count
  let start := first.start
  let out := List.replicate n AllocEvent.zero
  let take := if n < second.count then n else second.count
  second.copyFrom start 0 take out

def snapshotTail (first second : EventRing) (maxCount : Nat) : Option (List AllocEvent) :=
  let n := first.count
  let take := min n maxCount
  let out := List.replicate take AllocEvent.zero
  let n2 := second.count
  let start2 := second.start
  let take2 := min take n2
  second.copyFrom ((start2 + n2 - take2) % kCapacity) 0 take2 out

def pushAll (r : EventRing) (events : List AllocEvent) : EventRing := events.foldl push r

/-- The ring after `history` has been pushed to an empty one. -/
structure Represents (r : EventRing) (history : List AllocEvent) : Prop where
  head : r.head = history.length % kCapacity
  count : r.count = min history.length kCapacity
  slots : Rings.Holds kCapacity r.buf history

theorem Represents.new : Represents EventRing.new [] :=
  ⟨by simp [EventRing.new], by simp [EventRing.new], Rings.Holds.nil _ _⟩

theorem Represents.push {r : EventRing} {history : List AllocEvent} (ring : Represents r history)
    (e : AllocEvent) : Represents (r.push e) (history ++ [e]) := by
  refine ⟨?_, ?_, ?_⟩
  · simp [EventRing.push, ring.head, Nat.add_mod]
  · simp only [EventRing.push, ring.count, List.length_append, List.length_singleton]
    split <;> omega
  · have pushed := ring.slots.push e
    rwa [← ring.head] at pushed

theorem Represents.pushAll {r : EventRing} {history : List AllocEvent}
    (ring : Represents r history) (events : List AllocEvent) :
    Represents (r.pushAll events) (history ++ events) := by
  induction events generalizing r history with
  | nil => simpa [EventRing.pushAll] using ring
  | cons e events ih =>
      have rest := ih (ring.push e)
      rwa [List.append_assoc] at rest

/-- The oldest stored event sits at `start`. -/
theorem Represents.start {r : EventRing} {history : List AllocEvent}
    (ring : Represents r history) :
    r.start % kCapacity = (history.length - r.count) % kCapacity := by
  rw [EventRing.start, ring.count, ring.head]
  split
  · rename_i partly
    rw [Nat.min_eq_left (by omega), Nat.sub_self]
  · rename_i full
    rw [Nat.mod_mod, Nat.min_eq_right (by omega), ← Nat.mod_eq_sub_mod (by omega)]

/-- A copy that fills the rest of `out` stays inside both arrays. -/
theorem copyFrom_eq (r : EventRing) (first : Nat) (remaining : Nat) :
    ∀ (i : Nat) (done out : List AllocEvent), done.length = i → out.length = remaining →
      r.copyFrom first i remaining (done ++ out) =
        some (done ++ Rings.window kCapacity r.buf (first + i) remaining) := by
  induction remaining with
  | zero =>
      intro i done out _ empty
      rw [List.length_eq_zero_iff.mp empty]
      rfl
  | succ remaining ih =>
      intro i done out position size
      cases out with
      | nil => cases size
      | cons x out =>
          have room : (first + i) % kCapacity < kCapacity ∧ i < (done ++ x :: out).length := by
            refine ⟨Nat.mod_lt _ kCapacity_positive, ?_⟩
            simp [position]
          have written : (done ++ x :: out).set i (r.buf ((first + i) % kCapacity)) =
              (done ++ [r.buf ((first + i) % kCapacity)]) ++ out := by
            simp [position]
          have rest := ih (i + 1) (done ++ [r.buf ((first + i) % kCapacity)]) out
            (by simp [position]) (by simpa using size)
          simp only [copyFrom]
          rw [if_pos room, written, rest, List.append_assoc]
          congr 2
          simp only [Rings.window, List.range_succ_eq_map, List.map_cons, List.map_map,
            Nat.add_zero, List.singleton_append]
          congr 1
          apply List.map_congr_left
          intro j _
          simp only [Function.comp]
          congr 2
          omega

/-- The copy of as many slots as `out` has. -/
theorem copyFrom_all (r : EventRing) (first take : Nat) (out : List AllocEvent)
    (size : out.length = take) :
    r.copyFrom first 0 take out = some (Rings.window kCapacity r.buf first take) := by
  have copied := copyFrom_eq r first take 0 [] out rfl size
  simpa using copied

section Concurrent

/- A reader's two locked sections: `before` was pushed when the first one ran, and
`between` as well when the second one ran. -/
variable (before between : List AllocEvent)

theorem represents_before : Represents (new.pushAll before) before :=
  Represents.new.pushAll before

theorem represents_between :
    Represents ((new.pushAll before).pushAll between) (before ++ between) :=
  (represents_before before).pushAll between

theorem count_le : (new.pushAll before).count ≤ ((new.pushAll before).pushAll between).count := by
  rw [(represents_before before).count, (represents_between before between).count,
    List.length_append]
  omega

/-- `snapshot()` copies the slots that were stored at its first section. -/
theorem snapshot_eq :
    snapshot (new.pushAll before) ((new.pushAll before).pushAll between) =
      some (Rings.window kCapacity ((new.pushAll before).pushAll between).buf
        (before.length - (new.pushAll before).count) (new.pushAll before).count) := by
  have grows := count_le before between
  have take : (if (new.pushAll before).count < ((new.pushAll before).pushAll between).count
      then (new.pushAll before).count else ((new.pushAll before).pushAll between).count) =
      (new.pushAll before).count := by
    split <;> omega
  simp only [snapshot]
  rw [take, copyFrom_all _ _ _ _ List.length_replicate]
  exact congrArg some (Rings.window_congr _ _ (represents_before before).start)

/-- The stored events and the pushes in between fit on one turn of the ring: the reader's
start is still the oldest event it asked for. -/
def SameTurn : Prop := (new.pushAll before).count + between.length % kCapacity ≤ kCapacity

theorem snapshot_window :
    (before ++ between).length =
      before.length - (new.pushAll before).count + (new.pushAll before).count +
        between.length ∧ (new.pushAll before).count ≤ kCapacity := by
  rw [(represents_before before).count, List.length_append]
  omega

theorem not_contiguous_of_passed (distinct : (before ++ between).Nodup)
    (passed : ¬ SameTurn before between) :
    ¬ ∃ out, snapshot (new.pushAll before) ((new.pushAll before).pushAll between) = some out ∧
      Rings.Contiguous (before ++ between) out := by
  rintro ⟨out, copied, contiguous⟩
  obtain ⟨length, fits⟩ := snapshot_window before between
  rw [snapshot_eq] at copied
  cases copied
  exact (represents_between before between).slots.not_contiguous length kCapacity_positive fits
    (Nat.lt_of_not_le passed) distinct contiguous

/-- `snapshot()` returns a stretch of the push history when the pushes between its two
sections end on the same turn, and, for pairwise different events, only then. -/
theorem snapshot_contiguous_iff :
    (SameTurn before between → ∃ out,
      snapshot (new.pushAll before) ((new.pushAll before).pushAll between) = some out ∧
        Rings.Contiguous (before ++ between) out) ∧
    ((before ++ between).Nodup →
      (∃ out, snapshot (new.pushAll before) ((new.pushAll before).pushAll between) = some out ∧
        Rings.Contiguous (before ++ between) out) →
      SameTurn before between) := by
  constructor
  · intro turn
    obtain ⟨length, _⟩ := snapshot_window before between
    exact ⟨_, snapshot_eq before between,
      (represents_between before between).slots.contiguous length turn⟩
  · intro distinct contiguous
    apply Classical.byContradiction
    intro passed
    exact not_contiguous_of_passed before between distinct passed contiguous

/-- One push into a full ring between the two sections is already too much. -/
theorem not_sameTurn_of_full {before : List AllocEvent} (e : AllocEvent)
    (full : kCapacity ≤ before.length) : ¬ SameTurn before [e] := by
  rw [SameTurn, (represents_before before).count, Nat.min_eq_right full]
  change ¬ kCapacity + 1 % kCapacity ≤ kCapacity
  decide

/-- A full ring and one push between the two sections: the newest event comes first. -/
theorem snapshot_not_always_contiguous : ∃ before between : List AllocEvent,
    ¬ ∃ out, snapshot (new.pushAll before) ((new.pushAll before).pushAll between) = some out ∧
      Rings.Contiguous (before ++ between) out := by
  let event : Nat → AllocEvent := fun i => ⟨i, 16, 4096, 0, 0⟩
  refine ⟨(List.range 65536).map event, [event 65536], not_contiguous_of_passed _ _ ?_ ?_⟩
  · have injective : Function.Injective event := fun i j same => congrArg AllocEvent.tsNs same
    have whole := List.nodup_range (n := 65537).map injective
    rwa [List.range_succ, List.map_append] at whole
  · apply not_sameTurn_of_full
    rw [List.length_map, List.length_range]
    exact Nat.le_refl _

/-- The copy is the end of what has been pushed, whatever the second section finds. -/
theorem snapshotTail_eq (maxCount : Nat) :
    snapshotTail (new.pushAll before) ((new.pushAll before).pushAll between) maxCount =
      some ((before ++ between).drop
        ((before ++ between).length - min (new.pushAll before).count maxCount)) := by
  have later := represents_between before between
  have grows := count_le before between
  have stored : ((new.pushAll before).pushAll between).count ≤ (before ++ between).length := by
    rw [later.count]
    exact Nat.min_le_left _ _
  have room : ((new.pushAll before).pushAll between).count ≤ kCapacity := by
    rw [later.count]
    exact Nat.min_le_right _ _
  have start := later.start
  simp only [snapshotTail]
  generalize (new.pushAll before).pushAll between = second at later grows stored room start
  generalize (new.pushAll before).count = n at grows
  generalize wanted : min n maxCount = take
  have enough : take ≤ second.count := by omega
  rw [Nat.min_eq_left enough, copyFrom_all _ _ _ _ List.length_replicate]
  have first : (second.start + second.count - take) % kCapacity % kCapacity =
      ((before ++ between).length - take) % kCapacity := by
    rw [Nat.mod_mod, Nat.add_sub_assoc enough, Nat.add_mod, start, ← Nat.add_mod]
    congr 1
    omega
  have whole : Rings.window kCapacity second.buf ((before ++ between).length - take) take =
      (before ++ between).drop ((before ++ between).length - take) := by
    rw [later.slots.window (by omega) (by omega)]
    apply List.take_of_length_le
    rw [List.length_drop]
    omega
  rw [Rings.window_congr _ _ first, whole]

/-- `snapshot_tail()` returns the newest events as of its second section, as many as it
asked for at its first. -/
theorem snapshotTail_recent (maxCount : Nat) :
    ∃ out, snapshotTail (new.pushAll before) ((new.pushAll before).pushAll between) maxCount =
        some out ∧
      out.length = min (new.pushAll before).count maxCount ∧
      out = (before ++ between).drop
        ((before ++ between).length - min (new.pushAll before).count maxCount) := by
  refine ⟨_, snapshotTail_eq before between maxCount, ?_, rfl⟩
  have grows := count_le before between
  have stored : ((new.pushAll before).pushAll between).count ≤ (before ++ between).length := by
    rw [(represents_between before between).count]
    exact Nat.min_le_left _ _
  rw [List.length_drop]
  omega

end Concurrent

/-- What a sliding window of the same capacity shows after the pushes. -/
def slidingWindow (events : List AllocEvent) : List AllocEvent :=
  events.foldl (Rings.slide kCapacity) []

theorem snapshot_quiescent (events : List AllocEvent) :
    snapshot (new.pushAll events) (new.pushAll events) = some (slidingWindow events) := by
  have ring := represents_before events
  have copied := snapshot_eq events []
  change snapshot (new.pushAll events) (new.pushAll events) = some (Rings.window kCapacity
    (new.pushAll events).buf (events.length - (new.pushAll events).count)
    (new.pushAll events).count) at copied
  rw [copied, ring.count, ring.slots.window_recent]
  rfl

theorem snapshotTail_quiescent (events : List AllocEvent) (maxCount : Nat) :
    snapshotTail (new.pushAll events) (new.pushAll events) maxCount =
      some ((slidingWindow events).drop
        ((slidingWindow events).length - min maxCount (new.pushAll events).count)) := by
  have copied := snapshotTail_eq events [] maxCount
  rw [List.append_nil] at copied
  change snapshotTail (new.pushAll events) (new.pushAll events) maxCount = _ at copied
  rw [copied, slidingWindow, Rings.length_foldl_slide,
    Rings.foldl_slide, List.drop_drop, (represents_before events).count]
  congr 2
  omega

/-- With no push between a reader's two sections the ring is a sliding window: both readers
show the newest events in push order, and the tail is the end of the snapshot. -/
theorem quiescent_refinement (events : List AllocEvent) :
    slidingWindow events = events.drop (events.length - min events.length kCapacity) ∧
      (new.pushAll events).count = min events.length kCapacity ∧
      snapshot (new.pushAll events) (new.pushAll events) = some (slidingWindow events) ∧
      ∀ maxCount, ∃ tail,
        snapshotTail (new.pushAll events) (new.pushAll events) maxCount = some tail ∧
        tail <:+ slidingWindow events ∧
        tail.length = min maxCount (new.pushAll events).count := by
  refine ⟨?_, (represents_before events).count, snapshot_quiescent events, ?_⟩
  · have kept : events.length - min events.length kCapacity = events.length - kCapacity := by
      omega
    rw [slidingWindow, Rings.foldl_slide, kept]
  · intro maxCount
    refine ⟨_, snapshotTail_quiescent events maxCount, List.drop_suffix _ _, ?_⟩
    rw [List.length_drop, slidingWindow, Rings.length_foldl_slide,
      (represents_before events).count]
    omega

end EventRing

end MemAlloc
