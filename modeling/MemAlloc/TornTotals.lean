import MemAlloc.Fragmentation
import MemAlloc.StatsRegistry
import MemAlloc.Lib.Runs

set_option autoImplicit false

namespace MemAlloc

namespace Stats

/-- Adding to one counter. -/
def bump (s : Stats) (c : Counter) (n : Nat) : Stats :=
  match c with
  | .requested => { s with requested := Words.add s.requested n }
  | .allocated => { s with allocated := Words.add s.allocated n }
  | .allocCount => { s with allocCount := Words.add s.allocCount n }
  | .freeCount => { s with freeCount := Words.add s.freeCount n }

/-- Writes of single fields. -/
inductive Update where
  | add (c : Counter) (n : Nat)
  | liveUp (n : Nat)
  | liveDown (n : Nat)
  | peak
deriving DecidableEq, Repr

def Update.apply (s : Stats) : Update → Stats
  | .add c n => s.bump c n
  | .liveUp n => { s with live := Words.add s.live n }
  | .liveDown n => { s with live := Words.sub s.live n }
  | .peak => if s.peakAllocated < s.live then { s with peakAllocated := s.live } else s

def Update.amount (c : Counter) : Update → Nat
  | .add d n => if c = d then n else 0
  | _ => 0

def Update.adds (c : Counter) : Update → Bool
  | .add d _ => c = d
  | _ => false

inductive Call where
  | recordAlloc (req got : Nat)
  | recordFree (req got : Nat)
deriving DecidableEq, Repr

namespace Call

def run (s : Stats) : Call → Stats
  | .recordAlloc req got => s.recordAlloc req got
  | .recordFree req got => s.recordFree req got

/-- The writes of a call, in program order. -/
def updates : Call → List Update
  | .recordAlloc req got =>
      [.add .requested req, .add .allocated got, .liveUp got, .peak, .add .allocCount 1]
  | .recordFree req got =>
      [.add .requested req, .add .allocated got, .liveDown got, .add .freeCount 1]

def covers : Call → Prop
  | .recordAlloc req got => req ≤ got
  | .recordFree req got => req ≤ got

/-- One after the other, the writes are the call. -/
theorem updates_foldl (s : Stats) (call : Call) :
    call.updates.foldl Update.apply s = call.run s := by
  cases call with
  | recordAlloc req got =>
      by_cases higher : s.peakAllocated < Words.add s.live got
      · simp [updates, Update.apply, bump, run, Stats.recordAlloc, higher]
      · simp [updates, Update.apply, bump, run, Stats.recordAlloc, higher]
  | recordFree req got => rfl

end Call

end Stats

theorem Counter.of_bump (c d : Counter) (s : Stats) (n : Nat) :
    c.of (s.bump d n) = if c = d then Words.add (c.of s) n else c.of s := by
  cases c <;> cases d <;> rfl

theorem Counter.of_apply (c : Counter) {s : Stats} {u : Stats.Update}
    (room : c.of s + u.amount c < Words.radix) : c.of (u.apply s) = c.of s + u.amount c := by
  cases u with
  | add d n =>
      simp only [Stats.Update.apply, Stats.Update.amount, c.of_bump] at *
      split
      · rename_i same
        rw [if_pos same] at room
        exact Words.add_of_lt room
      · rfl
  | liveUp n => cases c <;> rfl
  | liveDown n => cases c <;> rfl
  | peak =>
      simp only [Stats.Update.apply]
      split <;> cases c <;> rfl

namespace TornTotals

open Runs (Run Transition)
open Stats (Update Call)
open Totals (total)

/-- A thread: its counters, the writes left of the call it is in, and how many recorded blocks
it holds. -/
structure Owner where
  stats : Stats
  pending : List Update
  out : Nat

/-- The reads of `add` in `global_stats`; the peak is read again when it is larger. -/
inductive Field where
  | counter (c : Counter)
  | peakTest
  | peakTake
deriving DecidableEq, Repr

def nextField : Counter → Field
  | .requested => .counter .allocated
  | .allocated => .counter .allocCount
  | .allocCount => .counter .freeCount
  | .freeCount => .peakTest

/-- A `global_stats` under way: its running total, the live counters not yet added with the
ones being read at the head, and the next read. `torn` and `spare` only follow the run:
whether `requested` was above `allocated` when it was read and still is, and how many of the
blocks that were out when `allocCount` was read have not been recorded as freed since. -/
structure Sum where
  total : Stats
  todo : List Nat
  field : Field
  torn : Bool
  spare : Nat

namespace Sum

def start (live : List Nat) : Sum := ⟨Stats.zero, live, .counter .requested, false, 0⟩

/-- The next read, from the counters `s` at the head. -/
def read (x : Sum) (s : Stats) : Sum :=
  match x.field with
  | .counter c =>
      { x with
        total := x.total.bump c (c.of s)
        field := nextField c
        torn := if c = .requested then decide (s.allocated < s.requested) else x.torn
        spare := if c = .allocCount then s.allocCount - s.freeCount else x.spare }
  | .peakTest =>
      if x.total.peakAllocated < s.peakAllocated then { x with field := .peakTake }
      else { x with todo := x.todo.tail, field := .counter .requested }
  | .peakTake =>
      { x with
        total := { x.total with peakAllocated := s.peakAllocated }
        todo := x.todo.tail
        field := .counter .requested }

/-- Of counters that nobody changes meanwhile, the reads make the sum. -/
theorem reads (x : Sum) (s : Stats) (between : x.field = .counter .requested) :
    ∃ k ≤ 6, ((fun y : Sum => y.read s)^[k] x).total = addStats x.total s ∧
      ((fun y : Sum => y.read s)^[k] x).todo = x.todo.tail ∧
      ((fun y : Sum => y.read s)^[k] x).field = .counter .requested := by
  by_cases higher : x.total.peakAllocated < s.peakAllocated
  · refine ⟨6, Nat.le_refl _, ?_⟩
    simp [read, between, nextField, Stats.bump, Counter.of, addStats, higher]
  · refine ⟨5, by decide, ?_⟩
    simp [read, between, nextField, Stats.bump, Counter.of, addStats, higher]

/-- A thread has written one of its fields. -/
def noticed (x : Sum) (t : Nat) (u : Update) : Sum :=
  if x.todo.head? = some t then
    { x with
      torn := x.torn && !u.adds .allocated
      spare := x.spare - u.amount .freeCount }
  else x

end Sum

inductive Reader where
  | idle
  | summing (x : Sum)
  | returned (g : Stats)

namespace Reader

/-- Nobody is inside `global_stats`, whose mutex the registry shares. -/
def Unlocked : Reader → Prop
  | .summing _ => False
  | _ => True

def noticed (t : Nat) (u : Update) : Reader → Reader
  | .summing x => .summing (x.noticed t u)
  | r => r

end Reader

structure State where
  owners : Nat → Owner
  registry : StatsRegistry
  reader : Reader

namespace State

def initial : State := ⟨fun _ => ⟨Stats.zero, [], 0⟩, StatsRegistry.empty, .idle⟩

def counter (s : State) (c : Counter) (t : Nat) : Nat := c.of (s.owners t).stats

def setOwner (s : State) (t : Nat) (o : Owner) : State :=
  { s with owners := Function.update s.owners t o }

/-- The sum of a counter over all threads, dead ones included. -/
def lifetime (s : State) (c : Counter) : Nat :=
  total (s.counter c) s.registry.live + total c.of s.registry.retired

end State

inductive Event where
  | register (t allocator : Nat)
  | retire (t : Nat)
  | call (t : Nat) (call : Call)
  | update (t : Nat) (u : Update)
  | begin
  | read (t : Nat)
  | finish

/-- Threads come and go, enter the recording calls and write their fields one by one, while
`global_stats` reads. A block is recorded as freed only after it has been recorded. -/
inductive Step : State → Event → State → Prop
  | register {s : State} {t allocator : Nat} (unlocked : s.reader.Unlocked)
      (fresh : t ∉ s.registry.live) :
      Step s (.register t allocator)
        { s.setOwner t ⟨Stats.zero, [], 0⟩ with
          registry := s.registry.registerStats t allocator }
  | retire {s : State} {t : Nat} (unlocked : s.reader.Unlocked)
      (listed : t ∈ s.registry.live) (idle : (s.owners t).pending = []) :
      Step s (.retire t) { s with registry := s.registry.retireStats t (s.owners t).stats }
  | recordAlloc {s : State} {t req got : Nat} (listed : t ∈ s.registry.live)
      (idle : (s.owners t).pending = []) (covers : req ≤ got) :
      Step s (.call t (.recordAlloc req got))
        (s.setOwner t ⟨(s.owners t).stats, (Call.recordAlloc req got).updates,
          (s.owners t).out + 1⟩)
  | recordFree {s : State} {t req got out : Nat} (listed : t ∈ s.registry.live)
      (idle : (s.owners t).pending = []) (covers : req ≤ got)
      (held : (s.owners t).out = out + 1) :
      Step s (.call t (.recordFree req got))
        (s.setOwner t ⟨(s.owners t).stats, (Call.recordFree req got).updates, out⟩)
  | update {s : State} {t : Nat} {u : Update} {rest : List Update}
      (next : (s.owners t).pending = u :: rest) :
      Step s (.update t u)
        { s.setOwner t ⟨u.apply (s.owners t).stats, rest, (s.owners t).out⟩ with
          reader := s.reader.noticed t u }
  | begin {s : State} (unlocked : s.reader.Unlocked) :
      Step s .begin { s with reader := .summing (.start s.registry.live) }
  | read {s : State} {x : Sum} {t : Nat} {rest : List Nat} (summing : s.reader = .summing x)
      (current : x.todo = t :: rest) :
      Step s (.read t) { s with reader := .summing (x.read (s.owners t).stats) }
  | finish {s : State} {x : Sum} (summing : s.reader = .summing x) (all : x.todo = [])
      (between : x.field = .counter .requested) :
      Step s .finish { s with reader := .returned (s.registry.retired.foldl addStats x.total) }

/-- No lifetime total wraps; `allocated` of a thread is not read as long as the bytes that put
its `requested` ahead, when that was read, are still to be added; and between the reads of its
two counts a thread records no more frees than it had blocks out at the first. -/
def Clean (s : State) : Event → Prop
  | .update t u =>
      (∀ c, s.lifetime c + u.amount c < Words.radix) ∧
        ∀ x, s.reader = .summing x → x.field = .counter .freeCount → x.todo.head? = some t →
          u.amount .freeCount ≤ x.spare
  | .read _ => ∀ x, s.reader = .summing x → x.field = .counter .allocated → x.torn = false
  | _ => True

/-- What the reader of a total relies on. -/
structure Sensible (g : Stats) : Prop where
  sizes : g.requested ≤ g.allocated
  counts : g.freeCount ≤ g.allocCount
  word : g.allocated < Words.radix

/-- What the pending writes of a call add to a counter. -/
def owed (c : Counter) (pending : List Update) : Nat := total (Update.amount c) pending

/-- How far `requested` and the counts of a thread can be from its other counters. -/
structure Orderly (o : Owner) : Prop where
  inCall : o.pending = [] ∨ ∃ call : Call, call.covers ∧ o.pending <:+ call.updates
  ratio : o.stats.requested ≤ o.stats.allocated ∨
    ∃ got rest, o.pending = .add .allocated got :: rest ∧
      o.stats.requested ≤ o.stats.allocated + got
  counts : o.stats.allocCount + owed .allocCount o.pending =
    o.stats.freeCount + owed .freeCount o.pending + o.out
  recording : owed .allocCount o.pending ≤ o.out

section Owners

variable {o : Owner} {u : Update} {rest : List Update}

@[simp] theorem owed_cons (c : Counter) (u : Update) (rest : List Update) :
    owed c (u :: rest) = u.amount c + owed c rest := Totals.total_cons _ _ _

theorem Orderly.new : Orderly ⟨Stats.zero, [], 0⟩ :=
  ⟨Or.inl rfl, Or.inl (Nat.le_refl _), rfl, Nat.le_refl _⟩

/-- A pending write of `requested` is followed by one of `allocated` that covers it. -/
theorem Orderly.requested_next {n : Nat} (orderly : Orderly o)
    (next : o.pending = .add .requested n :: rest) :
    ∃ got rest', rest = .add .allocated got :: rest' ∧ n ≤ got := by
  rcases orderly.inCall with none | ⟨call, covers, suffix⟩
  · rw [none] at next
    cases next
  · rw [next] at suffix
    cases call with
    | recordAlloc req got =>
        simp only [Call.updates, List.suffix_cons_iff, List.suffix_nil] at suffix
        simp at suffix
        obtain ⟨rfl, rfl⟩ := suffix
        exact ⟨got, _, rfl, covers⟩
    | recordFree req got =>
        simp only [Call.updates, List.suffix_cons_iff, List.suffix_nil] at suffix
        simp at suffix
        obtain ⟨rfl, rfl⟩ := suffix
        exact ⟨got, _, rfl, covers⟩

theorem Orderly.idle (orderly : Orderly o) (idle : o.pending = []) :
    o.stats.requested ≤ o.stats.allocated ∧ o.stats.allocCount = o.stats.freeCount + o.out := by
  obtain ⟨_, ratio, counts, _⟩ := orderly
  rw [idle] at ratio counts
  constructor
  · rcases ratio with below | ⟨got, rest, pending, _⟩
    · exact below
    · cases pending
  · exact counts

theorem Orderly.frees_le (orderly : Orderly o) :
    o.stats.freeCount + owed .freeCount o.pending ≤ o.stats.allocCount := by
  have counts := orderly.counts
  have recording := orderly.recording
  omega

theorem Orderly.update (orderly : Orderly o) (next : o.pending = u :: rest)
    (room : ∀ c : Counter, c.of o.stats + u.amount c < Words.radix) :
    Orderly ⟨u.apply o.stats, rest, o.out⟩ := by
  have value : ∀ c : Counter, c.of (u.apply o.stats) = c.of o.stats + u.amount c :=
    fun c => c.of_apply (room c)
  have counts := orderly.counts
  have recording := orderly.recording
  rw [next, owed_cons, owed_cons] at counts
  rw [next, owed_cons] at recording
  have allocs := value .allocCount
  have frees := value .freeCount
  have requested := value .requested
  have allocated := value .allocated
  simp only [Counter.of] at allocs frees requested allocated
  constructor
  · rcases orderly.inCall with none | ⟨call, covers, suffix⟩
    · rw [none] at next
      cases next
    · rw [next] at suffix
      exact Or.inr ⟨call, covers, (List.suffix_cons _ _).trans suffix⟩
  · show (u.apply o.stats).requested ≤ (u.apply o.stats).allocated ∨ _
    rw [requested, allocated]
    rcases orderly.ratio with below | ⟨got, rest', pending, below⟩
    · by_cases first : ∃ n, u = .add .requested n
      · obtain ⟨n, rfl⟩ := first
        obtain ⟨got, rest', rfl, covers⟩ := orderly.requested_next next
        refine Or.inr ⟨got, rest', rfl, ?_⟩
        show o.stats.requested + n ≤ o.stats.allocated + 0 + got
        omega
      · left
        have none : u.amount .requested = 0 := by
          cases u with
          | add c n =>
              cases c with
              | requested => exact absurd ⟨n, rfl⟩ first
              | allocated => rfl
              | allocCount => rfl
              | freeCount => rfl
          | liveUp n => rfl
          | liveDown n => rfl
          | peak => rfl
        omega
    · left
      rw [next] at pending
      cases pending
      show o.stats.requested + 0 ≤ o.stats.allocated + got
      omega
  · show (u.apply o.stats).allocCount + owed .allocCount rest =
      (u.apply o.stats).freeCount + owed .freeCount rest + o.out
    rw [allocs, frees]
    omega
  · show owed .allocCount rest ≤ o.out
    omega

theorem Orderly.recordAlloc {req got : Nat} (orderly : Orderly o) (idle : o.pending = [])
    (covers : req ≤ got) :
    Orderly ⟨o.stats, (Call.recordAlloc req got).updates, o.out + 1⟩ := by
  obtain ⟨below, counts⟩ := orderly.idle idle
  refine ⟨Or.inr ⟨.recordAlloc req got, covers, List.suffix_rfl⟩, Or.inl below, ?_, ?_⟩
  · show o.stats.allocCount + 1 = o.stats.freeCount + 0 + (o.out + 1)
    omega
  · show 1 ≤ o.out + 1
    omega

theorem Orderly.recordFree {req got out : Nat} (orderly : Orderly o) (idle : o.pending = [])
    (covers : req ≤ got) (held : o.out = out + 1) :
    Orderly ⟨o.stats, (Call.recordFree req got).updates, out⟩ := by
  obtain ⟨below, counts⟩ := orderly.idle idle
  refine ⟨Or.inr ⟨.recordFree req got, covers, List.suffix_rfl⟩, Or.inl below, ?_,
    Nat.zero_le _⟩
  show o.stats.allocCount + 0 = o.stats.freeCount + 1 + out
  omega

end Owners

/-- The counters of the head that are still to be read. -/
def awaits : Field → Counter → Bool
  | .counter .requested, _ => true
  | .counter .allocated, c => c != .requested
  | .counter .allocCount, c => c == .allocCount || c == .freeCount
  | .counter .freeCount, c => c == .freeCount
  | .peakTest, _ => false
  | .peakTake, _ => false

def Sum.unread (x : Sum) (c : Counter) : List Nat :=
  if awaits x.field c then x.todo else x.todo.tail

/-- What a running total is worth: it stays below the sums of the live threads, and its two
pairs are in order except between the reads of a pair. -/
structure Reading (s : State) (x : Sum) : Prop where
  listed : x.todo <:+ s.registry.live
  below : ∀ c, c.of x.total + total (s.counter c) (x.unread c) ≤
    total (s.counter c) s.registry.live
  sizes : x.field ≠ .counter .allocated → x.total.requested ≤ x.total.allocated
  ahead : x.field = .counter .allocated → ∀ t rest, x.todo = t :: rest → x.torn = true →
    x.total.requested ≤ x.total.allocated + (s.owners t).stats.requested ∧
      ∃ got rest', (s.owners t).pending = .add .allocated got :: rest'
  level : x.field = .counter .allocated → ∀ t rest, x.todo = t :: rest → x.torn = false →
    x.total.requested ≤ x.total.allocated + (s.owners t).stats.allocated
  counts : x.field ≠ .counter .freeCount → x.total.freeCount ≤ x.total.allocCount
  spared : x.field = .counter .freeCount → ∀ t rest, x.todo = t :: rest →
    x.total.freeCount + (s.owners t).stats.freeCount + x.spare ≤ x.total.allocCount

structure Inv (s : State) : Prop where
  orderly : ∀ t ∈ s.registry.live, Orderly (s.owners t)
  busy : ∀ t u rest, (s.owners t).pending = u :: rest → t ∈ s.registry.live
  nodup : s.registry.live.Nodup
  retired : ∀ r ∈ s.registry.retired, r.requested ≤ r.allocated ∧ r.freeCount ≤ r.allocCount
  room : ∀ c, s.lifetime c < Words.radix
  reading : ∀ x, s.reader = .summing x → Reading s x
  returned : ∀ g, s.reader = .returned g → Sensible g

section Steps

variable {s : State} {t : Nat} {x : Sum}

@[simp] theorem setOwner_same (s : State) (t : Nat) (o : Owner) :
    (s.setOwner t o).owners t = o := Function.update_self _ _ _

theorem setOwner_other (s : State) {t r : Nat} (o : Owner) (different : r ≠ t) :
    (s.setOwner t o).owners r = s.owners r := Function.update_of_ne different _ _

theorem counter_other (s : State) (c : Counter) {t r : Nat} (o : Owner) (different : r ≠ t) :
    (s.setOwner t o).counter c r = s.counter c r := by
  unfold State.counter
  rw [setOwner_other s o different]

/-- When one thread's counter grows, so does every sum it is part of. -/
theorem total_setOwner {o : Owner} {c : Counter} {k : Nat} {xs : List Nat} (distinct : xs.Nodup)
    (grown : c.of o.stats = s.counter c t + k) :
    total ((s.setOwner t o).counter c) xs =
      total (s.counter c) xs + if t ∈ xs then k else 0 := by
  have others : ∀ r ∈ xs, r ≠ t → (s.setOwner t o).counter c r = s.counter c r :=
    fun r _ different => counter_other s c o different
  by_cases member : t ∈ xs
  · rw [if_pos member]
    apply Totals.total_add distinct member _ others
    unfold State.counter at *
    rw [setOwner_same, grown]
  · rw [if_neg member]
    apply Totals.total_congr
    intro r listed
    apply others r listed
    rintro rfl
    exact member listed

theorem total_setOwner_absent {o : Owner} {c : Counter} {xs : List Nat} (absent : t ∉ xs) :
    total ((s.setOwner t o).counter c) xs = total (s.counter c) xs := by
  apply Totals.total_congr
  intro r listed
  apply counter_other
  rintro rfl
  exact absent listed

theorem live_retireStats {r : StatsRegistry} (snapshot : Stats) (listed : t ∈ r.live) :
    (r.retireStats t snapshot).live = r.live.erase t ∧
      (r.retireStats t snapshot).retired = r.retired ++ [snapshot] := by
  have inside : r.live.idxOf t < r.live.length := List.idxOf_lt_length_of_mem listed
  unfold StatsRegistry.retireStats
  simp only [inside, ↓reduceIte]
  exact ⟨(List.erase_eq_eraseIdx_of_idxOf rfl).symm, trivial⟩

theorem Inv.initial : Inv State.initial := by
  constructor
  · intro t listed
    cases listed
  · intro t u rest next
    cases next
  · exact List.nodup_nil
  · intro r listed
    cases listed
  · intro c
    show (0 : Nat) < Words.radix
    decide
  · intro x summing
    cases summing
  · intro g returned
    cases returned

theorem Reader.Unlocked.not_summing {r : Reader} (unlocked : r.Unlocked) :
    r ≠ .summing x := by
  rintro rfl
  exact unlocked

theorem Inv.register {allocator : Nat} (inv : Inv s) (unlocked : s.reader.Unlocked)
    (fresh : t ∉ s.registry.live) :
    Inv { s.setOwner t ⟨Stats.zero, [], 0⟩ with
      registry := s.registry.registerStats t allocator } := by
  constructor
  · intro r listed
    by_cases same : r = t
    · subst same
      show Orderly ((s.setOwner r ⟨Stats.zero, [], 0⟩).owners r)
      rw [setOwner_same]
      exact Orderly.new
    · show Orderly ((s.setOwner t ⟨Stats.zero, [], 0⟩).owners r)
      rw [setOwner_other s _ same]
      rcases List.mem_append.mp listed with old | new
      · exact inv.orderly r old
      · exact absurd (List.mem_singleton.mp new) same
  · intro r u rest next
    by_cases same : r = t
    · subst same
      exact List.mem_append_right _ List.mem_cons_self
    · replace next : ((s.setOwner t ⟨Stats.zero, [], 0⟩).owners r).pending = u :: rest := next
      rw [setOwner_other s _ same] at next
      exact List.mem_append_left _ (inv.busy r u rest next)
  · apply List.nodup_append'.mpr
    exact ⟨inv.nodup, List.nodup_singleton t, List.disjoint_singleton.mpr fresh⟩
  · exact inv.retired
  · intro c
    have zero : (s.setOwner t ⟨Stats.zero, [], 0⟩).counter c t = 0 := by
      unfold State.counter
      rw [setOwner_same]
      cases c <;> rfl
    have before := inv.room c
    unfold State.lifetime at before
    show total ((s.setOwner t ⟨Stats.zero, [], 0⟩).counter c) (s.registry.live ++ [t]) +
      total c.of s.registry.retired < Words.radix
    rw [Totals.total_append, total_setOwner_absent fresh, Totals.total_cons, Totals.total_nil,
      zero]
    exact before
  · intro x summing
    exact absurd summing unlocked.not_summing
  · exact inv.returned

theorem Inv.retire (inv : Inv s) (unlocked : s.reader.Unlocked) (listed : t ∈ s.registry.live)
    (idle : (s.owners t).pending = []) :
    Inv { s with registry := s.registry.retireStats t (s.owners t).stats } := by
  obtain ⟨live, retired⟩ := live_retireStats (s.owners t).stats listed
  have subset : ∀ r ∈ s.registry.live.erase t, r ∈ s.registry.live :=
    fun r member => List.mem_of_mem_erase member
  constructor
  · intro r member
    apply inv.orderly r
    exact subset r (live ▸ member)
  · intro r u rest next
    show r ∈ (s.registry.retireStats t (s.owners t).stats).live
    rw [live]
    apply (List.mem_erase_of_ne _).mpr (inv.busy r u rest next)
    rintro rfl
    rw [idle] at next
    cases next
  · show (s.registry.retireStats t (s.owners t).stats).live.Nodup
    rw [live]
    exact inv.nodup.erase t
  · intro r member
    replace member : r ∈ (s.registry.retireStats t (s.owners t).stats).retired := member
    rw [retired] at member
    rcases List.mem_append.mp member with old | new
    · exact inv.retired r old
    · obtain rfl := List.mem_singleton.mp new
      obtain ⟨below, counts⟩ := (inv.orderly t listed).idle idle
      exact ⟨below, by omega⟩
  · intro c
    have before := inv.room c
    have moved := Totals.total_perm (f := s.counter c) (List.perm_cons_erase listed)
    unfold State.lifetime at before
    show total (s.counter c) (s.registry.retireStats t (s.owners t).stats).live +
      total c.of (s.registry.retireStats t (s.owners t).stats).retired < Words.radix
    rw [live, retired, Totals.total_append, Totals.total_cons, Totals.total_nil]
    rw [moved, Totals.total_cons] at before
    unfold State.counter at *
    omega
  · intro x summing
    exact absurd summing unlocked.not_summing
  · exact inv.returned

theorem Inv.call {o : Owner} (inv : Inv s) (listed : t ∈ s.registry.live)
    (idle : (s.owners t).pending = []) (same : o.stats = (s.owners t).stats)
    (orderly : Orderly o) : Inv (s.setOwner t o) := by
  have counter : ∀ c, (s.setOwner t o).counter c = s.counter c := by
    intro c
    funext r
    by_cases here : r = t
    · subst here
      unfold State.counter
      rw [setOwner_same, same]
    · exact counter_other s c o here
  constructor
  · intro r member
    by_cases here : r = t
    · subst here
      rw [setOwner_same]
      exact orderly
    · rw [setOwner_other s o here]
      exact inv.orderly r member
  · intro r u rest next
    by_cases here : r = t
    · subst here
      exact listed
    · rw [setOwner_other s o here] at next
      exact inv.busy r u rest next
  · exact inv.nodup
  · exact inv.retired
  · intro c
    have before := inv.room c
    unfold State.lifetime at *
    rw [counter c]
    exact before
  · intro x summing
    have reading := inv.reading x summing
    have stats : ∀ r, ((s.setOwner t o).owners r).stats = (s.owners r).stats := by
      intro r
      by_cases here : r = t
      · subst here
        rw [setOwner_same, same]
      · rw [setOwner_other s o here]
    constructor
    · exact reading.listed
    · intro c
      rw [counter c]
      exact reading.below c
    · exact reading.sizes
    · intro field r rest current torn
      obtain ⟨ahead, got, rest', next⟩ := reading.ahead field r rest current torn
      have busy : r ≠ t := by
        rintro rfl
        rw [idle] at next
        cases next
      rw [setOwner_other s o busy]
      exact ⟨ahead, got, rest', next⟩
    · intro field r rest current level
      rw [stats]
      exact reading.level field r rest current level
    · exact reading.counts
    · intro field r rest current
      rw [stats]
      exact reading.spared field r rest current
  · exact inv.returned

section Noticed

variable {u : Update} {rest : List Update}

@[simp] theorem Sum.noticed_total : (x.noticed t u).total = x.total := by
  unfold Sum.noticed
  split <;> rfl

@[simp] theorem Sum.noticed_todo : (x.noticed t u).todo = x.todo := by
  unfold Sum.noticed
  split <;> rfl

@[simp] theorem Sum.noticed_field : (x.noticed t u).field = x.field := by
  unfold Sum.noticed
  split <;> rfl

@[simp] theorem Sum.noticed_unread (c : Counter) : (x.noticed t u).unread c = x.unread c := by
  unfold Sum.unread
  rw [Sum.noticed_field, Sum.noticed_todo]

theorem Sum.noticed_head {rest : List Nat} (current : x.todo = t :: rest) :
    x.noticed t u = { x with
      torn := x.torn && !u.adds .allocated
      spare := x.spare - u.amount .freeCount } := by
  unfold Sum.noticed
  rw [current, List.head?_cons, if_pos rfl]

theorem Sum.noticed_other {r : Nat} {rest : List Nat} (current : x.todo = r :: rest)
    (different : r ≠ t) : x.noticed t u = x := by
  unfold Sum.noticed
  rw [current, List.head?_cons, if_neg]
  intro same
  exact different (Option.some.inj same)

/-- The live sums grow at least as much as what is left to be read of them. -/
theorem Reading.update_below {o : Owner} (reading : Reading s x) (inv : Inv s)
    (listed : t ∈ s.registry.live) {c : Counter} {k : Nat}
    (grown : c.of o.stats = s.counter c t + k) :
    c.of x.total + total ((s.setOwner t o).counter c) (x.unread c) ≤
      total ((s.setOwner t o).counter c) s.registry.live := by
  have distinct : (x.unread c).Nodup := by
    unfold Sum.unread
    split
    · exact inv.nodup.sublist reading.listed.sublist
    · exact (inv.nodup.sublist reading.listed.sublist).tail
  have below := reading.below c
  rw [total_setOwner distinct grown, total_setOwner inv.nodup grown, if_pos listed]
  split <;> omega

/-- While `requested` is ahead, the thread's next write is the one that makes up for it. -/
theorem Reading.update_torn {r : Nat} {rest' : List Nat} (reading : Reading s x)
    (between : x.field = .counter .allocated) (current : x.todo = r :: rest')
    (next : (s.owners r).pending = u :: rest) : (x.noticed r u).torn = false := by
  rw [Sum.noticed_head current]
  cases torn : x.torn with
  | false => rfl
  | true =>
      obtain ⟨_, got, rest₂, pending⟩ := reading.ahead between r rest' current torn
      rw [next] at pending
      cases pending
      rfl

theorem Reading.update_level {r : Nat} {rest' : List Nat} (reading : Reading s x) (inv : Inv s)
    (between : x.field = .counter .allocated) (current : x.todo = r :: rest')
    (listed : r ∈ s.registry.live) (next : (s.owners r).pending = u :: rest) :
    x.total.requested ≤
      x.total.allocated + ((s.owners r).stats.allocated + u.amount .allocated) := by
  cases torn : x.torn with
  | false =>
      have low := reading.level between r rest' current torn
      omega
  | true =>
      obtain ⟨ahead, got, rest₂, pending⟩ := reading.ahead between r rest' current torn
      rcases (inv.orderly r listed).ratio with low | ⟨got', rest₃, again, low⟩
      · omega
      · rw [next] at pending again
        cases pending
        cases again
        show _ ≤ x.total.allocated + ((s.owners r).stats.allocated + got)
        omega

/-- A write shows to the reader only through the counters at the head. -/
theorem Reading.update (reading : Reading s x) (inv : Inv s)
    (next : (s.owners t).pending = u :: rest)
    (room : ∀ c, s.counter c t + u.amount c < Words.radix)
    (clean : x.field = .counter .freeCount → x.todo.head? = some t →
      u.amount .freeCount ≤ x.spare) :
    Reading (s.setOwner t ⟨u.apply (s.owners t).stats, rest, (s.owners t).out⟩)
      (x.noticed t u) := by
  have listed := inv.busy t u rest next
  have value : ∀ c : Counter, c.of (u.apply (s.owners t).stats) =
      s.counter c t + u.amount c := fun c => c.of_apply (room c)
  have allocated := value .allocated
  have frees := value .freeCount
  simp only [Counter.of, State.counter] at allocated frees
  constructor
  · rw [Sum.noticed_todo]
    exact reading.listed
  · intro c
    rw [Sum.noticed_total, Sum.noticed_unread]
    exact reading.update_below inv listed (value c)
  · rw [Sum.noticed_field, Sum.noticed_total]
    exact reading.sizes
  · rw [Sum.noticed_field, Sum.noticed_todo, Sum.noticed_total]
    intro between r rest' current torn
    by_cases here : r = t
    · subst here
      rw [reading.update_torn between current next] at torn
      cases torn
    · rw [Sum.noticed_other current here] at torn
      rw [setOwner_other s _ here]
      exact reading.ahead between r rest' current torn
  · rw [Sum.noticed_field, Sum.noticed_todo, Sum.noticed_total]
    intro between r rest' current level
    by_cases here : r = t
    · subst here
      rw [setOwner_same]
      show x.total.requested ≤ x.total.allocated + (u.apply (s.owners r).stats).allocated
      rw [allocated]
      exact reading.update_level inv between current listed next
    · rw [Sum.noticed_other current here] at level
      rw [setOwner_other s _ here]
      exact reading.level between r rest' current level
  · rw [Sum.noticed_field, Sum.noticed_total]
    exact reading.counts
  · rw [Sum.noticed_field, Sum.noticed_todo, Sum.noticed_total]
    intro between r rest' current
    have spared := reading.spared between r rest' current
    by_cases here : r = t
    · subst here
      have enough := clean between (by rw [current, List.head?_cons])
      rw [setOwner_same, Sum.noticed_head current]
      show x.total.freeCount + (u.apply (s.owners r).stats).freeCount +
        (x.spare - u.amount .freeCount) ≤ x.total.allocCount
      rw [frees]
      omega
    · rw [Sum.noticed_other current here, setOwner_other s _ here]
      exact spared

end Noticed

theorem counter_le_lifetime (s : State) (c : Counter) (listed : t ∈ s.registry.live) :
    s.counter c t ≤ s.lifetime c := by
  have below := Totals.le_total (s.counter c) listed
  unfold State.lifetime
  omega

theorem Inv.update {u : Update} {rest : List Update} (inv : Inv s)
    (next : (s.owners t).pending = u :: rest) (clean : Clean s (.update t u)) :
    Inv { s.setOwner t ⟨u.apply (s.owners t).stats, rest, (s.owners t).out⟩ with
      reader := s.reader.noticed t u } := by
  have listed := inv.busy t u rest next
  obtain ⟨lifetime, counting⟩ := clean
  have room : ∀ c, s.counter c t + u.amount c < Words.radix := by
    intro c
    have below := counter_le_lifetime s c listed
    have fits := lifetime c
    omega
  constructor
  · intro r member
    by_cases here : r = t
    · subst here
      show Orderly ((s.setOwner r _).owners r)
      rw [setOwner_same]
      exact (inv.orderly r listed).update next room
    · show Orderly ((s.setOwner t _).owners r)
      rw [setOwner_other s _ here]
      exact inv.orderly r member
  · intro r v rest' pending
    by_cases here : r = t
    · subst here
      exact listed
    · replace pending : ((s.setOwner t ⟨u.apply (s.owners t).stats, rest,
        (s.owners t).out⟩).owners r).pending = v :: rest' := pending
      rw [setOwner_other s _ here] at pending
      exact inv.busy r v rest' pending
  · exact inv.nodup
  · exact inv.retired
  · intro c
    have grown : c.of (Owner.mk (u.apply (s.owners t).stats) rest (s.owners t).out).stats =
        s.counter c t + u.amount c := c.of_apply (room c)
    have sum := total_setOwner inv.nodup grown
    rw [if_pos listed] at sum
    have fits := lifetime c
    unfold State.lifetime at fits
    show total ((s.setOwner t ⟨u.apply (s.owners t).stats, rest, (s.owners t).out⟩).counter c)
      s.registry.live + total c.of s.registry.retired < Words.radix
    rw [sum]
    omega
  · intro x' summing
    cases reader : s.reader with
    | idle =>
        rw [reader] at summing
        cases summing
    | summing x =>
        rw [reader] at summing
        cases summing
        have reading := (inv.reading x reader).update inv next room
          (fun between head => counting x reader between head)
        exact ⟨reading.listed, reading.below, reading.sizes, reading.ahead, reading.level,
          reading.counts, reading.spared⟩
    | returned g =>
        rw [reader] at summing
        cases summing
  · intro g returned
    cases reader : s.reader with
    | idle =>
        rw [reader] at returned
        cases returned
    | summing x =>
        rw [reader] at returned
        cases returned
    | returned g' =>
        rw [reader] at returned
        cases returned
        exact inv.returned g reader

theorem Reading.start (s : State) : Reading s (.start s.registry.live) := by
  constructor
  · exact List.suffix_rfl
  · intro c
    have zero : c.of Stats.zero = 0 := by cases c <;> rfl
    show c.of Stats.zero + total (s.counter c) s.registry.live ≤ _
    omega
  · intro _
    exact Nat.le_refl _
  · intro field
    cases field
  · intro field
    cases field
  · intro _
    exact Nat.le_refl _
  · intro field
    cases field

section ReadCounter

variable {c d : Counter} {stats : Stats} {rest : List Nat}

theorem Sum.read_counter (field : x.field = .counter c) :
    x.read stats = { x with
      total := x.total.bump c (c.of stats)
      field := nextField c
      torn := if c = .requested then decide (stats.allocated < stats.requested) else x.torn
      spare := if c = .allocCount then stats.allocCount - stats.freeCount else x.spare } := by
  unfold Sum.read
  rw [field]

theorem Sum.unread_current (field : x.field = .counter c) (current : x.todo = t :: rest) :
    x.unread c = t :: rest := by
  unfold Sum.unread
  rw [field, current]
  cases c <;> rfl

theorem Sum.unread_read (field : x.field = .counter c) (current : x.todo = t :: rest) :
    (x.read stats).unread c = rest := by
  rw [Sum.read_counter field]
  unfold Sum.unread
  dsimp only
  rw [current]
  cases c <;> rfl

theorem Sum.unread_read_other (field : x.field = .counter c) (other : d ≠ c) :
    (x.read stats).unread d = x.unread d := by
  rw [Sum.read_counter field]
  unfold Sum.unread
  rw [field]
  cases c <;> cases d <;> first | rfl | exact absurd rfl other

theorem of_bump_other {g : Stats} {n : Nat} (other : d ≠ c) : d.of (g.bump c n) = d.of g := by
  rw [d.of_bump, if_neg other]

/-- The running total does not wrap around when a counter of the head is added. -/
theorem Reading.of_bump (reading : Reading s x) (inv : Inv s) (field : x.field = .counter c)
    (current : x.todo = t :: rest) :
    c.of (x.total.bump c (s.counter c t)) = c.of x.total + s.counter c t := by
  have below := reading.below c
  rw [Sum.unread_current field current, Totals.total_cons] at below
  have fits := inv.room c
  unfold State.lifetime at fits
  rw [c.of_bump, if_pos rfl, Words.add_of_lt (by omega)]

theorem Reading.read_below (reading : Reading s x) (inv : Inv s) (field : x.field = .counter c)
    (current : x.todo = t :: rest) (d : Counter) :
    d.of (x.read (s.owners t).stats).total +
      Totals.total (s.counter d) ((x.read (s.owners t).stats).unread d) ≤
        Totals.total (s.counter d) s.registry.live := by
  have old := reading.below d
  have total : (x.read (s.owners t).stats).total = x.total.bump c (s.counter c t) := by
    rw [Sum.read_counter field]
    rfl
  rw [total]
  by_cases here : d = c
  · subst here
    rw [Sum.unread_current field current, Totals.total_cons] at old
    rw [reading.of_bump inv field current, Sum.unread_read field current]
    omega
  · rw [of_bump_other here, Sum.unread_read_other field here]
    exact old

theorem Reading.head_listed (reading : Reading s x) (current : x.todo = t :: rest) :
    t ∈ s.registry.live :=
  reading.listed.subset (by rw [current]; exact List.mem_cons_self)

/-- Whether `requested` is ahead of `allocated` is seen now. -/
theorem Reading.readRequested (reading : Reading s x) (inv : Inv s)
    (field : x.field = .counter .requested) (current : x.todo = t :: rest) :
    Reading s (x.read (s.owners t).stats) := by
  have below := reading.read_below inv field current
  have orderly := inv.orderly t (reading.head_listed current)
  have sizes := reading.sizes (by rw [field]; decide)
  have grown := reading.of_bump inv field current
  have same := of_bump_other (d := .allocated) (c := .requested) (g := x.total)
    (n := s.counter .requested t) (by decide)
  simp only [Counter.of, State.counter] at grown same
  rw [Sum.read_counter field] at below ⊢
  refine ⟨reading.listed, below, fun other => absurd rfl other, ?_, ?_,
    fun _ => reading.counts (by rw [field]; decide), fun between => (by cases between)⟩
  · intro _ r rest' first torn
    obtain rfl : t = r := (List.cons.inj (current.symm.trans first)).1
    simp only [↓reduceIte, decide_eq_true_eq] at torn
    simp only [Counter.of, grown, same]
    refine ⟨by omega, ?_⟩
    rcases orderly.ratio with low | ⟨got, rest₂, pending, _⟩
    · omega
    · exact ⟨got, rest₂, pending⟩
  · intro _ r rest' first level
    obtain rfl : t = r := (List.cons.inj (current.symm.trans first)).1
    simp only [↓reduceIte, decide_eq_false_iff_not] at level
    simp only [Counter.of, grown, same]
    omega

/-- The sizes are in order again once `allocated` has been read. -/
theorem Reading.readAllocated (reading : Reading s x) (inv : Inv s)
    (field : x.field = .counter .allocated) (current : x.todo = t :: rest)
    (clean : x.torn = false) : Reading s (x.read (s.owners t).stats) := by
  have below := reading.read_below inv field current
  have level := reading.level field t rest current clean
  have grown := reading.of_bump inv field current
  have same := of_bump_other (d := .requested) (c := .allocated) (g := x.total)
    (n := s.counter .allocated t) (by decide)
  simp only [Counter.of, State.counter] at grown same
  rw [Sum.read_counter field] at below ⊢
  refine ⟨reading.listed, below, fun _ => ?_, fun between => (by cases between),
    fun between => (by cases between), fun _ => reading.counts (by rw [field]; decide),
    fun between => (by cases between)⟩
  simp only [Counter.of, grown, same]
  exact level

/-- From now on the frees that the thread records are watched. -/
theorem Reading.readAllocCount (reading : Reading s x) (inv : Inv s)
    (field : x.field = .counter .allocCount) (current : x.todo = t :: rest) :
    Reading s (x.read (s.owners t).stats) := by
  have below := reading.read_below inv field current
  have frees := (inv.orderly t (reading.head_listed current)).frees_le
  have counts := reading.counts (by rw [field]; decide)
  have grown := reading.of_bump inv field current
  have same := of_bump_other (d := .freeCount) (c := .allocCount) (g := x.total)
    (n := s.counter .allocCount t) (by decide)
  simp only [Counter.of, State.counter] at grown same
  rw [Sum.read_counter field] at below ⊢
  refine ⟨reading.listed, below, fun _ => reading.sizes (by rw [field]; decide),
    fun between => (by cases between), fun between => (by cases between),
    fun other => absurd rfl other, ?_⟩
  intro _ r rest' first
  obtain rfl : t = r := (List.cons.inj (current.symm.trans first)).1
  simp only [Counter.of, grown, same, ↓reduceIte]
  omega

theorem Reading.readFreeCount (reading : Reading s x) (inv : Inv s)
    (field : x.field = .counter .freeCount) (current : x.todo = t :: rest) :
    Reading s (x.read (s.owners t).stats) := by
  have below := reading.read_below inv field current
  have spared := reading.spared field t rest current
  have grown := reading.of_bump inv field current
  have same := of_bump_other (d := .allocCount) (c := .freeCount) (g := x.total)
    (n := s.counter .freeCount t) (by decide)
  simp only [Counter.of, State.counter] at grown same
  rw [Sum.read_counter field] at below ⊢
  refine ⟨reading.listed, below, fun _ => reading.sizes (by rw [field]; decide),
    fun between => (by cases between), fun between => (by cases between), fun _ => ?_,
    fun between => (by cases between)⟩
  simp only [Counter.of, grown, same]
  omega

theorem Reading.readCounter (reading : Reading s x) (inv : Inv s) (current : x.todo = t :: rest)
    (field : x.field = .counter c) (clean : c = .allocated → x.torn = false) :
    Reading s (x.read (s.owners t).stats) := by
  cases c with
  | requested => exact reading.readRequested inv field current
  | allocated => exact reading.readAllocated inv field current (clean rfl)
  | allocCount => exact reading.readAllocCount inv field current
  | freeCount => exact reading.readFreeCount inv field current

end ReadCounter

/-- Reading the peak, or leaving the head. -/
theorem Reading.readPeak (reading : Reading s x)
    (field : x.field = .peakTest ∨ x.field = .peakTake) (peak : Nat) (todo : List Nat)
    (next : Field) (moved : todo = x.todo ∧ next = .peakTake ∨
      todo = x.todo.tail ∧ next = .counter .requested) :
    Reading s { x with
      total := { x.total with peakAllocated := peak }
      todo := todo
      field := next } := by
  have unread : ∀ c, x.unread c = x.todo.tail := by
    intro c
    unfold Sum.unread
    rcases field with same | same <;> rw [same] <;> rfl
  have sizes := reading.sizes (by rcases field with same | same <;> rw [same] <;> decide)
  have counts := reading.counts (by rcases field with same | same <;> rw [same] <;> decide)
  constructor
  · rcases moved with ⟨rfl, _⟩ | ⟨rfl, _⟩
    · exact reading.listed
    · exact (List.tail_suffix _).trans reading.listed
  · intro c
    have below := reading.below c
    rw [unread] at below
    rcases moved with ⟨rfl, rfl⟩ | ⟨rfl, rfl⟩
    · cases c <;> exact below
    · cases c <;> exact below
  · exact fun _ => sizes
  · rcases moved with ⟨_, rfl⟩ | ⟨_, rfl⟩ <;> exact fun between => by cases between
  · rcases moved with ⟨_, rfl⟩ | ⟨_, rfl⟩ <;> exact fun between => by cases between
  · exact fun _ => counts
  · rcases moved with ⟨_, rfl⟩ | ⟨_, rfl⟩ <;> exact fun between => by cases between

theorem Reading.read {rest : List Nat} (reading : Reading s x) (inv : Inv s)
    (current : x.todo = t :: rest) (clean : x.field = .counter .allocated → x.torn = false) :
    Reading s (x.read (s.owners t).stats) := by
  cases field : x.field with
  | counter c =>
      apply reading.readCounter inv current field
      rintro rfl
      exact clean field
  | peakTest =>
      unfold Sum.read
      rw [field]
      dsimp only
      split
      · exact reading.readPeak (Or.inl field) _ _ _ (Or.inl ⟨rfl, rfl⟩)
      · exact reading.readPeak (Or.inl field) _ _ _ (Or.inr ⟨rfl, rfl⟩)
  | peakTake =>
      unfold Sum.read
      rw [field]
      exact reading.readPeak (Or.inr field) _ _ _ (Or.inr ⟨rfl, rfl⟩)

/-- The snapshots of the dead threads complete the total. -/
theorem Reading.finish (reading : Reading s x) (inv : Inv s)
    (between : x.field = .counter .requested) :
    Sensible (s.registry.retired.foldl addStats x.total) := by
  have below : ∀ c : Counter, c.of x.total + total c.of s.registry.retired < Words.radix := by
    intro c
    have live := reading.below c
    have fits := inv.room c
    unfold State.lifetime at fits
    omega
  have sums : ∀ c : Counter, c.of (s.registry.retired.foldl addStats x.total) =
      c.of x.total + total c.of s.registry.retired := by
    intro c
    have fits := below c
    rw [c.of_foldl _ (by omega), Nat.mod_eq_of_lt fits]
  have sizes := reading.sizes (by rw [between]; decide)
  have counts := reading.counts (by rw [between]; decide)
  have deadSizes : total Counter.requested.of s.registry.retired ≤
      total Counter.allocated.of s.registry.retired :=
    Totals.total_mono (fun r listed => (inv.retired r listed).1)
  have deadCounts : total Counter.freeCount.of s.registry.retired ≤
      total Counter.allocCount.of s.registry.retired :=
    Totals.total_mono (fun r listed => (inv.retired r listed).2)
  have requested := sums .requested
  have allocated := sums .allocated
  have allocs := sums .allocCount
  have frees := sums .freeCount
  have word := below .allocated
  simp only [Counter.of] at requested allocated allocs frees word deadSizes deadCounts
  constructor <;> omega

theorem Inv.setReader {r : Reader} (inv : Inv s) (reading : ∀ x, r = .summing x → Reading s x)
    (returned : ∀ g, r = .returned g → Sensible g) : Inv { s with reader := r } := by
  refine ⟨inv.orderly, inv.busy, inv.nodup, inv.retired, inv.room, ?_, returned⟩
  intro x summing
  have same := reading x summing
  exact ⟨same.listed, same.below, same.sizes, same.ahead, same.level, same.counts, same.spared⟩

theorem Inv.step {s' : State} {e : Event} (inv : Inv s) (clean : Clean s e)
    (taken : Step s e s') : Inv s' := by
  cases taken with
  | register unlocked fresh => exact inv.register unlocked fresh
  | retire unlocked listed idle => exact inv.retire unlocked listed idle
  | recordAlloc listed idle covers =>
      exact inv.call listed idle rfl ((inv.orderly _ listed).recordAlloc idle covers)
  | recordFree listed idle covers held =>
      exact inv.call listed idle rfl ((inv.orderly _ listed).recordFree idle covers held)
  | update next => exact inv.update next clean
  | begin unlocked =>
      apply inv.setReader
      · intro x summing
        cases summing
        exact Reading.start s
      · intro g returned
        cases returned
  | @read x t rest summing current =>
      apply inv.setReader
      · intro x' next
        cases next
        exact (inv.reading x summing).read inv current (clean x summing)
      · intro g returned
        cases returned
  | @finish x summing all between =>
      apply inv.setReader
      · intro x' next
        cases next
      · intro g returned
        cases returned
        exact (inv.reading x summing).finish inv between

end Steps

/-- In runs all of whose steps are clean, every total that `global_stats` returns is in order,
and its fragmentation is a fraction, for every way of rounding. -/
theorem totals_sensible {trace : List (Transition State Event)} {s : State}
    (run : Run Step State.initial trace s) (clean : ∀ x ∈ trace, Clean x.before x.event)
    {g : Stats} (returned : s.reader = .returned g) :
    g.requested ≤ g.allocated ∧ g.freeCount ≤ g.allocCount ∧
      Words.sub g.allocated g.requested = g.allocated - g.requested ∧
      ∀ R, 0 ≤ g.internalFragmentation R ∧ g.internalFragmentation R ≤ 1 := by
  have inv : Inv s := run.invariantWhere Inv.initial
    (fun _ _ _ holds cleanly taken => holds.step cleanly taken) clean
  obtain ⟨sizes, counts, word⟩ := inv.returned g returned
  have difference := Words.sub_of_le sizes word
  refine ⟨sizes, counts, difference, ?_⟩
  intro R
  exact (Stats.internalFragmentation_mem R sizes word).2

/-- The totals are taken while a thread records a request for 100 bytes, and each of its sizes
is read after it has been added. -/
theorem totals_sensible_one : ∃ trace s g, Run Step State.initial trace s ∧
    s.reader = .returned g ∧ g.requested = 100 ∧ g.allocated = 128 ∧ g.allocCount = 0 ∧
    (s.owners 0).stats.allocCount = 1 ∧
    ∀ R, 0 ≤ g.internalFragmentation R ∧ g.internalFragmentation R ≤ 1 := by
  let CleanStep := fun s e s' => Step s e s' ∧ Clean s e
  have writes : ∀ {s : State} {u : Update}, u.amount .freeCount = 0 →
      (∀ c, s.lifetime c + u.amount c < Words.radix) → Clean s (.update 0 u) := by
    intro s u none room
    refine ⟨room, fun x _ _ _ => ?_⟩
    rw [none]
    exact Nat.zero_le _
  have reads : ∀ {s : State} {x : Sum}, s.reader = .summing x → x.torn = false →
      Clean s (.read 0) := by
    intro s x reader level x' summing _
    rw [reader] at summing
    cases summing
    exact level
  have run : Run CleanStep State.initial _ _ := .nil
  have run := run.snoc (e := .register 0 0)
    ⟨.register (by trivial) (by decide), by trivial⟩
  have run := run.snoc (e := .call 0 (.recordAlloc 100 128))
    ⟨.recordAlloc (by decide) (by rfl) (by decide), by trivial⟩
  have run := run.snoc ⟨.update (t := 0) rfl, writes rfl (fun c => by cases c <;> decide)⟩
  have run := run.snoc (e := .begin) ⟨.begin (by trivial), by trivial⟩
  have run := run.snoc ⟨.read rfl rfl, reads rfl rfl⟩
  have run := run.snoc ⟨.update (t := 0) rfl, writes rfl (fun c => by cases c <;> decide)⟩
  have run := run.snoc ⟨.read rfl rfl, reads rfl rfl⟩
  have run := run.snoc ⟨.update (t := 0) rfl, writes rfl (fun c => by cases c <;> decide)⟩
  have run := run.snoc ⟨.read rfl rfl, reads rfl rfl⟩
  have run := run.snoc ⟨.update (t := 0) rfl, writes rfl (fun c => by cases c <;> decide)⟩
  have run := run.snoc ⟨.read rfl rfl, reads rfl rfl⟩
  have run := run.snoc ⟨.update (t := 0) rfl, writes rfl (fun c => by cases c <;> decide)⟩
  have run := run.snoc ⟨.read rfl rfl, reads rfl rfl⟩
  have run := run.snoc ⟨.read rfl rfl, reads rfl rfl⟩
  have run := run.snoc (e := .finish) ⟨.finish rfl rfl rfl, by trivial⟩
  have plain := run.mono (fun _ _ _ taken => taken.1)
  refine ⟨_, _, _, plain, rfl, rfl, rfl, rfl, rfl, ?_⟩
  refine (totals_sensible plain ?_ rfl).2.2.2
  intro x member
  obtain ⟨_, _, _, _, _, clean⟩ := run.reached x member
  exact clean

/-- A thread has recorded 16 bytes and has added 1024 to `requested` only, when the totals are
taken. -/
theorem not_always_sensible : ∃ trace s g, Run Step State.initial trace s ∧
    s.reader = .returned g ∧ g.requested = 1040 ∧ g.allocated = 16 ∧
    1 < g.internalFragmentation Rounding.exact := by
  have run : Run Step State.initial _ _ := .nil
  have run := run.snoc (e := .register 0 0) (.register (by trivial) (by decide))
  have run := run.snoc (e := .call 0 (.recordAlloc 16 16))
    (.recordAlloc (by decide) (by rfl) (by decide))
  have run := run.snoc (.update (t := 0) rfl)
  have run := run.snoc (.update (t := 0) rfl)
  have run := run.snoc (.update (t := 0) rfl)
  have run := run.snoc (.update (t := 0) rfl)
  have run := run.snoc (.update (t := 0) rfl)
  have run := run.snoc (e := .call 0 (.recordAlloc 1024 1024))
    (.recordAlloc (by decide) (by rfl) (by decide))
  have run := run.snoc (.update (t := 0) rfl)
  have run := run.snoc (e := .begin) (.begin (by trivial))
  have run := run.snoc (.read rfl rfl)
  have run := run.snoc (.read rfl rfl)
  have run := run.snoc (.read rfl rfl)
  have run := run.snoc (.read rfl rfl)
  have run := run.snoc (.read rfl rfl)
  have run := run.snoc (.read rfl rfl)
  have run := run.snoc (e := .finish) (.finish rfl rfl rfl)
  refine ⟨_, _, _, run, rfl, rfl, rfl, ?_⟩
  show (1 : ℚ) < (((18446744073709550592 : ℕ) : ℚ)) / (((16 : ℕ) : ℚ))
  norm_num

end TornTotals

end MemAlloc
