import MemAlloc.Fragmentation
import MemAlloc.Lib.Rings
import MemAlloc.RegistrySafety

set_option autoImplicit false

namespace MemAlloc

open Malloc (Heap)
open Runs (Run Transition)

/-- The variables that `main` keeps between frames for the Global Stats window. Entries of
`history` and the two times are floating-point numbers. -/
structure GlobalStatsWindow where
  history : Nat → ℚ
  historyCount : Nat
  opsPerSec : ℚ
  prevOps : Nat
  prevTime : ℚ

namespace GlobalStatsWindow

/-- Slots of `history`. -/
def slots : Nat := 240

def initial : GlobalStatsWindow := ⟨fun _ => 0, 0, 0, 0, 0⟩

/-- The smoothed rate, at the time that `ImGui::GetTime()` returns. -/
def readOps (R : Rounding) (gs : Stats) (time : ℚ) (w : GlobalStatsWindow) : GlobalStatsWindow :=
  let ops := Words.add gs.allocCount gs.freeCount
  let dt := R.round (time - w.prevTime)
  if R.round (1 / 20) < dt then
    let raw := R.round (R.round (Words.sub ops w.prevOps : ℕ) / dt)
    { w with
      opsPerSec :=
        if w.prevTime = 0 then raw
        else R.round (R.round (w.opsPerSec * R.round (9 / 10)) + R.round (raw * R.round (1 / 10)))
      prevOps := ops
      prevTime := time }
  else w

/-- Stores the sample of a frame. The count is an `int`: its increment is not defined at the
largest one. -/
def sample (F : Rounding) (gs : Stats) (w : GlobalStatsWindow) : Option GlobalStatsWindow :=
  if w.historyCount + 1 < 2147483648 then
    some { w with
      history := Function.update w.history (w.historyCount % slots) (F.round (gs.allocated : ℕ))
      historyCount := w.historyCount + 1 }
  else none

/-- What a frame does with the statistics it has read: `R` rounds to `double`, `F` to `float`. -/
def draw (R F : Rounding) (gs : Stats) (time : ℚ) (w : GlobalStatsWindow) :
    Option GlobalStatsWindow :=
  (w.readOps R gs time).sample F gs

/-- The values of the plot, from left to right: `history` as a circular buffer. -/
def plotted (w : GlobalStatsWindow) : List ℚ :=
  Rings.window slots w.history (w.historyCount % slots) slots

@[simp] theorem readOps_history (R : Rounding) (gs : Stats) (time : ℚ) (w : GlobalStatsWindow) :
    (w.readOps R gs time).history = w.history := by
  rw [readOps]
  split <;> rfl

@[simp] theorem readOps_historyCount (R : Rounding) (gs : Stats) (time : ℚ)
    (w : GlobalStatsWindow) : (w.readOps R gs time).historyCount = w.historyCount := by
  rw [readOps]
  split <;> rfl

/-- A rate is never negative: the count of calls is one of `size_t` values, and the time
passed is positive. -/
theorem readOps_rate (R : Rounding) (gs : Stats) (time : ℚ) {w : GlobalStatsWindow}
    (rate : 0 ≤ w.opsPerSec) : 0 ≤ (w.readOps R gs time).opsPerSec := by
  have up : ∀ {x : ℚ}, 0 ≤ x → 0 ≤ R.round x := by
    intro x positive
    rw [← R.zero]
    exact R.monotone positive
  rw [readOps]
  split
  · rename_i later
    have passed : 0 ≤ R.round (time - w.prevTime) :=
      le_of_lt (lt_of_le_of_lt (up (by positivity)) later)
    have raw : 0 ≤ R.round (R.round (Words.sub (Words.add gs.allocCount gs.freeCount)
        w.prevOps : ℕ) / R.round (time - w.prevTime)) :=
      up (div_nonneg (up (Nat.cast_nonneg _)) passed)
    dsimp only
    split
    · exact raw
    · exact up (add_nonneg (up (mul_nonneg rate (up (by positivity))))
        (up (mul_nonneg raw (up (by positivity)))))
  · exact rate

/-- The calls counted at the last reading are at most those counted now. -/
theorem readOps_prevOps (R : Rounding) {gs : Stats} (time : ℚ) {w : GlobalStatsWindow}
    (word : gs.allocCount + gs.freeCount < Words.radix)
    (before : w.prevOps ≤ gs.allocCount + gs.freeCount) :
    (w.readOps R gs time).prevOps ≤ gs.allocCount + gs.freeCount := by
  rw [readOps]
  split
  · exact Nat.le_of_eq (Words.add_of_lt word)
  · exact before

end GlobalStatsWindow

/-- The program with its Global Stats window. -/
structure Display where
  process : Process
  window : GlobalStatsWindow

namespace Display

def initial (m : ByteMemory) (h : Heap Owner) : Display :=
  ⟨Process.initial m h, GlobalStatsWindow.initial⟩

inductive Event where
  | process (e : Process.Event)
  | frame (time : ℚ) (gs : Stats)

/-- A step of the program, or one frame with the statistics it displays. -/
inductive Step (P : Platform) (offset : Nat) (R F : Rounding) : Display → Event → Display → Prop
  | process {s : Display} {e : Process.Event} {process' : Process}
      (taken : Process.Step P offset s.process e process') :
      Step P offset R F s (.process e) { s with process := process' }
  | frame {s : Display} {time : ℚ} {window' : GlobalStatsWindow}
      (drawn : s.window.draw R F (s.process.registry.globalStats (s.process.read offset)) time =
        some window') :
      Step P offset R F s
        (.frame time (s.process.registry.globalStats (s.process.read offset)))
        { s with window := window' }

theorem Step.displayed {P : Platform} {offset : Nat} {R F : Rounding} {s s' : Display} {time : ℚ}
    {gs : Stats} (taken : Step P offset R F s (.frame time gs) s') :
    gs = s.process.registry.globalStats (s.process.read offset) := by
  cases taken
  rfl

/-- No recorded call wraps a total around, and the calls of both kinds can be counted
together when they are displayed. -/
def Fits (P : Platform) (s : Display) : Event → Prop
  | .process e => s.process.Fits P e
  | .frame _ _ => s.process.total .allocCount + s.process.total .freeCount < Words.radix

def Event.shown : Event → Option Stats
  | .process _ => none
  | .frame _ gs => some gs

def shown (trace : List (Transition Display Event)) : List Stats :=
  trace.filterMap (fun x => x.event.shown)

def samples (F : Rounding) (drawn : List Stats) : List ℚ :=
  List.replicate GlobalStatsWindow.slots 0 ++ drawn.map (fun gs => F.round (gs.allocated : ℕ))

theorem length_samples (F : Rounding) (drawn : List Stats) :
    (samples F drawn).length = GlobalStatsWindow.slots + drawn.length := by
  simp [samples]

theorem samples_snoc (F : Rounding) (drawn : List Stats) (gs : Stats) :
    samples F (drawn ++ [gs]) = samples F drawn ++ [F.round (gs.allocated : ℕ)] := by
  simp [samples]

/-- What the window shows of a program whose frames have displayed `drawn`. -/
structure Shows (offset : Nat) (F : Rounding) (s : Display) (drawn : List Stats) : Prop where
  exact : Process.Exact offset s.process
  count : s.window.historyCount = drawn.length
  holds : Rings.Holds GlobalStatsWindow.slots s.window.history (samples F drawn)
  ascending : drawn.Pairwise (fun older newer => older.allocated ≤ newer.allocated)
  below : ∀ gs ∈ drawn, gs.allocated ≤ s.process.total .allocated
  ops : s.window.prevOps ≤ s.process.total .allocCount + s.process.total .freeCount
  rate : 0 ≤ s.window.opsPerSec

namespace Shows

variable {P : Platform} {offset : Nat} {R F : Rounding} {s s' : Display} {drawn : List Stats}

theorem initial (offset : Nat) (F : Rounding) (m : ByteMemory) (h : Heap Owner) :
    Shows offset F (Display.initial m h) [] := by
  refine ⟨Process.Exact.initial offset m h, rfl, ?_, List.Pairwise.nil, ?_, Nat.zero_le _,
    le_refl _⟩
  · intro j x _ present
    have zero : x ∈ samples F [] := List.mem_of_getElem? present
    simp only [samples, List.map_nil, List.append_nil] at zero
    exact (List.eq_of_mem_replicate zero).symm
  · intro gs member
    cases member

theorem process {e : Process.Event} {process' : Process} (shows : Shows offset F s drawn)
    (fits : s.process.Fits P e) (taken : Process.Step P offset s.process e process') :
    Shows offset F { s with process := process' } drawn := by
  obtain ⟨exact, grown⟩ := shows.exact.next fits taken
  refine ⟨exact, shows.count, shows.holds, shows.ascending, ?_, ?_, shows.rate⟩
  · intro gs member
    exact Nat.le_trans (shows.below gs member) (grown.sums .allocated)
  · exact Nat.le_trans shows.ops (Nat.add_le_add (grown.sums _) (grown.sums _))

/-- A frame replaces the oldest sample by the current total. -/
theorem frame {time : ℚ} {window' : GlobalStatsWindow} (shows : Shows offset F s drawn)
    (fits : s.process.total .allocCount + s.process.total .freeCount < Words.radix)
    (drew : s.window.draw R F (s.process.registry.globalStats (s.process.read offset)) time =
      some window') :
    Shows offset F { s with window := window' }
      (drawn ++ [s.process.registry.globalStats (s.process.read offset)]) := by
  obtain ⟨⟨alive, done, inv⟩, bounded⟩ := shows.exact
  have totals := (inv.isTotal bounded).sums
  generalize s.process.registry.globalStats (s.process.read offset) = gs at drew totals
  have allocated : gs.allocated = s.process.total .allocated := totals .allocated
  have allocs : gs.allocCount = s.process.total .allocCount := totals .allocCount
  have frees : gs.freeCount = s.process.total .freeCount := totals .freeCount
  rw [GlobalStatsWindow.draw, GlobalStatsWindow.sample] at drew
  split at drew
  · cases drew
    refine ⟨shows.exact, ?_, ?_, ?_, ?_, ?_, GlobalStatsWindow.readOps_rate R gs time shows.rate⟩
    · simp [shows.count]
    · have slot : s.window.historyCount % GlobalStatsWindow.slots =
          (samples F drawn).length % GlobalStatsWindow.slots := by
        rw [length_samples, Nat.add_mod_left, shows.count]
      simp only [GlobalStatsWindow.readOps_history, GlobalStatsWindow.readOps_historyCount,
        samples_snoc, slot]
      exact shows.holds.push _
    · refine List.pairwise_append.mpr ⟨shows.ascending, List.pairwise_singleton _ _, ?_⟩
      intro older member newer last
      rw [List.mem_singleton.mp last, allocated]
      exact shows.below older member
    · intro older member
      rcases List.mem_append.mp member with earlier | last
      · exact shows.below older earlier
      · rw [List.mem_singleton.mp last]
        exact Nat.le_of_eq allocated
    · rw [← allocs, ← frees] at fits ⊢
      refine GlobalStatsWindow.readOps_prevOps R time fits ?_
      rw [allocs, frees]
      exact shows.ops
  · cases drew

theorem step {e : Event} (shows : Shows offset F s drawn) (fits : s.Fits P e)
    (taken : Step P offset R F s e s') : Shows offset F s' (drawn ++ e.shown.toList) := by
  cases taken with
  | process taken =>
      have kept := shows.process fits taken
      rwa [← List.append_nil drawn] at kept
  | frame drew => exact shows.frame fits drew

theorem run {m : ByteMemory} {h : Heap Owner} {trace : List (Transition Display Event)}
    (run : Run (Step P offset R F) (Display.initial m h) trace s)
    (fits : ∀ x ∈ trace, x.before.Fits P x.event) : Shows offset F s (shown trace) := by
  induction run with
  | nil => exact initial offset F m h
  | @snoc trace s s' e _ taken ih =>
      have earlier := ih (fun x member => fits x (List.mem_append_left _ member))
      have drew := earlier.step (fits ⟨s, e, s'⟩ (by simp)) taken
      have last : Display.shown (trace ++ [⟨s, e, s'⟩]) =
          Display.shown trace ++ e.shown.toList := by
        rw [Display.shown, List.filterMap_append, ← Display.shown]
        cases shape : e.shown with
        | none => simp [shape]
        | some gs => simp [shape]
      rw [last]
      exact drew

/-- The plot shows the newest samples, and zeros to their left while there are not enough. -/
theorem plotted (shows : Shows offset F s drawn) :
    s.window.plotted = (samples F drawn).drop drawn.length := by
  have length := length_samples F drawn
  have same : s.window.historyCount % GlobalStatsWindow.slots % GlobalStatsWindow.slots =
      drawn.length % GlobalStatsWindow.slots := by
    rw [Nat.mod_mod, shows.count]
  rw [GlobalStatsWindow.plotted, Rings.window_congr _ _ same,
    shows.holds.window (by omega) (by omega)]
  apply List.take_of_length_le
  rw [List.length_drop]
  omega

/-- No sample is smaller than an older one, and none is negative. -/
theorem samples_ascending (shows : Shows offset F s drawn) :
    (samples F drawn).Pairwise (· ≤ ·) := by
  refine List.pairwise_append.mpr ⟨List.pairwise_replicate.mpr (Or.inr (le_refl _)), ?_, ?_⟩
  · refine List.pairwise_map.mpr (shows.ascending.imp ?_)
    intro older newer le
    exact F.monotone (Nat.cast_le.mpr le)
  · intro zero left x right
    obtain ⟨gs, _, rfl⟩ := List.mem_map.mp right
    rw [List.eq_of_mem_replicate left, ← F.zero]
    exact F.monotone (Nat.cast_nonneg _)

theorem plotted_newest {gs : Stats} (shows : Shows offset F s (drawn ++ [gs])) :
    s.window.plotted.getLast? = some (F.round (gs.allocated : ℕ)) := by
  have inside : (drawn ++ [gs]).length ≤ (samples F drawn).length := by
    rw [length_samples, List.length_append, List.length_singleton]
    have many : 1 ≤ GlobalStatsWindow.slots := by decide
    omega
  rw [shows.plotted, samples_snoc, List.drop_append_of_le_length inside, List.getLast?_concat]

/-- A frame can be drawn until the count of frames is the largest `int`. -/
theorem drawable (shows : Shows offset F s drawn) (time : ℚ) :
    (∃ gs s', Step P offset R F s (.frame time gs) s') ↔ drawn.length + 1 < 2147483648 := by
  constructor
  · rintro ⟨gs, s', taken⟩
    cases taken with
    | frame drew =>
        rw [GlobalStatsWindow.draw, GlobalStatsWindow.sample] at drew
        split at drew
        · rename_i room
          rwa [GlobalStatsWindow.readOps_historyCount, shows.count] at room
        · cases drew
  · intro room
    have drew : ∃ window', s.window.draw R F
        (s.process.registry.globalStats (s.process.read offset)) time = some window' := by
      rw [GlobalStatsWindow.draw, GlobalStatsWindow.sample,
        GlobalStatsWindow.readOps_historyCount, shows.count, if_pos room]
      exact ⟨_, rfl⟩
    obtain ⟨window', drew⟩ := drew
    exact ⟨_, _, .frame drew⟩

end Shows

/-- The Global Stats window, over every run of the program with frames in between: the plot
shows the totals of the last 240 frames, oldest first, after zeros while there are fewer; it
never falls, and ends in the total just read. The calls counted since the last reading of the
rate are not miscounted, the rate is not negative, and frames can be drawn until their count
reaches the largest `int`. -/
theorem window_follows {P : Platform} {offset : Nat} {R F : Rounding} {m : ByteMemory}
    {h : Heap Owner} {trace : List (Transition Display Event)} {s : Display}
    (run : Run (Step P offset R F) (initial m h) trace s)
    (fits : ∀ x ∈ trace, x.before.Fits P x.event) :
    s.window.plotted = (samples F (shown trace)).drop (shown trace).length ∧
      s.window.plotted.length = GlobalStatsWindow.slots ∧
      s.window.plotted.Pairwise (· ≤ ·) ∧
      0 ≤ s.window.opsPerSec ∧
      (∀ time, (∃ gs s', Step P offset R F s (.frame time gs) s') ↔
        (shown trace).length + 1 < 2147483648) ∧
      ∀ x ∈ trace, ∀ time gs, x.event = .frame time gs →
        gs.IsTotal x.before.process.counters x.before.process.seen ∧
          x.after.window.plotted.getLast? = some (F.round (gs.allocated : ℕ)) ∧
          x.before.window.prevOps + Words.sub (Words.add gs.allocCount gs.freeCount)
            x.before.window.prevOps = gs.allocCount + gs.freeCount := by
  have shows := Shows.run run fits
  refine ⟨shows.plotted, by simp [GlobalStatsWindow.plotted], ?_, shows.rate, shows.drawable, ?_⟩
  · rw [shows.plotted]
    exact shows.samples_ascending.sublist (List.drop_sublist _ _)
  · rintro ⟨s₁, e, s₂⟩ member time gs rfl
    obtain ⟨past, rest, split, reached, taken⟩ := run.reached _ member
    have before := Shows.run reached
      (fun y earlier => fits y (by rw [split]; exact List.mem_append_left _ earlier))
    have room := fits _ member
    have after := before.step room taken
    obtain ⟨⟨alive, done, inv⟩, bounded⟩ := before.exact
    have total := inv.isTotal bounded
    rw [← taken.displayed] at total
    have calls : gs.allocCount + gs.freeCount =
        s₁.process.total .allocCount + s₁.process.total .freeCount :=
      congrArg₂ (· + ·) (total.sums .allocCount) (total.sums .freeCount)
    have counted := before.ops
    change s₁.process.total .allocCount + s₁.process.total .freeCount < Words.radix at room
    rw [← calls] at room counted
    refine ⟨total, after.plotted_newest, ?_⟩
    rw [Words.add_of_lt room, Words.sub_of_le counted room]
    exact Nat.add_sub_cancel' counted

/-- The steps of the program alone. -/
theorem run_process {P : Platform} {offset : Nat} (R F : Rounding) {m : ByteMemory}
    {h : Heap Owner} {trace : List (Transition Process Process.Event)} {s : Process}
    (run : Run (Process.Step P offset) (Process.initial m h) trace s)
    (fits : ∀ x ∈ trace, x.before.Fits P x.event) :
    ∃ trace' : List (Transition Display Event),
      Run (Step P offset R F) (initial m h) trace' ⟨s, GlobalStatsWindow.initial⟩ ∧
        shown trace' = [] ∧ ∀ x ∈ trace', x.before.Fits P x.event := by
  induction run with
  | nil => exact ⟨[], .nil, rfl, fun x member => by cases member⟩
  | @snoc trace s s' e _ taken ih =>
      obtain ⟨trace', earlier, none, room⟩ :=
        ih (fun x member => fits x (List.mem_append_left _ member))
      have new := fits ⟨s, e, s'⟩ (by simp)
      refine ⟨_, earlier.snoc (.process taken), ?_, ?_⟩
      · rw [shown, List.filterMap_append, ← shown, none]
        rfl
      intro x member
      rcases List.mem_append.mp member with old | last
      · exact room x old
      · rw [List.mem_singleton.mp last]
        exact new

/-- A thread starts, registers and asks for 2000 bytes, and a frame is drawn. -/
theorem window_follows_first : ∃ (trace : List (Transition Display Event)) (s : Display),
    Run (Step desktop 0 Rounding.exact Rounding.exact) (initial (fun _ => 0) Heap.empty) trace s ∧
      (shown trace).length = 1 ∧ s.window.plotted.Pairwise (· ≤ ·) ∧
      s.window.plotted.length = 240 ∧ s.window.plotted.getLast? = some 2000 := by
  obtain ⟨trace, process, pool, client, run, fits, _, live, seen, stats, _⟩ := Process.requested
  obtain ⟨trace', run', none, fits'⟩ := run_process Rounding.exact Rounding.exact run fits
  have shows := Shows.run run' fits'
  obtain ⟨gs, s', drew⟩ := (shows.drawable (R := Rounding.exact) (P := desktop) 1).mpr
    (by rw [none]; decide)
  have totals : ∀ c : Counter, process.total c = c.of (Stats.zero.recordAlloc 2000 2000) := by
    intro c
    rw [Process.total, seen]
    simp [Totals.total, Process.counters, live, stats]
  have one : ∀ b : Display, shown (trace' ++ [⟨b, .frame 1 gs, s'⟩]) = [gs] := by
    intro b
    rw [shown, List.filterMap_append, ← shown, none]
    rfl
  obtain ⟨_, length, ascending, _, _, frames⟩ := window_follows (run'.snoc drew) (by
    intro x member
    rcases List.mem_append.mp member with old | last
    · exact fits' x old
    · rw [List.mem_singleton.mp last]
      change process.total .allocCount + process.total .freeCount < Words.radix
      rw [totals, totals]
      decide)
  obtain ⟨exact_, last, _⟩ := frames _ (List.mem_append_right _ (List.mem_singleton.mpr rfl)) 1 gs
    rfl
  have sum : gs.allocated = process.total .allocated := exact_.sums .allocated
  rw [sum, totals] at last
  exact ⟨_, s', run'.snoc drew, by rw [one]; rfl, ascending, length, last⟩

end Display

end MemAlloc
