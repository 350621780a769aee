import MemAlloc.ThreadSafety

set_option autoImplicit false

namespace MemAlloc

open Runs (Run Transition)
open Malloc (Heap)

/- An aligned request for zero bytes returns an address that belongs to no block of the
caller's. -/

def Client.solid (c : Client) : Client :=
  { c with bumped := c.bumped.filter (fun b => decide (0 < b.size)) }

theorem Client.mem_solid {c : Client} {b : Span} :
    b ∈ c.solid.bumped ↔ b ∈ c.bumped ∧ 0 < b.size := by
  simp [solid]

theorem Client.solid_gainSpan (c : Client) {b : Span} (nonempty : 0 < b.size) :
    (c.gainSpan b).solid = c.solid.gainSpan b := by
  simp [solid, gainSpan, nonempty]

theorem Client.solid_gainEmpty (c : Client) {b : Span} (empty : b.size = 0) :
    (c.gainSpan b).solid = c.solid := by
  simp [solid, gainSpan, empty]

theorem Client.solid_gainAligned_zero (c : Client) (x : Option Nat) :
    (c.gainAligned 0 x).solid = c.solid := by
  cases x with
  | none => rfl
  | some p => exact c.solid_gainEmpty rfl

theorem Client.solid_gainAligned (c : Client) {n : Nat} (x : Option Nat) (nonempty : 1 ≤ n) :
    (c.gainAligned n x).solid = c.solid.gainAligned n x := by
  cases x with
  | none => rfl
  | some p => exact c.solid_gainSpan nonempty

theorem Client.solid_gain (c : Client) (n : Nat) (x : Except Exn (Option Nat)) :
    (c.gain n x).solid = c.solid.gain n x := by
  match x with
  | .error _ => rfl
  | .ok .none => rfl
  | .ok (some p) =>
      by_cases small : n ≤ maxSmall
      · simp only [gain, small, ↓reduceDIte]
        rfl
      · simp only [gain, small, ↓reduceDIte]
        exact c.solid_gainSpan (Nat.lt_of_le_of_lt (Nat.zero_le _) (Nat.lt_of_not_le small))

theorem Client.solid_erase (c : Client) (b : Span) :
    ({ c with bumped := c.bumped.erase b } : Client).solid =
      { c.solid with bumped := c.solid.bumped.erase b } := by
  simp [solid, List.erase_filter]

def Thread.solid : Thread → Thread
  | .live pool client => .live pool client.solid
  | .unborn => .unborn
  | .exited => .exited

theorem Thread.of_solid {thread : Thread} {pool : ThreadPoolAlloc} {client : Client}
    (live : thread.solid = .live pool client) :
    ∃ client₀, thread = .live pool client₀ ∧ client₀.solid = client := by
  cases thread with
  | live pool₀ client₀ =>
      cases live
      exact ⟨client₀, rfl, rfl⟩
  | unborn => cases live
  | exited => cases live

namespace Sys

def solid (s : Sys) : Sys := { s with threads := fun t => (s.threads t).solid }

theorem solid_live {s : Sys} {t : Nat} {pool : ThreadPoolAlloc} {client : Client}
    (live : s.threads t = .live pool client) : s.solid.threads t = .live pool client.solid :=
  congrArg Thread.solid live

theorem solid_update (threads : Nat → Thread) (t : Nat) (thread : Thread) :
    (fun u => (Function.update threads t thread u).solid) =
      Function.update (fun u => (threads u).solid) t thread.solid := by
  funext u
  by_cases same : u = t
  · rw [same, Function.update_self, Function.update_self]
  · rw [Function.update_of_ne same, Function.update_of_ne same]

/-- An address that is freed and stands for an empty block stands for another one too. -/
def FreesBlock (s : Sys) : Event → Prop
  | .free t form p _ => ∀ pool client, s.threads t = .live pool client →
      ∀ b ∈ client.bumped, form.Names b p → ∃ c ∈ client.bumped, 0 < c.size ∧ form.Names c p
  | _ => True

theorem Writable.solid {s : Sys} {a : Nat} (writable : Writable s a) : Writable s.solid a := by
  cases writable with
  | block live out inside => exact .block (solid_live live) out inside
  | @arena t pool client b live out inside =>
      have nonempty : 0 < b.size := by
        have low := inside.1
        have high := inside.2
        simp only [Span.stop] at high
        omega
      exact .arena (solid_live live) (Client.mem_solid.mpr ⟨out, nonempty⟩) inside
  | chunk member unused inside => exact .chunk member unused inside
  | outside member owner inside => exact .outside member owner inside

end Sys

theorem Client.solid_eq {c : Client} (nonempty : ∀ b ∈ c.bumped, 0 < b.size) : c.solid = c := by
  have all : c.bumped.filter (fun b => decide (0 < b.size)) = c.bumped :=
    List.filter_eq_self.mpr (fun b member => decide_eq_true (nonempty b member))
  rw [solid, all]

namespace SysInv

variable {P : Platform} {s s' : Sys}

theorem solid (inv : SysInv s) : SysInv s.solid := by
  refine ⟨inv.shared, ?_, ?_⟩
  · intro t pool client live
    obtain ⟨client₀, live₀, rfl⟩ := Thread.of_solid live
    obtain ⟨free, thread⟩ := inv.live t pool client₀ live₀
    rw [Client.solid_eq thread.nonempty]
    exact ⟨free, thread⟩
  · intro t unborn
    apply inv.unborn t
    cases status : s.threads t with
    | unborn => rfl
    | live pool client => cases (congrArg Thread.solid status).symm.trans unborn
    | exited => cases (congrArg Thread.solid status).symm.trans unborn

theorem congr (inv : SysInv s) (mem : s'.mem = s.mem) (shared : s'.shared = s.shared)
    (threads : s'.threads = s.threads) : SysInv s' := by
  refine ⟨?_, ?_, ?_⟩
  · rw [shared]
    exact inv.shared
  · rw [mem, shared, threads]
    exact inv.live
  · rw [shared, threads]
    exact inv.unborn

end SysInv

theorem Sys.Settles.congr {s s' s'' : Sys} {changed : Nat → Prop} (settles : s.Settles s' changed)
    (mem : s''.mem = s'.mem) (shared : s''.shared = s'.shared)
    (threads : s''.threads = s'.threads) : s.Settles s'' changed :=
  ⟨settles.inv.congr mem shared threads,
    fun u outside => (settles.spares u outside).congr mem shared threads⟩

namespace SysInv

variable {P : Platform} {s s' : Sys}

/-- One thread moved on without touching memory or anything shared. -/
theorem settle {t : Nat} {pool pool' : ThreadPoolAlloc} {client client' : Client}
    (inv : SysInv s) (live : s.threads t = .live pool client)
    (keep : ∀ free, ThreadInv s.mem s.shared t pool.alloc client free →
      ThreadInv s.mem s.shared t pool'.alloc client' free) :
    s.Settles (s.setThread t (.live pool' client')) (· = t) := by
  obtain ⟨free, thread⟩ := inv.live t pool client live
  have after : ThreadInv (s.setThread t (.live pool' client')).mem
      (s.setThread t (.live pool' client')).shared t pool'.alloc client' free := keep free thread
  exact inv.advance after rfl inv.shared
    (fun _ _ _ _ _ _ _ => ByteMemory.SameInside.refl _ _) (fun _ old => old) (Or.inl rfl)

/-- Steps of the state without empty blocks, in every run that frees none. -/
theorem settles_solid {e : Sys.Event} (power : Words.PowerOfTwo P.maxAlign) (inv : SysInv s.solid)
    (sums : s.NoWrap P e) (frees : s.FreesBlock e) (taken : Sys.Step P s e s') :
    s.solid.Settles s'.solid (fun u => e.thread = some u) := by
  cases taken with
  | @start t _ _ a m' h' unborn done =>
      have absent : s.solid.threads t = .unborn := congrArg Thread.solid unborn
      exact (inv.settles power (by trivial) (by trivial) (.start absent done)).congr rfl rfl
        (Sys.solid_update _ _ _)
  | @startFails t _ _ x h' unborn done =>
      have absent : s.solid.threads t = .unborn := congrArg Thread.solid unborn
      exact (inv.settles power (by trivial) (by trivial) (.startFails absent done)).congr rfl rfl
        rfl
  | exit live =>
      exact (inv.settles power (by trivial) (by trivial) (.exit (Sys.solid_live live))).congr rfl
        rfl (Sys.solid_update _ _ _)
  | @allocate t n pool pool' client _ _ _ x g' m' live word done =>
      have sums' : s.solid.NoWrap P (.allocate t n x) := by
        intro large pool₁ client₁ live₁
        obtain ⟨client₀, live₀, _⟩ := Thread.of_solid live₁
        exact sums large pool₁ client₀ live₀
      refine (inv.settles power sums' trivial (.allocate (Sys.solid_live live) word done)).congr rfl
        rfl ?_
      rw [← Client.solid_gain]
      exact Sys.solid_update _ _ _
  | @allocateAligned t n alignment pool pool' client x live word power' done =>
      by_cases empty : n = 0
      · subst empty
        have moved : s.solid.Settles (s.solid.setThread t (.live pool' client.solid)) (· = t) :=
          inv.settle (Sys.solid_live live) fun free thread =>
            thread.allocateEmpty power' (sums pool client live) done
        refine Sys.Settles.congr (moved.wider ?_) rfl rfl ?_
        · rintro u rfl
          rfl
        · rw [← client.solid_gainAligned_zero x]
          exact Sys.solid_update _ _ _
      · have nonempty : 1 ≤ n := Nat.one_le_iff_ne_zero.mpr empty
        have sums' : s.solid.NoWrap P (.allocateAligned t n alignment x) := by
          intro pool₁ client₁ live₁
          obtain ⟨client₀, live₀, _⟩ := Thread.of_solid live₁
          exact sums pool₁ client₀ live₀
        have step := Sys.Step.allocateAligned (P := P) (Sys.solid_live live) word power' done
        refine (inv.settles power sums' nonempty step).congr rfl rfl ?_
        rw [← client.solid_gainAligned x nonempty]
        exact Sys.solid_update _ _ _
  | free live out names done =>
      have step := Sys.Step.free (P := P) (Sys.solid_live live) out names done
      exact (inv.settles power (by trivial) (by trivial) step).congr rfl rfl
        (Sys.solid_update _ _ _)
  | @freeArena t p n b form pool pool' client m' live out names done =>
      obtain ⟨c, member, nonempty, same⟩ := frees pool client live b out names
      have solid : c ∈ client.solid.bumped := Client.mem_solid.mpr ⟨member, nonempty⟩
      obtain ⟨free, thread⟩ := inv.live t pool client.solid (Sys.solid_live live)
      obtain ⟨alloc, rfl⟩ := thread.free_ignored solid same done
      have kept : ∀ free, ThreadInv s.mem s.shared t pool.alloc client.solid free →
          ThreadInv s.mem s.shared t pool'.alloc
            { client.solid with bumped := client.solid.bumped.erase b } free := by
        intro free thread
        rw [alloc]
        exact thread.drop b
      have moved := inv.settle (Sys.solid_live live) kept
      refine Sys.Settles.congr (moved.wider ?_) rfl rfl ?_
      · rintro u rfl
        rfl
      · rw [← Client.solid_erase]
        exact Sys.solid_update _ _ _
  | acquireChunk done =>
      exact (inv.settles power (by trivial) (by trivial) (.acquireChunk done)).congr rfl rfl rfl
  | write writable =>
      exact (inv.settles power (by trivial) (by trivial) (.write writable.solid)).congr rfl rfl rfl
  | malloc done =>
      exact (inv.settles power (by trivial) (by trivial) (.malloc done)).congr rfl rfl rfl
  | mfree member owner =>
      exact (inv.settles power (by trivial) (by trivial) (.mfree member owner)).congr rfl rfl rfl

theorem next_solid {e : Sys.Event} (power : Words.PowerOfTwo P.maxAlign) (inv : SysInv s.solid)
    (sums : s.NoWrap P e) (frees : s.FreesBlock e) (taken : Sys.Step P s e s') :
    SysInv s'.solid := (inv.settles_solid power sums frees taken).inv

end SysInv

namespace Sys

variable {P : Platform} {m : ByteMemory} {h : Heap Owner}

/-- No arena request wraps around, and no empty block is freed. -/
def Proper (P : Platform) (s : Sys) (e : Event) : Prop := s.NoWrap P e ∧ s.FreesBlock e

/-- What holds before every step, and at the end, of a run of proper steps. -/
theorem proper_run (power : Words.PowerOfTwo P.maxAlign) {trace : List (Transition Sys Event)}
    {s : Sys} (run : Run (Step P) (initial m h) trace s)
    (proper : ∀ x ∈ trace, x.before.Proper P x.event) :
    SysInv s.solid ∧ ∀ x ∈ trace, SysInv x.before.solid := by
  let inv : Sys → Prop := fun s => SysInv s.solid
  have keep : ∀ s e s', inv s → s.Proper P e → Step P s e s' → inv s' :=
    fun _ _ _ holds meets taken => SysInv.next_solid power holds meets.1 meets.2 taken
  have first : inv (initial m h) := (SysInv.initial m h).congr rfl rfl rfl
  exact ⟨run.invariantWhere first keep proper, run.invariantBefore first keep proper⟩

end Sys

end MemAlloc
