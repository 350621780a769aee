import MemAlloc.RegistrySystem

set_option autoImplicit false

namespace MemAlloc

open Malloc (Heap)
open Runs (Run Transition)
open SingleThreadAllocator (FreeForm)

namespace SingleThreadAllocator

variable {P : Platform} {a a' : SingleThreadAllocator} {m m' : ByteMemory} {n : Nat}

/-- What a request for `n` bytes that consumed `got` bytes does to the counters. -/
def served (a : SingleThreadAllocator) (n got : Nat) : Option Nat → Stats
  | some _ => a.stats.recordAlloc n got
  | none => a.stats

theorem arenaAllocate_stats {alignment : Nat} {x : Option Nat}
    (done : a.arenaAllocate n alignment = (x, a')) :
    a'.stats = a.served n (a.cursorMove n alignment) x := by
  simp only [cursorMove]
  rw [arenaAllocate] at done
  generalize a.arena.allocate n alignment = answer at done ⊢
  obtain ⟨p, arena⟩ := answer
  cases p with
  | none =>
      cases done
      rfl
  | some p =>
      cases done
      rfl

theorem poolAllocate_stats {i : SizeClass} {x : Option Nat}
    (done : a.poolAllocate i m = (x, a')) : a'.stats = a.stats := by
  rw [poolAllocate] at done
  cases done
  rfl

theorem poolAddExternalSlab_stats {i : SizeClass} {body : Nat} {recorded : Bool}
    {x : Except Exn Unit} (done : a.poolAddExternalSlab i m body recorded = (x, a', m')) :
    a'.stats = a.stats := by
  rw [poolAddExternalSlab] at done
  cases done
  rfl

theorem refill_stats {σ : Type} {source : ChunkSource σ} {recorded : Bool} {i : SizeClass}
    {e e' : σ} {x : Except Exn (Option Nat)}
    (done : a.refill source recorded n i e m = (x, a', e', m')) :
    a'.stats = a.served n i.bytes (x.toOption.join) := by
  rw [refill] at done
  split at done
  · cases done
    rfl
  · cases done
    rfl
  · split at done
    · rename_i linked
      cases done
      exact poolAddExternalSlab_stats linked
    · rename_i linked
      have before := poolAddExternalSlab_stats linked
      split at done
      · rename_i popped
        cases done
        exact (poolAllocate_stats popped).trans before
      · rename_i popped
        cases done
        exact congrArg (fun s : Stats => s.recordAlloc n i.bytes)
          ((poolAllocate_stats popped).trans before)

/-- The counters after `allocate(n)`, whatever the chunk source did. -/
theorem allocate_stats {σ : Type} {source : ChunkSource σ} {recorded : Bool} {e e' : σ}
    {x : Except Exn (Option Nat)} (done : a.allocate P source recorded n e m = (x, a', e', m')) :
    a'.stats = a.served n (a.charge P n) x.toOption.join := by
  rw [allocate] at done
  by_cases small : n ≤ maxSmall
  · have charge : a.charge P n = (sizeClassOf n small).bytes := by
      rw [SingleThreadAllocator.charge, if_pos small, blockFor_eq small]
    rw [dif_pos small] at done
    dsimp only at done
    rw [charge]
    generalize popped : a.poolAllocate (sizeClassOf n small) m = answer at done
    obtain ⟨p, taken⟩ := answer
    have same := poolAllocate_stats popped
    cases p with
    | some p =>
        cases done
        exact congrArg (fun s : Stats => s.recordAlloc n (sizeClassOf n small).bytes) same
    | none =>
        rw [refill_stats done]
        simp only [SingleThreadAllocator.served, same]
  · have charge : a.charge P n = a.cursorMove n P.maxAlign := by
      rw [SingleThreadAllocator.charge, if_neg small]
    rw [dif_neg small] at done
    rw [charge]
    generalize run : a.arenaAllocate n P.maxAlign = answer at done
    obtain ⟨p, moved⟩ := answer
    cases done
    exact arenaAllocate_stats run

theorem free_stats {form : FreeForm} {p : Nat} (done : form.call a m p n = .ok (a', m')) :
    a'.stats = if n ≤ maxSmall then a.stats.recordFree n (blockFor n) else a.stats := by
  by_cases small : n ≤ maxSmall
  · rw [if_pos small, blockFor_eq small]
    cases form with
    | start =>
        rcases of_deallocate done with ⟨large, _, _⟩ | ⟨i, ⟨_, rfl⟩, _, rfl, _⟩
        · exact absurd small (Nat.not_le.mpr large)
        · rfl
    | containing =>
        rcases of_deallocateContaining done with
          ⟨large, _, _⟩ | ⟨i, ⟨_, rfl⟩, _, _, _, _, rfl, _⟩
        · exact absurd small (Nat.not_le.mpr large)
        · rfl
  · rw [if_neg small]
    rw [form.call_large a m (Nat.lt_of_not_le small)] at done
    cases done
    rfl

end SingleThreadAllocator

namespace Stats

/-- Recording an operation adds to the counters what it should, unless one wraps around. -/
theorem of_recordAlloc {s : Stats} {req got : Nat} (c : Counter)
    (fits : c.of s + c.entry req got 1 0 < Words.radix) :
    c.of (s.recordAlloc req got) = c.of s + c.entry req got 1 0 := by
  cases c with
  | freeCount => rfl
  | requested => exact Words.add_of_lt fits
  | allocated => exact Words.add_of_lt fits
  | allocCount => exact Words.add_of_lt fits

theorem of_recordFree {s : Stats} {req got : Nat} (c : Counter)
    (fits : c.of s + c.entry req got 0 1 < Words.radix) :
    c.of (s.recordFree req got) = c.of s + c.entry req got 0 1 := by
  cases c with
  | allocCount => rfl
  | requested => exact Words.add_of_lt fits
  | allocated => exact Words.add_of_lt fits
  | freeCount => exact Words.add_of_lt fits

theorem peak_recordAlloc (s : Stats) (req got : Nat) :
    s.peakAllocated ≤ (s.recordAlloc req got).peakAllocated := by
  simp only [recordAlloc]
  split <;> omega

end Stats

namespace Sys.Step

variable {P : Platform} {s s' : Sys} {e : Sys.Event} {t : Nat}

theorem others (taken : Sys.Step P s e s') {u : Nat} (noCall : e.caller ≠ some u)
    (noLife : e.lifetime ≠ some u) : s'.threads u = s.threads u := by
  cases taken with
  | start | exit => exact Function.update_of_ne (fun same => noLife (congrArg some same.symm)) _ _
  | allocate | allocateAligned | free | freeArena =>
      exact Function.update_of_ne (fun same => noCall (congrArg some same.symm)) _ _
  | startFails | acquireChunk | write | malloc | mfree => rfl

theorem fresh_stats (taken : Sys.Step P s (.start t (.ok ())) s') :
    ∃ pool client, s'.threads t = .live pool client ∧ pool.alloc.stats = Stats.zero := by
  cases taken with
  | start unborn done =>
      refine ⟨_, _, Function.update_self t _ _, ?_⟩
      rw [SingleThreadAllocator.new] at done
      split at done
      · cases done
      · split at done
        · cases done
        · cases done
          rfl

theorem failed_start {x : Exn} (taken : Sys.Step P s (.start t (.error x)) s') :
    s'.threads = s.threads := by
  cases taken with
  | startFails unborn done => rfl

theorem exited (taken : Sys.Step P s (.exit t) s') : s'.threads t = .exited := by
  cases taken with
  | exit live => exact Function.update_self t _ _

/-- What a call does to its thread's counters. -/
structure Counts (P : Platform) (e : Sys.Event) (a a' : SingleThreadAllocator) : Prop where
  adds : ∀ c : Counter, c.of a.stats + e.adds P a c < Words.radix →
    c.of a'.stats = c.of a.stats + e.adds P a c
  peak : a.stats.peakAllocated ≤ a'.stats.peakAllocated

theorem Counts.served {n got : Nat} {a a' : SingleThreadAllocator} {x : Option Nat}
    (after : a'.stats = a.served n got x)
    (adds : ∀ c : Counter, e.adds P a c = if x.isSome then c.entry n got 1 0 else 0) :
    Counts P e a a' := by
  cases x with
  | none =>
      refine ⟨fun c _ => ?_, ?_⟩
      · rw [after, adds c]
        rfl
      · rw [after]
        exact Nat.le_refl _
  | some p =>
      refine ⟨fun c fits => ?_, ?_⟩
      · rw [adds c] at fits ⊢
        rw [after]
        exact Stats.of_recordAlloc c fits
      · rw [after]
        exact Stats.peak_recordAlloc _ _ _

theorem Counts.freed {form : FreeForm} {u p n : Nat} {a a' : SingleThreadAllocator}
    (after : a'.stats = if n ≤ maxSmall then a.stats.recordFree n (blockFor n) else a.stats) :
    Counts P (.free u form p n) a a' := by
  by_cases small : n ≤ maxSmall
  · have adds : ∀ c, Sys.Event.adds P a c (.free u form p n) = c.entry n (blockFor n) 0 1 :=
      fun c => if_pos small
    rw [if_pos small] at after
    refine ⟨fun c fits => ?_, ?_⟩
    · rw [adds c] at fits ⊢
      rw [after]
      exact Stats.of_recordFree c fits
    · rw [after]
      exact Nat.le_refl _
  · have adds : ∀ c, Sys.Event.adds P a c (.free u form p n) = 0 := fun c => if_neg small
    rw [if_neg small] at after
    refine ⟨fun c _ => ?_, ?_⟩
    · rw [after, adds c, Nat.add_zero]
    · rw [after]

theorem caller_counts (taken : Sys.Step P s e s') (caller : e.caller = some t) :
    ∃ pool client pool' client', s.threads t = .live pool client ∧
      s'.threads t = .live pool' client' ∧ Counts P e pool.alloc pool'.alloc := by
  cases taken with
  | start | startFails | exit | acquireChunk | write | malloc | mfree => cases caller
  | @allocate u n pool pool' client reply chunkRecorded slabRecorded x g' m' live word done =>
      cases caller
      refine ⟨_, _, _, _, live, Function.update_self t _ _, ?_⟩
      simp only [ThreadPoolAlloc.allocate] at done
      generalize run : pool.alloc.allocate P (acquireChunkCb P t reply chunkRecorded) slabRecorded n
        s.shared s.mem = answer at done
      obtain ⟨y, a', e', m''⟩ := answer
      cases done
      refine Counts.served (SingleThreadAllocator.allocate_stats run) (fun c => ?_)
      cases y with
      | error z => rfl
      | ok q =>
          cases q with
          | none => rfl
          | some q => rfl
  | @allocateAligned u n alignment pool pool' client x live word power done =>
      cases caller
      refine ⟨_, _, _, _, live, Function.update_self t _ _, ?_⟩
      simp only [ThreadPoolAlloc.allocateAligned, SingleThreadAllocator.allocateAligned] at done
      generalize run : pool.alloc.arenaAllocate n alignment = answer at done
      obtain ⟨y, a'⟩ := answer
      cases done
      refine Counts.served (SingleThreadAllocator.arenaAllocate_stats run) (fun c => ?_)
      cases y with
      | none => rfl
      | some q => rfl
  | free live out names done =>
      cases caller
      exact ⟨_, _, _, _, live, Function.update_self t _ _,
        Counts.freed (SingleThreadAllocator.free_stats (ThreadPoolAlloc.of_free done))⟩
  | freeArena live out names done =>
      cases caller
      exact ⟨_, _, _, _, live, Function.update_self t _ _,
        Counts.freed (SingleThreadAllocator.free_stats (ThreadPoolAlloc.of_free done))⟩

end Sys.Step

end MemAlloc
