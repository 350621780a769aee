import Mathlib.Data.List.Basic
import MemAlloc.ThreadRuns

set_option autoImplicit false

namespace MemAlloc

theorem ThreadPoolAlloc.free_id {form : SingleThreadAllocator.FreeForm}
    {t t' : ThreadPoolAlloc} {m m' : ByteMemory} {p n : Nat}
    (done : t.free form m p n = .ok (t', m')) : t'.threadId = t.threadId := by
  rw [ThreadPoolAlloc.free] at done
  split at done
  · cases done
  · cases done
    rfl

namespace Sys

open Malloc (Heap)
open Runs (Run Transition)
open SingleThreadAllocator (newPools)

/-- The thread whose allocator is constructed, and whether the construction succeeded. -/
def Event.construction : Event → Option (Nat × Bool)
  | .start t (.ok _) => some (t, true)
  | .start t (.error _) => some (t, false)
  | _ => none

/-- The steps of the system, and the two ways in which a construction fails outside the members:
`next_thread_id` cannot create its counter, or `register_stats` throws. -/
inductive Attempt where
  | taken (e : Event)
  | undrawn (t : Nat)
  | unregistered (t : Nat)

/-- The construction that draws an id, if the step is one. -/
def Attempt.draws : Attempt → Option (Nat × Bool)
  | .taken e => e.construction
  | .undrawn _ => none
  | .unregistered t => some (t, false)

/-- A failed construction destroys the members it has built. -/
inductive AttemptStep (P : Platform) : Sys → Attempt → Sys → Prop
  | taken {s s' : Sys} {e : Event} (taken : Step P s e s') : AttemptStep P s (.taken e) s'
  | undrawn {s : Sys} {t : Nat} (unborn : s.threads t = .unborn) : AttemptStep P s (.undrawn t) s
  | unregistered {s : Sys} {t : Nat} {reply : SizeClass → SlabReply} {arenaReply : Option Nat}
      {a : SingleThreadAllocator} {m' : ByteMemory} {h' : Heap Owner}
      (unborn : s.threads t = .unborn)
      (done : SingleThreadAllocator.new P (.slab t) (.arena t) reply arenaReply s.shared.heap
        s.mem = (.ok (a, m'), h')) :
      AttemptStep P s (.unregistered t)
        { s.setHeap (a.destroy h') with
          mem := m'
          nextThreadId := (s.nextThreadId + 1) % 4294967296 }

/-- The constructions of a run that have drawn an id, oldest first. -/
def constructions (trace : List (Transition Sys Attempt)) : List (Nat × Bool) :=
  trace.filterMap (fun x => x.event.draws)

/-- How many ids had been drawn when the thread's allocator drew its own. -/
def idsBefore (trace : List (Transition Sys Attempt)) (t : Nat) : Nat :=
  (constructions trace).idxOf (t, true)

/-- No two live threads have the same id. -/
def UniqueIds (s : Sys) : Prop :=
  ∀ t u pool client pool' client', s.threads t = .live pool client →
    s.threads u = .live pool' client' → pool.threadId = pool'.threadId → t = u

/-- The ids of the live threads are those drawn in their constructions. -/
structure Numbered (drawn : List (Nat × Bool)) (s : Sys) : Prop where
  next : s.nextThreadId = drawn.length % 4294967296
  unborn : ∀ t, s.threads t = .unborn → (t, true) ∉ drawn
  live : ∀ t pool client, s.threads t = .live pool client →
    (t, true) ∈ drawn ∧ pool.threadId = drawn.idxOf (t, true) % 4294967296

namespace Numbered

variable {P : Platform} {s s' : Sys} {drawn : List (Nat × Bool)}

theorem initial (m : ByteMemory) (h : Heap Owner) : Numbered [] (Sys.initial m h) := by
  refine ⟨rfl, fun t _ => by simp, ?_⟩
  intro t pool client live
  cases live

/-- A call leaves the ids as they are. -/
theorem same (numbered : Numbered drawn s) (next : s'.nextThreadId = s.nextThreadId)
    (threads : ∀ t, s'.threads t = s.threads t ∨ s'.threads t = .exited ∨
      ∃ pool client pool' client', s.threads t = .live pool client ∧
        s'.threads t = .live pool' client' ∧ pool'.threadId = pool.threadId) :
    Numbered drawn s' := by
  refine ⟨next.trans numbered.next, ?_, ?_⟩
  · intro t unborn
    rcases threads t with equal | gone | ⟨_, _, _, _, _, live', _⟩
    · exact numbered.unborn t (equal ▸ unborn)
    · rw [gone] at unborn
      cases unborn
    · rw [live'] at unborn
      cases unborn
  · intro t pool client live
    rcases threads t with equal | gone | ⟨pool₀, client₀, pool', client', before, after, kept⟩
    · exact numbered.live t pool client (equal ▸ live)
    · rw [gone] at live
      cases live
    · obtain ⟨rfl, rfl⟩ := Thread.live.inj (after.symm.trans live)
      rw [kept]
      exact numbered.live t pool₀ client₀ before

/-- One thread's allocator has served a call. -/
theorem call {t : Nat} {pool pool' : ThreadPoolAlloc} {client client' : Client}
    (numbered : Numbered drawn s) (live : s.threads t = .live pool client)
    (kept : pool'.threadId = pool.threadId) (next : s'.nextThreadId = s.nextThreadId)
    (threads : s'.threads = Function.update s.threads t (.live pool' client')) :
    Numbered drawn s' := by
  refine numbered.same next ?_
  intro u
  rw [threads]
  by_cases here : u = t
  · subst here
    exact Or.inr (Or.inr ⟨pool, client, pool', client', live, Function.update_self _ _ _, kept⟩)
  · exact Or.inl (Function.update_of_ne here _ _)

theorem next_id (numbered : Numbered drawn s) (new : Nat × Bool) :
    (s.nextThreadId + 1) % 4294967296 = (drawn ++ [new]).length % 4294967296 := by
  rw [numbered.next, List.length_append, List.length_singleton, Nat.mod_add_mod]

/-- A construction draws the next id, for the new allocator or for none. -/
theorem start {t : Nat} {pool : ThreadPoolAlloc} {client : Client} (numbered : Numbered drawn s)
    (unborn : s.threads t = .unborn) (own : pool.threadId = s.nextThreadId)
    (next : s'.nextThreadId = (s.nextThreadId + 1) % 4294967296)
    (threads : s'.threads = Function.update s.threads t (.live pool client)) :
    Numbered (drawn ++ [(t, true)]) s' := by
  have absent := numbered.unborn t unborn
  refine ⟨next.trans (numbered.next_id _), ?_, ?_⟩
  · intro u waiting
    rw [threads] at waiting
    by_cases here : u = t
    · subst here
      rw [Function.update_self] at waiting
      cases waiting
    · rw [Function.update_of_ne here] at waiting
      simp [numbered.unborn u waiting, here]
  · intro u pool' client' live
    rw [threads] at live
    by_cases here : u = t
    · subst here
      rw [Function.update_self] at live
      obtain ⟨rfl, rfl⟩ := Thread.live.inj live
      refine ⟨by simp, ?_⟩
      rw [own, numbered.next, List.idxOf_append_of_notMem absent]
      simp
    · rw [Function.update_of_ne here] at live
      obtain ⟨member, id⟩ := numbered.live u pool' client' live
      refine ⟨List.mem_append_left _ member, ?_⟩
      rw [id, List.idxOf_append_of_mem member]

theorem startFails {t : Nat} (numbered : Numbered drawn s)
    (next : s'.nextThreadId = (s.nextThreadId + 1) % 4294967296)
    (threads : s'.threads = s.threads) : Numbered (drawn ++ [(t, false)]) s' := by
  refine ⟨next.trans (numbered.next_id _), ?_, ?_⟩
  · intro u waiting
    rw [threads] at waiting
    simp [numbered.unborn u waiting]
  · intro u pool client live
    rw [threads] at live
    obtain ⟨member, id⟩ := numbered.live u pool client live
    refine ⟨List.mem_append_left _ member, ?_⟩
    rw [id, List.idxOf_append_of_mem member]

theorem quiet {e : Event} (numbered : Numbered drawn s) (taken : Step P s e s')
    (none : e.construction = none) : Numbered drawn s' := by
  cases taken with
  | start unborn done => cases none
  | startFails unborn done => cases none
  | @exit t pool client live =>
      refine numbered.same rfl ?_
      intro u
      by_cases here : u = t
      · subst here
        exact Or.inr (Or.inl (Function.update_self _ _ _))
      · exact Or.inl (Function.update_of_ne here _ _)
  | @allocate t n pool pool' client reply chunkRecorded slabRecorded x g' m' live word done =>
      have kept : pool'.threadId = pool.threadId := by
        simp only [ThreadPoolAlloc.allocate, Prod.mk.injEq] at done
        rw [← done.2.1]
      exact numbered.call live kept rfl rfl
  | @allocateAligned t n alignment pool pool' client x live word power done =>
      have kept : pool'.threadId = pool.threadId := by
        simp only [ThreadPoolAlloc.allocateAligned, Prod.mk.injEq] at done
        rw [← done.2]
      exact numbered.call live kept rfl rfl
  | free live out names done => exact numbered.call live (ThreadPoolAlloc.free_id done) rfl rfl
  | freeArena live out names done =>
      exact numbered.call live (ThreadPoolAlloc.free_id done) rfl rfl
  | acquireChunk | write | malloc | mfree => exact numbered.same rfl (fun u => Or.inl rfl)

theorem step {e : Event} (numbered : Numbered drawn s) (taken : Step P s e s') :
    Numbered (drawn ++ e.construction.toList) s' := by
  cases shape : e.construction with
  | none =>
      have kept := numbered.quiet taken shape
      rwa [Option.toList_none, List.append_nil]
  | some new =>
      cases taken with
      | start unborn done =>
          cases shape
          exact numbered.start unborn rfl rfl rfl
      | startFails unborn done =>
          cases shape
          exact numbered.startFails rfl rfl
      | _ => cases shape

theorem attempt {e : Attempt} (numbered : Numbered drawn s) (taken : AttemptStep P s e s') :
    Numbered (drawn ++ e.draws.toList) s' := by
  cases taken with
  | taken taken => exact numbered.step taken
  | undrawn unborn => simpa [Attempt.draws] using numbered
  | unregistered unborn done => exact numbered.startFails rfl rfl

theorem run {m : ByteMemory} {h : Heap Owner} {trace : List (Transition Sys Attempt)}
    (run : Run (AttemptStep P) (Sys.initial m h) trace s) : Numbered (constructions trace) s := by
  induction run with
  | nil => exact initial m h
  | @snoc trace s s' e _ taken ih =>
      have drawn : constructions (trace ++ [⟨s, e, s'⟩]) =
          constructions trace ++ e.draws.toList := by
        rw [constructions, List.filterMap_append, ← constructions]
        cases shape : e.draws with
        | none => simp [shape]
        | some new => simp [shape]
      rw [drawn]
      exact ih.attempt taken

/-- Ids start to repeat only after as many constructions as there are ids. -/
theorem unique (numbered : Numbered drawn s) (few : drawn.length ≤ 4294967296) : s.UniqueIds := by
  intro t u pool client pool' client' live live' same
  obtain ⟨member, id⟩ := numbered.live t pool client live
  obtain ⟨member', id'⟩ := numbered.live u pool' client' live'
  have first := List.idxOf_lt_length_of_mem member
  have second := List.idxOf_lt_length_of_mem member'
  rw [id, id', Nat.mod_eq_of_lt (by omega), Nat.mod_eq_of_lt (by omega)] at same
  exact congrArg Prod.fst ((List.idxOf_inj member).mp same)

end Numbered

section Repeats

theorem construction_fails (t : Nat) (h : Heap Owner) (m : ByteMemory) :
    SingleThreadAllocator.new desktop (Owner.slab t) (.arena t) (fun _ => ⟨none, none⟩) none h m =
      (.error .badAlloc, h) := rfl

/-- Any number of constructions may fail, and each draws an id. -/
theorem failures_possible {s : Sys} (unborn : s.threads 1 = .unborn)
    (bound : s.nextThreadId < 4294967296) (k : Nat) :
    ∃ (trace : List (Transition Sys Attempt)) (s' : Sys), Run (AttemptStep desktop) s trace s' ∧
      (constructions trace).length = k ∧ s'.threads = s.threads ∧
      s'.shared.heap = s.shared.heap ∧ s'.nextThreadId = (s.nextThreadId + k) % 4294967296 := by
  induction k with
  | zero => exact ⟨[], s, .nil, rfl, rfl, rfl, (Nat.mod_eq_of_lt bound).symm⟩
  | succ k ih =>
      obtain ⟨trace, s', run, drawn, threads, heap, next⟩ := ih
      have failed := AttemptStep.taken (Step.startFails (t := 1) (threads ▸ unborn)
        (construction_fails 1 s'.shared.heap s'.mem))
      refine ⟨_, _, run.snoc failed, ?_, threads, heap, ?_⟩
      · rw [constructions, List.filterMap_append, ← constructions, List.length_append, drawn]
        rfl
      · change (s'.nextThreadId + 1) % 4294967296 = _
        rw [next, Nat.mod_add_mod, Nat.add_assoc]

/-- With all ids drawn, the first one is drawn again: two live threads have it. -/
theorem ids_repeat : ∃ (trace : List (Transition Sys Attempt)) (s : Sys),
    Run (AttemptStep desktop) (initial (fun _ => 0) Heap.empty) trace s ∧
      (constructions trace).length = 4294967297 ∧ ¬ s.UniqueIds := by
  obtain ⟨a, m₁, h₁, built, _, _, below, _⟩ := SingleThreadAllocator.new_possible (Owner.slab 0)
    (.arena 0) (fun _ => 0) Heap.empty (Nat.dvd_zero _) (by decide)
    (fun b member => by cases member)
  obtain ⟨s₁, first, live₁, unborn₁, heap₁, next₁⟩ : ∃ s₁,
      AttemptStep desktop (initial (fun _ => 0) Heap.empty) (.taken (.start 0 (.ok ()))) s₁ ∧
        s₁.threads 0 = .live ⟨a, 0, 0, 0⟩ Client.none ∧ (∀ t, t ≠ 0 → s₁.threads t = .unborn) ∧
        s₁.shared.heap = h₁ ∧ s₁.nextThreadId = 1 :=
    ⟨_, .taken (.start rfl built), rfl, fun t other => Function.update_of_ne other _ _, rfl, rfl⟩
  obtain ⟨trace, s₂, failures, drawn, threads, heap, next⟩ :=
    failures_possible (unborn₁ 1 (by decide)) (by rw [next₁]; decide) 4294967295
  have room : Below s₂.shared.heap (33554432 + 1048576) := by
    intro b member
    rw [heap, heap₁] at member
    exact Nat.le_trans (below b member) (by decide)
  obtain ⟨b, m₃, h₃, built', _⟩ := SingleThreadAllocator.new_possible (Owner.slab 2) (.arena 2)
    s₂.mem s₂.shared.heap (by decide : 1048576 ∣ 33554432) (by decide) room
  have waiting : s₂.threads 2 = .unborn := by rw [threads]; exact unborn₁ 2 (by decide)
  obtain ⟨s₃, last, live₃, others⟩ : ∃ s₃, AttemptStep desktop s₂ (.taken (.start 2 (.ok ()))) s₃ ∧
      s₃.threads 2 = .live ⟨b, 0, 0, s₂.nextThreadId⟩ Client.none ∧
        s₃.threads 0 = s₂.threads 0 :=
    ⟨_, .taken (.start waiting built'), rfl, rfl⟩
  refine ⟨_, s₃, ((Run.nil.snoc first).append failures).snoc last, ?_, ?_⟩
  · have total : ∀ x y : Transition Sys Attempt, x.event.draws = some (0, true) →
        y.event.draws = some (2, true) →
        (constructions ([x] ++ trace ++ [y])).length = (constructions trace).length + 2 := by
      intro x y one two
      simp [constructions, one, two]
    have counted := total ⟨initial (fun _ => 0) Heap.empty, .taken (.start 0 (.ok ())), s₁⟩
      ⟨s₂, .taken (.start 2 (.ok ())), s₃⟩ rfl rfl
    rwa [drawn] at counted
  · intro unique
    have wrapped : s₂.nextThreadId = 0 := by rw [next, next₁]
    have zero : s₃.threads 0 = .live ⟨a, 0, 0, 0⟩ Client.none := by rw [others, threads, live₁]
    exact absurd (unique 0 2 _ _ _ _ zero live₃ wrapped.symm) (by decide)

end Repeats

/-- The id of a live thread is the number of constructions that have drawn one before its own,
failed ones included, modulo `2 ^ 32`. So live threads differ in their ids in all runs in which at
most `2 ^ 32` ids are drawn, and in no longer ones. -/
theorem ids_unique_iff :
    (∀ (P : Platform) (m : ByteMemory) (h : Heap Owner) (trace : List (Transition Sys Attempt))
      (s : Sys), Run (AttemptStep P) (initial m h) trace s →
        ∀ t pool client, s.threads t = .live pool client →
          pool.threadId = idsBefore trace t % 4294967296) ∧
    ∀ n : Nat, (∀ (P : Platform) (m : ByteMemory) (h : Heap Owner)
      (trace : List (Transition Sys Attempt)) (s : Sys), Run (AttemptStep P) (initial m h) trace s →
        (constructions trace).length ≤ n → s.UniqueIds) ↔ n ≤ 4294967296 := by
  refine ⟨?_, fun n => ⟨?_, ?_⟩⟩
  · intro P m h trace s run t pool client live
    exact ((Numbered.run run).live t pool client live).2
  · intro unique
    obtain ⟨trace, s, run, drawn, repeated⟩ := ids_repeat
    apply Nat.le_of_not_lt
    intro more
    exact repeated (unique desktop _ _ trace s run (by omega))
  · intro bound P m h trace s run few
    exact (Numbered.run run).unique (Nat.le_trans few bound)

end Sys

end MemAlloc
