import Mathlib.Data.List.Perm.Subperm
import MemAlloc.Construction
import MemAlloc.ThreadPoolAlloc
import MemAlloc.Lib.Runs

set_option autoImplicit false

namespace MemAlloc.CentralHeap

open Malloc (Heap Block addressLimit)
open Runs (Run Transition)

variable {τ : Type} [DecidableEq τ]

def outstanding (mine : τ) (h : Heap τ) : List Nat :=
  (h.blocks.filter (fun b => b.owner = mine)).map (fun b => b.span.base)

/-- The destructor's loop of `std::free` calls. It has no result when a pointer is not the
start of an outstanding region of this owner. -/
def destroy (mine : τ) : List Nat → Heap τ → Option (Heap τ)
  | [], h => some h
  | raw :: chunks, h =>
      if raw ∈ outstanding mine h then destroy mine chunks (h.free raw) else none

structure World (τ : Type) where
  heap : Heap τ
  central : CentralHeap
  mem : ByteMemory

inductive Event (τ : Type) where
  | acquire (thread sizeClassBytes : Nat) (reply : SlabReply) (recorded : Bool)
      (result : Except Exn Nat)
  | malloc (owner : τ) (align size : Nat) (result : Option Nat)
  | free (p : Nat)

/-- One `acquire_chunk` call by any thread, under the mutex, or one request of somebody else
to the C heap. -/
inductive Step (P : Platform) (mine : τ) : World τ → Event τ → World τ → Prop
  | acquire {w : World τ} {thread bytes : Nat} {reply : SlabReply} {recorded : Bool}
      {x : Except Exn Nat} {h' : Heap τ} {c' : CentralHeap} {m' : ByteMemory}
      (done : acquireChunk P mine reply recorded bytes w.central w.heap w.mem =
        (x, h', c', m')) :
      Step P mine w (.acquire thread bytes reply recorded x) ⟨h', c', m'⟩
  | malloc {w : World τ} {owner : τ} {align size : Nat} {reply x : Option Nat} {h' : Heap τ}
      (other : owner ≠ mine) (done : w.heap.malloc owner align size reply = (x, h')) :
      Step P mine w (.malloc owner align size x) { w with heap := h' }
  | free {w : World τ} {b : Block τ} (member : b ∈ w.heap.blocks) (other : b.owner ≠ mine) :
      Step P mine w (.free b.span.base) { w with heap := w.heap.free b.span.base }

section Outstanding

variable {mine : τ} {h h' : Heap τ}

theorem mem_outstanding {p : Nat} :
    p ∈ outstanding mine h ↔ ∃ b ∈ h.blocks, b.owner = mine ∧ b.span.base = p := by
  simp [outstanding, and_assoc]

theorem outstanding_cons {b : Block τ} (added : h'.blocks = b :: h.blocks) :
    outstanding mine h' =
      if b.owner = mine then b.span.base :: outstanding mine h else outstanding mine h := by
  simp only [outstanding, added, List.filter_cons, decide_eq_true_eq]
  split <;> rfl

theorem outstanding_nodup (mine : τ) (h : Heap τ) : (outstanding mine h).Nodup := by
  refine (List.pairwise_map.mpr ?_)
  have apart : (h.blocks.filter (fun b => decide (b.owner = mine))).Pairwise
      (fun b c => b.span.Apart c.span) := h.apart.filter _
  refine apart.imp_of_mem ?_
  intro b c left right separate
  have first := (h.bounded b (List.mem_filter.mp left).1).2.1
  have second := (h.bounded c (List.mem_filter.mp right).1).2.1
  exact separate.base_ne first second

theorem outstanding_bounded {p : Nat} (member : p ∈ outstanding mine h) : p < addressLimit := by
  obtain ⟨b, listed, _, rfl⟩ := mem_outstanding.mp member
  have bounds := h.bounded b listed
  exact Nat.lt_of_lt_of_le (Nat.lt_add_of_pos_right bounds.2.1) bounds.2.2

theorem outstanding_free {b : Block τ} (member : b ∈ h.blocks) (other : b.owner ≠ mine) :
    outstanding mine (h.free b.span.base) = outstanding mine h := by
  simp only [outstanding, Heap.free, List.filter_filter]
  congr 1
  apply List.filter_congr
  intro c listed
  by_cases same : c.owner = mine
  · have different : c.span.base ≠ b.span.base := by
      intro equal
      exact other (Heap.eq_of_base listed member equal ▸ same)
    simp [same, different]
  · simp [same]

theorem outstanding_freed (mine : τ) (h : Heap τ) (raw : Nat) :
    outstanding mine (h.free raw) = (outstanding mine h).filter (· ≠ raw) := by
  simp only [outstanding, Heap.free, List.filter_map, List.filter_filter]
  congr 1
  apply List.filter_congr
  intro c _
  simp [Function.comp, Bool.and_comm]

theorem length_le_of_bounded {xs : List Nat} {limit : Nat} (nodup : xs.Nodup)
    (bounded : ∀ x ∈ xs, x < limit) : xs.length ≤ limit := by
  have subset : xs ⊆ List.range limit := fun x member => List.mem_range.mpr (bounded x member)
  simpa using (List.subperm_of_subset nodup subset).length_le

end Outstanding

/-- The regions obtained and not released are the recorded ones, each once, and the counter
counts them. -/
structure Owning (mine : τ) (w : World τ) : Prop where
  recorded : w.central.chunks.Perm (outstanding mine w.heap)
  counted : w.central.totalChunks = w.central.chunks.length

/-- A call that fails leaves the recorded regions, the counter and the outstanding regions as
they were. -/
def FailsAtomically (mine : τ) (x : Transition (World τ) (Event τ)) : Prop :=
  ∀ thread bytes reply recorded error,
    x.event = .acquire thread bytes reply recorded (.error error) →
      x.after.central = x.before.central ∧
        outstanding mine x.after.heap = outstanding mine x.before.heap

/-- The destructor frees every region of the central heap, each exactly once, and nothing
else. -/
def FreesAll (mine : τ) (w : World τ) : Prop :=
  ∃ h', destroy mine w.central.chunks w.heap = some h' ∧ outstanding mine h' = [] ∧
    ∀ b ∈ w.heap.blocks, b.owner ≠ mine → b ∈ h'.blocks

/-- Once a region has been obtained for the call, the vector of chunks does grow. -/
def Recorded (P : Platform) (mine : τ) (w : World τ) : Event τ → Prop
  | .acquire _ _ reply recorded _ =>
      recorded = true ∨ (allocateSlab P w.heap mine chunkSize chunkSize reply).1 = none
  | _ => True

section Ownership

variable {P : Platform} {mine : τ} {w w' : World τ}

theorem destroy_perm {chunks : List Nat} {h : Heap τ} (perm : chunks.Perm (outstanding mine h)) :
    ∃ h', destroy mine chunks h = some h' ∧ outstanding mine h' = [] ∧
      ∀ b ∈ h.blocks, b.owner ≠ mine → b ∈ h'.blocks := by
  induction chunks generalizing h with
  | nil => exact ⟨h, rfl, perm.nil_eq.symm, fun b member _ => member⟩
  | cons raw chunks ih =>
      have member : raw ∈ outstanding mine h := perm.subset List.mem_cons_self
      have nodup := perm.nodup_iff.mpr (outstanding_nodup mine h)
      have rest : chunks.Perm (outstanding mine (h.free raw)) := by
        rw [outstanding_freed]
        have filtered := perm.filter (· ≠ raw)
        have kept : (raw :: chunks).filter (· ≠ raw) = chunks := by
          rw [List.filter_cons, if_neg (by simp)]
          refine List.filter_eq_self.mpr (fun x listed => ?_)
          have different : x ≠ raw := fun same => (List.nodup_cons.mp nodup).1 (same ▸ listed)
          simpa using different
        rwa [kept] at filtered
      obtain ⟨h', freed, empty, others⟩ := ih rest
      refine ⟨h', by rw [destroy, if_pos member]; exact freed, empty, ?_⟩
      intro b listed other
      refine others b (Heap.mem_free.mpr ⟨listed, ?_⟩) other
      intro same
      obtain ⟨c, found, owner, base⟩ := mem_outstanding.mp member
      exact other (Heap.eq_of_base listed found (same.trans base.symm) ▸ owner)

/-- `acquire_chunk` by its three outcomes: no region, a region that is recorded, and one that
is not. -/
theorem acquireChunk_cases {reply : SlabReply} {recorded : Bool} {bytes : Nat}
    {c c' : CentralHeap} {h h' : Heap τ} {m m' : ByteMemory} {x : Except Exn Nat}
    (done : acquireChunk P mine reply recorded bytes c h m = (x, h', c', m')) :
    ((allocateSlab P h mine chunkSize chunkSize reply).1 = none ∧ x = .error .badAlloc ∧
        h' = h ∧ c' = c) ∨
    ∃ raw, (allocateSlab P h mine chunkSize chunkSize reply).1 ≠ none ∧
      outstanding mine h' = raw :: outstanding mine h ∧
        ((recorded = true ∧ (∃ body, x = .ok body) ∧
            c' = ⟨c.chunks ++ [raw], Words.add c.totalChunks 1⟩) ∨
          (recorded = false ∧ x = .error .badAlloc ∧ c' = c)) := by
  rw [acquireChunk] at done
  generalize reached : allocateSlab P h mine chunkSize chunkSize reply = answer at done
  obtain ⟨region, grown⟩ := answer
  cases region with
  | none =>
      cases done
      exact Or.inl ⟨rfl, rfl, allocateSlab_none reached, rfl⟩
  | some s =>
      have power : Words.PowerOfTwo chunkSize := ⟨16, by decide, by decide⟩
      obtain ⟨b, added, owner, base, _⟩ :=
        allocateSlab_some power (by simp only [chunkSize, Words.radix]; omega) reached
      have more : outstanding mine grown = s.raw :: outstanding mine h := by
        rw [outstanding_cons added, if_pos owner, base]
      cases recorded with
      | true =>
          cases done
          exact Or.inr ⟨s.raw, by simp, more, Or.inl ⟨rfl, ⟨_, rfl⟩, rfl⟩⟩
      | false =>
          cases done
          exact Or.inr ⟨s.raw, by simp, more, Or.inr ⟨rfl, rfl, rfl⟩⟩

/-- Every step keeps the ownership law when no growth of the vector fails in it. -/
theorem Owning.step {e : Event τ} (owning : Owning mine w) (grows : Recorded P mine w e)
    (taken : Step P mine w e w') :
    Owning mine w' ∧ FailsAtomically mine ⟨w, e, w'⟩ := by
  cases taken with
  | @acquire thread bytes reply recorded x h' c' m' done =>
      rcases acquireChunk_cases done with
        ⟨missing, rfl, rfl, rfl⟩ | ⟨raw, present, more, ⟨rfl, ⟨body, rfl⟩, rfl⟩ | lost⟩
      · exact ⟨⟨owning.recorded, owning.counted⟩, fun _ _ _ _ _ _ => ⟨rfl, rfl⟩⟩
      · have room : w.central.chunks.length ≤ 9223372036854775808 := by
          rw [owning.recorded.length_eq]
          exact length_le_of_bounded (outstanding_nodup mine w.heap)
            (fun p member => outstanding_bounded member)
        have counted : Words.add w.central.totalChunks 1 = w.central.totalChunks + 1 := by
          rw [owning.counted]
          exact Words.add_of_lt (by simp only [Words.radix]; omega)
        refine ⟨⟨?_, ?_⟩, fun _ _ _ _ _ failed => by cases failed⟩
        · change (w.central.chunks ++ [raw]).Perm (outstanding mine h')
          rw [more]
          exact (List.perm_append_singleton raw _).trans (owning.recorded.cons raw)
        · change Words.add w.central.totalChunks 1 = (w.central.chunks ++ [raw]).length
          rw [counted, owning.counted, List.length_append, List.length_singleton]
      · obtain ⟨unrecorded, _, _⟩ := lost
        rcases grows with recorded | missing
        · exact absurd recorded (by simp [unrecorded])
        · exact absurd missing present
  | @malloc owner align size reply x h' other done =>
      refine ⟨⟨?_, owning.counted⟩, fun _ _ _ _ _ failed => by cases failed⟩
      cases x with
      | none =>
          obtain rfl := Heap.of_malloc_none done
          exact owning.recorded
      | some p =>
          have added := (Heap.of_malloc_some done).2
          change w.central.chunks.Perm (outstanding mine h')
          rw [outstanding_cons added, if_neg other]
          exact owning.recorded
  | @free b member other =>
      refine ⟨⟨?_, owning.counted⟩, fun _ _ _ _ _ failed => by cases failed⟩
      change w.central.chunks.Perm (outstanding mine (w.heap.free b.span.base))
      rw [outstanding_free member other]
      exact owning.recorded

/-- A region that is not recorded makes the failing call visible in the C heap. -/
theorem recorded_of_atomic {e : Event τ} (taken : Step P mine w e w')
    (atomic : FailsAtomically mine ⟨w, e, w'⟩) : Recorded P mine w e := by
  cases taken with
  | @acquire thread bytes reply recorded x h' c' m' done =>
      rcases acquireChunk_cases done with
        ⟨missing, _⟩ | ⟨raw, _, more, ⟨recorded, _⟩ | ⟨_, rfl, _⟩⟩
      · exact Or.inr missing
      · exact Or.inl recorded
      · have same := (atomic _ _ _ _ _ rfl).2
        change outstanding mine h' = outstanding mine w.heap at same
        rw [more] at same
        exact absurd (congrArg List.length same) (by simp)
  | malloc _ _ => trivial
  | free _ _ => trivial

end Ownership

variable {P : Platform} {mine : τ}

/-- The central heap owns exactly what it has obtained, at every point of the run, and
failing calls change nothing, if and only if no call loses its region to a failing growth of
the vector of chunks. -/
theorem owns_every_chunk_iff {h₀ : Heap τ} {m₀ : ByteMemory} (fresh : outstanding mine h₀ = [])
    {trace : List (Transition (World τ) (Event τ))} {w : World τ}
    (run : Run (Step P mine) ⟨h₀, empty, m₀⟩ trace w) :
    ((∀ x ∈ trace, Owning mine x.before ∧ FailsAtomically mine x) ∧ Owning mine w ∧
      FreesAll mine w) ↔ ∀ x ∈ trace, Recorded P mine x.before x.event := by
  constructor
  · rintro ⟨lawful, _⟩ x member
    obtain ⟨_, _, _, _, taken⟩ := run.reached x member
    exact recorded_of_atomic taken (lawful x member).2
  · intro grows
    have start : Owning mine (⟨h₀, empty, m₀⟩ : World τ) := by
      refine ⟨?_, rfl⟩
      change ([] : List Nat).Perm (outstanding mine h₀)
      rw [fresh]
    have keep : ∀ w e w', Owning mine w → Recorded P mine w e → Step P mine w e w' →
        Owning mine w' := fun w e w' owning grows taken => (owning.step grows taken).1
    have last := run.invariantWhere start keep grows
    refine ⟨?_, last, destroy_perm last.recorded⟩
    intro x member
    have before := run.invariantBefore start keep grows x member
    obtain ⟨_, _, _, _, taken⟩ := run.reached x member
    exact ⟨before, (before.step (grows x member) taken).2⟩

theorem first_region : (allocateSlab desktop (Heap.empty : Heap Owner) .chunk chunkSize chunkSize
    ⟨some 65536, none⟩).1 ≠ none := by decide

theorem owns_every_chunk_iff_first : ∃ trace w,
    Run (Step desktop Owner.chunk) ⟨Heap.empty, empty, fun _ => 0⟩ trace w ∧
      trace.length = 1 ∧ Owning Owner.chunk w ∧ FreesAll Owner.chunk w := by
  rcases done : acquireChunk desktop Owner.chunk ⟨some 65536, none⟩ true 16 empty Heap.empty
    (fun _ => 0) with ⟨x, h', c', m'⟩
  have taken : Step desktop Owner.chunk ⟨Heap.empty, empty, fun _ => 0⟩
      (.acquire 0 16 ⟨some 65536, none⟩ true x) ⟨h', c', m'⟩ := .acquire done
  have run := Run.nil.snoc taken
  refine ⟨_, _, run, rfl, ((owns_every_chunk_iff rfl run).mpr ?_).2⟩
  intro y member
  obtain rfl := List.mem_singleton.mp member
  exact Or.inl rfl

/-- When the vector fails to grow, the region stays outstanding and nobody records it. -/
theorem not_always_owning : ∃ trace w,
    Run (Step desktop Owner.chunk) ⟨Heap.empty, empty, fun _ => 0⟩ trace w ∧
      ¬ Owning Owner.chunk w := by
  rcases done : acquireChunk desktop Owner.chunk ⟨some 65536, none⟩ false 16 empty Heap.empty
    (fun _ => 0) with ⟨x, h', c', m'⟩
  have taken : Step desktop Owner.chunk ⟨Heap.empty, empty, fun _ => 0⟩
      (.acquire 0 16 ⟨some 65536, none⟩ false x) ⟨h', c', m'⟩ := .acquire done
  have run := Run.nil.snoc taken
  refine ⟨_, _, run, ?_⟩
  intro owning
  rcases acquireChunk_cases done with
    ⟨missing, _⟩ | ⟨raw, _, more, ⟨recorded, _⟩ | ⟨_, _, rfl⟩⟩
  · exact first_region missing
  · cases recorded
  · have lengths := owning.recorded.length_eq
    change 0 = (outstanding Owner.chunk h').length at lengths
    rw [more] at lengths
    cases lengths

end MemAlloc.CentralHeap
