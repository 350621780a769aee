import MemAlloc.ConstructionOutcomes

set_option autoImplicit false

namespace MemAlloc

open Malloc (Heap)
open Runs (Run Transition)

namespace CallState

variable {P : Platform} {growth : Nat → Nat} {mutexBytes : Nat} {c : CallReplies} {r : Replies}
  {t p : Nat} {s : CallState}

section Delete

/-- Only the construction of the thread's allocator throws on the way to it. -/
theorem reachAllocator_outcome :
    ((s.reachAllocator P growth mutexBytes c t p).Throws ↔ s.w.NeedsConstruction t p ∧
        s.w.constructing t = false ∧ s.Creates P mutexBytes c.threadIds t .threadIds ∧
          ¬ s.MembersGranted P mutexBytes c t) ∧
      ((s.reachAllocator P growth mutexBytes c t p).Returns ↔
        (s.w.NeedsConstruction t p → s.w.constructing t = false ∧
          s.Registers P growth mutexBytes c t ∧ s.MembersGranted P mutexBytes c t)) := by
  unfold reachAllocator NewDelete.NeedsConstruction
  by_cases consults : s.w.Consults t p
  · have outcome := allocatorInstance_outcome P growth mutexBytes c t s
    rw [if_pos consults, outcome.1, outcome.2]
    unfold Instantiates
    simp only [consults, true_and]
    refine ⟨fun ready unborn => ?_, fun ready => ?_⟩
    · exact ⟨(ready.1 unborn).1, (ready.1 unborn).2, ready.2 unborn⟩
    · exact ⟨fun unborn => ⟨(ready unborn).1, (ready unborn).2.1⟩,
        fun unborn => (ready unborn).2.2⟩
  · rw [if_neg consults]
    simp [consults]

/-- There the deletion goes through. -/
theorem reachAllocator_after (P : Platform) (growth : Nat → Nat) (mutexBytes : Nat)
    (c : CallReplies) (t p : Nat) (grounded : s.w.sys.Grounded) :
    (s.reachAllocator P growth mutexBytes c t p).After (fun s' => Keeps t s s' ∧
      ∃ freed w', s'.w.doDelete t p = some (freed, w')) := by
  unfold reachAllocator
  split
  · rename_i consults
    refine allocatorInstance_keeps.mono fun s' kept => ⟨kept.1, ?_⟩
    obtain ⟨pool, client, live⟩ := kept.2 consults.2.2.2
    exact NewDelete.doDelete_grounded (kept.1.grounded grounded t pool client live) live
  · rename_i spared
    rw [CallEnd.pure_eq, CallEnd.after_returns]
    exact ⟨Keeps.refl t s, NewDelete.doDelete_spared spared⟩

theorem doDelete_shared {w w' : NewDelete} {freed : List Nat} (reached : w.deallocates t p = true)
    (done : w.doDelete t p = some (freed, w')) : w'.sys.shared = w.sys.shared := by
  unfold NewDelete.deallocates at reached
  split at reached
  · rename_i pool client live
    obtain ⟨⟨nonnull, unstashed, ready, _⟩, known, small⟩ := of_decide_eq_true reached
    rw [NewDelete.doDelete, if_neg nonnull, NewDelete.stash_none unstashed, live] at done
    simp only [ready, Bool.true_eq_false, known, small, ↓reduceIte] at done
    split at done
    · cases done
    · cases done
      rfl
  · cases reached

theorem records_deleted {freed : List Nat} {w' : NewDelete}
    (done : s.w.doDelete t p = some (freed, w')) :
    CallState.Records P mutexBytes r t (s.w.deallocates t p) { s with w := w' } ↔
      s.Records P mutexBytes r t (s.w.deallocates t p) := by
  unfold Records
  refine imp_congr_right fun _ => imp_congr_right fun reached => ?_
  have shared := doDelete_shared reached done
  unfold Creates NewDelete.NullFallback
  simp only [falls, true_and, NewDelete.malloc, shared]

/-- What a deletion needs to return: the way to `instance()` returns, and an event that is
recorded finds the ring or gets it. -/
def Deletable (P : Platform) (growth : Nat → Nat) (mutexBytes : Nat) (c : CallReplies) (t p : Nat)
    (s : CallState) : Prop :=
  (s.w.NeedsConstruction t p → s.w.constructing t = false ∧
      s.Registers P growth mutexBytes c t ∧ s.MembersGranted P mutexBytes c t) ∧
    (s.reachAllocator P growth mutexBytes c t p).After
      (fun s' => s'.Records P mutexBytes c.ring t (s'.w.deallocates t p))

theorem deleteCall_returns_iff (grounded : s.w.sys.Grounded) :
    (s.deleteCall P growth mutexBytes c t p).Returns ↔ s.Deletable P growth mutexBytes c t p := by
  have after := reachAllocator_after P growth mutexBytes c t p grounded
  unfold deleteCall Deletable
  rw [CallEnd.bind_returns, reachAllocator_outcome.2]
  refine and_congr_right fun _ => forall_congr' fun s' => imp_congr_right fun reached => ?_
  obtain ⟨_, freed, w', done⟩ := after s' reached
  dsimp only
  rw [done]
  dsimp only
  rw [CallEnd.bind_returns, record_returns_iff, records_deleted done]
  exact and_iff_left fun _ _ => CallEnd.returns_returns _

theorem deleteCall_throws_iff (grounded : s.w.sys.Grounded) :
    (s.deleteCall P growth mutexBytes c t p).Throws ↔ s.w.NeedsConstruction t p ∧
      s.w.constructing t = false ∧ s.Creates P mutexBytes c.threadIds t .threadIds ∧
        ¬ s.MembersGranted P mutexBytes c t := by
  have after := reachAllocator_after P growth mutexBytes c t p grounded
  unfold deleteCall
  rw [CallEnd.bind_throws, reachAllocator_outcome.1]
  refine or_iff_left ?_
  rintro ⟨s', reached, thrown⟩
  obtain ⟨_, freed, w', done⟩ := after s' reached
  rw [done] at thrown
  rcases CallEnd.bind_throws.mp thrown with recorded | ⟨s₂, _, returned⟩
  · exact record_not_throws recorded
  · exact CallEnd.returns_not_throws _ returned

theorem deleteCall_keeps (grounded : s.w.sys.Grounded) :
    (s.deleteCall P growth mutexBytes c t p).After (fun y => Keeps t s y.2) := by
  unfold deleteCall
  rw [CallEnd.bind_after]
  refine (reachAllocator_after P growth mutexBytes c t p grounded).mono ?_
  rintro s' ⟨kept, freed, w', done⟩
  rw [done]
  dsimp only
  rw [CallEnd.bind_after]
  have recs := NewDelete.doDelete_recs done
  have deleted : Keeps t s' { s' with w := w' } :=
    .of_moves (NewDelete.doDelete_moves done) fun null => recs ▸ null
  refine record_keeps.mono fun s₂ kept₂ => ?_
  rw [CallEnd.pure_eq, CallEnd.after_returns]
  exact (kept.trans deleted).trans kept₂

end Delete

end CallState

namespace NewDelete

variable {P : Platform} {m : ByteMemory} {h : Heap Owner}
  {trace : List (Transition NewDelete Event)}

/-- In every state that a run reaches, whatever the vectors, the statics and the switch are, a
deletion returns normally exactly when the thread's allocator exists or is not needed, or can
be constructed and registered, and the ring is not needed, exists or gets its memory. An
exception reaches its boundary exactly when a request for the members is refused. -/
theorem delete_returns_iff (s : CallState) (run : Run (Step P) (initial m h) trace s.w)
    (growth : Nat → Nat) (mutexBytes : Nat) (c : CallReplies) (t p : Nat) :
    ((s.deleteCall P growth mutexBytes c t p).Throws ↔ s.w.NeedsConstruction t p ∧
      s.w.constructing t = false ∧ s.Creates P mutexBytes c.threadIds t .threadIds ∧
        ¬ s.MembersGranted P mutexBytes c t) ∧
    ((s.deleteCall P growth mutexBytes c t p).Returns ↔ s.Deletable P growth mutexBytes c t p) :=
  ⟨CallState.deleteCall_throws_iff (grounded_run run),
    CallState.deleteCall_returns_iff (grounded_run run)⟩

/-- Thread 0 starts the override and is handed a block; thread 1 has made no call. -/
theorem block_possible : ∃ (trace : List (Transition NewDelete Event)) (w : NewDelete),
    Run (Step desktop) (initial (fun _ => 0) Heap.empty) trace w ∧
      2097152 ∈ w.issued (0, .pool 16) ∧ w.ready = true ∧
      (∃ pool client, w.sys.threads 0 = .live pool client) ∧ w.sys.threads 1 = .unborn ∧
      w.alignedScratch 1 = [] ∧ w.constructing 1 = false := by
  let w : NewDelete := initial (fun _ => 0) Heap.empty
  have aligned : 1048576 ∣ 1048576 := by decide
  have room : 1048576 + 33554432 ≤ Malloc.addressLimit := by decide
  have nothing : Below w.sys.shared.heap (1048576 + 1048576) := by
    intro b member
    cases member
  obtain ⟨w₁, w₂, pool, begun, built, threads, _, _, _, heads, _, _, _, _, scratch₂, _,
    constructing₂, _⟩ := construct_possible (w := w) (t := 0) rfl rfl aligned room nothing
  have live : w₂.sys.threads 0 = .live pool Client.none := by rw [threads, Function.update_self]
  have init : Step desktop w₂ (.initAllocator 0) { w₂ with ready := true } := .initAllocator live
  obtain ⟨pool', w₃, served, sys₃, ready₃, _, scratch₃, constructing₃, issued₃⟩ :=
    pooled_possible (P := desktop) (w := { w₂ with ready := true }) (t := 0) (n := 16)
      (p := 2097152) rfl live (by decide) (by decide) (heads 0) (by decide)
  have run := (((Run.nil.snoc begun).snoc built).snoc init).snoc served
  have live₃ : w₃.sys.threads 0 = .live pool' (Client.none.gain 16 (.ok (some 2097152))) := by
    rw [sys₃]
    exact Sys.setThread_same _ _ _
  refine ⟨_, w₃, run, ?_, ready₃, ⟨pool', _, live₃⟩, ?_, ?_, ?_⟩
  · rw [issued₃, Function.update_self]
    exact List.mem_cons_self
  · rw [sys₃, Sys.setThread_other _ _ (by decide)]
    show w₂.sys.threads 1 = .unborn
    rw [threads, Function.update_of_ne (by decide)]
    rfl
  · rw [scratch₃]
    exact congrFun scratch₂ 1
  · rw [constructing₃, constructing₂]
    rfl

/-- No memory at all. -/
def refused : CallReplies :=
  let nothing : Replies := ⟨none, none, ⟨none, none⟩⟩
  ⟨nothing, nothing, ⟨fun _ => ⟨none, none⟩, none, nothing, nothing⟩, nothing, nothing, nothing,
    nothing⟩

/-- Thread 0 deletes its block while recording is enabled and the ring exists. -/
theorem delete_returns_recorded : ∃ (s : CallState), 2097152 ∈ s.w.issued (0, .pool 16) ∧
    s.enabled = true ∧ (s.deleteCall desktop (· + 1) 40 refused 0 2097152).Returns := by
  obtain ⟨trace, w, run, out, ready, ⟨pool, client, live⟩, _⟩ := block_possible
  let s : CallState := ⟨w, fun _ => ⟨0, 0, 0⟩, fun _ => true, true⟩
  refine ⟨s, out, rfl, (delete_returns_iff s run (· + 1) 40 refused 0 2097152).2.mpr ⟨?_, ?_⟩⟩
  · rintro ⟨_, unborn⟩
    rw [live] at unborn
    cases unborn
  · have settled : s.reachAllocator desktop (· + 1) 40 refused 0 2097152 = .returns s := by
      unfold CallState.reachAllocator CallState.allocatorInstance
      rw [live]
      split <;> rfl
    rw [settled, CallEnd.after_returns]
    exact fun _ _ => Or.inl rfl

theorem not_granted (t : Nat) (w : NewDelete) :
    ¬ w.ConstructionGranted desktop refused.construction t := by
  rintro ⟨h, granted, _⟩
  have refusal : slabsGranted desktop t (fun _ => ⟨none, none⟩) (List.finRange 7)
      w.sys.shared.heap = none := rfl
  have impossible : (none : Option (Heap Owner)) = some h := refusal.symm.trans granted
  cases impossible

/-- Thread 1, which has no allocator yet, deletes a block of thread 0 when there is no memory
left: `std::bad_alloc` leaves a `noexcept` function. -/
theorem delete_not_always_returns : ∃ (s : CallState) (trace : List (Transition NewDelete Event)),
    Run (Step desktop) (initial (fun _ => 0) Heap.empty) trace s.w ∧
      2097152 ∈ s.w.issued (0, .pool 16) ∧
      (s.deleteCall desktop (· + 1) 40 refused 1 2097152).Throws ∧
      ¬ (s.deleteCall desktop (· + 1) 40 refused 1 2097152).Returns := by
  obtain ⟨trace, w, run, out, ready, _, unborn, unstashed, outside⟩ := block_possible
  let s : CallState := ⟨w, fun _ => ⟨0, 0, 0⟩, fun _ => true, false⟩
  have consults : w.Consults 1 2097152 := by
    refine ⟨by decide, fun e stashed => ?_, ready, ?_⟩
    · rw [unstashed] at stashed
      cases stashed
    · rw [allocatorGone, unborn]
  have grounded : s.w.sys.Grounded := grounded_run run
  have missing : ¬ s.MembersGranted desktop 40 refused 1 := by
    intro granted
    exact not_granted 1 w (granted s rfl)
  have throws : (s.deleteCall desktop (· + 1) 40 refused 1 2097152).Throws :=
    (CallState.deleteCall_throws_iff grounded).mpr
      ⟨⟨consults, unborn⟩, outside, Or.inl rfl, missing⟩
  refine ⟨s, trace, run, out, throws, fun returned => ?_⟩
  have deletable := (CallState.deleteCall_returns_iff grounded).mp returned
  exact missing (deletable.1 ⟨consults, unborn⟩).2.2

end NewDelete

end MemAlloc
