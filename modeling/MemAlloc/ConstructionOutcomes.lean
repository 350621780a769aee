import MemAlloc.Registration
import MemAlloc.NewOutcomes

set_option autoImplicit false

namespace MemAlloc

open Malloc (Heap)
open SingleThreadAllocator (Grounded)

namespace NewDelete

variable {P : Platform} {r : Replies} {t p : Nat} {w w' : NewDelete}

/-- What the fallback leaves of the flags. -/
structure SameFlags (w w' : NewDelete) : Prop where
  ready : w'.ready = w.ready
  scratch : w'.alignedScratch = w.alignedScratch
  threads : w'.sys.threads = w.sys.threads

theorem SameFlags.consults (same : SameFlags w w') : w'.Consults t p ↔ w.Consults t p := by
  simp only [Consults, allocatorGone, same.ready, same.scratch, same.threads]

theorem recordMallocPtr_flags (P : Platform) (reply : Option Nat) (q : Nat) (w : NewDelete) :
    SameFlags w (w.recordMallocPtr P reply q) := by
  obtain ⟨h, recs, same, _⟩ := of_recordMallocPtr P reply q w
  rw [same]
  exact ⟨rfl, rfl, rfl⟩

theorem fallbackNew_flags {size : Nat} {x : Except Exn (Option Nat)}
    (done : w.fallbackNew P r t size = (x, w')) : SameFlags w w' := by
  rw [fallbackNew] at done
  split at done
  · rename_i w₁ refused
    cases done
    obtain rfl := of_malloc_none refused
    exact recordMallocPtr_flags P r.node 0 w₁
  · rename_i q w₁ granted
    cases done
    obtain ⟨h, rfl, _⟩ := of_malloc_some granted
    have recorded := recordMallocPtr_flags P r.node q { w with sys := w.sys.setHeap h }
    exact ⟨recorded.ready, recorded.scratch, recorded.threads⟩

/-- The heap once every slab request of the listed classes has been granted. -/
def slabsGranted (P : Platform) (t : Nat) (reply : SizeClass → SlabReply) :
    List SizeClass → Heap Owner → Option (Heap Owner)
  | [], h => some h
  | i :: rest, h =>
      match allocateSlab P h (.slab t i) (blocksPerSlab * i.bytes) i.bytes (reply i) with
      | (none, _) => none
      | (some _, h') => slabsGranted P t reply rest h'

/-- None of the eight requests for the members of the allocator is refused. -/
def ConstructionGranted (P : Platform) (c : ConstructionReplies) (t : Nat) (w : NewDelete) :
    Prop :=
  ∃ h, slabsGranted P t c.slabs (List.finRange 7) w.sys.shared.heap = some h ∧
    (h.malloc (.arena t) P.mallocAlign kArenaCapacity c.arena).1 ≠ none

theorem newPools_cases (P : Platform) (t : Nat) (reply : SizeClass → SlabReply)
    (classes : List SizeClass) :
    ∀ (h : Heap Owner) (m : ByteMemory) (pools : SizeClass → BlockPool),
      (slabsGranted P t reply classes h = none ∧ ∃ h',
        SingleThreadAllocator.newPools P (.slab t) reply classes h m pools =
          (.error .badAlloc, h')) ∨
      ∃ h' pools' m', slabsGranted P t reply classes h = some h' ∧
        SingleThreadAllocator.newPools P (.slab t) reply classes h m pools =
          (.ok (pools', m'), h') := by
  induction classes with
  | nil =>
      intro h m pools
      exact Or.inr ⟨h, pools, m, rfl, rfl⟩
  | cons i rest ih =>
      intro h m pools
      simp only [slabsGranted, SingleThreadAllocator.newPools, BlockPool.new]
      cases allocateSlab P h (Owner.slab t i) (blocksPerSlab * i.bytes) i.bytes (reply i) with
      | mk region h₁ =>
          cases region with
          | none => exact Or.inl ⟨rfl, _, rfl⟩
          | some s =>
              dsimp only
              rcases ih h₁ (BlockPool.ofSlab i.bytes blocksPerSlab m s).2
                (Function.update pools i (BlockPool.ofSlab i.bytes blocksPerSlab m s).1) with
                ⟨refused, h', failed⟩ | ⟨h', pools', m', granted, built⟩
              · rw [failed]
                exact Or.inl ⟨refused, _, rfl⟩
              · rw [built]
                exact Or.inr ⟨h', pools', m', granted, rfl⟩

/-- The members are built exactly when everything they request is granted. -/
theorem constructMembers_cases (P : Platform) (c : ConstructionReplies) (t : Nat)
    (w : NewDelete) :
    (¬ w.ConstructionGranted P c t ∧ ∃ w', w.constructMembers P c t = .throws .badAlloc w' ∧
        w'.mallocRecs = w.mallocRecs) ∨
      (w.ConstructionGranted P c t ∧ ∃ a w', w.constructMembers P c t = .returns (a, w') ∧
        Grounded a ∧ w'.sys.threads = w.sys.threads ∧ w'.mallocRecs = w.mallocRecs) := by
  unfold constructMembers ConstructionGranted
  rcases newPools_cases P t c.slabs (List.finRange 7) w.sys.shared.heap w.sys.mem
    (fun _ => ⟨0, 0, 0, []⟩) with ⟨refused, h', failed⟩ | ⟨h', pools', m', granted, built⟩
  · refine Or.inl ⟨by simp [refused], ?_⟩
    simp only [SingleThreadAllocator.new, failed]
    exact ⟨_, rfl, rfl⟩
  · cases arena : h'.malloc (Owner.arena t) P.mallocAlign kArenaCapacity c.arena with
    | mk answer h'' =>
        cases answer with
        | none =>
            refine Or.inl ⟨?_, ?_⟩
            · rintro ⟨h₁, same, admitted⟩
              rw [granted] at same
              cases same
              rw [arena] at admitted
              exact admitted rfl
            · simp only [SingleThreadAllocator.new, built, Arena.new, arena]
              exact ⟨_, rfl, rfl⟩
        | some base =>
            refine Or.inr ⟨⟨h', granted, by rw [arena]; exact Option.some_ne_none base⟩, ?_⟩
            have made : SingleThreadAllocator.new P (.slab t) (.arena t) c.slabs c.arena
                w.sys.shared.heap w.sys.mem =
                (.ok (⟨pools', Arena.ofRegion base kArenaCapacity, Stats.zero⟩, m'), h'') := by
              simp [SingleThreadAllocator.new, built, Arena.new, arena]
            rw [made]
            exact ⟨_, _, rfl, Grounded.new made, rfl, rfl⟩

theorem constructMembers_threads {k : ConstructionReplies} {a : SingleThreadAllocator}
    (done : w.constructMembers P k t = .returns (a, w')) : w'.sys.threads = w.sys.threads := by
  rcases constructMembers_cases P k t w with ⟨_, w₁, failed, _⟩ | ⟨_, a₁, w₁, built, _, same, _⟩
  · rw [failed] at done
    cases done
  · rw [built] at done
    cases done
    exact same

theorem doDelete_recs {freed : List Nat} (done : w.doDelete t p = some (freed, w')) :
    w'.mallocRecs = w.mallocRecs := by
  cases of_doDelete done <;> rfl

/-- The deletion comes to a thread whose allocator has not been constructed. -/
def NeedsConstruction (w : NewDelete) (t p : Nat) : Prop :=
  w.Consults t p ∧ w.sys.threads t = .unborn

end NewDelete

namespace CallState

open OverrideCalls (Static)
open NewDelete (takesFallback SameFlags)

variable {P : Platform} {growth : Nat → Nat} {mutexBytes : Nat} {c : CallReplies} {r : Replies}
  {active : Bool} {t p bytes : Nat} {s s' : CallState} {v : OverrideCalls.Vector} {x : Static}
  {drop : Nat → CallState → CallEnd CallState}

def Live (s : CallState) (t : Nat) : Prop := ∃ pool client, s.w.sys.threads t = .live pool client

/-- What the calls that one call leads to leave behind. -/
structure Keeps (t : Nat) (s s' : CallState) : Prop where
  recs : 0 ∈ s'.w.mallocRecs → 0 ∈ s.w.mallocRecs
  grounded : s.w.sys.Grounded → s'.w.sys.Grounded
  live : s.Live t → s'.Live t

namespace Keeps

theorem refl (t : Nat) (s : CallState) : Keeps t s s :=
  ⟨fun null => null, fun grounded => grounded, fun live => live⟩

theorem trans {s'' : CallState} (first : Keeps t s s') (second : Keeps t s' s'') : Keeps t s s'' :=
  ⟨fun null => first.recs (second.recs null),
    fun grounded => second.grounded (first.grounded grounded),
    fun live => second.live (first.live live)⟩

theorem of_moves (moves : Sys.Moves t s.w.sys s'.w.sys)
    (recs : 0 ∈ s'.w.mallocRecs → 0 ∈ s.w.mallocRecs) : Keeps t s s' := by
  refine ⟨recs, fun grounded => ?_, ?_⟩
  · exact Sys.Each.move (Sys.grounded_lasting desktop) grounded moves
  · rintro ⟨pool, client, live⟩
    cases moves with
    | same threads => exact ⟨pool, client, by rw [threads, live]⟩
    | advance _ threads _ => exact ⟨_, _, by rw [threads, Function.update_self]⟩

end Keeps

theorem falls (w : NewDelete) (t : Nat) :
    takesFallback w.ready true (w.allocatorGone t) = true := by
  simp [takesFallback]

/-- A request that takes the fallback is granted, or the null address is written to. -/
theorem request_cases (bytes : Nat) (r : Replies)
    (fallback : takesFallback s.w.ready active (s.w.allocatorGone t) = true) :
    (s.w.NullFallback P r active t bytes ∧ s.request P r active t bytes = .writesNull) ∨
      (¬ s.w.NullFallback P r active t bytes ∧
        ∃ buffer w', s.request P r active t bytes = .returns (buffer, { s with w := w' }) ∧
          SameFlags s.w w' ∧ (0 ∈ w'.mallocRecs → 0 ∈ s.w.mallocRecs)) := by
  obtain ⟨answer, done⟩ : ∃ answer, s.w.fallbackNew P r t (if bytes = 0 then 1 else bytes) =
    answer := ⟨_, rfl⟩
  obtain ⟨x, w'⟩ := answer
  have call : s.w.doNew P r active t bytes = some (x, w') := by
    simp only [NewDelete.doNew, fallback, ↓reduceIte, done]
  have flags := NewDelete.fallbackNew_flags done
  unfold request
  rw [call]
  rcases NewDelete.fallbackNew_outcome done with ⟨refused, rfl⟩ | ⟨granted, sound, recs⟩
  · exact Or.inl ⟨⟨fallback, refused⟩, rfl⟩
  · refine Or.inr ⟨fun null => granted null.2, ?_⟩
    rcases sound with bad | ⟨buffer, _, rfl⟩
    · rw [NewDelete.fallbackNew] at done
      split at done
      · cases done
        cases bad
      · cases done
        cases bad
    · exact ⟨buffer, w', rfl, flags, recs⟩

/-- A push keeps what a granted request and the deletion of the old buffer keep. -/
theorem pushBack_after {Q : CallState → Prop} (now : Q s)
    (placed : ∀ s₁ storage, Q s₁ → Q (s₁.setVector v storage))
    (requested : (s.request P r active t (s.vectorBytes growth v)).After (fun y => Q y.2))
    (dropped : ∀ s₁, Q s₁ → (drop (s.vectors v).buffer s₁).After Q) :
    (s.pushBack P growth drop r active t v).After Q := by
  simp only [pushBack]
  split
  · exact (CallEnd.after_returns _ _).mpr (placed _ _ now)
  · rw [CallEnd.bind_after]
    refine requested.mono ?_
    rintro ⟨buffer, s₁⟩ kept
    rw [CallEnd.bind_after]
    have after : (s₁.dropBuffer drop (s.vectors v).buffer).After Q := by
      unfold dropBuffer
      split
      · exact (CallEnd.after_returns _ _).mpr kept
      · exact dropped s₁ kept
    exact after.mono fun s₂ kept₂ => (CallEnd.after_returns _ _).mpr (placed s₂ _ kept₂)

/-- The old buffer is deleted once the new one has been granted. -/
theorem pushBack_returns_iff
    (fallback : takesFallback s.w.ready active (s.w.allocatorGone t) = true) :
    (s.pushBack P growth drop r active t v).Returns ↔
      (s.vectors v).size < (s.vectors v).capacity ∨
        ¬ s.w.NullFallback P r active t (s.vectorBytes growth v) ∧
          ((s.vectors v).buffer = 0 ∨
            (s.request P r active t (s.vectorBytes growth v)).After
              (fun y => (drop (s.vectors v).buffer y.2).Returns)) := by
  simp only [pushBack]
  by_cases room : (s.vectors v).size < (s.vectors v).capacity
  · simp [room]
  · rw [if_neg room, CallEnd.bind_returns]
    rcases request_cases (P := P) (s.vectorBytes growth v) r fallback with
      ⟨null, wrote⟩ | ⟨granted, buffer, w', got, _⟩
    · simp [wrote, null, room]
    · rw [got]
      simp only [CallEnd.returns_returns, CallEnd.after_returns, CallEnd.bind_returns, room,
        granted, not_false_eq_true, true_and, false_or, CallEnd.pure_eq]
      unfold dropBuffer
      by_cases empty : (s.vectors v).buffer = 0
      · simp [empty]
      · simp [empty]

theorem pushBack_not_throws
    (fallback : takesFallback s.w.ready active (s.w.allocatorGone t) = true)
    (silent : ∀ s₁, ¬ (drop (s.vectors v).buffer s₁).Throws) :
    ¬ (s.pushBack P growth drop r active t v).Throws := by
  simp only [pushBack]
  split
  · exact CallEnd.returns_not_throws _
  · rw [CallEnd.bind_throws]
    rcases request_cases (P := P) (s.vectorBytes growth v) r fallback with
      ⟨null, wrote⟩ | ⟨granted, buffer, w', got, _⟩
    · simp [wrote]
    · rw [got]
      rintro (thrown | ⟨y, same, thrown⟩)
      · exact CallEnd.returns_not_throws _ thrown
      · rcases CallEnd.bind_throws.mp thrown with dropped | ⟨s₂, _, returned⟩
        · unfold dropBuffer at dropped
          split at dropped
          · exact CallEnd.returns_not_throws _ dropped
          · exact silent _ dropped
        · exact CallEnd.returns_not_throws _ returned

theorem request_keeps
    (fallback : takesFallback s.w.ready active (s.w.allocatorGone t) = true) :
    (s.request P r active t bytes).After (fun y => Keeps t s y.2) := by
  rcases request_cases (P := P) bytes r fallback with ⟨_, wrote⟩ | ⟨_, buffer, w', got, flags, recs⟩
  · rw [wrote]
    intro y impossible
    cases impossible
  · rw [got, CallEnd.after_returns]
    exact .of_moves (.same flags.threads) recs

/-- The static exists, or there is memory for it. -/
def Creates (P : Platform) (mutexBytes : Nat) (r : Replies) (t : Nat) (x : Static)
    (s : CallState) : Prop :=
  s.created x = true ∨ ¬ s.w.NullFallback P r true t (x.bytes mutexBytes)

/-- The same for the ring, if an event is recorded. -/
def Records (P : Platform) (mutexBytes : Nat) (r : Replies) (t : Nat) (happened : Bool)
    (s : CallState) : Prop :=
  s.enabled = true → happened = true → s.Creates P mutexBytes r t .ring

theorem staticPointer_cases (P : Platform) (mutexBytes : Nat) (r : Replies) (t : Nat) (x : Static)
    (s : CallState) :
    (¬ s.Creates P mutexBytes r t x ∧ s.staticPointer P mutexBytes r t x = .writesNull) ∨
      (s.Creates P mutexBytes r t x ∧
        ∃ s₁, s.staticPointer P mutexBytes r t x = .returns s₁ ∧ SameFlags s.w s₁.w ∧
          (0 ∈ s₁.w.mallocRecs → 0 ∈ s.w.mallocRecs)) := by
  unfold staticPointer Creates
  cases present : s.created x with
  | true => exact Or.inr ⟨Or.inl rfl, s, rfl, ⟨rfl, rfl, rfl⟩, fun null => null⟩
  | false =>
      rcases request_cases (P := P) (x.bytes mutexBytes) r (falls s.w t) with
        ⟨null, wrote⟩ | ⟨granted, buffer, w', got, flags, recs⟩
      · simp [wrote, null]
      · rw [got]
        exact Or.inr ⟨Or.inr granted, { s with w := w' }.create x, rfl, flags, recs⟩

theorem staticPointer_returns_iff :
    (s.staticPointer P mutexBytes r t x).Returns ↔ s.Creates P mutexBytes r t x := by
  rcases staticPointer_cases P mutexBytes r t x s with ⟨refused, wrote⟩ | ⟨creates, s₁, got, _⟩
  · simp [wrote, refused]
  · simp [got, creates]

theorem staticPointer_not_throws : ¬ (s.staticPointer P mutexBytes r t x).Throws := by
  rcases staticPointer_cases P mutexBytes r t x s with ⟨_, wrote⟩ | ⟨_, s₁, got, _⟩
  · simp [wrote]
  · simp [got]

theorem staticPointer_keeps : (s.staticPointer P mutexBytes r t x).After (Keeps t s) := by
  rcases staticPointer_cases P mutexBytes r t x s with ⟨_, wrote⟩ | ⟨_, s₁, got, flags, recs⟩
  · simp [wrote]
  · rw [got, CallEnd.after_returns]
    exact .of_moves (.same flags.threads) recs

theorem record_returns_iff {happened : Bool} :
    (s.record P mutexBytes r t happened).Returns ↔ s.Records P mutexBytes r t happened := by
  unfold record Records
  cases recording : s.enabled with
  | true =>
      cases happened with
      | true => simp [staticPointer_returns_iff]
      | false => simp
  | false => simp

theorem record_not_throws {happened : Bool} :
    ¬ (s.record P mutexBytes r t happened).Throws := by
  unfold record
  split
  · exact staticPointer_not_throws
  · exact CallEnd.returns_not_throws _

theorem record_keeps {happened : Bool} :
    (s.record P mutexBytes r t happened).After (Keeps t s) := by
  unfold record
  split
  · exact staticPointer_keeps
  · exact (CallEnd.after_returns _ _).mpr (Keeps.refl t s)

/-- The vector has room, or gets a buffer and has none yet that `do_delete` would take to
`instance()`. -/
def Fits (P : Platform) (growth : Nat → Nat) (r : Replies) (t : Nat) (v : OverrideCalls.Vector)
    (s : CallState) : Prop :=
  (s.vectors v).size < (s.vectors v).capacity ∨
    ¬ s.w.NullFallback P r true t (s.vectorBytes growth v) ∧
      ¬ s.w.Consults t (s.vectors v).buffer

theorem deleteInside_returns_iff (unborn : s.w.sys.threads t = .unborn) :
    (s.deleteInside t p).Returns ↔ ¬ s.w.Consults t p := by
  rw [← NewDelete.doDelete_none_iff unborn]
  unfold deleteInside
  cases s.w.doDelete t p with
  | none => simp [CallEnd.Returns]
  | some answer => simp

theorem deleteInside_not_throws : ¬ (s.deleteInside t p).Throws := by
  unfold deleteInside
  split <;> simp [CallEnd.Throws]

theorem deleteInside_moves :
    (s.deleteInside t p).After (fun s' => Sys.Moves t s.w.sys s'.w.sys ∧
      s'.w.mallocRecs = s.w.mallocRecs) := by
  unfold deleteInside
  split
  · intro y impossible
    cases impossible
  · rename_i freed w' done
    rw [CallEnd.after_returns]
    exact ⟨NewDelete.doDelete_moves done, NewDelete.doDelete_recs done⟩

theorem Fits.iff_returns (unborn : s.w.sys.threads t = .unborn) :
    (s.pushBack P growth (deleteInside t) r true t v).Returns ↔ s.Fits P growth r t v := by
  rw [pushBack_returns_iff (falls s.w t)]
  unfold Fits
  refine or_congr_right (and_congr_right fun granted => ?_)
  rcases request_cases (P := P) (s.vectorBytes growth v) r (falls s.w t) with
    ⟨null, _⟩ | ⟨_, buffer, w', got, flags, _⟩
  · exact absurd null granted
  · have unborn' : w'.sys.threads t = .unborn := by rw [flags.threads, unborn]
    have dropped := deleteInside_returns_iff (s := { s with w := w' }) (p := (s.vectors v).buffer)
      unborn'
    rw [got, CallEnd.after_returns, dropped, flags.consults]
    constructor
    · rintro (empty | spared)
      · exact fun consults => consults.1 empty
      · exact spared
    · exact Or.inr

/-- A push in the constructor leaves the thread without an allocator. -/
theorem pushInside_keeps (P : Platform) (growth : Nat → Nat) (r : Replies)
    (v : OverrideCalls.Vector) (unborn : s.w.sys.threads t = .unborn) :
    (s.pushBack P growth (deleteInside t) r true t v).After
      (fun s' => Keeps t s s' ∧ s'.w.sys.threads t = .unborn) := by
  refine pushBack_after ⟨Keeps.refl t s, unborn⟩
    (fun _ _ kept => ⟨⟨kept.1.recs, kept.1.grounded, kept.1.live⟩, kept.2⟩) ?_ ?_
  · rcases request_cases (P := P) (s.vectorBytes growth v) r (falls s.w t) with
      ⟨_, wrote⟩ | ⟨_, buffer, w', got, flags, recs⟩
    · rw [wrote]
      intro y impossible
      cases impossible
    · rw [got, CallEnd.after_returns]
      exact ⟨.of_moves (.same flags.threads) recs, by rw [flags.threads, unborn]⟩
  · rintro s₁ ⟨kept, unborn₁⟩
    refine deleteInside_moves.mono ?_
    rintro s₂ ⟨moves, recs⟩
    exact ⟨kept.trans (.of_moves moves fun null => recs ▸ null), moves.unborn unborn₁⟩

/-- Both vectors take the new allocator's entries. -/
def TakesEntry (P : Platform) (growth : Nat → Nat) (c : ConstructionReplies) (t : Nat)
    (s : CallState) : Prop :=
  s.Fits P growth c.live t .live ∧
    (s.pushBack P growth (deleteInside t) c.live true t .live).After
      (fun s' => s'.Fits P growth c.liveAllocators t .liveAllocators)

section Construction

variable {k : ConstructionReplies}

theorem registerStats_returns_iff (unborn : s.w.sys.threads t = .unborn) :
    (s.registerStats P growth k t).Returns ↔ s.TakesEntry P growth k t := by
  unfold registerStats TakesEntry
  rw [CallEnd.bind_returns, Fits.iff_returns unborn]
  have kept := pushInside_keeps P growth k.live .live unborn
  refine and_congr_right fun _ => forall_congr' fun s₁ => imp_congr_right fun pushed => ?_
  exact Fits.iff_returns (kept s₁ pushed).2

theorem registerStats_not_throws : ¬ (s.registerStats P growth k t).Throws := by
  unfold registerStats
  rw [CallEnd.bind_throws]
  rintro (first | ⟨s₁, _, second⟩)
  · exact pushBack_not_throws (falls s.w t) (fun _ => deleteInside_not_throws) first
  · exact pushBack_not_throws (falls s₁.w t) (fun _ => deleteInside_not_throws) second

theorem registerStats_keeps (unborn : s.w.sys.threads t = .unborn) :
    (s.registerStats P growth k t).After (Keeps t s) := by
  unfold registerStats
  rw [CallEnd.bind_after]
  refine (pushInside_keeps P growth k.live .live unborn).mono fun s₁ kept => ?_
  exact (pushInside_keeps P growth k.liveAllocators .liveAllocators kept.2).mono
    fun s₂ kept₂ => kept.1.trans kept₂.1

end Construction

section Construction

/-- The requests for the members of the allocator are granted. -/
def MembersGranted (P : Platform) (mutexBytes : Nat) (c : CallReplies) (t : Nat)
    (s : CallState) : Prop :=
  (s.staticPointer P mutexBytes c.threadIds t .threadIds).After
    (fun s₁ => s₁.w.ConstructionGranted P c.construction t)

/-- Once built, the allocator is registered. -/
def Registers (P : Platform) (growth : Nat → Nat) (mutexBytes : Nat) (c : CallReplies) (t : Nat)
    (s : CallState) : Prop :=
  s.Creates P mutexBytes c.threadIds t .threadIds ∧
    (s.staticPointer P mutexBytes c.threadIds t .threadIds).After (fun s₁ =>
      (s₁.w.constructMembers P c.construction t).After
        (fun y => CallState.TakesEntry P growth c.construction t { s₁ with w := y.2 }))

/-- The allocator is constructed exactly when the counter of the thread ids exists or gets its
memory, all requests for the members are granted and the registry takes the entry; only a
refused request for the members throws. -/
theorem constructAllocator_outcome (P : Platform) (growth : Nat → Nat) (mutexBytes : Nat)
    (c : CallReplies) (unborn : s.w.sys.threads t = .unborn) :
    ((s.constructAllocator P growth mutexBytes c t).Throws ↔
        s.Creates P mutexBytes c.threadIds t .threadIds ∧ ¬ s.MembersGranted P mutexBytes c t) ∧
      ((s.constructAllocator P growth mutexBytes c t).Returns ↔
        s.Registers P growth mutexBytes c t ∧ s.MembersGranted P mutexBytes c t) := by
  unfold constructAllocator Registers MembersGranted
  rcases staticPointer_cases P mutexBytes c.threadIds t .threadIds s with
    ⟨refused, wrote⟩ | ⟨creates, s₁, got, flags, _⟩
  · simp [wrote, refused]
  · have unborn₁ : s₁.w.sys.threads t = .unborn := by rw [flags.threads, unborn]
    rw [got]
    simp only [CallEnd.returns_bind, CallEnd.after_returns, creates, true_and]
    rcases NewDelete.constructMembers_cases P c.construction t s₁.w with
      ⟨refused, w', failed, _⟩ | ⟨granted, a, w', built, _, threads, _⟩
    · rw [failed]
      simp [refused, CallEnd.Returns, CallEnd.Throws]
    · have unborn₂ : w'.sys.threads t = .unborn := by rw [threads, unborn₁]
      have registers : (CallState.registerStats P growth c.construction t
          { s₁ with w := w' }).Returns ↔ _ := registerStats_returns_iff unborn₂
      rw [built]
      simp only [CallEnd.returns_bind, CallEnd.after_returns, granted, not_true_eq_false, iff_false,
        and_true, ← registers, CallEnd.bind_returns, CallEnd.bind_throws]
      refine ⟨?_, and_iff_left fun _ _ => CallEnd.returns_returns _⟩
      rintro (thrown | ⟨y, _, thrown⟩)
      · exact registerStats_not_throws thrown
      · exact CallEnd.returns_not_throws _ thrown

theorem constructAllocator_keeps (unborn : s.w.sys.threads t = .unborn) :
    (s.constructAllocator P growth mutexBytes c t).After
      (fun s' => Keeps t s s' ∧ s'.Live t) := by
  unfold constructAllocator
  rcases staticPointer_cases P mutexBytes c.threadIds t .threadIds s with
    ⟨_, wrote⟩ | ⟨_, s₁, got, flags, recs₁⟩
  · simp [wrote]
  · have unborn₁ : s₁.w.sys.threads t = .unborn := by rw [flags.threads, unborn]
    rw [got]
    simp only [CallEnd.returns_bind]
    rcases NewDelete.constructMembers_cases P c.construction t s₁.w with
      ⟨_, w', failed, _⟩ | ⟨_, a, w', built, grounded, threads, recs₂⟩
    · simp [failed]
    · have unborn₂ : w'.sys.threads t = .unborn := by rw [threads, unborn₁]
      rw [built]
      simp only [CallEnd.returns_bind, CallEnd.bind_after]
      refine (registerStats_keeps (s := { s₁ with w := w' }) unborn₂).mono fun s₃ kept => ?_
      rw [CallEnd.pure_eq, CallEnd.after_returns]
      have live : (s₃.becomeLive t a s₁.w.sys.nextThreadId).Live t :=
        ⟨_, _, Sys.setThread_same _ _ _⟩
      have same : w'.sys.threads = s.w.sys.threads := threads.trans flags.threads
      refine ⟨⟨fun null => ?_, fun each => ?_, fun _ => live⟩, live⟩
      · have old : 0 ∈ w'.mallocRecs := kept.recs null
        rw [recs₂] at old
        exact recs₁ old
      · have before : w'.sys.Grounded := fun u pool client here =>
          each u pool client (same ▸ here)
        exact Sys.Each.update (kept.grounded before) grounded rfl

/-- `instance()` on a thread whose allocator exists, or can be constructed. -/
def Instantiates (P : Platform) (growth : Nat → Nat) (mutexBytes : Nat) (c : CallReplies) (t : Nat)
    (s : CallState) : Prop :=
  s.w.sys.threads t = .unborn →
    s.w.constructing t = false ∧ s.Registers P growth mutexBytes c t

theorem allocatorInstance_outcome (P : Platform) (growth : Nat → Nat) (mutexBytes : Nat)
    (c : CallReplies) (t : Nat) (s : CallState) :
    ((s.allocatorInstance P growth mutexBytes c t).Throws ↔ s.w.sys.threads t = .unborn ∧
        s.w.constructing t = false ∧ s.Creates P mutexBytes c.threadIds t .threadIds ∧
          ¬ s.MembersGranted P mutexBytes c t) ∧
      ((s.allocatorInstance P growth mutexBytes c t).Returns ↔
        s.Instantiates P growth mutexBytes c t ∧
          (s.w.sys.threads t = .unborn → s.MembersGranted P mutexBytes c t)) := by
  unfold allocatorInstance Instantiates
  cases phase : s.w.sys.threads t with
  | unborn =>
      cases inside : s.w.constructing t with
      | true => simp [CallEnd.Returns, CallEnd.Throws]
      | false => simpa using constructAllocator_outcome P growth mutexBytes c phase
  | live pool client => simp
  | exited => simp

theorem allocatorInstance_keeps :
    (s.allocatorInstance P growth mutexBytes c t).After (fun s' => Keeps t s s' ∧
      (s.w.allocatorGone t = false → s'.Live t)) := by
  unfold allocatorInstance
  cases phase : s.w.sys.threads t with
  | unborn =>
      dsimp only
      split
      · intro y impossible
        cases impossible
      · exact (constructAllocator_keeps phase).mono fun s' kept => ⟨kept.1, fun _ => kept.2⟩
  | live pool client =>
      rw [CallEnd.pure_eq, CallEnd.after_returns]
      exact ⟨Keeps.refl t s, fun _ => ⟨pool, client, phase⟩⟩
  | exited =>
      rw [CallEnd.pure_eq, CallEnd.after_returns]
      refine ⟨Keeps.refl t s, fun present => ?_⟩
      rw [NewDelete.allocatorGone_iff.mpr phase] at present
      cases present

end Construction

end CallState

end MemAlloc
