import MemAlloc.NewCalls

set_option autoImplicit false

namespace MemAlloc

open Malloc (Heap)
open Runs (Run Transition)

namespace CallEnd

variable {α β : Type} {old : Prop} {Q : α → Prop}

/-- The call returns what `Q` admits, or throws `std::bad_alloc` with no null pointer in the
fallback registry but an old one. -/
def Meets (old : Prop) (Q : α → Prop) : CallEnd α → Prop
  | .returns x => Q x
  | .throws e w => e = .badAlloc ∧ (0 ∈ w.mallocRecs → old)
  | _ => False

@[simp] theorem meets_returns (x : α) : (CallEnd.returns x).Meets old Q ↔ Q x := Iff.rfl

theorem meets_bind {c : CallEnd α} {f : α → CallEnd β} {Q : β → Prop} :
    (c >>= f).Meets old Q ↔ c.Meets old (fun x => (f x).Meets old Q) := by
  cases c <;> rfl

theorem meets_iff {c : CallEnd α} : c.Meets old Q ↔ c.Meets old (fun _ => True) ∧ c.After Q := by
  cases c <;> simp [Meets, After]

theorem meets_of_silent {c : CallEnd α} (silent : ¬ c.Throws) :
    c.Meets old (fun _ => True) ↔ c.Returns := by
  cases c with
  | returns x => simp
  | throws e w => exact absurd ⟨e, w, rfl⟩ silent
  | writesNull => simp [Meets]
  | terminates => simp [Meets, Returns]
  | reenters => simp [Meets, Returns]

/-- A call that meets its part exactly when `G` holds, and the rest of it when `R` does. -/
theorem meets_bind_iff {c : CallEnd α} {f : α → CallEnd β} {Q : β → Prop} {I R : α → Prop}
    {G : Prop} (first : c.Meets old (fun _ => True) ↔ G) (kept : c.After I)
    (rest : ∀ x, I x → ((f x).Meets old Q ↔ R x)) :
    (c >>= f).Meets old Q ↔ G ∧ c.After R := by
  rw [meets_bind, meets_iff, first]
  refine and_congr_right fun _ => forall_congr' fun x => imp_congr_right fun returned => ?_
  exact rest x (kept x returned)

end CallEnd

namespace CallState

open OverrideCalls (Static)
open NewDelete (takesFallback)

variable {P : Platform} {growth : Nat → Nat} {mutexBytes : Nat} {c : CallReplies} {r : Replies}
  {active : Bool} {t n p bytes : Nat} {i : SizeClass} {s s' : CallState} {old : Prop}
  {v : OverrideCalls.Vector}

theorem deleteOld_returns_iff (grounded : s.w.sys.Grounded) :
    (s.deleteOld P growth mutexBytes c t p).Returns ↔ s.Deletable P growth mutexBytes c t p := by
  unfold deleteOld
  rw [CallEnd.noexcept_returns, CallEnd.bind_returns, deleteCall_returns_iff grounded]
  exact and_iff_left fun _ _ => CallEnd.returns_returns _

theorem deleteOld_keeps (grounded : s.w.sys.Grounded) :
    (s.deleteOld P growth mutexBytes c t p).After (Keeps t s) := by
  unfold deleteOld
  rw [CallEnd.noexcept_after, CallEnd.bind_after]
  exact (deleteCall_keeps grounded).mono fun y kept => (CallEnd.after_returns _ _).mpr kept

/-- The vector has room, or gets a buffer and its old one can be deleted. -/
def Grows (P : Platform) (growth : Nat → Nat) (mutexBytes : Nat) (c : CallReplies) (r : Replies)
    (active : Bool) (t : Nat) (v : OverrideCalls.Vector) (s : CallState) : Prop :=
  (s.vectors v).size < (s.vectors v).capacity ∨
    ¬ s.w.NullFallback P r active t (s.vectorBytes growth v) ∧
      ((s.vectors v).buffer = 0 ∨
        (s.request P r active t (s.vectorBytes growth v)).After
          (fun y => y.2.Deletable P growth mutexBytes c t (s.vectors v).buffer))

theorem push_returns_iff (grounded : s.w.sys.Grounded)
    (fallback : takesFallback s.w.ready active (s.w.allocatorGone t) = true) :
    (s.push P growth mutexBytes c r active t v).Returns ↔
      s.Grows P growth mutexBytes c r active t v := by
  unfold push Grows
  rw [pushBack_returns_iff fallback]
  refine or_congr_right (and_congr_right fun _ => or_congr_right ?_)
  refine forall_congr' fun y => imp_congr_right fun requested => ?_
  have kept := request_keeps (P := P) (r := r) fallback y requested
  exact deleteOld_returns_iff (kept.grounded grounded)

theorem push_not_throws
    (fallback : takesFallback s.w.ready active (s.w.allocatorGone t) = true) :
    ¬ (s.push P growth mutexBytes c r active t v).Throws :=
  pushBack_not_throws fallback fun _ => CallEnd.noexcept_not_throws _

theorem push_keeps (grounded : s.w.sys.Grounded)
    (fallback : takesFallback s.w.ready active (s.w.allocatorGone t) = true) :
    (s.push P growth mutexBytes c r active t v).After (Keeps t s) := by
  refine pushBack_after (Keeps.refl t s)
    (fun _ _ kept => ⟨kept.recs, kept.grounded, kept.live⟩) (request_keeps fallback) ?_
  intro s₁ kept
  exact (deleteOld_keeps (kept.grounded grounded)).mono fun s₂ kept₂ => kept.trans kept₂

theorem push_meets (old : Prop) (P : Platform) (growth : Nat → Nat) (mutexBytes : Nat)
    (c : CallReplies) (r : Replies) (v : OverrideCalls.Vector) (grounded : s.w.sys.Grounded)
    (fallback : takesFallback s.w.ready active (s.w.allocatorGone t) = true) :
    ((s.push P growth mutexBytes c r active t v).Meets old (fun _ => True) ↔
        s.Grows P growth mutexBytes c r active t v) ∧
      (s.push P growth mutexBytes c r active t v).After (Keeps t s) :=
  ⟨(CallEnd.meets_of_silent (push_not_throws fallback)).trans (push_returns_iff grounded fallback),
    push_keeps grounded fallback⟩

section Pool

/-- The thread's allocator is in use, and no allocator has a slab at the null address. -/
structure Serving (old : Prop) (t : Nat) (s : CallState) : Prop where
  recs : 0 ∈ s.w.mallocRecs → old
  grounded : s.w.sys.Grounded
  live : s.Live t

theorem Serving.keep (serving : Serving old t s) (kept : Keeps t s s') : Serving old t s' :=
  ⟨fun null => serving.recs (kept.recs null), kept.grounded serving.grounded,
    kept.live serving.live⟩

theorem onPool_live {α : Type} {f : ThreadPoolAlloc → Client → CallEnd α} {pool : ThreadPoolAlloc}
    {client : Client} (live : s.w.sys.threads t = .live pool client) :
    s.onPool t f = f pool client := by
  unfold onPool
  rw [live]

theorem Serving.setPool {pool pool' : ThreadPoolAlloc} {client client' : Client}
    (serving : Serving old t s) (live : s.w.sys.threads t = .live pool client)
    (extended : SingleThreadAllocator.Extends pool.alloc pool'.alloc
      SingleThreadAllocator.GroundedSlab) : Serving old t (s.setPool t pool' client') := by
  have moves : Sys.Moves t s.w.sys (s.setPool t pool' client').w.sys :=
    .advance live rfl extended
  exact serving.keep (.of_moves moves fun null => null)

theorem countAlloc_serves (serving : Serving old t s) :
    ∃ s₁, s.countAlloc t = .returns s₁ ∧ Serving old t s₁ := by
  obtain ⟨pool, client, live⟩ := serving.live
  unfold countAlloc
  rw [onPool_live live]
  exact ⟨_, rfl, serving.setPool live (SingleThreadAllocator.Extends.refl _ _)⟩

/-- What the allocator serves is not the null pointer. -/
def Served (old : Prop) (t : Nat) (y : Option Nat × CallState) : Prop :=
  y.1 ≠ some 0 ∧ Serving old t y.2

theorem poolAllocate_serves (i : SizeClass) (n : Nat) (serving : Serving old t s) :
    ∃ y, s.poolAllocate t i n = .returns y ∧ Served old t y := by
  obtain ⟨pool, client, live⟩ := serving.live
  unfold poolAllocate
  rw [onPool_live live]
  have extended := SingleThreadAllocator.poolAllocate_extends
    SingleThreadAllocator.GroundedSlab pool.alloc i s.w.sys.mem
  cases popped : pool.alloc.poolAllocate i s.w.sys.mem with
  | mk q a =>
      rw [popped] at extended
      cases q with
      | none =>
          have next : Serving old t (s.setPool t { pool with alloc := a } client) :=
            serving.setPool live extended
          exact ⟨_, rfl, fun null => (by cases null), next⟩
      | some q =>
          have nonnull : q ≠ 0 := SingleThreadAllocator.poolAllocate_nonnull (by rw [popped])
          have next : Serving old t (s.setPool t
              { pool with alloc := a.recordAlloc n i.bytes } (client.gainBlock i q)) :=
            serving.setPool live (extended.recordAlloc _ _)
          exact ⟨_, rfl, fun null => nonnull (Option.some.inj null), next⟩

theorem arenaAllocate_serves {alignment : Nat} (n : Nat) (power : Words.PowerOfTwo alignment)
    (serving : Serving old t s) :
    ∃ y, s.arenaAllocate t n alignment = .returns y ∧ Served old t y := by
  obtain ⟨pool, client, live⟩ := serving.live
  unfold arenaAllocate
  rw [onPool_live live]
  have answer := SingleThreadAllocator.arenaAllocate_answers (n := n)
    (serving.grounded t pool client live).arena power
  have extended := SingleThreadAllocator.arenaAllocate_extends
    SingleThreadAllocator.GroundedSlab pool.alloc n alignment
  cases called : pool.alloc.arenaAllocate n alignment with
  | mk q a =>
      rw [called] at answer extended
      have next : Serving old t (s.setPool t { pool with alloc := a } (client.gainAligned n q)) :=
        serving.setPool live extended
      refine ⟨_, rfl, fun null => ?_, next⟩
      have zero : q = some 0 := null
      subst zero
      rcases answer with impossible | impossible | ⟨p, nonnull, same⟩
      · cases impossible
      · cases impossible
      · cases same
        exact nonnull rfl

/-- With a chunk obtained, the list of chunks takes it, and its event is recorded. -/
def ChunkServes (P : Platform) (growth : Nat → Nat) (mutexBytes : Nat) (c : CallReplies)
    (t bytes : Nat) (s : CallState) : Prop :=
  match allocateSlab P s.w.sys.shared.heap .chunk CentralHeap.chunkSize CentralHeap.chunkSize
      c.own.chunk with
  | (none, _) => True
  | (some slab, h') =>
      (s.withChunk bytes slab h').Grows P growth mutexBytes c c.chunks true t .chunks ∧
        ((s.withChunk bytes slab h').push P growth mutexBytes c c.chunks true t .chunks).After
          (fun s₁ => (s₁.recordChunk t bytes slab).Records P mutexBytes c.ring t true)

theorem withChunk_serves {slab : SlabAlloc} {h' : Heap Owner} (serving : Serving old t s) :
    Serving old t (s.withChunk bytes slab h') :=
  serving.keep (.of_moves (.same rfl) fun null => null)

theorem recordChunk_serves {slab : SlabAlloc} (serving : Serving old t s) :
    Serving old t (s.recordChunk t bytes slab) :=
  serving.keep (.of_moves (.same rfl) fun null => null)

theorem push_serves (P : Platform) (growth : Nat → Nat) (mutexBytes : Nat) (c : CallReplies)
    (r : Replies) (v : OverrideCalls.Vector) (serving : Serving old t s) :
    ((s.push P growth mutexBytes c r true t v).Meets old (fun _ => True) ↔
        s.Grows P growth mutexBytes c r true t v) ∧
      (s.push P growth mutexBytes c r true t v).After (Serving old t) := by
  obtain ⟨meets, kept⟩ := push_meets old P growth mutexBytes c r v serving.grounded (falls s.w t)
  exact ⟨meets, kept.mono fun _ kept => serving.keep kept⟩

theorem record_serves (happened : Bool) (serving : Serving old t s) :
    ((s.record P mutexBytes r t happened).Meets old (fun _ => True) ↔
        s.Records P mutexBytes r t happened) ∧
      (s.record P mutexBytes r t happened).After (Serving old t) := by
  constructor
  · exact (CallEnd.meets_of_silent record_not_throws).trans record_returns_iff
  · exact record_keeps.mono fun _ kept => serving.keep kept

theorem acquireChunk_after (serving : Serving old t s) :
    (s.acquireChunk P growth mutexBytes c t bytes).After
      (fun y => 0 < y.1 ∧ Serving old t y.2) := by
  unfold acquireChunk
  split
  · exact CallEnd.after_throws _ _ _
  · rename_i slab h' asked
    have obtained : Serving old t (s.withChunk bytes slab h') := withChunk_serves serving
    rw [CallEnd.bind_after]
    refine (push_serves P growth mutexBytes c c.chunks .chunks obtained).2.mono fun s₁ pushed => ?_
    rw [CallEnd.bind_after]
    refine (record_serves true (recordChunk_serves pushed)).2.mono fun s₂ recorded => ?_
    rw [CallEnd.pure_eq, CallEnd.after_returns]
    exact ⟨Nat.lt_of_lt_of_le (by decide) (Nat.le_add_left _ _), recorded⟩

theorem acquireChunk_meets (serving : Serving old t s) :
    (s.acquireChunk P growth mutexBytes c t bytes).Meets old (fun _ => True) ↔
      s.ChunkServes P growth mutexBytes c t bytes := by
  unfold acquireChunk ChunkServes
  cases asked : allocateSlab P s.w.sys.shared.heap .chunk CentralHeap.chunkSize
      CentralHeap.chunkSize c.own.chunk with
  | mk slab h' =>
      cases slab with
      | none => simpa [CallEnd.Meets] using serving.recs
      | some slab =>
          have obtained : Serving old t (s.withChunk bytes slab h') := withChunk_serves serving
          obtain ⟨pushes, pushed⟩ := push_serves P growth mutexBytes c c.chunks .chunks
            obtained
          refine CallEnd.meets_bind_iff pushes pushed fun s₁ serving₁ => ?_
          have recorded : Serving old t (s₁.recordChunk t bytes slab) :=
            recordChunk_serves serving₁
          obtain ⟨records, after⟩ := record_serves (P := P) (r := c.ring) true recorded
          rw [CallEnd.meets_bind_iff records after fun _ _ => Iff.rfl]
          exact and_iff_left fun _ _ => trivial

/-- The slabs of the pool take the one that has been linked. -/
def SlabServes (P : Platform) (growth : Nat → Nat) (mutexBytes : Nat) (c : CallReplies) (t : Nat)
    (i : SizeClass) (body : Nat) (s : CallState) : Prop :=
  (s.linkSlab t i body).After
    (fun s₁ => s₁.Grows P growth mutexBytes c c.externalSlabs true t (.externalSlabs t i))

theorem linkSlab_serves {body : Nat} (positive : 0 < body) (serving : Serving old t s) :
    ∃ s₁, s.linkSlab t i body = .returns s₁ ∧ Serving old t s₁ := by
  obtain ⟨pool, client, live⟩ := serving.live
  unfold linkSlab
  rw [onPool_live live]
  have extended : SingleThreadAllocator.Extends pool.alloc
      (pool.alloc.poolAddExternalSlab i s.w.sys.mem body false).2.1
      SingleThreadAllocator.GroundedSlab :=
    SingleThreadAllocator.poolAddExternalSlab_extends positive
  have accepted := SingleThreadAllocator.chunk_accepted i positive
  have linked : (pool.alloc.poolAddExternalSlab i s.w.sys.mem body false).1 =
      .error .badAlloc := by
    simp only [SingleThreadAllocator.poolAddExternalSlab, BlockPool.addExternalSlab,
      if_pos accepted, Bool.false_eq_true, ↓reduceIte]
  cases added : pool.alloc.poolAddExternalSlab i s.w.sys.mem body false with
  | mk answer rest =>
      rw [added] at linked extended
      cases linked
      have set : Serving old t (s.setPool t { pool with alloc := rest.1 } client) :=
        serving.setPool live extended
      exact ⟨_, rfl, set.keep (.of_moves (.same rfl) fun null => null)⟩

theorem recordSlab_serves {body : Nat} (positive : 0 < body) (serving : Serving old t s) :
    ∃ s₁, s.recordSlab t i body = .returns s₁ ∧ Serving old t s₁ := by
  obtain ⟨pool, client, live⟩ := serving.live
  unfold recordSlab
  rw [onPool_live live]
  refine ⟨_, rfl, serving.setPool live ?_⟩
  refine SingleThreadAllocator.Extends.setPool rfl rfl fun slab member => ?_
  rcases List.mem_append.mp member with before | last
  · exact Or.inl before
  · rw [List.mem_singleton.mp last]
    exact Or.inr positive

theorem addExternalSlab_after {body : Nat} (positive : 0 < body) (serving : Serving old t s) :
    (s.addExternalSlab P growth mutexBytes c t i body).After (Serving old t) := by
  obtain ⟨s₁, linked, serving₁⟩ := linkSlab_serves (i := i) positive serving
  unfold addExternalSlab
  rw [linked, CallEnd.returns_bind, CallEnd.bind_after]
  refine (push_serves P growth mutexBytes c c.externalSlabs (.externalSlabs t i) serving₁).2.mono
    fun s₂ pushed => ?_
  obtain ⟨s₃, recorded, serving₃⟩ := recordSlab_serves (i := i) positive pushed
  rw [recorded, CallEnd.after_returns]
  exact serving₃

theorem addExternalSlab_meets {body : Nat} (positive : 0 < body) (serving : Serving old t s) :
    (s.addExternalSlab P growth mutexBytes c t i body).Meets old (fun _ => True) ↔
      s.SlabServes P growth mutexBytes c t i body := by
  obtain ⟨s₁, linked, serving₁⟩ := linkSlab_serves (i := i) positive serving
  obtain ⟨pushes, pushed⟩ := push_serves P growth mutexBytes c c.externalSlabs
    (.externalSlabs t i) serving₁
  unfold addExternalSlab SlabServes
  rw [linked, CallEnd.returns_bind, CallEnd.after_returns,
    CallEnd.meets_bind_iff pushes pushed fun s₂ serving₂ => ?_]
  · exact and_iff_left fun _ _ => trivial
  · obtain ⟨s₃, recorded, _⟩ := recordSlab_serves (i := i) positive serving₂
    rw [recorded]
    exact Iff.rfl

/-- What a refill needs. -/
def RefillServes (P : Platform) (growth : Nat → Nat) (mutexBytes : Nat) (c : CallReplies)
    (t : Nat) (i : SizeClass) (s : CallState) : Prop :=
  s.ChunkServes P growth mutexBytes c t i.bytes ∧
    (s.acquireChunk P growth mutexBytes c t i.bytes).After
      (fun y => y.2.SlabServes P growth mutexBytes c t i y.1)

theorem refill_after (n : Nat) (serving : Serving old t s) :
    (s.refill P growth mutexBytes c t i n).After (Served old t) := by
  unfold refill
  rw [CallEnd.bind_after]
  refine (acquireChunk_after serving).mono ?_
  rintro ⟨body, s₁⟩ ⟨positive, serving₁⟩
  dsimp only
  rw [CallEnd.bind_after]
  refine (addExternalSlab_after positive serving₁).mono fun s₂ serving₂ => ?_
  obtain ⟨y, served, holds⟩ := poolAllocate_serves i n serving₂
  rw [served, CallEnd.after_returns]
  exact holds

theorem refill_meets (n : Nat) (serving : Serving old t s) :
    (s.refill P growth mutexBytes c t i n).Meets old (fun _ => True) ↔
      s.RefillServes P growth mutexBytes c t i := by
  unfold refill RefillServes
  refine CallEnd.meets_bind_iff (acquireChunk_meets serving) (acquireChunk_after serving) ?_
  rintro ⟨body, s₁⟩ ⟨positive, serving₁⟩
  dsimp only
  rw [CallEnd.meets_bind_iff (addExternalSlab_meets positive serving₁)
    (addExternalSlab_after positive serving₁) fun s₂ serving₂ => ?_]
  · exact and_iff_left fun _ _ => trivial
  · obtain ⟨y, served, _⟩ := poolAllocate_serves i n serving₂
    rw [served]
    exact Iff.rfl

/-- What a request of `n` bytes needs from an allocator: nothing, or a refill. -/
def SingleServes (P : Platform) (growth : Nat → Nat) (mutexBytes : Nat) (c : CallReplies)
    (t n : Nat) (s : CallState) : Prop :=
  ∀ small : n ≤ maxSmall, (s.poolAllocate t (sizeClassOf n small) n).After fun y =>
    y.1 = none → y.2.RefillServes P growth mutexBytes c t (sizeClassOf n small)

theorem singleAllocate_after (power : Words.PowerOfTwo P.maxAlign) (serving : Serving old t s) :
    (s.singleAllocate P growth mutexBytes c t n).After (Served old t) := by
  unfold singleAllocate
  split
  · rename_i small
    obtain ⟨⟨q, s₁⟩, popped, nonnull, serving₁⟩ :=
      poolAllocate_serves (sizeClassOf n small) n serving
    rw [popped, CallEnd.returns_bind]
    cases q with
    | none => exact refill_after n serving₁
    | some q => exact (CallEnd.after_returns _ _).mpr ⟨nonnull, serving₁⟩
  · obtain ⟨y, served, holds⟩ := arenaAllocate_serves n power serving
    rw [served, CallEnd.after_returns]
    exact holds

theorem singleAllocate_meets (power : Words.PowerOfTwo P.maxAlign) (serving : Serving old t s) :
    (s.singleAllocate P growth mutexBytes c t n).Meets old (fun _ => True) ↔
      s.SingleServes P growth mutexBytes c t n := by
  unfold singleAllocate SingleServes
  by_cases small : n ≤ maxSmall
  · obtain ⟨⟨q, s₁⟩, popped, _, serving₁⟩ :=
      poolAllocate_serves (sizeClassOf n small) n serving
    have asked : (∀ small : n ≤ maxSmall, (s.poolAllocate t (sizeClassOf n small) n).After fun y =>
        y.1 = none → y.2.RefillServes P growth mutexBytes c t (sizeClassOf n small)) ↔
        (q = none → s₁.RefillServes P growth mutexBytes c t (sizeClassOf n small)) := by
      rw [forall_prop_of_true small, popped, CallEnd.after_returns]
    rw [asked, dif_pos small, popped, CallEnd.returns_bind]
    cases q with
    | none => simpa using refill_meets n serving₁
    | some q => exact iff_of_true trivial fun impossible => by cases impossible
  · obtain ⟨y, served, _⟩ := arenaAllocate_serves n power serving
    rw [dif_neg small, served]
    exact iff_of_true trivial fun impossible => absurd impossible small

/-- The same with the event that is recorded. -/
def AllocateServes (P : Platform) (growth : Nat → Nat) (mutexBytes : Nat) (c : CallReplies)
    (t n : Nat) (s : CallState) : Prop :=
  (s.countAlloc t).After fun s₁ => s₁.SingleServes P growth mutexBytes c t n ∧
    (s₁.singleAllocate P growth mutexBytes c t n).After
      (fun y => y.2.Records P mutexBytes c.ring t y.1.isSome)

theorem allocate_meets (power : Words.PowerOfTwo P.maxAlign) (serving : Serving old t s) :
    (s.allocate P growth mutexBytes c t n).Meets old (fun _ => True) ↔
      s.AllocateServes P growth mutexBytes c t n := by
  obtain ⟨s₁, counted, serving₁⟩ := countAlloc_serves serving
  unfold allocate AllocateServes
  rw [counted, CallEnd.returns_bind, CallEnd.after_returns]
  refine CallEnd.meets_bind_iff (singleAllocate_meets power serving₁)
    (singleAllocate_after power serving₁) ?_
  rintro ⟨q, s₂⟩ ⟨_, serving₂⟩
  obtain ⟨records, after⟩ := record_serves (P := P) (r := c.ring) q.isSome serving₂
  dsimp only
  rw [CallEnd.meets_bind_iff records after fun _ _ => Iff.rfl]
  exact and_iff_left fun _ _ => trivial

end Pool

section New

/-- Constructing an allocator throws `std::bad_alloc` only. -/
theorem constructAllocator_meets (unborn : s.w.sys.threads t = .unborn) :
    (s.constructAllocator P growth mutexBytes c t).Meets (0 ∈ s.w.mallocRecs) (fun _ => True) ↔
      s.Registers P growth mutexBytes c t := by
  unfold constructAllocator Registers
  rcases staticPointer_cases P mutexBytes c.threadIds t .threadIds s with
    ⟨refused, wrote⟩ | ⟨creates, s₁, got, flags, recs₁⟩
  · rw [wrote]
    exact iff_of_false (fun impossible => impossible) fun ready => refused ready.1
  · have unborn₁ : s₁.w.sys.threads t = .unborn := by rw [flags.threads, unborn]
    rw [got]
    simp only [CallEnd.returns_bind, CallEnd.after_returns, creates, true_and]
    rcases NewDelete.constructMembers_cases P c.construction t s₁.w with
      ⟨_, w', failed, recs₂⟩ | ⟨_, a, w', built, _, threads, _⟩
    · rw [failed]
      refine iff_of_true ⟨rfl, fun null => ?_⟩ (CallEnd.after_throws _ _ _)
      rw [recs₂] at null
      exact recs₁ null
    · have unborn₂ : w'.sys.threads t = .unborn := by rw [threads, unborn₁]
      have registers : (CallState.registerStats P growth c.construction t
          { s₁ with w := w' }).Returns ↔ _ := registerStats_returns_iff unborn₂
      rw [built]
      simp only [CallEnd.returns_bind, CallEnd.after_returns, ← registers]
      rw [CallEnd.meets_bind_iff (CallEnd.meets_of_silent registerStats_not_throws)
        (fun _ _ => trivial) fun _ _ => Iff.rfl]
      exact and_iff_left fun _ _ => trivial

/-- `instance()` of a thread whose allocator is not gone. -/
theorem allocatorInstance_meets :
    (s.allocatorInstance P growth mutexBytes c t).Meets (0 ∈ s.w.mallocRecs) (fun _ => True) ↔
      s.Instantiates P growth mutexBytes c t := by
  unfold allocatorInstance Instantiates
  cases phase : s.w.sys.threads t with
  | unborn =>
      cases inside : s.w.constructing t with
      | true => simp [CallEnd.Meets]
      | false => simpa using constructAllocator_meets phase
  | live pool client => simp
  | exited => simp

/-- A throwing `operator new` keeps its promise: a nonnull pointer or `std::bad_alloc`, and no
null pointer in the fallback registry but an old one. -/
def Sound (s : CallState) (c : CallEnd (Option Nat × CallState)) : Prop :=
  c.Meets (0 ∈ s.w.mallocRecs) fun y =>
    (∃ p, p ≠ 0 ∧ y.1 = some p) ∧ (0 ∈ y.2.w.mallocRecs → 0 ∈ s.w.mallocRecs)

end New

end CallState

namespace NewDelete

variable {P : Platform} {m : ByteMemory} {h : Heap Owner}
  {trace : List (Transition NewDelete Event)}

end NewDelete

end MemAlloc
