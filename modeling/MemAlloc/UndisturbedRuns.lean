import MemAlloc.ServedPointers
import MemAlloc.Classification
import MemAlloc.ThreadSafety

set_option autoImplicit false

namespace MemAlloc.NewDelete

open Malloc (Heap Block addressLimit)
open Runs (Run Transition)
open SingleThreadAllocator (Inv kArenaPointer)

/-- Sizes up to `2^62` and alignments up to `2^32`. -/
def Event.Bounded : Event → Prop
  | .new _ size _ _ => size ≤ 4611686018427387904
  | .alignedNew _ size alignment _ _ => size ≤ 4611686018427387904 ∧ alignment ≤ 4294967296
  | _ => True

/-- The sum that admits an arena request of the plain `operator new` is right. -/
def NewNoWrap (P : Platform) (w : NewDelete) (active : Bool) (t size : Nat) : Prop :=
  maxSmall < size → takesFallback w.ready active (w.allocatorGone t) = false →
    ∀ pool client, w.sys.threads t = .live pool client → pool.alloc.arena.NoWrap size P.maxAlign

/-- No sum of a size and an alignment, and none that admits an arena request, wraps around. -/
def NoWrap (P : Platform) (w : NewDelete) : Event → Prop
  | .new t size active _ => w.NewNoWrap P active t size
  | .alignedNew t size alignment active _ =>
      let size := if size = 0 then 1 else size
      if alignment ≤ P.maxAlign then w.NewNoWrap P active t size
      else if takesFallback w.ready active (w.allocatorGone t) then
        size + alignment < Words.radix
      else
        ∀ pool client, w.sys.threads t = .live pool client → pool.alloc.arena.NoWrap size alignment
  | _ => True

/-- A pointer is deleted by the thread that asked for it, before that thread's allocator is gone
unless the thread's stash has it; or it is a plain fallback pointer; or nothing knows its
address. -/
def Undisturbed (w : NewDelete) : Event → Prop
  | .delete t p (u, o) _ =>
      (t = u ∧ (w.allocatorGone t = false ∨ ∃ raw, o = .overAligned raw)) ∨ o = .fallback ∨
        ((∀ e ∈ w.alignedScratch t, e.payload ≠ p) ∧ p ∉ w.mallocRecs ∧
          ∀ pool client, w.sys.threads t = .live pool client → pool.classify p = 0)
  | _ => True

/-- A stashed payload lies in the block that its raw pointer starts. -/
def Padded (h : Heap Owner) (scratch : Nat → List Scratch) : Prop :=
  ∀ t, ∀ e ∈ scratch t, ∃ b ∈ h.blocks, b.owner = .outside .overAligned ∧ b.span.base = e.raw ∧
    b.span.Holds e.payload

namespace Padded

variable {h h' : Heap Owner} {scratch : Nat → List Scratch} {t : Nat}

theorem heap (padded : Padded h scratch)
    (kept : ∀ b ∈ h.blocks, b.owner = .outside .overAligned → b ∈ h'.blocks) :
    Padded h' scratch := by
  intro t e stashed
  obtain ⟨b, member, owner, rest⟩ := padded t e stashed
  exact ⟨b, kept b member owner, owner, rest⟩

theorem stash (padded : Padded h scratch) {b : Block Owner} {payload : Nat}
    (member : b ∈ h.blocks) (owner : b.owner = .outside .overAligned)
    (held : b.span.Holds payload) :
    Padded h (Function.update scratch t (scratch t ++ [⟨b.span.base, payload⟩])) := by
  intro u e stashed
  by_cases same : u = t
  · subst same
    rw [Function.update_self] at stashed
    rcases List.mem_append.mp stashed with old | new
    · exact padded u e old
    · obtain rfl := List.mem_singleton.mp new
      exact ⟨b, member, owner, rfl, held⟩
  · rw [Function.update_of_ne same] at stashed
    exact padded u e stashed

/-- The removed entry's block is not that of any other entry. -/
theorem unstash (padded : Padded h scratch) {issued : Nat × Origin → List Nat}
    (backed : Backed h scratch issued) {e : Scratch} {before after : List Scratch}
    (split : scratch t = before ++ e :: after) :
    Padded (h.free e.raw) (Function.update scratch t (before ++ after)) := by
  have member : e ∈ scratch t := by
    rw [split]
    exact List.mem_append_right _ List.mem_cons_self
  have distinct : ((e :: (before ++ after)).map Scratch.raw).Nodup := by
    have once := backed.rawOnce t
    rw [split] at once
    exact (List.perm_middle.map Scratch.raw).nodup_iff.mp once
  intro u f stashed
  have old : f ∈ scratch u ∧ f.raw ≠ e.raw := by
    by_cases same : u = t
    · subst same
      rw [Function.update_self] at stashed
      refine ⟨?_, fun equal => ?_⟩
      · rw [split]
        exact ((List.sublist_cons_self e after).append_left before).subset stashed
      · exact (List.nodup_cons.mp distinct).1 (List.mem_map.mpr ⟨f, stashed, equal⟩)
    · rw [Function.update_of_ne same] at stashed
      exact ⟨stashed, fun equal => same (backed.rawOwner u t f stashed e member equal)⟩
  obtain ⟨b, block, owner, base, held⟩ := padded u f old.1
  exact ⟨b, Heap.mem_free.mpr ⟨block, by rw [base]; exact old.2⟩, owner, base, held⟩

end Padded

/-- What the allocators and the stashes look like when sizes are bounded and no deletion has
disturbed them. -/
structure Sound (w : NewDelete) : Prop where
  sys : SysInv w.sys
  served : Served w.sys w.ready w.issued
  padded : Padded w.sys.shared.heap w.alignedScratch

section Calls

variable {P : Platform} {w w' : NewDelete} {r : Replies} {t n p : Nat}
  {x : Except Exn (Option Nat)}

theorem Sound.grow {h : Heap Owner} (sound : Sound w) (recs : List Nat)
    (kept : ∀ b ∈ w.sys.shared.heap.blocks, b ∈ h.blocks) :
    Sound { w with sys := w.sys.setHeap h, mallocRecs := recs } :=
  ⟨(sound.sys.heap fun b member _ => kept b member).inv,
    sound.served.fewer rfl rfl fun _ _ _ => List.Sublist.refl _,
    sound.padded.heap fun b member _ => kept b member⟩

theorem Sound.malloc {use : Use} {reply answer : Option Nat} (sound : Sound w)
    (done : w.malloc P use n reply = (answer, w')) : Sound w' := by
  cases answer with
  | none => rwa [of_malloc_none done]
  | some p =>
      obtain ⟨h, rfl, _, added⟩ := of_malloc_some done
      refine sound.grow w.mallocRecs (fun b member => ?_)
      rw [added]
      exact List.mem_cons_of_mem _ member

theorem Sound.recordMallocPtr (sound : Sound w) (P : Platform) (reply : Option Nat) (p : Nat) :
    Sound (w.recordMallocPtr P reply p) := by
  obtain ⟨h, recs, same, kept, _⟩ := of_recordMallocPtr P reply p w
  rw [same]
  exact sound.grow recs kept

theorem Sound.fallbackNew (sound : Sound w) (done : w.fallbackNew P r t n = (x, w')) :
    Sound w' := by
  rw [NewDelete.fallbackNew] at done
  split at done
  · rename_i w₁ refused
    cases done
    exact (sound.malloc refused).recordMallocPtr P r.node 0
  · rename_i p w₁ granted
    cases done
    have grown := (sound.malloc granted).recordMallocPtr P r.node p
    exact ⟨grown.sys, grown.served.issueFallback (by simp [Origin.raw]) t p, grown.padded⟩

theorem Sound.bootstrapAlignedNew {alignment : Nat} (sound : Sound w) (positive : 1 ≤ n)
    (word : n + alignment < Words.radix) (power : Words.PowerOfTwo alignment)
    (done : w.bootstrapAlignedNew P r t n alignment = (x, w')) : Sound w' := by
  rw [NewDelete.bootstrapAlignedNew] at done
  split at done
  · rename_i w₁ refused
    cases done
    exact sound.malloc refused
  · rename_i raw w₁ granted
    cases done
    have grown := sound.malloc granted
    obtain ⟨h, rfl, fresh, added⟩ := of_malloc_some granted
    have size : Words.add n alignment = n + alignment := Words.add_of_lt word
    rw [size] at fresh added
    have member : (⟨Heap.request raw (n + alignment), .outside .overAligned⟩ : Block Owner) ∈
        h.blocks := by
      rw [added]
      exact List.mem_cons_self
    have held : (Heap.request raw (n + alignment)).Holds (Words.alignUp raw alignment) := by
      have room : raw + max (n + alignment) 1 ≤ 9223372036854775808 := fresh.2.2.1
      have align := Words.alignUp_spec (x := raw) power (by
        simp only [Words.radix]
        omega)
      refine ⟨align.1, ?_⟩
      change Words.alignUp raw alignment < raw + max (n + alignment) 1
      omega
    exact ⟨grown.sys, grown.served.issueFallback (by simp [Origin.raw]) t _,
      grown.padded.stash member rfl held⟩

/-- What an allocation on the pool path owes the caller. -/
theorem Sound.issueServed {source : Nat × Origin} {served : Except Exn (Option Nat)}
    (sys : SysInv w.sys) (padded : Padded w.sys.shared.heap w.alignedScratch)
    (answered : ∀ p, served = .ok (some p) → Served w.sys w.ready
      (Function.update w.issued source (p :: w.issued source)))
    (unanswered : (∀ p, served ≠ .ok (some p)) → Served w.sys w.ready w.issued)
    (done : w.issueServed source served = (x, w')) : Sound w' := by
  unfold NewDelete.issueServed at done
  split at done
  · cases done
    exact ⟨sys, answered _ rfl, padded⟩
  · rename_i nothing
    cases done
    exact ⟨sys, unanswered nothing, padded⟩

/-- A pointer that has just been served was not out for any size. -/
theorem Served.gained_new {s : Sys} {ready : Bool} {issued : Nat × Origin → List Nat}
    {pool : ThreadPoolAlloc} {client : Client} {m' : ByteMemory} {g' : Shared}
    {a' : SingleThreadAllocator} {free' : SizeClass → List Nat} (served : Served s ready issued)
    (live : s.threads t = .live pool client)
    (after : ThreadInv m' g' t a' (client.gain n (.ok (some p))) free') (small : n ≤ maxSmall)
    (k : Nat) : p ∉ issued (t, .pool k) := by
  intro old
  obtain ⟨small', held⟩ := (served.live t pool client live).pool k p old
  have gained : client.gain n (.ok (some p)) = client.gainBlock (sizeClassOf n small) p :=
    dif_pos small
  refine AllocatorRuns.gained_new (i := sizeClassOf n small) after.alloc ?_ _ held
  rw [gained]
  rfl

/-- The served pointer is recorded under its size, or as an arena pointer. -/
theorem Served.answered {s s' : Sys} {ready : Bool} {issued : Nat × Origin → List Nat}
    {pool pool' : ThreadPoolAlloc} {client : Client} {m' : ByteMemory}
    {free' : SizeClass → List Nat} (served : Served s ready issued)
    (begun : ready = true) (live : s.threads t = .live pool client)
    (threads : s'.threads =
      Function.update s.threads t (.live pool' (client.gain n (.ok (some p)))))
    (carved : s'.shared.carved = s.shared.carved ∨ ∃ c,
      s'.shared.carved = s.shared.carved ++ [c] ∧ c.user = some t)
    (after : ThreadInv m' s'.shared t pool'.alloc (client.gain n (.ok (some p))) free')
    (recorded : ∀ i, (pool'.alloc.pools i).slabs blocksPerSlab =
      s'.shared.linkedBy t pool'.alloc i) :
    Served s' ready
      (Function.update issued (t, Origin.ofSize n) (p :: issued (t, Origin.ofSize n))) := by
  have mine := served.live t pool client live
  have elsewhere : ∀ u, u ≠ t → ∀ o, (u, o) ≠ (t, Origin.ofSize n) :=
    fun u other o same => other (congrArg Prod.fst same)
  refine served.advance (t := t) threads carved ?_ ?_ ?_ ?_ ?_
  · intro pool₁ client₁ same
    obtain ⟨rfl, rfl⟩ := Thread.live.inj same
    exact mine.gain recorded
  · intro u other o _
    rw [Function.update_of_ne (elsewhere u other o)]
  · intro k
    by_cases same : (t, Origin.pool k) = (t, Origin.ofSize n)
    · have small : n ≤ maxSmall := by
        by_contra large
        rw [Origin.ofSize, if_neg large] at same
        cases same
      rw [← same, Function.update_self]
      exact List.nodup_cons.mpr ⟨served.gained_new live after small k, served.once t k⟩
    · rw [Function.update_of_ne same]
      exact served.once t k
  · intro k l q left right
    by_cases small : n ≤ maxSmall
    · have route : Origin.ofSize n = .pool n := if_pos small
      have new := served.gained_new live after small
      rw [route] at left right
      have split : ∀ k, q ∈ Function.update issued (t, Origin.pool n)
          (p :: issued (t, .pool n)) (t, .pool k) →
          (q = p ∧ k = n) ∨ q ∈ issued (t, .pool k) := by
        intro k out
        by_cases same : k = n
        · subst same
          rw [Function.update_self] at out
          exact (List.mem_cons.mp out).imp_left (fun equal => ⟨equal, rfl⟩)
        · rw [Function.update_of_ne (by simp [same])] at out
          exact Or.inr out
      rcases split k left with ⟨rfl, rfl⟩ | old
      · rcases split l right with ⟨_, rfl⟩ | older
        · rfl
        · exact absurd older (new l)
      · rcases split l right with ⟨rfl, rfl⟩ | older
        · exact absurd old (new k)
        · exact served.size t k l q old older
    · have route : Origin.ofSize n = .arena := if_neg small
      rw [route, Function.update_of_ne (by simp)] at left right
      exact served.size t k l q left right
  · intro o allocator q out
    refine ⟨begun, fun impossible => by cases impossible⟩

theorem Sound.poolNew {pool : ThreadPoolAlloc} {client : Client} (sound : Sound w)
    (power : Words.PowerOfTwo P.maxAlign) (word : n < Words.radix)
    (noWrap : maxSmall < n → pool.alloc.arena.NoWrap n P.maxAlign)
    (ready : w.ready = true) (live : w.sys.threads t = .live pool client)
    (done : w.poolNew P r t n pool client = (x, w')) : Sound w' := by
  rw [NewDelete.poolNew] at done
  generalize called : pool.allocate P (acquireChunkCb P t r.chunk true) true n w.sys.shared
    w.sys.mem = answer at done
  obtain ⟨x₁, pool', g', m'⟩ := answer
  have sums : w.sys.NoWrap P (.allocate t n x₁) := by
    intro large pool₁ client₁ live₁
    rw [live] at live₁
    cases live₁
    exact noWrap large
  have sys := sound.sys.next power sums trivial (.allocate live word called)
  obtain ⟨free, thread⟩ := sound.sys.live t pool client live
  obtain ⟨free', _, _, after, _, _, _, kept, granted, obtained⟩ :=
    thread.allocate sound.sys.shared power word noWrap called
  have carved := obtained.carved
  have mine := sound.served.live t pool client live
  have recorded := ThreadInv.recorded_granted granted mine.recorded
  refine Sound.issueServed (w := { w with sys := _ }) sys
    (sound.padded.heap fun b member _ => kept b member) ?_ ?_ done
  · rintro p rfl
    exact sound.served.answered ready live rfl carved after recorded
  · intro nothing
    refine sound.served.advance (t := t) rfl carved ?_ (fun _ _ _ _ => List.Sublist.refl _)
      (sound.served.once t) (sound.served.size t) ?_
    · intro pool₁ client₁ same
      obtain ⟨rfl, rfl⟩ := Thread.live.inj same
      exact mine.unanswered recorded nothing
    · intro o allocator q out
      exact ⟨ready, fun impossible => by cases impossible⟩

theorem Sound.poolAlignedNew {alignment : Nat} {pool : ThreadPoolAlloc} {client : Client}
    (sound : Sound w) (power : Words.PowerOfTwo P.maxAlign) (positive : 1 ≤ n)
    (word : n < Words.radix) (noWrap : pool.alloc.arena.NoWrap n alignment)
    (power' : Words.PowerOfTwo alignment) (ready : w.ready = true)
    (live : w.sys.threads t = .live pool client)
    (done : w.poolAlignedNew t n alignment pool client = (x, w')) : Sound w' := by
  rw [NewDelete.poolAlignedNew] at done
  generalize called : pool.allocateAligned n alignment = answer at done
  obtain ⟨y, pool'⟩ := answer
  have sums : w.sys.NoWrap P (.allocateAligned t n alignment y) := by
    intro pool₁ client₁ live₁
    rw [live] at live₁
    cases live₁
    exact noWrap
  have sys := sound.sys.next power sums positive (.allocateAligned live word power' called)
  have mine := sound.served.live t pool client live
  have pools := ThreadPoolAlloc.allocateAligned_pools called
  have recorded : ∀ i, (pool'.alloc.pools i).slabs blocksPerSlab =
      w.sys.shared.linkedBy t pool'.alloc i := by
    intro i
    simp only [Shared.linkedBy, pools]
    exact mine.recorded i
  refine Sound.issueServed (w := { w with sys := _ }) sys sound.padded ?_ ?_ done
  · intro p same
    obtain rfl : y = some p := Except.ok.inj same
    refine sound.served.advance (t := t) rfl (Or.inl rfl) ?_ ?_ ?_ ?_ ?_
    · intro pool₁ client₁ same
      obtain ⟨rfl, rfl⟩ := Thread.live.inj same
      exact mine.gainAligned recorded
    · intro u other o _
      rw [Function.update_of_ne (fun same => other (congrArg Prod.fst same))]
    · intro k
      rw [Function.update_of_ne (by simp)]
      exact sound.served.once t k
    · intro k l q left right
      rw [Function.update_of_ne (by simp)] at left right
      exact sound.served.size t k l q left right
    · intro o allocator q out
      exact ⟨ready, fun impossible => by cases impossible⟩
  · intro nothing
    have unchanged : client.gainAligned n y = client := by
      cases y with
      | none => rfl
      | some p => exact absurd rfl (nothing p)
    refine sound.served.advance (t := t) rfl (Or.inl rfl) ?_ (fun _ _ _ _ => List.Sublist.refl _)
      (sound.served.once t) (sound.served.size t) ?_
    · intro pool₁ client₁ same
      obtain ⟨rfl, rfl⟩ := Thread.live.inj same
      rw [unchanged]
      exact ⟨recorded, mine.pool, mine.arena⟩
    · intro o allocator q out
      exact ⟨ready, fun impossible => by cases impossible⟩

theorem takesFallback_ready {active : Bool} {gone : Bool} (serves :
    ¬ takesFallback w.ready active gone = true) : w.ready = true := by
  cases ready : w.ready with
  | true => rfl
  | false =>
      rw [ready] at serves
      exact absurd rfl serves

theorem Sound.doNew {active : Bool} (sound : Sound w) (power : Words.PowerOfTwo P.maxAlign)
    (word : n < Words.radix) (noWrap : w.NewNoWrap P active t n)
    (done : w.doNew P r active t n = some (x, w')) : Sound w' := by
  rw [NewDelete.doNew] at done
  have fits : (if n = 0 then 1 else n) < Words.radix ∧
      (maxSmall < (if n = 0 then 1 else n) → maxSmall < n) := by
    split
    · exact ⟨by decide, fun large => absurd large (by decide)⟩
    · exact ⟨word, fun large => large⟩
  have sums : w.NewNoWrap P active t (if n = 0 then 1 else n) := by
    intro large
    have same : (if n = 0 then 1 else n) = n := by
      apply if_neg
      have := fits.2 large
      omega
    rw [same]
    exact noWrap (fits.2 large)
  generalize (if n = 0 then 1 else n) = size at done fits sums
  split at done
  · exact sound.fallbackNew (Option.some.inj done)
  · rename_i serves
    split at done
    · rename_i live
      exact sound.poolNew power fits.1
        (fun large => sums large (Bool.not_eq_true _ ▸ serves) _ _ live)
        (takesFallback_ready serves) live (Option.some.inj done)
    · cases done

theorem Sound.doAlignedNew {active : Bool} {alignment : Nat} (sound : Sound w)
    (power : Words.PowerOfTwo P.maxAlign) (power' : Words.PowerOfTwo alignment)
    (word : n < Words.radix) (noWrap : w.NoWrap P (.alignedNew t n alignment active x))
    (done : w.doAlignedNew P r active t n alignment = some (x, w')) : Sound w' := by
  rw [NewDelete.doAlignedNew] at done
  rw [NoWrap] at noWrap
  have fits : 1 ≤ (if n = 0 then 1 else n) ∧ (if n = 0 then 1 else n) < Words.radix := by
    split
    · exact ⟨Nat.le_refl _, by decide⟩
    · exact ⟨by omega, word⟩
  generalize (if n = 0 then 1 else n) = k at done fits noWrap
  split at done
  · rename_i plain
    exact sound.doNew power fits.2 (by simpa only [plain, ↓reduceIte] using noWrap) done
  · rename_i strict
    simp only [strict, ↓reduceIte] at noWrap
    split at done
    · rename_i falls
      exact sound.bootstrapAlignedNew fits.1 (by simpa only [falls, ↓reduceIte] using noWrap)
        power' (Option.some.inj done)
    · rename_i serves
      simp only [serves, Bool.false_eq_true, ↓reduceIte] at noWrap
      split at done
      · rename_i live
        exact sound.poolAlignedNew power fits.1 fits.2 (noWrap _ _ live) power'
          (takesFallback_ready serves) live (Option.some.inj done)
      · cases done

end Calls

section Addresses

variable {m : ByteMemory} {g : Shared} {t : Nat} {pool : ThreadPoolAlloc} {client : Client}
  {free : SizeClass → List Nat}

/-- Every address inside a block that is out has the block's class. -/
theorem classify_held (inv : ThreadInv m g t pool.alloc client free)
    (recorded : ∀ i, (pool.alloc.pools i).slabs blocksPerSlab = g.linkedBy t pool.alloc i)
    {i : SizeClass} {x p : Nat} (out : x ∈ client.held i) (inside : (Span.mk x i.bytes).Holds p) :
    pool.classify p = i.bytes := by
  have listed := List.mem_append_right (free i) out
  have nonnull : p ≠ 0 := by
    have bounds := (inv.alloc.pools i).block_bounds listed
    exact Nat.ne_of_gt (Nat.lt_of_lt_of_le bounds.1 inside.1)
  refine SingleThreadAllocator.classify_pool nonnull (fun j => ?_)
  rw [SingleThreadAllocator.contains_iff]
  constructor
  · rintro ⟨s, member, contains⟩
    exact (inv.alloc.class_unique out inside member contains).symm
  · rintro rfl
    obtain ⟨s, member, block⟩ := inv.alloc.mem_linked listed
    refine ⟨s, ?_, (Slab.block_inside block).holds inside⟩
    rw [recorded]
    exact member

theorem classify_bumped (inv : ThreadInv m g t pool.alloc client free) {b : Span} {p : Nat}
    (out : b ∈ client.bumped) (inside : b.Holds p) : pool.classify p = kArenaPointer := by
  obtain ⟨low, high⟩ := inv.alloc.bumped.inside b out
  have used : pool.alloc.arena.base ≤ p ∧ p < pool.alloc.arena.base + pool.alloc.arena.used :=
    ⟨Nat.le_trans low inside.1, Nat.lt_of_lt_of_le inside.2 high⟩
  have nonnull : p ≠ 0 := Nat.ne_of_gt (Nat.lt_of_lt_of_le inv.alloc.arena.positive used.1)
  have region : pool.alloc.arenaSpan.Holds p :=
    (inv.alloc.bumped_inside out).holds inside
  have outside : ∀ j, (pool.alloc.pools j).contains j.bytes blocksPerSlab p = false := by
    intro j
    rw [← Bool.not_eq_true, SingleThreadAllocator.contains_iff]
    rintro ⟨s, member, contains⟩
    exact inv.alloc.arena_unique region member contains
  rw [ThreadPoolAlloc.classify, SingleThreadAllocator.classify_no_pool nonnull outside, if_pos]
  simpa [Arena.contains] using used

theorem releaseAt_held (inv : ThreadInv m g t pool.alloc client free) {i : SizeClass} {p : Nat}
    (out : p ∈ client.held i) : client.releaseAt i.bytes p = client.release i p := by
  have start : (Span.mk p i.bytes).Holds p := Span.Holds.base i.bytes_positive
  have found : (client.held i).find? (fun x => decide ((Span.mk x i.bytes).Holds p)) = some p := by
    cases search : (client.held i).find? (fun x => decide ((Span.mk x i.bytes).Holds p)) with
    | none =>
        have missed := List.find?_eq_none.mp search p out
        exact absurd (decide_eq_true start) missed
    | some x =>
        by_cases same : x = p
        · rw [same]
        · have hit := List.find?_some search
          have held : (Span.mk x i.bytes).Holds p := of_decide_eq_true hit
          have listed := List.mem_append_right (free i) (List.mem_of_find?_eq_some search)
          have apart := (inv.alloc.pools i).blocks_apart listed (List.mem_append_right _ out) same
          exact absurd start (apart.not_holds held)
  rw [Client.releaseAt, dif_pos i.bytes_le, sizeClassOf_bytes i]
  simp only [found]

/-- The pool takes a block back that the thread holds. -/
theorem deallocate_held (inv : ThreadInv m g t pool.alloc client free)
    (recorded : ∀ i, (pool.alloc.pools i).slabs blocksPerSlab = g.linkedBy t pool.alloc i)
    {i : SizeClass} {p : Nat} (out : p ∈ client.held i) :
    pool.deallocateContaining m p i.bytes =
      .ok ({ pool with
          alloc := pool.alloc.afterFree i.bytes i p
          freeCount := Words.add pool.freeCount 1 },
        ByteMemory.writeWord m p (pool.alloc.pools i).head) := by
  have block : p ∈ blocksOf i.bytes ((pool.alloc.pools i).slabs blocksPerSlab) := by
    rw [recorded]
    exact mem_blocksOf.mpr (inv.alloc.mem_linked (List.mem_append_right (free i) out))
  have accepted := inv.alloc.deallocateContaining_accepts out block
    (Span.Holds.base i.bytes_positive) i.bytes_le (sizeClassOf_bytes i).symm
  simp only [ThreadPoolAlloc.deallocateContaining, ThreadPoolAlloc.free,
    SingleThreadAllocator.FreeForm.call, accepted]

theorem afterFree_slabs (a : SingleThreadAllocator) (n : Nat) (i : SizeClass) (p : Nat)
    (j : SizeClass) :
    ((a.afterFree n i p).pools j).slabs blocksPerSlab = (a.pools j).slabs blocksPerSlab ∧
      ((a.afterFree n i p).pools j).slab = (a.pools j).slab := by
  by_cases same : j = i
  · subst same
    simp [SingleThreadAllocator.afterFree, SingleThreadAllocator.setPool, BlockPool.slabs]
  · simp [SingleThreadAllocator.afterFree, SingleThreadAllocator.setPool, same]

end Addresses

/-- What holds in every state when no sum has wrapped around and no deletion has disturbed the
allocators. -/
structure Placed (w : NewDelete) : Prop where
  inv : Inv w
  stashed : Stashed w.alignedScratch w.issued
  sound : Sound w

/-- The same, where the registry also has had room for every fallback pointer. -/
structure Intact (w : NewDelete) : Prop where
  tracked : Tracked w
  sound : Sound w

theorem Intact.placed {w : NewDelete} (intact : Intact w) : Placed w :=
  ⟨intact.tracked.inv, intact.tracked.stashed, intact.sound⟩

namespace Placed

variable {w : NewDelete} {t u p : Nat} {o : Origin}

theorem live (placed : Placed w) (allocator : o.raw 0 = none) (out : p ∈ w.issued (t, o))
    (stays : w.allocatorGone t = false) :
    w.ready = true ∧ ∃ pool client, w.sys.threads t = .live pool client := by
  obtain ⟨ready, born⟩ := placed.sound.served.born t o allocator p out
  refine ⟨ready, ?_⟩
  cases thread : w.sys.threads t with
  | unborn => exact absurd thread born
  | live pool client => exact ⟨pool, client, rfl⟩
  | exited =>
      rw [allocatorGone, thread] at stays
      cases stays

/-- The class of a pointer from the pool or the arena. -/
theorem classified (placed : Placed w) {pool : ThreadPoolAlloc} {client : Client}
    (live : w.sys.threads t = .live pool client) (out : p ∈ w.issued (t, o)) :
    (∀ n, o = .pool n → ∃ small : n ≤ maxSmall, p ∈ client.held (sizeClassOf n small) ∧
      pool.classify p = (sizeClassOf n small).bytes) ∧
    (o = .arena → pool.classify p = kArenaPointer) := by
  obtain ⟨free, thread⟩ := placed.sound.sys.live t pool client live
  have served := placed.sound.served.live t pool client live
  constructor
  · rintro n rfl
    obtain ⟨small, held⟩ := served.pool n p out
    exact ⟨small, held, classify_held thread served.recorded held
      (Span.Holds.base (SizeClass.bytes_positive _))⟩
  · rintro rfl
    obtain ⟨b, member, rfl⟩ := served.arena p out
    exact classify_bumped thread member (Span.Holds.base (thread.nonempty b member))

/-- Such a pointer lies in a block of the heap that `malloc` gave to no one else. -/
theorem home (placed : Placed w) (allocator : o.raw 0 = none) (out : p ∈ w.issued (t, o))
    (stays : w.allocatorGone t = false) :
    ∃ b ∈ w.sys.shared.heap.blocks, b.span.Holds p ∧ ∀ use, b.owner ≠ .outside use := by
  obtain ⟨_, pool, client, live⟩ := placed.live allocator out stays
  obtain ⟨free, thread⟩ := placed.sound.sys.live t pool client live
  have served := placed.sound.served.live t pool client live
  have region : ∃ r, Region w.sys.shared t pool.alloc r ∧ r.Holds p := by
    cases o with
    | pool n =>
        obtain ⟨small, held⟩ := served.pool n p out
        obtain ⟨r, region, inside⟩ := thread.held_region held
        exact ⟨r, region, inside.holds (Span.Holds.base (SizeClass.bytes_positive _))⟩
    | arena =>
        obtain ⟨b, member, rfl⟩ := served.arena p out
        obtain ⟨region, inside⟩ := thread.bumped_region member
        exact ⟨_, region, inside.holds (Span.Holds.base (thread.nonempty b member))⟩
    | fallback => cases allocator
    | overAligned raw => cases allocator
  obtain ⟨r, region, held⟩ := region
  obtain ⟨b, member, inside, others⟩ := (thread.home region).block placed.sound.sys.shared
  exact ⟨b, member, inside.holds held, others⟩

/-- A payload in a stash is not the address of a pointer of another origin. -/
theorem payload_origin (placed : Placed w) (out : p ∈ w.issued (u, o))
    (known : u = t ∧ (w.allocatorGone u = false ∨ ∃ raw, o = .overAligned raw) ∨ o = .fallback)
    {e : Scratch}
    (stashed : e ∈ w.alignedScratch t) (payload : e.payload = p) : o = .overAligned e.raw := by
  obtain ⟨b, member, owner, base, held⟩ := placed.sound.padded t e stashed
  rw [payload] at held
  cases o with
  | pool n =>
      obtain ⟨same, stays⟩ := known.resolve_right (by simp)
      have stays := stays.resolve_right (by simp)
      obtain ⟨c, block, held', others⟩ := placed.home rfl out stays
      obtain rfl := Heap.eq_of_holds member block held held'
      exact absurd owner (others _)
  | arena =>
      obtain ⟨same, stays⟩ := known.resolve_right (by simp)
      have stays := stays.resolve_right (by simp)
      obtain ⟨c, block, held', others⟩ := placed.home rfl out stays
      obtain rfl := Heap.eq_of_holds member block held held'
      exact absurd owner (others _)
  | fallback =>
      have plain := (placed.inv.backed.plain u p out).owner member held
      rw [plain] at owner
      cases owner
  | overAligned raw =>
      obtain ⟨rfl, _⟩ := known.resolve_right (by simp)
      have entry := placed.stashed.entry u raw p out
      obtain ⟨c, block, owner', base', held'⟩ := placed.sound.padded u _ entry
      obtain rfl := Heap.eq_of_holds member block held held'
      rw [← base, base']

/-- No deletion confuses its pointer with another one at the same address. -/
theorem unambiguous (placed : Placed w) {freed : Option (List Nat)} (out : p ∈ w.issued (u, o))
    (clear : w.Undisturbed (.delete t p (u, o) freed)) :
    w.Unambiguous (.delete t p (u, o) freed) := by
  rcases clear with ⟨rfl, stays⟩ | rfl | ⟨unstashed, unrecorded, _⟩
  · refine ⟨fun e stashed payload => placed.payload_origin out (Or.inl ⟨rfl, stays⟩) stashed
      payload, ?_⟩
    rintro ⟨unstashed, phase⟩ _
    -- the thread's own pointers reach the registry only as plain fallback pointers
    have reached : o.raw 0 = none → ∃ pool client, w.sys.threads t = .live pool client ∧
        pool.classify p = 0 := by
      intro allocator
      have stays := stays.resolve_right (by
        rintro ⟨raw, rfl⟩
        cases allocator)
      obtain ⟨ready, pool, client, live⟩ := placed.live allocator out stays
      rw [ready, live] at phase
      exact ⟨pool, client, live, phase.resolve_left (by simp)⟩
    cases o with
    | pool n =>
        obtain ⟨pool, client, live, unknown⟩ := reached rfl
        obtain ⟨small, _, known⟩ := (placed.classified live out).1 n rfl
        rw [known] at unknown
        exact absurd unknown (Nat.ne_of_gt (SizeClass.bytes_positive _))
    | arena =>
        obtain ⟨pool, client, live, unknown⟩ := reached rfl
        rw [(placed.classified live out).2 rfl] at unknown
        cases unknown
    | fallback => rfl
    | overAligned raw => exact absurd rfl (unstashed _ (placed.stashed.entry t raw p out))
  · exact ⟨fun e stashed payload => placed.payload_origin out (Or.inr rfl) stashed payload,
      fun _ _ => rfl⟩
  · exact ⟨fun e stashed payload => absurd payload (unstashed e stashed),
      fun _ member => absurd member unrecorded⟩

/-- Only pool pointers of the thread itself reach its pools. -/
theorem pooled (placed : Placed w) {freed : Option (List Nat)} {pool : ThreadPoolAlloc}
    {client : Client} (live : w.sys.threads t = .live pool client) (out : p ∈ w.issued (u, o))
    (clear : w.Undisturbed (.delete t p (u, o) freed))
    (unstashed : ∀ e ∈ w.alignedScratch t, e.payload ≠ p) (known : pool.classify p ≠ 0)
    (small : pool.classify p ≠ kArenaPointer) : t = u ∧ ∃ n, o = .pool n := by
  have plain : o = .fallback → pool.classify p = 0 := by
    rintro rfl
    obtain ⟨b, member, owner, rfl⟩ := placed.inv.backed.plain u p out
    refine (placed.inv.housed.live t pool client live).classify_outside member ?_
      (Heap.holds_base member)
    exact fun serves => serves.inside _ owner
  rcases clear with ⟨rfl, stays⟩ | fallback | ⟨_, _, foreign⟩
  · refine ⟨rfl, ?_⟩
    cases o with
    | pool n => exact ⟨n, rfl⟩
    | arena => exact absurd ((placed.classified live out).2 rfl) small
    | fallback => exact absurd (plain rfl) known
    | overAligned raw =>
        exact absurd rfl (unstashed _ (placed.stashed.entry t raw p out))
  · exact absurd (plain fallback) known
  · exact absurd (foreign pool client live) known

end Placed

section Steps

variable {P : Platform} {w w' : NewDelete} {t p : Nat} {source : Nat × Origin}
  {freed : List Nat}

theorem Sound.retire (sound : Sound w) (source : Nat × Origin) (p : Nat) :
    Sound (w.retire source p) :=
  ⟨sound.sys, sound.served.retire source p, sound.padded⟩

/-- Releasing a block that the program or the fallback got from `malloc`. -/
theorem Sound.freeOutside {use : Use} (sound : Sound w)
    (out : Outstanding w.sys.shared.heap use p) (other : use ≠ .overAligned) :
    Sound (w.safeFree p) := by
  refine ⟨(sound.sys.heap fun b member managed => out.free_others member (managed use)).inv,
    sound.served.fewer rfl rfl fun _ _ _ => List.Sublist.refl _,
    sound.padded.heap fun b member owner => out.free_others member ?_⟩
  rw [owner]
  exact fun same => other (Owner.outside.inj same).symm

/-- A thread's own pool pointer goes back to its pool. -/
theorem Sound.pooled {n : Nat} {pool : ThreadPoolAlloc} {client : Client} (sound : Sound w)
    (power : Words.PowerOfTwo P.maxAlign) (live : w.sys.threads t = .live pool client)
    (small : n ≤ maxSmall) (held : p ∈ client.held (sizeClassOf n small))
    (out : p ∈ w.issued (t, .pool n)) {pool' : ThreadPoolAlloc} {m' : ByteMemory}
    (done : pool.deallocateContaining w.sys.mem p (sizeClassOf n small).bytes =
      .ok (pool', m')) :
    Sound ({ w with sys := { w.sys.setThread t (.live pool'
      (client.release (sizeClassOf n small) p)) with mem := m' } }.retire (t, .pool n) p) := by
  obtain ⟨free, thread⟩ := sound.sys.live t pool client live
  have mine := sound.served.live t pool client live
  have sys := sound.sys.next (P := P)
    (e := .free t .containing p (sizeClassOf n small).bytes) power trivial trivial
    (.free live held (Span.Holds.base (SizeClass.bytes_positive _)) done)
  rw [deallocate_held thread mine.recorded held] at done
  cases done
  refine ⟨sys, ?_, sound.padded⟩
  refine sound.served.advance (t := t) rfl (Or.inl rfl) ?_ ?_ ?_ ?_ ?_
  · intro pool₁ client₁ same
    obtain ⟨rfl, rfl⟩ := Thread.live.inj same
    refine mine.release (fun i => ?_) small (sound.served.once t n)
      (fun k other => sound.served.size t k n p other out)
    obtain ⟨slabs, slab⟩ :=
      afterFree_slabs pool.alloc (sizeClassOf n small).bytes (sizeClassOf n small) p i
    change ((pool.alloc.afterFree _ _ p).pools i).slabs blocksPerSlab = _
    rw [slabs, mine.recorded i]
    simp only [Shared.linkedBy, slab]
    rfl
  · intro u _ o _
    exact retire_sublist w.issued _ (u, o) p
  · intro k
    exact (sound.served.once t k).sublist (retire_sublist w.issued _ (t, .pool k) p)
  · intro k l q left right
    exact sound.served.size t k l q ((retire_sublist w.issued _ (t, .pool k) p).subset left)
      ((retire_sublist w.issued _ (t, .pool l) p).subset right)
  · intro o allocator q still
    refine ⟨(sound.served.born t o allocator q ?_).1, fun impossible => by cases impossible⟩
    exact (retire_sublist w.issued _ (t, o) p).subset still

theorem Sound.deleted (power : Words.PowerOfTwo P.maxAlign) (placed : Placed w)
    (out : p ∈ w.issued source) (clear : w.Undisturbed (.delete t p source (some freed)))
    (deleted : Deleted w t p freed w') : Sound (w'.retire source p) := by
  obtain ⟨u, o⟩ := source
  have right := placed.unambiguous out clear
  have sound := placed.sound
  cases deleted with
  | null null => exact sound.retire _ _
  | ignored consults absent => exact sound.retire _ _
  | arena ready live unstashed classified => exact sound.retire _ _
  | registered consults member =>
      obtain rfl : o = .fallback := right.2 consults member
      have block := placed.inv.backed.plain u p out
      exact (sound.freeOutside block (fun same => by cases same)).retire _ _
  | @stashed e before after split payload =>
      have member : e ∈ w.alignedScratch t := by
        rw [split]
        exact List.mem_append_right _ List.mem_cons_self
      have block := placed.inv.backed.raw t e member
      exact ⟨(sound.sys.heap fun b member managed => block.free_others member (managed _)).inv,
        (sound.served.retire (u, o) p).fewer rfl rfl fun _ _ _ => List.Sublist.refl _,
        sound.padded.unstash placed.inv.backed split⟩
  | @pool pool pool' client m' ready live unstashed known small done =>
      obtain ⟨rfl, n, rfl⟩ := placed.pooled live out clear unstashed known small
      obtain ⟨fits, held, classified⟩ := (placed.classified live out).1 n rfl
      obtain ⟨free, thread⟩ := sound.sys.live t pool client live
      rw [classified] at done ⊢
      rw [releaseAt_held thread held]
      exact sound.pooled power live fits held out done

theorem Placed.unambiguous_step {e : Event} (placed : Placed w) (clear : w.Undisturbed e)
    (taken : Step P w e w') : w.Unambiguous e := by
  cases taken with
  | delete out done => exact placed.unambiguous out clear
  | reenter out begun stuck => exact placed.unambiguous out clear
  | _ => trivial

theorem Placed.step {e : Event} (power : Words.PowerOfTwo P.maxAlign) (placed : Placed w)
    (noWrap : w.NoWrap P e) (clear : w.Undisturbed e) (taken : Step P w e w') : Placed w' := by
  have right := placed.unambiguous_step clear taken
  refine ⟨placed.inv.step right.freshRecord taken, placed.stashed.step placed.inv right taken, ?_⟩
  have sound := placed.sound
  cases taken with
  | begin unborn first => exact ⟨sound.sys, sound.served, sound.padded⟩
  | @construct t x sys' begun taken =>
      have sys := sound.sys.next (e := .start t x) power trivial trivial taken
      cases taken with
      | start unborn done =>
          have growth := (Housed.new done).2
          exact ⟨sys, sound.served.start sound.sys unborn done,
            sound.padded.heap fun b member _ => growth b member⟩
      | startFails unborn done =>
          have growth := SingleThreadAllocator.new_error done
          exact ⟨sys, sound.served.fewer rfl rfl fun _ _ _ => List.Sublist.refl _,
            sound.padded.heap fun b member _ => growth b member⟩
  | @exit t sys' taken =>
      have sys := sound.sys.next (e := .exit t) power trivial trivial taken
      cases taken with
      | exit live =>
          obtain ⟨_, survives⟩ := placed.inv.housed.exit live
          refine ⟨sys, sound.served.exit t _, sound.padded.heap fun b member owner => ?_⟩
          exact survives b member (by rw [owner]; simp [Owner.thread])
  | initAllocator live =>
      refine ⟨sound.sys, ⟨sound.served.live, sound.served.once, sound.served.size, ?_⟩,
        sound.padded⟩
      intro t o allocator p out
      exact ⟨rfl, (sound.served.born t o allocator p out).2⟩
  | new word done => exact sound.doNew power word noWrap done
  | alignedNew word power' done => exact sound.doAlignedNew power power' word noWrap done
  | delete out done => exact Sound.deleted power placed out clear (of_doDelete done)
  | reenter out begun stuck => exact sound.retire _ _
  | malloc done => exact sound.malloc done
  | @mfree b member owner =>
      exact sound.freeOutside ⟨b, member, owner, rfl⟩ (fun same => by cases same)
  | @write a b sys' taken =>
      have sys := sound.sys.next (e := .write a b) power trivial trivial taken
      cases taken with
      | write writable => exact ⟨sys, ⟨sound.served.live, sound.served.once, sound.served.size,
          sound.served.born⟩, sound.padded⟩

theorem Sound.noWrap {e : Event} (power : Words.PowerOfTwo P.maxAlign)
    (small : P.maxAlign ≤ 4294967296) (sound : Sound w) (bounded : e.Bounded)
    (taken : Step P w e w') : w.NoWrap P e := by
  have admitted : ∀ {t n alignment pool client}, w.sys.threads t = .live pool client →
      Words.PowerOfTwo alignment → n ≤ 4611686018427387904 → alignment ≤ 4294967296 →
      pool.alloc.arena.NoWrap n alignment := by
    intro t n alignment pool client live power' size alignable
    obtain ⟨free, thread⟩ := sound.sys.live t pool client live
    refine Or.inl (Arena.noWrap_of_bounded thread.alloc.arena power' ?_)
    show n + alignment ≤ 9223372036854775808
    omega
  cases taken with
  | new word done =>
      intro _ _ pool client live
      exact admitted live power bounded small
  | @alignedNew w' t n alignment active r x word power' done =>
      have size : (if n = 0 then 1 else n) ≤ 4611686018427387904 := by
        have := bounded.1
        split <;> omega
      simp only [NoWrap]
      generalize (if n = 0 then 1 else n) = k at size
      split
      · intro _ _ pool client live
        exact admitted live power size small
      · split
        · have := bounded.2
          simp only [Words.radix]
          omega
        · intro pool client live
          exact admitted live power' size bounded.2
  | _ => trivial

theorem Intact.step {e : Event} (power : Words.PowerOfTwo P.maxAlign)
    (small : P.maxAlign ≤ 4294967296) (intact : Intact w) (bounded : e.Bounded)
    (clear : w.Undisturbed e) (registers : w.Registers w') (taken : Step P w e w') :
    Intact w' := by
  have noWrap := intact.sound.noWrap power small bounded taken
  have placed := intact.placed
  have right := placed.unambiguous_step clear taken
  exact ⟨intact.tracked.step right registers taken, (placed.step power noWrap clear taken).sound⟩

theorem Placed.initial (m : ByteMemory) (h : Heap Owner) : Placed (initial m h) := by
  refine ⟨Inv.initial m h, (Tracked.initial m h).stashed, SysInv.initial m h,
    Served.initial m h, ?_⟩
  intro t e stashed
  cases stashed

theorem Intact.initial (m : ByteMemory) (h : Heap Owner) : Intact (initial m h) :=
  ⟨Tracked.initial m h, (Placed.initial m h).sound⟩

end Steps

end MemAlloc.NewDelete
