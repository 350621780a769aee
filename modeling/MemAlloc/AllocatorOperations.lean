import MemAlloc.AllocatorInvariant

set_option autoImplicit false

namespace MemAlloc.SingleThreadAllocator

open ByteMemory (readWord writeWord SameOutside wordBytes)

/-- An arena request that fits: where the block starts and what the call changes. -/
structure ArenaServed (a : SingleThreadAllocator) (n alignment p : Nat)
    (a' : SingleThreadAllocator) : Prop where
  fits : a.arena.demand n alignment ≤ a.arena.capacity
  start : p = a.arena.base + a.arena.used + a.arena.padding alignment
  aligned : alignment ∣ p
  pools : a'.pools = a.pools
  base : a'.arena.base = a.arena.base
  capacity : a'.arena.capacity = a.arena.capacity
  used : a'.arena.used = a.arena.used + (a.arena.padding alignment + n)
  stats : a'.stats = a.stats.recordAlloc n (a.arena.padding alignment + n)

/-- What `allocate(n)` can do, in terms of the ledger. The first index is the body of the
chunk that was linked, if any. -/
inductive Granted (P : Platform) (recorded : Bool) (a : SingleThreadAllocator) (L : Ledger)
    (n : Nat) : Option Nat → Except Exn (Option Nat) → SingleThreadAllocator → Ledger → Prop
  | pool {i : SizeClass} {p head : Nat} {rest : List Nat} (small : n ≤ maxSmall)
      (cls : i = sizeClassOf n small) (stocked : L.free i = p :: rest) :
      Granted P recorded a L n none (.ok (some p))
        ((a.setPool i { a.pools i with head := head }).recordAlloc n i.bytes) (L.take i p rest)
  | refused {i : SizeClass} {x : Except Exn (Option Nat)} (small : n ≤ maxSmall)
      (cls : i = sizeClassOf n small) (empty : L.free i = [])
      (unanswered : ∀ p, x ≠ .ok (some p)) : Granted P recorded a L n none x a L
  | lost {i : SizeClass} {body : Nat} (unrecorded : recorded = false) (small : n ≤ maxSmall)
      (cls : i = sizeClassOf n small) (empty : L.free i = []) :
      Granted P recorded a L n (some body) (.error .badAlloc)
        (a.setPool i ((a.pools i).grown false (chunkSlab i body) body))
        (L.link i (chunkSlab i body))
  | refilled {i : SizeClass} {body head : Nat} {rest : List Nat} (grown : recorded = true)
      (small : n ≤ maxSmall) (cls : i = sizeClassOf n small) (empty : L.free i = [])
      (blocks : (chunkSlab i body).blocks i.bytes = body :: rest) :
      Granted P recorded a L n (some body) (.ok (some body))
        ((a.setPool i ((a.pools i).grown true (chunkSlab i body) head)).recordAlloc n i.bytes)
        ((L.link i (chunkSlab i body)).take i body rest)
  | arena {p : Nat} {a' : SingleThreadAllocator} (large : maxSmall < n)
      (served : ArenaServed a n P.maxAlign p a') :
      Granted P recorded a L n none (.ok (some p)) a' (L.bump ⟨p, n⟩)
  | arenaFull (large : maxSmall < n)
      (full : a.arena.capacity < a.arena.demand n P.maxAlign) :
      Granted P recorded a L n none (.ok none) a L

/-- Slabs and arena of the allocator are still where they were. -/
structure SameRegions (a a' : SingleThreadAllocator) : Prop where
  slab : ∀ i, (a'.pools i).slab = (a.pools i).slab
  raw : ∀ i, (a'.pools i).raw = (a.pools i).raw
  base : a'.arena.base = a.arena.base
  capacity : a'.arena.capacity = a.arena.capacity

theorem SameRegions.refl (a : SingleThreadAllocator) : SameRegions a a :=
  ⟨fun _ => rfl, fun _ => rfl, rfl, rfl⟩

theorem SameRegions.setPool {a : SingleThreadAllocator} {i : SizeClass} {pool : BlockPool}
    (slab : pool.slab = (a.pools i).slab) (raw : pool.raw = (a.pools i).raw) :
    SameRegions a (a.setPool i pool) := by
  refine ⟨?_, ?_, rfl, rfl⟩
  all_goals
    intro j
    by_cases same : j = i
    · subst same
      simp [SingleThreadAllocator.setPool, slab, raw]
    · simp [SingleThreadAllocator.setPool, same]

theorem SameRegions.recordAlloc {a a' : SingleThreadAllocator} (same : SameRegions a a')
    (req got : Nat) : SameRegions a (a'.recordAlloc req got) :=
  ⟨same.slab, same.raw, same.base, same.capacity⟩

theorem ArenaServed.regions {a a' : SingleThreadAllocator} {n alignment p : Nat}
    (served : ArenaServed a n alignment p a') : SameRegions a a' :=
  ⟨fun _ => by rw [served.pools], fun _ => by rw [served.pools], served.base, served.capacity⟩

theorem Granted.regions {P : Platform} {recorded : Bool} {a a' : SingleThreadAllocator}
    {L L' : Ledger} {n : Nat} {body : Option Nat} {x : Except Exn (Option Nat)}
    (granted : Granted P recorded a L n body x a' L') : SameRegions a a' := by
  cases granted with
  | pool small cls stocked =>
      refine SameRegions.recordAlloc ?_ _ _
      exact SameRegions.setPool rfl rfl
  | refused small cls empty unanswered => exact SameRegions.refl a
  | lost unrecorded small cls empty => exact SameRegions.setPool rfl rfl
  | refilled grown small cls empty blocks =>
      refine SameRegions.recordAlloc ?_ _ _
      exact SameRegions.setPool rfl rfl
  | arena large served => exact served.regions
  | arenaFull large full => exact SameRegions.refl a

/-- The only slab that a request links is its chunk's. -/
theorem Granted.linked {P : Platform} {recorded : Bool} {a a' : SingleThreadAllocator}
    {L L' : Ledger} {n : Nat} {body : Option Nat} {x : Except Exn (Option Nat)}
    (granted : Granted P recorded a L n body x a' L') (j : SizeClass) :
    L'.linked j = L.linked j ++
      (if n ≤ maxSmall ∧ sizeClassIndex n = j.val then body.toList.map (chunkSlab j)
        else []) := by
  have here : ∀ {i : SizeClass} (small : n ≤ maxSmall), i = sizeClassOf n small →
      (n ≤ maxSmall ∧ sizeClassIndex n = j.val ↔ j = i) := by
    rintro i small rfl
    exact ⟨fun both => Fin.ext both.2.symm, fun same => ⟨small, by rw [same]; rfl⟩⟩
  cases granted with
  | pool small cls stocked => simp [Ledger.take, Ledger.setPool]
  | refused small cls empty unanswered => simp
  | @lost i body unrecorded small cls empty =>
      simp only [Ledger.link, Ledger.setPool, here small cls, Option.toList_some]
      by_cases same : j = i
      · subst same
        simp
      · simp [same]
  | @refilled i body head rest grown small cls empty blocks =>
      simp only [Ledger.take, Ledger.link, Ledger.setPool, here small cls, Option.toList_some,
        Function.update_self, Function.update_idem, Function.update_eq_self]
      by_cases same : j = i
      · subst same
        simp
      · simp [same]
  | arena large served => simp [Ledger.bump]
  | arenaFull large full => simp

/-- Slab tables that are complete stay so when what is linked is recorded. -/
theorem Granted.recorded {P : Platform} {grows : Bool} {a a' : SingleThreadAllocator}
    {L L' : Ledger} {n : Nat} {body : Option Nat} {x : Except Exn (Option Nat)}
    (granted : Granted P grows a L n body x a' L')
    (complete : ∀ i, (a.pools i).slabs blocksPerSlab = L.linked i)
    (grown : grows = true ∨ body = none) (j : SizeClass) :
    (a'.pools j).slabs blocksPerSlab = L'.linked j := by
  have before := complete j
  cases granted with
  | @pool i p head rest small cls stocked =>
      by_cases same : j = i
      · subst same
        simpa [SingleThreadAllocator.recordAlloc, SingleThreadAllocator.setPool, Ledger.take,
          Ledger.setPool, BlockPool.slabs] using before
      · simpa [SingleThreadAllocator.recordAlloc, SingleThreadAllocator.setPool, Ledger.take,
          Ledger.setPool, same] using before
  | refused small cls empty unanswered => exact before
  | lost unrecorded small cls empty =>
      rcases grown with recorded | missing
      · rw [unrecorded] at recorded
        cases recorded
      · cases missing
  | @refilled i body head rest grew small cls empty blocks =>
      by_cases same : j = i
      · subst same
        simp only [SingleThreadAllocator.recordAlloc, SingleThreadAllocator.setPool, Ledger.take,
          Ledger.link, Ledger.setPool, Function.update_self, BlockPool.grown_slabs, before,
          ↓reduceIte]
      · simpa [SingleThreadAllocator.recordAlloc, SingleThreadAllocator.setPool, Ledger.take,
          Ledger.link, Ledger.setPool, same] using before
  | arena large served =>
      rw [served.pools]
      exact before
  | arenaFull large full => exact before

def answeredBody : Except Exn (Option Nat) → Option Nat
  | .ok b => b
  | .error _ => none

/-- The chunk body that a request obtains: only an exhausted pool asks for one. -/
def obtains {σ : Type} (a : SingleThreadAllocator) (source : ChunkSource σ) (n : Nat) (e : σ)
    (m : ByteMemory) : Option Nat :=
  if small : n ≤ maxSmall then
    if (a.pools (sizeClassOf n small)).head = 0 then
      answeredBody (source (sizeClassOf n small).bytes e m).1
    else none
  else none

theorem obtains_empty {σ : Type} {a : SingleThreadAllocator} {source : ChunkSource σ} {n : Nat}
    {e : σ} {m : ByteMemory} (small : n ≤ maxSmall)
    (empty : (a.pools (sizeClassOf n small)).head = 0) :
    a.obtains source n e m = answeredBody (source (sizeClassOf n small).bytes e m).1 := by
  rw [obtains, dif_pos small, if_pos empty]

theorem obtains_stocked {σ : Type} {a : SingleThreadAllocator} {source : ChunkSource σ} {n : Nat}
    {e : σ} {m : ByteMemory} (small : n ≤ maxSmall)
    (stocked : (a.pools (sizeClassOf n small)).head ≠ 0) : a.obtains source n e m = none := by
  rw [obtains, dif_pos small, if_neg stocked]

/-- What a chunk source owes the allocator: it writes only to `chunk`, and a body it hands
out is a fresh region inside it. -/
structure SoundReply {σ : Type} (a : SingleThreadAllocator) (linked : SizeClass → List Slab)
    (m : ByteMemory) (chunk : Span) (reply : Except Exn (Option Nat) × σ × ByteMemory) :
    Prop where
  fresh : Inv.FreshChunk a linked chunk
  frame : SameOutside m reply.2.2 [chunk]
  body : ∀ b, reply.1 = .ok (some b) → 0 < b ∧ (Span.mk b chunkBody).Inside chunk

namespace Inv

variable {m m' : ByteMemory} {a a' : SingleThreadAllocator} {L : Ledger}

theorem arenaAllocate_fits (inv : Inv m a L) {n alignment : Nat}
    (power : Words.PowerOfTwo alignment)
    (fits : a.arena.demand n alignment ≤ a.arena.capacity) :
    ∃ p a', a.arenaAllocate n alignment = (some p, a') ∧ ArenaServed a n alignment p a' := by
  have delta : Words.sub (a.arena.demand n alignment) a.arena.used =
      a.arena.padding alignment + n := by
    have room : a.arena.base + a.arena.capacity ≤ 9223372036854775808 := inv.arena.region
    have split := a.arena.demand_eq n alignment
    rw [Words.sub_of_le (by omega) (by simp only [Words.radix]; omega)]
    omega
  rw [arenaAllocate, Arena.allocate_fits inv.arena power fits]
  simp only [settleArena]
  refine ⟨_, _, rfl, fits, rfl, Words.padding_dvd power.positive, rfl, rfl, rfl,
    a.arena.demand_eq n alignment, ?_⟩
  simp only [SingleThreadAllocator.recordAlloc, delta]

theorem arenaAllocate_full (inv : Inv m a L) {n alignment : Nat} (word : n < Words.radix)
    (power : Words.PowerOfTwo alignment) (noWrap : a.arena.NoWrap n alignment)
    (full : a.arena.capacity < a.arena.demand n alignment) :
    a.arenaAllocate n alignment = (none, a) := by
  rw [arenaAllocate, Arena.allocate_refuses inv.arena word power noWrap full]
  rfl

theorem bump (inv : Inv m a L) {n alignment p : Nat}
    (served : ArenaServed a n alignment p a') : Inv m a' (L.bump ⟨p, n⟩) := by
  have used : a'.arena.used = a.arena.demand n alignment :=
    served.used.trans (a.arena.demand_eq n alignment).symm
  have within := served.fits
  have region : a'.arenaSpan = a.arenaSpan := by
    simp only [arenaSpan, served.base, served.capacity]
  refine ⟨?_, ?_, inv.apart, ⟨?_, ?_, ?_⟩, ?_, ?_⟩
  · rw [served.pools]
    exact inv.pools
  · rw [served.pools]
    exact inv.recorded
  · rw [served.base]
    exact inv.arena.positive
  · rw [served.base, served.capacity]
    exact inv.arena.region
  · rw [used, served.capacity]
    exact within
  · rw [region]
    exact inv.arenaApart
  · have pushed := inv.bumped.push (p := p) n (by rw [served.start]; omega)
      (by rw [served.start]; omega)
    rw [served.base, used]
    have limit : p + n = a.arena.base + a.arena.demand n alignment := by
      simp only [served.start, Arena.demand]
      omega
    exact limit ▸ pushed

/-- The slow path, once the free list is empty. -/
theorem refill {σ : Type} {source : ChunkSource σ} {n : Nat} {i : SizeClass} {e : σ}
    {chunk : Span} (inv : Inv m a L) (P : Platform) (recorded : Bool) (small : n ≤ maxSmall)
    (cls : i = sizeClassOf n small) (empty : L.free i = [])
    (sound : SoundReply a L.linked m chunk (source i.bytes e m)) :
    ∃ x a' m' L',
      a.refill source recorded n i e m = (x, a', (source i.bytes e m).2.1, m') ∧
      Granted P recorded a L n (answeredBody (source i.bytes e m).1) x a' L' ∧ Inv m' a' L' ∧
      SameOutside m m' [chunk] := by
  simp only [SingleThreadAllocator.refill]
  generalize source i.bytes e m = reply at sound ⊢
  obtain ⟨answer, e', m'⟩ := reply
  obtain ⟨fresh, frame, body⟩ := sound
  have kept : Inv m' a L := inv.outside frame (by
    intro t written j s member
    obtain rfl := List.mem_singleton.mp written
    exact fresh.slabs j s member)
  match answer, body with
  | .error x, _ =>
      exact ⟨_, _, _, L, rfl, .refused small cls empty (by intro p; simp), kept, frame⟩
  | .ok none, _ =>
      exact ⟨_, _, _, L, rfl, .refused small cls empty (by intro p; simp), kept, frame⟩
  | .ok (some b), body =>
      obtain ⟨positive, inside⟩ := body b rfl
      obtain ⟨m'', linked, linkedInv, touched⟩ :=
        kept.link (i := i) fresh positive inside recorded
      have whole := frame.trans touched
      cases recorded with
      | false =>
          refine ⟨.error .badAlloc, _, m'', _, ?_, .lost rfl small cls empty, linkedInv, whole⟩
          simp [linked]
      | true =>
          obtain ⟨k, size⟩ := Nat.exists_eq_succ_of_ne_zero (Nat.ne_of_gt (maxBlocks_positive i))
          have blocks : (chunkSlab i b).blocks i.bytes =
              b :: Slab.blocks i.bytes ⟨b + i.bytes, k⟩ := by
            rw [chunkSlab, size]
            exact Slab.blocks_succ i.bytes b k
          have stocked : (L.link i (chunkSlab i b)).free i =
              b :: Slab.blocks i.bytes ⟨b + i.bytes, k⟩ := by
            simp [Ledger.link, Ledger.setPool, empty, blocks]
          obtain ⟨head, popped, taken⟩ := linkedInv.take stocked
          have twice : (a.setPool i ((a.pools i).grown true (chunkSlab i b) b)).setPool i
              { (a.setPool i ((a.pools i).grown true (chunkSlab i b) b)).pools i with
                head := head } =
              a.setPool i ((a.pools i).grown true (chunkSlab i b) head) := by
            simp [SingleThreadAllocator.setPool, BlockPool.grown]
          rw [twice] at popped taken
          refine ⟨.ok (some b),
            (a.setPool i ((a.pools i).grown true (chunkSlab i b) head)).recordAlloc n i.bytes,
            m'', _, ?_, .refilled rfl small cls empty blocks, taken.recordAlloc n i.bytes, whole⟩
          simp [linked, popped]

/-- Every call of `allocate` does one of the things `Granted` lists, keeps the invariant
and writes to nothing but a fresh chunk. The chunk source is asked at most once. -/
theorem allocate {σ : Type} {source : ChunkSource σ} {P : Platform} {n : Nat}
    {e : σ} {chunk : Span} (inv : Inv m a L) (recorded : Bool)
    (power : Words.PowerOfTwo P.maxAlign) (word : n < Words.radix)
    (noWrap : maxSmall < n → a.arena.NoWrap n P.maxAlign)
    (sound : ∀ small : n ≤ maxSmall,
      SoundReply a L.linked m chunk (source (sizeClassOf n small).bytes e m)) :
    ∃ x a' e' m' L' body, a.allocate P source recorded n e m = (x, a', e', m') ∧
      Granted P recorded a L n body x a' L' ∧ Inv m' a' L' ∧ SameOutside m m' [chunk] ∧
      ((body = none ∧ e' = e ∧ m' = m) ∨ ∃ small : n ≤ maxSmall,
        body = answeredBody (source (sizeClassOf n small).bytes e m).1 ∧
          e' = (source (sizeClassOf n small).bytes e m).2.1) ∧
      body = a.obtains source n e m := by
  simp only [SingleThreadAllocator.allocate]
  by_cases small : n ≤ maxSmall
  · rw [dif_pos small]
    cases stock : L.free (sizeClassOf n small) with
    | nil =>
        simp only [inv.poolAllocate_empty stock]
        obtain ⟨x, a', m', L', run, granted, inv', frame⟩ :=
          inv.refill P recorded small rfl stock (sound small)
        exact ⟨x, a', _, m', L', _, run, granted, inv', frame, Or.inr ⟨small, rfl, rfl⟩,
          (obtains_empty small (inv.head_null.mpr stock)).symm⟩
    | cons p rest =>
        obtain ⟨head, popped, taken⟩ := inv.take stock
        simp only [popped]
        have stocked : (a.pools (sizeClassOf n small)).head ≠ 0 := by
          intro null
          rw [inv.head_null.mp null] at stock
          cases stock
        exact ⟨_, _, _, _, _, _, rfl, .pool small rfl stock, taken.recordAlloc _ _,
          SameOutside.refl m _, Or.inl ⟨rfl, rfl, rfl⟩, (obtains_stocked small stocked).symm⟩
  · rw [dif_neg small]
    have large : maxSmall < n := Nat.lt_of_not_le small
    have unasked : none = a.obtains source n e m := by rw [obtains, dif_neg small]
    by_cases fits : a.arena.demand n P.maxAlign ≤ a.arena.capacity
    · obtain ⟨p, a', served, effect⟩ := inv.arenaAllocate_fits power fits
      simp only [served]
      exact ⟨_, _, _, _, _, _, rfl, .arena large effect, inv.bump effect, SameOutside.refl m _,
        Or.inl ⟨rfl, rfl, rfl⟩, unasked⟩
    · have full := Nat.lt_of_not_le fits
      simp only [inv.arenaAllocate_full word power (noWrap large) full]
      exact ⟨_, _, _, _, _, _, rfl, .arenaFull large full, inv, SameOutside.refl m _,
        Or.inl ⟨rfl, rfl, rfl⟩, unasked⟩

/-- An address inside a block that is out lies in no slab of another class. -/
theorem class_unique (inv : Inv m a L) {i j : SizeClass} {x p : Nat} (out : x ∈ L.held i)
    (inside : (Span.mk x i.bytes).Holds p) {s : Slab}
    (member : s ∈ (a.pools j).slabs blocksPerSlab) (contains : (s.span j.bytes).Holds p) :
    i = j := by
  apply Classical.byContradiction
  intro different
  have separate := inv.block_apart (List.mem_append_right _ out) different (inv.recorded_mem member)
  exact separate.not_holds inside contains

theorem arena_unique (inv : Inv m a L) {j : SizeClass} {p : Nat} (inside : a.arenaSpan.Holds p)
    {s : Slab} (member : s ∈ (a.pools j).slabs blocksPerSlab) : ¬ (s.span j.bytes).Holds p :=
  (inv.arenaApart j s (inv.recorded_mem member)).symm.not_holds inside

theorem giveBack (inv : Inv m a L) {i : SizeClass} {p : Nat} (out : p ∈ L.held i) :
    Inv (writeWord m p (a.pools i).head)
        (a.setPool i { a.pools i with head := p }) (L.giveBack i p) := by
  have pushed := (inv.pools i).push i.wide out
  refine inv.setPool (SameOutside.writeWord m p _) ?_ pushed (inv.recorded i)
    (fun j different => inv.apart i j different) (inv.arenaApart i)
  intro t written j different s member
  obtain rfl := List.mem_singleton.mp written
  have word : (Span.mk p wordBytes).Inside ⟨p, i.bytes⟩ :=
    ⟨Nat.le_refl _, Nat.add_le_add_left i.wide p⟩
  exact (inv.block_apart (List.mem_append_right _ out) different member).mono word
    (Span.Inside.refl _)

theorem leak (inv : Inv m a L) {i : SizeClass} (p : Nat) : Inv m a (L.leak i p) := by
  have forgotten := (inv.pools i).leak (List.erase_sublist (a := p))
  have kept : Inv m (a.setPool i (a.pools i)) (L.leak i p) :=
    inv.setPool (SameOutside.refl m []) (by simp) forgotten (inv.recorded i)
      (fun j different => inv.apart i j different) (inv.arenaApart i)
  simpa [SingleThreadAllocator.setPool] using kept

theorem drop (inv : Inv m a L) (s : Span) : Inv m a (L.drop s) :=
  ⟨inv.pools, inv.recorded, inv.apart, inv.arena, inv.arenaApart,
    ⟨fun b member => inv.bumped.inside b (List.mem_of_mem_erase member),
      inv.bumped.ascending.sublist List.erase_sublist⟩⟩

end Inv

/-- The allocator after a pool has taken a block of class `i` back. -/
def afterFree (a : SingleThreadAllocator) (n : Nat) (i : SizeClass) (x : Nat) :
    SingleThreadAllocator :=
  (a.recordFree n i.bytes).setPool i { a.pools i with head := x }

/-- What releasing the block `x` of class `i` with size `n` can do. -/
inductive Released (a : SingleThreadAllocator) (L : Ledger) (n : Nat) (i : SizeClass) (x : Nat) :
    SingleThreadAllocator → Ledger → Prop
  | pool (small : n ≤ maxSmall) (cls : i = sizeClassOf n small) :
      Released a L n i x (a.afterFree n i x) (L.giveBack i x)
  | ignored (large : maxSmall < n) : Released a L n i x a (L.leak i x)

theorem Released.regions {a a' : SingleThreadAllocator} {L L' : Ledger} {n x : Nat}
    {i : SizeClass} (released : Released a L n i x a' L') : SameRegions a a' := by
  cases released with
  | pool small cls =>
      have moved : SameRegions (a.recordFree n i.bytes) (a.afterFree n i x) :=
        SameRegions.setPool rfl rfl
      exact ⟨moved.slab, moved.raw, moved.base, moved.capacity⟩
  | ignored large => exact SameRegions.refl a

theorem Released.linked {a a' : SingleThreadAllocator} {L L' : Ledger} {n x : Nat}
    {i : SizeClass} (released : Released a L n i x a' L') : L'.linked = L.linked := by
  cases released with
  | pool small cls => simp [Ledger.giveBack, Ledger.setPool]
  | ignored large => simp [Ledger.leak, Ledger.setPool]

theorem Released.held {a a' : SingleThreadAllocator} {L L' : Ledger} {n x : Nat}
    {i : SizeClass} (released : Released a L n i x a' L') :
    L'.held = Function.update L.held i ((L.held i).erase x) ∧ L'.bumped = L.bumped := by
  cases released with
  | pool small cls => exact ⟨rfl, rfl⟩
  | ignored large => exact ⟨rfl, rfl⟩

/-- A `deallocate` that returns was a large one or passed the assertions of the pool. -/
theorem of_deallocate {m m' : ByteMemory} {a a' : SingleThreadAllocator} {p n : Nat}
    (done : a.deallocate m p n = .ok (a', m')) :
    (maxSmall < n ∧ a' = a ∧ m' = m) ∨
      ∃ i, (∃ small : n ≤ maxSmall, i = sizeClassOf n small) ∧
        p ∈ blocksOf i.bytes ((a.pools i).slabs blocksPerSlab) ∧
        a' = a.afterFree n i p ∧ m' = writeWord m p (a.pools i).head := by
  rw [deallocate] at done
  split at done
  · rename_i small
    simp only [poolDeallocate] at done
    split at done
    · cases done
    · rename_i pool m'' accepted
      cases done
      obtain ⟨block, rfl, rfl⟩ :=
        BlockPool.of_deallocate_ok (sizeClassOf n small).bytes_positive accepted
      exact Or.inr ⟨_, ⟨small, rfl⟩, block, rfl, rfl⟩
  · rename_i large
    cases done
    exact Or.inl ⟨Nat.lt_of_not_le large, rfl, rfl⟩

theorem of_deallocateContaining {m m' : ByteMemory} {a a' : SingleThreadAllocator} {p n : Nat}
    (done : a.deallocateContaining m p n = .ok (a', m')) :
    (maxSmall < n ∧ a' = a ∧ m' = m) ∨
      ∃ i, (∃ small : n ≤ maxSmall, i = sizeClassOf n small) ∧
        ∃ s ∈ (a.pools i).slabs blocksPerSlab, (s.span i.bytes).Holds p ∧
          s.blockOf i.bytes p ∈ blocksOf i.bytes ((a.pools i).slabs blocksPerSlab) ∧
          a' = a.afterFree n i (s.blockOf i.bytes p) ∧
          m' = writeWord m (s.blockOf i.bytes p) (a.pools i).head := by
  rw [deallocateContaining] at done
  split at done
  · rename_i small
    simp only [poolDeallocateContaining, BlockPool.deallocateContaining] at done
    split at done
    · cases done
    · rename_i pool m'' accepted
      cases done
      split at accepted
      · cases accepted
      · rename_i s found
        obtain ⟨block, rfl, rfl⟩ :=
          BlockPool.of_deallocate_ok (sizeClassOf n small).bytes_positive accepted
        have hit := List.find?_some found
        exact Or.inr ⟨_, ⟨small, rfl⟩, s, List.mem_of_find?_eq_some found,
          Slab.contains_iff.mp hit, block, rfl, rfl⟩
  · rename_i large
    cases done
    exact Or.inl ⟨Nat.lt_of_not_le large, rfl, rfl⟩

namespace Inv

variable {m m' : ByteMemory} {a a' : SingleThreadAllocator} {L : Ledger} {i : SizeClass}

theorem afterFree (inv : Inv m a L) {x : Nat} (n : Nat) (out : x ∈ L.held i) :
    Inv (writeWord m x (a.pools i).head) (a.afterFree n i x) (L.giveBack i x) :=
  (inv.recordFree n i.bytes).giveBack out

theorem deallocate (inv : Inv m a L) {x n : Nat} (out : x ∈ L.held i)
    (done : a.deallocate m x n = .ok (a', m')) :
    ∃ L', Released a L n i x a' L' ∧ Inv m' a' L' ∧ SameOutside m m' [⟨x, i.bytes⟩] := by
  rcases of_deallocate done with ⟨large, rfl, rfl⟩ | ⟨j, ⟨small, cls⟩, block, rfl, rfl⟩
  · exact ⟨_, .ignored large, inv.leak x, SameOutside.refl _ _⟩
  · obtain ⟨s, member, start⟩ := mem_blocksOf.mp block
    have contains := (Slab.block_inside start).holds
      (Span.Holds.base (s := ⟨x, j.bytes⟩) j.bytes_positive)
    obtain rfl := inv.class_unique out (Span.Holds.base i.bytes_positive) member contains
    refine ⟨_, .pool small cls, inv.afterFree n out, (SameOutside.writeWord m x _).mono ?_⟩
    intro t written
    obtain rfl := List.mem_singleton.mp written
    exact ⟨_, List.mem_cons_self, Nat.le_refl _, Nat.add_le_add_left i.wide x⟩

/-- Releasing a block by any address inside it. -/
theorem deallocateContaining (inv : Inv m a L) {x p n : Nat} (out : x ∈ L.held i)
    (inside : (Span.mk x i.bytes).Holds p)
    (done : a.deallocateContaining m p n = .ok (a', m')) :
    ∃ L', Released a L n i x a' L' ∧ Inv m' a' L' ∧ SameOutside m m' [⟨x, i.bytes⟩] := by
  rcases of_deallocateContaining done with
    ⟨large, rfl, rfl⟩ | ⟨j, ⟨small, cls⟩, s, member, contains, block, rfl, rfl⟩
  · exact ⟨_, .ignored large, inv.leak x, SameOutside.refl _ _⟩
  · obtain rfl := inv.class_unique out inside member contains
    obtain ⟨t, linked, start⟩ := inv.mem_linked (List.mem_append_right _ out)
    have same : s = t := by
      apply Classical.byContradiction
      intro different
      have separate := (inv.pools i).apart.apart (inv.recorded_mem member) linked different
      exact separate.not_holds contains ((Slab.block_inside start).holds inside)
    subst same
    rw [Slab.blockOf_eq start inside]
    refine ⟨_, .pool small cls, inv.afterFree n out, (SameOutside.writeWord m x _).mono ?_⟩
    intro t written
    obtain rfl := List.mem_singleton.mp written
    exact ⟨_, List.mem_cons_self, Nat.le_refl _, Nat.add_le_add_left i.wide x⟩

/-- Releasing an arena block is ignored, whatever address inside it is passed. -/
theorem deallocate_arena (inv : Inv m a L) {p n : Nat} (inside : a.arenaSpan.Holds p)
    (done : a.deallocate m p n = .ok (a', m')) : maxSmall < n ∧ a' = a ∧ m' = m := by
  rcases of_deallocate done with ignored | ⟨j, _, block, _, _⟩
  · exact ignored
  · obtain ⟨s, member, start⟩ := mem_blocksOf.mp block
    have contains := (Slab.block_inside start).holds
      (Span.Holds.base (s := ⟨p, j.bytes⟩) j.bytes_positive)
    exact absurd contains (inv.arena_unique inside member)

theorem deallocateContaining_arena (inv : Inv m a L) {p n : Nat} (inside : a.arenaSpan.Holds p)
    (done : a.deallocateContaining m p n = .ok (a', m')) :
    maxSmall < n ∧ a' = a ∧ m' = m := by
  rcases of_deallocateContaining done with ignored | ⟨j, _, s, member, contains, _⟩
  · exact ignored
  · exact absurd contains (inv.arena_unique inside member)

end Inv

/-- The two ways to free: by the block's start, or by any address inside it. -/
inductive FreeForm where
  | start
  | containing
deriving DecidableEq, Repr

namespace FreeForm

def call : FreeForm → SingleThreadAllocator → ByteMemory → Nat → Nat →
    Except Exn (SingleThreadAllocator × ByteMemory)
  | .start => deallocate
  | .containing => deallocateContaining

/-- The address `p` stands for the block `s` in such a call. -/
def Names (form : FreeForm) (s : Span) (p : Nat) : Prop :=
  match form with
  | .start => p = s.base
  | .containing => s.Holds p

theorem Names.holds {form : FreeForm} {s : Span} {p : Nat} (names : form.Names s p)
    (nonempty : 0 < s.size) : s.Holds p := by
  cases form with
  | start =>
      rw [show p = s.base from names]
      exact Span.Holds.base nonempty
  | containing => exact names

theorem call_large (form : FreeForm) (a : SingleThreadAllocator) (m : ByteMemory) {p n : Nat}
    (large : maxSmall < n) : form.call a m p n = .ok (a, m) := by
  cases form with
  | start => exact dif_neg (Nat.not_le.mpr large)
  | containing => exact dif_neg (Nat.not_le.mpr large)

end FreeForm

namespace Inv

variable {m m' : ByteMemory} {a a' : SingleThreadAllocator} {L : Ledger} {i : SizeClass}

theorem free (inv : Inv m a L) {form : FreeForm} {x p n : Nat} (out : x ∈ L.held i)
    (names : form.Names ⟨x, i.bytes⟩ p) (done : form.call a m p n = .ok (a', m')) :
    ∃ L', Released a L n i x a' L' ∧ Inv m' a' L' ∧ SameOutside m m' [⟨x, i.bytes⟩] := by
  cases form with
  | start =>
      obtain rfl : p = x := names
      exact inv.deallocate out done
  | containing => exact inv.deallocateContaining out names done

theorem free_arena (inv : Inv m a L) {form : FreeForm} {p n : Nat}
    (inside : a.arenaSpan.Holds p) (done : form.call a m p n = .ok (a', m')) :
    maxSmall < n ∧ a' = a ∧ m' = m := by
  cases form with
  | start => exact inv.deallocate_arena inside done
  | containing => exact inv.deallocateContaining_arena inside done

/-- A recorded block that is out is accepted back with any size of its class. -/
theorem deallocate_accepts (inv : Inv m a L) {x n : Nat} (out : x ∈ L.held i)
    (block : x ∈ blocksOf i.bytes ((a.pools i).slabs blocksPerSlab)) (small : n ≤ maxSmall)
    (cls : i = sizeClassOf n small) :
    a.deallocate m x n = .ok (a.afterFree n i x, writeWord m x (a.pools i).head) := by
  subst cls
  have nonnull := Nat.ne_of_gt ((inv.pools _).block_bounds (List.mem_append_right _ out)).1
  have accepted := BlockPool.deallocate_ok (m := m) (SizeClass.bytes_positive _) nonnull block
  simp only [SingleThreadAllocator.deallocate, small, ↓reduceDIte, poolDeallocate,
    SingleThreadAllocator.recordFree, accepted]
  rfl

theorem deallocateContaining_accepts (inv : Inv m a L) {x p n : Nat} (out : x ∈ L.held i)
    (block : x ∈ blocksOf i.bytes ((a.pools i).slabs blocksPerSlab))
    (inside : (Span.mk x i.bytes).Holds p) (small : n ≤ maxSmall) (cls : i = sizeClassOf n small) :
    a.deallocateContaining m p n =
      .ok (a.afterFree n i x, writeWord m x (a.pools i).head) := by
  rw [← inv.deallocate_accepts out block small cls]
  obtain ⟨s, member, start⟩ := mem_blocksOf.mp block
  have same := BlockPool.deallocateContaining_eq (m := m) inv.recorded_apart member start inside
  subst cls
  simp only [SingleThreadAllocator.deallocateContaining, SingleThreadAllocator.deallocate, small,
    ↓reduceDIte, poolDeallocateContaining, poolDeallocate, recordFree_pools, same]

end Inv

/-- A stocked pool serves a request from its free list. -/
theorem allocate_stocked {σ : Type} {P : Platform} {a : SingleThreadAllocator} {m : ByteMemory}
    {n p : Nat} (source : ChunkSource σ) (recorded : Bool) (e : σ) (small : n ≤ maxSmall)
    (head : (a.pools (sizeClassOf n small)).head = p) (nonnull : p ≠ 0) :
    a.allocate P source recorded n e m = (.ok (some p),
      (a.setPool (sizeClassOf n small) { a.pools (sizeClassOf n small) with
        head := readWord m p }).recordAlloc n (sizeClassOf n small).bytes, e, m) := by
  have popped : (a.pools (sizeClassOf n small)).allocate m =
      (some p, { a.pools (sizeClassOf n small) with head := readWord m p }) := by
    rw [BlockPool.allocate_head (by rw [head]; exact nonnull), head]
  rw [allocate, dif_pos small]
  simp only [poolAllocate, popped]

/-- A block of the pool goes back. -/
theorem deallocate_owned {a : SingleThreadAllocator} {m : ByteMemory} {p n : Nat}
    (small : n ≤ maxSmall) (nonnull : p ≠ 0) (owned : (a.pools (sizeClassOf n small)).ownsBlock
      (sizeClassOf n small).bytes blocksPerSlab p = true) :
    ∃ a' m', a.deallocate m p n = .ok (a', m') := by
  have pooled : ∃ pool m', (a.pools (sizeClassOf n small)).deallocate
      (sizeClassOf n small).bytes blocksPerSlab m p = .ok (pool, m') := by
    rw [BlockPool.deallocate, if_pos ⟨nonnull, owned⟩]
    exact ⟨_, _, rfl⟩
  obtain ⟨pool, m', pooled⟩ := pooled
  simp only [deallocate, dif_pos small, poolDeallocate, recordFree_pools, pooled]
  exact ⟨_, _, rfl⟩

end MemAlloc.SingleThreadAllocator
