import MemAlloc.Lib.Programs
import MemAlloc.Schedules
import MemAlloc.UndisturbedRuns

set_option autoImplicit false

/- What a thread can tell of its own allocator while other threads run, and programs that are
written against it. -/
namespace MemAlloc

open Malloc (Heap addressLimit)
open Programs (Program Interface Crew)
open AllocatorRuns (Whole)
open SingleThreadAllocator (FreeForm Granted Released ArenaPlaced chunkSlab kArenaPointer)

namespace SingleThreadAllocator

variable {σ : Type} {P : Platform} {source : ChunkSource σ} {recorded : Bool}
  {a : SingleThreadAllocator} {n : Nat} {e : σ} {m : ByteMemory}

/-- A pool that has just linked a chunk is not exhausted. -/
theorem refill_nonnull {i : SizeClass}
    (answers : ∀ bytes e m, (source bytes e m).1 = .error .badAlloc ∨
      ∃ body, (source bytes e m).1 = .ok (some body) ∧ 0 < body) :
    (a.refill source recorded n i e m).1 ≠ .ok none := by
  have answer := answers i.bytes e m
  rw [refill]
  split
  · simp
  · rename_i asked
    rw [asked] at answer
    rcases answer with bad | ⟨body, impossible, _⟩
    · cases bad
    · cases impossible
  · rename_i chunk e' m' asked
    rw [asked] at answer
    have positive : 0 < chunk := by
      rcases answer with bad | ⟨body, same, positive⟩
      · cases bad
      · cases same
        exact positive
    split
    · simp
    · rename_i a' m'' linked
      have head : (a'.pools i).head = chunk := by
        simp only [poolAddExternalSlab, BlockPool.addExternalSlab,
          if_pos (chunk_accepted i positive)] at linked
        cases recorded with
        | false => cases linked
        | true =>
            cases linked
            simp [SingleThreadAllocator.setPool]
      have popped : (a'.poolAllocate i m'').1 = some chunk := by
        rw [poolAllocate, BlockPool.allocate_head (by omega), head]
      split
      · rename_i missed
        rw [missed] at popped
        cases popped
      · simp

end SingleThreadAllocator

/-- A request for a pool block is answered with a block, or throws. -/
theorem ThreadPoolAlloc.allocate_nonnull {σ : Type} {P : Platform} {source : ChunkSource σ}
    {recorded : Bool} {pool pool' : ThreadPoolAlloc} {n : Nat} {e e' : σ} {m m' : ByteMemory}
    {x : Except Exn (Option Nat)} (small : n ≤ maxSmall)
    (answers : ∀ bytes e m, (source bytes e m).1 = .error .badAlloc ∨
      ∃ body, (source bytes e m).1 = .ok (some body) ∧ 0 < body)
    (done : pool.allocate P source recorded n e m = (x, pool', e', m')) : x ≠ .ok none := by
  have served : x = (pool.alloc.allocate P source recorded n e m).1 := by
    have first := congrArg Prod.fst done
    exact first.symm
  rw [served, SingleThreadAllocator.allocate, dif_pos small]
  dsimp only
  split
  · simp
  · exact SingleThreadAllocator.refill_nonnull answers

/-- An allocator as its thread knows it: which blocks are free and which are out, how much of the
arena is used, and the counters. -/
structure View where
  ledger : Ledger
  arenaUsed : Nat
  stats : Stats

/-- What a thread knows: that it has no allocator yet, what its allocator is, or that a failed
refill left it in disorder. -/
inductive Knowledge where
  | unborn
  | live (v : View)
  | broken

/-- A call on the thread's own allocator, a byte written by the program, or the storage of one of
its containers, which comes from the C heap. -/
inductive AllocatorCall where
  | allocatorInstance
  | allocate (n : Nat)
  | free (form : FreeForm) (p n : Nat)
  | classify (p : Nat)
  | stats
  | write (a : Nat) (b : UInt8)
  | reserve (bytes : Nat)
  | release (p : Nat)

abbrev AllocatorCall.Answer : AllocatorCall → Type
  | .allocatorInstance => Except Exn Unit
  | .allocate _ => Except Exn (Option Nat)
  | .free _ _ _ => Unit
  | .classify _ => Nat
  | .stats => Stats
  | .write _ _ => Unit
  | .reserve _ => Except Exn Nat
  | .release _ => Unit

namespace View

/-- A new allocator whose slabs start at the given addresses. -/
def new (slab : SizeClass → Nat) : View where
  ledger := ⟨fun i => (Slab.mk (slab i) blocksPerSlab).blocks i.bytes, fun _ => [],
    fun i => [⟨slab i, blocksPerSlab⟩], []⟩
  arenaUsed := 0
  stats := Stats.zero

/-- The first free block goes out for a request of `n` bytes. -/
def take (v : View) (i : SizeClass) (n p : Nat) (rest : List Nat) : View :=
  { v with ledger := v.ledger.take i p rest
           stats := v.stats.recordAlloc n i.bytes }

def link (v : View) (i : SizeClass) (body : Nat) : View :=
  { v with ledger := v.ledger.link i (chunkSlab i body) }

def giveBack (v : View) (i : SizeClass) (n x : Nat) : View :=
  { v with ledger := v.ledger.giveBack i x
           stats := v.stats.recordFree n i.bytes }

/-- What an arena request for `n` bytes moves the cursor by. -/
def arenaBytes (P : Platform) (v : View) (n : Nat) : Nat :=
  Words.padding v.arenaUsed P.maxAlign + n

def bump (P : Platform) (v : View) (n p : Nat) : View :=
  { v with ledger := v.ledger.bump ⟨p, n⟩
           arenaUsed := v.arenaUsed + v.arenaBytes P n
           stats := v.stats.recordAlloc n (v.arenaBytes P n) }

def drop (v : View) (b : Span) : View := { v with ledger := v.ledger.drop b }

/-- A block is taken and given back at once: only the counters tell. -/
def cycle (v : View) (i : SizeClass) (n : Nat) : View :=
  { v with stats := (v.stats.recordAlloc n i.bytes).recordFree n i.bytes }

theorem giveBack_take {v : View} {i : SizeClass} {n p : Nat} {rest : List Nat}
    (stocked : v.ledger.free i = p :: rest) :
    (v.take i n p rest).giveBack i n p = v.cycle i n := by
  have ledger : (v.ledger.take i p rest).giveBack i p = v.ledger := by
    simp [Ledger.take, Ledger.giveBack, Ledger.setPool, ← stocked]
  simp [take, giveBack, cycle, ledger]

theorem link_stocked {v : View} {i : SizeClass} {body : Nat} {rest : List Nat}
    (empty : v.ledger.free i = []) (blocks : (chunkSlab i body).blocks i.bytes = body :: rest) :
    (v.link i body).ledger.free i = body :: rest := by
  simp [link, Ledger.link, Ledger.setPool, empty, blocks]

/-- How a request of `n` bytes can be answered, and what the thread knows then. -/
inductive Allocates (P : Platform) (v : View) (n : Nat) :
    Except Exn (Option Nat) → Knowledge → Prop
  | pool {p : Nat} {rest : List Nat} (small : n ≤ maxSmall)
      (stocked : v.ledger.free (sizeClassOf n small) = p :: rest) :
      Allocates P v n (.ok (some p)) (.live (v.take (sizeClassOf n small) n p rest))
  | refilled {body : Nat} {rest : List Nat} (small : n ≤ maxSmall)
      (empty : v.ledger.free (sizeClassOf n small) = [])
      (blocks : (chunkSlab (sizeClassOf n small) body).blocks (sizeClassOf n small).bytes =
        body :: rest) :
      Allocates P v n (.ok (some body))
        (.live ((v.link (sizeClassOf n small) body).take (sizeClassOf n small) n body rest))
  | refused {x : Exn} (small : n ≤ maxSmall)
      (empty : v.ledger.free (sizeClassOf n small) = []) : Allocates P v n (.error x) (.live v)
  | lost (small : n ≤ maxSmall) (empty : v.ledger.free (sizeClassOf n small) = []) :
      Allocates P v n (.error .badAlloc) .broken
  | arena {p : Nat} (large : maxSmall < n)
      (fits : v.arenaUsed + v.arenaBytes P n ≤ kArenaCapacity) :
      Allocates P v n (.ok (some p)) (.live (v.bump P n p))
  | arenaFull (large : maxSmall < n)
      (full : kArenaCapacity < v.arenaUsed + v.arenaBytes P n) :
      Allocates P v n (.ok none) (.live v)

/-- The block is out, and is given back by a pointer and a size that fit it. -/
inductive Frees (v : View) (form : FreeForm) (p n : Nat) : View → Prop
  | pool {x : Nat} (small : n ≤ maxSmall) (out : x ∈ v.ledger.held (sizeClassOf n small))
      (names : form.Names ⟨x, (sizeClassOf n small).bytes⟩ p) :
      Frees v form p n (v.giveBack (sizeClassOf n small) n x)
  | arena {b : Span} (large : maxSmall < n) (out : b ∈ v.ledger.bumped)
      (names : form.Names b p) : Frees v form p n (v.drop b)

/-- The address is one of a block that is out, with the answer of `classify` for it. -/
inductive Classifies (v : View) (p : Nat) : Nat → Prop
  | pool {i : SizeClass} {x : Nat} (out : x ∈ v.ledger.held i)
      (inside : (Span.mk x i.bytes).Holds p) : Classifies v p i.bytes
  | arena {b : Span} (out : b ∈ v.ledger.bumped) (inside : b.Holds p) :
      Classifies v p kArenaPointer

end View

namespace AllocatorCall

/-- The contract of the calls: one thread's own blocks, given back with their sizes. -/
inductive Allowed (P : Platform) : AllocatorCall → Knowledge → Prop
  | first : Allowed P .allocatorInstance .unborn
  | again {v : View} : Allowed P .allocatorInstance (.live v)
  | allocate {v : View} {n : Nat} (bounded : n + P.maxAlign ≤ addressLimit) :
      Allowed P (.allocate n) (.live v)
  | free {v v' : View} {form : FreeForm} {p n : Nat} (frees : v.Frees form p n v') :
      Allowed P (.free form p n) (.live v)
  | classify {v : View} {p cls : Nat} (classifies : v.Classifies p cls) :
      Allowed P (.classify p) (.live v)
  | stats {v : View} : Allowed P .stats (.live v)
  | write {v : View} {a cls : Nat} {b : UInt8} (inside : v.Classifies a cls) :
      Allowed P (.write a b) (.live v)
  | reserve {v : View} {bytes : Nat} : Allowed P (.reserve bytes) (.live v)
  | release {v : View} {p : Nat} : Allowed P (.release p) (.live v)

/-- What the calls do, as far as their thread can tell. -/
inductive Tells (P : Platform) :
    (c : AllocatorCall) → Knowledge → c.Answer → Knowledge → Prop
  | built (slab : SizeClass → Nat) :
      Tells P .allocatorInstance .unborn (.ok ()) (.live (View.new slab))
  | failed {x : Exn} : Tells P .allocatorInstance .unborn (.error x) .unborn
  | again {v : View} : Tells P .allocatorInstance (.live v) (.ok ()) (.live v)
  | allocate {v : View} {n : Nat} {x : Except Exn (Option Nat)} {k : Knowledge}
      (allocates : v.Allocates P n x k) : Tells P (.allocate n) (.live v) x k
  | free {v v' : View} {form : FreeForm} {p n : Nat} (frees : v.Frees form p n v')
      (only : ∀ w, v.Frees form p n w → w = v') :
      Tells P (.free form p n) (.live v) () (.live v')
  | classify {v : View} {p cls : Nat} (only : ∀ other, v.Classifies p other → other = cls) :
      Tells P (.classify p) (.live v) cls (.live v)
  | stats {v : View} : Tells P .stats (.live v) v.stats (.live v)
  | write {v : View} {a : Nat} {b : UInt8} : Tells P (.write a b) (.live v) () (.live v)
  | reserved {v : View} {bytes p : Nat} : Tells P (.reserve bytes) (.live v) (.ok p) (.live v)
  | unreserved {v : View} {bytes : Nat} :
      Tells P (.reserve bytes) (.live v) (.error .badAlloc) (.live v)
  | released {v : View} {p : Nat} : Tells P (.release p) (.live v) () (.live v)

def interface (P : Platform) : Interface Answer Knowledge := ⟨Allowed P, Tells P⟩

/-- The call made by thread `t`. -/
inductive Does (P : Platform) (t : Nat) : (c : AllocatorCall) → Sys → c.Answer → Sys → Prop
  | built {s : Sys} {pool : ThreadPoolAlloc} {client : Client}
      (live : s.threads t = .live pool client) : Does P t .allocatorInstance s (.ok ()) s
  | construct {s s' : Sys} {x : Except Exn Unit} (taken : Sys.Step P s (.start t x) s') :
      Does P t .allocatorInstance s x s'
  | allocate {s s' : Sys} {n : Nat} {x : Except Exn (Option Nat)}
      (taken : Sys.Step P s (.allocate t n x) s') : Does P t (.allocate n) s x s'
  | free {s s' : Sys} {form : FreeForm} {p n : Nat}
      (taken : Sys.Step P s (.free t form p n) s') : Does P t (.free form p n) s () s'
  | classify {s : Sys} {p : Nat} {pool : ThreadPoolAlloc} {client : Client}
      (live : s.threads t = .live pool client) : Does P t (.classify p) s (pool.classify p) s
  | stats {s : Sys} {pool : ThreadPoolAlloc} {client : Client}
      (live : s.threads t = .live pool client) : Does P t .stats s pool.alloc.stats s
  | write {s s' : Sys} {a : Nat} {b : UInt8} (taken : Sys.Step P s (.write a b) s') :
      Does P t (.write a b) s () s'
  | reserve {s s' : Sys} {bytes p : Nat}
      (taken : Sys.Step P s (.malloc .program bytes (some p)) s') :
      Does P t (.reserve bytes) s (.ok p) s'
  | reserveFails {s s' : Sys} {bytes : Nat}
      (taken : Sys.Step P s (.malloc .program bytes none) s') :
      Does P t (.reserve bytes) s (.error .badAlloc) s'
  | release {s s' : Sys} {p : Nat} (taken : Sys.Step P s (.mfree p) s') :
      Does P t (.release p) s () s'
  -- the steps around the thread may free any memory of the program, also this
  | released {s : Sys} {p : Nat}
      (gone : ∀ b ∈ s.shared.heap.blocks, ∀ use, b.owner = .outside use → b.span.base ≠ p) :
      Does P t (.release p) s () s

/-- Everything else that may happen: calls of the threads that run no program, and the other uses
of memory. -/
inductive Around (P : Platform) (busy : Nat → Prop) (s s' : Sys) : Prop
  | step {e : Sys.Event} (taken : Sys.Step P s e s') (bounded : e.Bounded P)
      (stranger : ∀ t, busy t → e.thread ≠ some t)

end AllocatorCall

/-- The view describes the allocator of a live thread. -/
structure View.Of (P : Platform) (v : View) (s : Sys) (t : Nat) (pool : ThreadPoolAlloc)
    (client : Client) : Prop where
  live : s.threads t = .live pool client
  thread : ThreadInv s.mem s.shared t pool.alloc client v.ledger.free
  ledger : client.ledger v.ledger.free (s.shared.linkedBy t pool.alloc) = v.ledger
  whole : Whole v.ledger
  tabled : Tabled pool.alloc v.ledger
  placed : ArenaPlaced P pool.alloc
  used : pool.alloc.arena.used = v.arenaUsed
  stats : pool.alloc.stats = v.stats

/-- The thread's knowledge is right. -/
inductive Sees (P : Platform) (s : Sys) (t : Nat) : Knowledge → Prop
  | unborn (unborn : s.threads t = .unborn) : Sees P s t .unborn
  | live {v : View} {pool : ThreadPoolAlloc} {client : Client} (view : v.Of P s t pool client) :
      Sees P s t (.live v)
  | broken : Sees P s t .broken

namespace View.Of

variable {P : Platform} {v : View} {s s' : Sys} {t n p : Nat} {pool : ThreadPoolAlloc}
  {client : Client}

theorem held (view : v.Of P s t pool client) : v.ledger.held = client.held := by
  rw [← view.ledger]
  rfl

theorem bumped (view : v.Of P s t pool client) : v.ledger.bumped = client.bumped := by
  rw [← view.ledger]
  rfl

theorem linked (view : v.Of P s t pool client) :
    v.ledger.linked = s.shared.linkedBy t pool.alloc := by
  rw [← view.ledger]
  rfl

theorem spares (view : v.Of P s t pool client) (spares : s.Spares s' t) :
    v.Of P s' t pool client := by
  refine ⟨spares.threads.trans view.live,
    spares.thread pool client v.ledger.free view.live view.thread, ?_, view.whole, view.tabled,
    view.placed, view.used, view.stats⟩
  rw [spares.linked]
  exact view.ledger

theorem arenaBytes (view : v.Of P s t pool client) (aligns : P.Aligns) (n : Nat) :
    pool.alloc.arena.padding P.maxAlign + n = v.arenaBytes P n ∧
      pool.alloc.arena.demand n P.maxAlign = v.arenaUsed + v.arenaBytes P n := by
  have gap : pool.alloc.arena.padding P.maxAlign = Words.padding v.arenaUsed P.maxAlign := by
    rw [← view.used]
    exact Words.padding_add (aligns.malloc.trans view.placed.2)
  refine ⟨congrArg (· + n) gap, ?_⟩
  rw [Arena.demand_eq, gap, view.used]
  rfl

theorem new {reply : SizeClass → SlabReply} {arenaReply : Option Nat} {a : SingleThreadAllocator}
    {m' : ByteMemory} {h' : Heap Owner} (inv : SysInv s) (unborn : s.threads t = .unborn)
    (done : SingleThreadAllocator.new P (.slab t) (.arena t) reply arenaReply s.shared.heap
      s.mem = (.ok (a, m'), h')) {id next : Nat} :
    (View.new fun i => (a.pools i).slab).Of P
      { (s.setHeap h').setThread t (.live ⟨a, 0, 0, id⟩ Client.none) with
        mem := m'
        nextThreadId := next } t ⟨a, 0, 0, id⟩ Client.none := by
  have different : Function.Injective (Owner.slab t) := fun i j same => (Owner.slab.inj same).2
  have apart : ∀ i, Owner.slab t i ≠ .arena t := fun i same => by cases same
  obtain ⟨_, _, stats, used, external, _⟩ := SingleThreadAllocator.new_ok different apart done
  obtain ⟨thread, linked, _⟩ := ThreadInv.new (inv.unborn t unborn) done
  have placed := (arenaPlaced_lasting P).new done
  refine ⟨Sys.setThread_same _ t _, thread, ?_, ?_, Tabled.new external, placed, used, stats⟩
  · exact Client.ledger_eq rfl linked.symm rfl
  · intro i
    simp [View.new, blocksOf]

/-- A request is answered as the view says. -/
theorem allocate {x : Except Exn (Option Nat)} (view : v.Of P s t pool client) (inv : SysInv s)
    (aligns : P.Aligns) (bounded : n + P.maxAlign ≤ addressLimit)
    (taken : Sys.Step P s (.allocate t n x) s') :
    ∃ k, v.Allocates P n x k ∧ Sees P s' t k := by
  have within : (Sys.Event.allocate t n x).Bounded P := bounded
  have sums := inv.noWrap aligns.power within taken
  cases taken with
  | @allocate _ _ pool₀ pool' client₀ reply chunkRecorded slabRecorded _ g' m' live word done =>
      obtain ⟨rfl, rfl⟩ := Thread.live.inj (view.live.symm.trans live)
      obtain ⟨free', _, body, thread', _, _, _, _, granted, _⟩ :=
        view.thread.allocate inv.shared aligns.power word
          (fun large => sums.1 large pool client live) done
      have live' : (Function.update s.threads t (.live pool' (client.gain n x))) t =
          .live pool' (client.gain n x) := Function.update_self t _ _
      have placed' : ArenaPlaced P pool'.alloc := by
        obtain ⟨capacity, base⟩ := view.placed
        refine ⟨granted.regions.capacity.trans capacity, ?_⟩
        rw [granted.regions.base]
        exact base
      rw [view.ledger] at granted
      have whole' := view.whole.granted granted
      generalize ledger' : (client.gain n x).ledger free' (g'.linkedBy t pool'.alloc) = L'
        at granted whole'
      have free : L'.free = free' := by
        rw [← ledger']
        rfl
      -- What every outcome that leaves the slab tables in order has in common.
      have settled : ∀ v' : View, v'.ledger = L' → Tabled pool'.alloc L' →
          pool'.alloc.arena.used = v'.arenaUsed → pool'.alloc.stats = v'.stats →
          Sees P { s.setThread t (.live pool' (client.gain n x)) with mem := m', shared := g' } t
            (.live v') := by
        intro v' same tabled used stats
        rw [← free, ← same] at thread' ledger'
        rw [← same] at whole' tabled
        exact .live ⟨live', thread', ledger', whole', tabled, placed', used, stats⟩
      have tabled' := granted.recorded view.tabled
      obtain ⟨padded, demanded⟩ := view.arenaBytes aligns n
      have capacity := view.placed.1
      generalize alloc' : pool'.alloc = a' at granted settled tabled'
      cases granted with
      | pool small cls stocked =>
          subst cls
          refine ⟨_, .pool small stocked, settled _ rfl (tabled' (Or.inr rfl)) view.used ?_⟩
          exact congrArg (fun c : Stats => c.recordAlloc n _) view.stats
      | refused small cls empty unanswered =>
          subst cls
          have nonnull := ThreadPoolAlloc.allocate_nonnull small
            (fun bytes e m => acquireChunkCb_answer P t bytes reply chunkRecorded e m) done
          cases x with
          | error e =>
              exact ⟨_, .refused small empty,
                settled _ rfl (tabled' (Or.inr rfl)) view.used view.stats⟩
          | ok answer =>
              cases answer with
              | none => exact absurd rfl nonnull
              | some p => exact absurd rfl (unanswered p)
      | lost unrecorded small cls empty =>
          subst cls
          exact ⟨_, .lost small empty, .broken⟩
      | refilled grown small cls empty blocks =>
          subst cls
          refine ⟨_, .refilled small empty blocks,
            settled _ rfl (tabled' (Or.inl grown)) view.used ?_⟩
          exact congrArg (fun c : Stats => c.recordAlloc n _) view.stats
      | @arena p _ large served =>
          have fits := served.fits
          rw [demanded, capacity] at fits
          have used := served.used
          have stats := served.stats
          rw [padded, view.used] at used
          rw [padded, view.stats] at stats
          exact ⟨_, .arena large fits, settled (v.bump P n p) rfl (tabled' (Or.inr rfl)) used stats⟩
      | arenaFull large full =>
          rw [demanded, capacity] at full
          exact ⟨_, .arenaFull large full,
            settled _ rfl (tabled' (Or.inr rfl)) view.used view.stats⟩

theorem free {v' : View} {form : FreeForm} (view : v.Of P s t pool client)
    (frees : v.Frees form p n v') (taken : Sys.Step P s (.free t form p n) s') :
    Sees P s' t (.live v') := by
  have thread := view.thread
  cases taken with
  | @free _ y _ _ i _ pool₀ pool' client₀ m' live out names done =>
      obtain ⟨rfl, rfl⟩ := Thread.live.inj (view.live.symm.trans live)
      have inside := names.holds i.bytes_positive
      obtain ⟨free', after, _, released⟩ := thread.free_released out names done
      cases frees with
      | @pool x small out' names' =>
          rw [view.held] at out'
          have inside' := names'.holds (SizeClass.bytes_positive _)
          have same : (⟨y, i.bytes⟩ : Span) = ⟨x, (sizeClassOf n small).bytes⟩ :=
            thread.span_unique (Client.mem_spans.mpr (Or.inl ⟨i, y, out, rfl⟩))
              (Client.mem_spans.mpr (Or.inl ⟨_, x, out', rfl⟩)) inside inside'
          obtain ⟨rfl, bytes⟩ := Span.mk.inj same
          obtain rfl := SizeClass.bytes_injective bytes
          rw [view.ledger] at released
          generalize ledger' : (client.release (sizeClassOf n small) y).ledger free'
            (s.shared.linkedBy t pool'.alloc) = L' at released
          generalize alloc' : pool'.alloc = a' at released
          cases released with
          | ignored large => exact absurd small (Nat.not_le.mpr large)
          | pool _ _ =>
              have back : free' = (v.giveBack (sizeClassOf n small) n y).ledger.free := by
                have entry := congrArg Ledger.free ledger'
                exact entry
              subst back
              refine .live ⟨Sys.setThread_same s t _, after, ledger', ?_, ?_, ?_, ?_, ?_⟩
              · exact view.whole.giveBack (view.held ▸ out)
              · rw [alloc']
                intro j
                refine (view.tabled.afterFree n y _ j).trans ?_
                simp [View.giveBack, Ledger.giveBack, Ledger.setPool]
              · rw [alloc']
                exact view.placed
              · rw [alloc']
                exact view.used
              · rw [alloc']
                exact congrArg (fun c : Stats => c.recordFree n _) view.stats
      | @arena b large out' names' =>
          rw [view.bumped] at out'
          have inside' := names'.holds (thread.nonempty b out')
          obtain ⟨slab, member, block⟩ := thread.alloc.mem_linked (i := i)
            (List.mem_append_right _ out)
          have region := (thread.bumped_region out').2.holds inside'
          have tabled := view.tabled i
          rw [view.linked] at tabled
          have listed : slab ∈ (pool.alloc.pools i).slabs blocksPerSlab := by
            rw [tabled]
            exact member
          exact (thread.alloc.arena_unique region listed
            ((Slab.block_inside block).holds inside)).elim
  | @freeArena _ _ _ b _ pool₀ pool' client₀ m' live out names done =>
      obtain ⟨rfl, rfl⟩ := Thread.live.inj (view.live.symm.trans live)
      have inside := names.holds (thread.nonempty b out)
      have large := (thread.free_arena_returns_iff out names).mp ⟨_, _, done⟩
      obtain ⟨same, rfl⟩ := thread.free_ignored out names done
      cases frees with
      | pool small out' names' => exact absurd small (Nat.not_le.mpr large)
      | @arena c _ out' names' =>
          rw [view.bumped] at out'
          have inside' := names'.holds (thread.nonempty c out')
          obtain rfl := thread.span_unique (Client.mem_spans.mpr (Or.inr out))
            (Client.mem_spans.mpr (Or.inr out')) inside inside'
          refine .live ⟨Sys.setThread_same s t _, ?_, ?_, view.whole, ?_, ?_, ?_, ?_⟩
          · rw [same]
            exact thread.drop b
          · rw [same]
            refine Client.ledger_eq view.held view.linked ?_
            exact congrArg (fun spans => spans.erase b) view.bumped
          · rw [same]
            exact view.tabled
          · rw [same]
            exact view.placed
          · rw [same]
            exact view.used
          · rw [same]
            exact view.stats

/-- A pointer that can be given back names one block only. -/
theorem free_unique {v' v'' : View} {form : FreeForm} (view : v.Of P s t pool client)
    (first : v.Frees form p n v') (second : v.Frees form p n v'') : v' = v'' := by
  have thread := view.thread
  cases first with
  | @pool x small out names =>
      rw [view.held] at out
      cases second with
      | @pool y _ out' names' =>
          rw [view.held] at out'
          have positive := SizeClass.bytes_positive (sizeClassOf n small)
          have same : (⟨x, (sizeClassOf n small).bytes⟩ : Span) = ⟨y, _⟩ :=
            thread.span_unique (Client.mem_spans.mpr (Or.inl ⟨_, x, out, rfl⟩))
              (Client.mem_spans.mpr (Or.inl ⟨_, y, out', rfl⟩)) (names.holds positive)
              (names'.holds positive)
          rw [(Span.mk.inj same).1]
      | arena large _ _ => exact absurd small (Nat.not_le.mpr large)
  | @arena b large out names =>
      rw [view.bumped] at out
      cases second with
      | pool small _ _ => exact absurd small (Nat.not_le.mpr large)
      | @arena c _ out' names' =>
          rw [view.bumped] at out'
          have same := thread.span_unique (Client.mem_spans.mpr (Or.inr out))
            (Client.mem_spans.mpr (Or.inr out')) (names.holds (thread.nonempty b out))
            (names'.holds (thread.nonempty c out'))
          rw [same]

/-- The answer of `classify` for an address of a block that is out. -/
theorem classify {cls : Nat} (view : v.Of P s t pool client) (classifies : v.Classifies p cls) :
    pool.classify p = cls := by
  cases classifies with
  | pool out inside =>
      rw [view.held] at out
      have recorded : ∀ i, (pool.alloc.pools i).slabs blocksPerSlab =
          s.shared.linkedBy t pool.alloc i := by
        intro i
        rw [view.tabled i, view.linked]
      exact NewDelete.classify_held view.thread recorded out inside
  | arena out inside =>
      rw [view.bumped] at out
      exact NewDelete.classify_bumped view.thread out inside

/-- The block that a free gives back is out, and the call returns. -/
theorem free_possible {v' : View} {form : FreeForm} (view : v.Of P s t pool client)
    (frees : v.Frees form p n v') : ∃ s', Sys.Step P s (.free t form p n) s' := by
  have tabled := view.tabled
  rw [← view.ledger] at tabled
  cases frees with
  | pool small out names =>
      rw [view.held] at out
      obtain ⟨pool', m', done⟩ :=
        (view.thread.free_returns_iff tabled out names).mpr (Or.inr ⟨small, rfl⟩)
      exact ⟨_, .free view.live out names done⟩
  | arena large out names =>
      rw [view.bumped] at out
      obtain ⟨pool', m', done⟩ := (view.thread.free_arena_returns_iff out names).mpr large
      exact ⟨_, .freeArena view.live out names done⟩

theorem writable {cls : Nat} (view : v.Of P s t pool client) (inside : v.Classifies p cls) :
    s.Writable p := by
  cases inside with
  | pool out inside =>
      rw [view.held] at out
      exact .block view.live out inside
  | arena out inside =>
      rw [view.bumped] at out
      exact .arena view.live out inside

end View.Of

theorem Sees.spares {P : Platform} {s s' : Sys} {t : Nat} {k : Knowledge} (sees : Sees P s t k)
    (spares : s.Spares s' t) : Sees P s' t k := by
  cases sees with
  | unborn unborn => exact .unborn (spares.threads.trans unborn)
  | live view => exact .live (view.spares spares)
  | broken => exact .broken

namespace AllocatorCall

variable {P : Platform} {s s' : Sys} {t u : Nat} {c : AllocatorCall} {k l : Knowledge}
  {r : c.Answer}

/-- A bounded step keeps the invariant and what the threads know that do not make it. -/
theorem undisturbed {e : Sys.Event} (aligns : P.Aligns) (inv : SysInv s) (bounded : e.Bounded P)
    (taken : Sys.Step P s e s') :
    SysInv s' ∧ ∀ u, e.thread ≠ some u → ∀ l, Sees P s u l → Sees P s' u l := by
  have sums := inv.noWrap aligns.power bounded taken
  have settles := inv.settles aligns.power sums.1 sums.2 taken
  exact ⟨settles.inv, fun u stranger l sees => sees.spares (settles.spares u stranger)⟩

/-- The step of the system that a call makes, if any, is a bounded one of its own thread. -/
theorem Does.step (does : Does P t c s r s') (sees : Sees P s t k) (allowed : Allowed P c k) :
    s' = s ∨ ∃ e, Sys.Step P s e s' ∧ e.Bounded P ∧ ∀ u, u ≠ t → e.thread ≠ some u := by
  have own : ∀ u, u ≠ t → some t ≠ some u := fun u other same => other (Option.some.inj same).symm
  cases does with
  | built live => exact Or.inl rfl
  | construct taken => exact Or.inr ⟨_, taken, trivial, own⟩
  | allocate taken =>
      cases allowed with
      | allocate bounded => exact Or.inr ⟨_, taken, bounded, own⟩
  | free taken => exact Or.inr ⟨_, taken, trivial, own⟩
  | classify live => exact Or.inl rfl
  | stats live => exact Or.inl rfl
  | write taken => exact Or.inr ⟨_, taken, trivial, fun u _ none => by cases none⟩
  | reserve taken => exact Or.inr ⟨_, taken, trivial, fun u _ none => by cases none⟩
  | reserveFails taken => exact Or.inr ⟨_, taken, trivial, fun u _ none => by cases none⟩
  | release taken => exact Or.inr ⟨_, taken, trivial, fun u _ none => by cases none⟩
  | released gone => exact Or.inl rfl

/-- A call does what its thread is told. -/
theorem Does.tells (aligns : P.Aligns) (inv : SysInv s) (does : Does P t c s r s')
    (sees : Sees P s t k) (allowed : Allowed P c k) : ∃ k', Tells P c k r k' ∧ Sees P s' t k' := by
  cases does with
  | built live =>
      cases allowed with
      | first =>
          cases sees with
          | unborn unborn => cases unborn.symm.trans live
      | again => exact ⟨_, .again, sees⟩
  | construct taken =>
      cases allowed with
      | first =>
          cases taken with
          | start unborn done => exact ⟨_, .built _, .live (View.Of.new inv unborn done)⟩
          | startFails unborn done => exact ⟨_, .failed, .unborn unborn⟩
      | again =>
          cases sees with
          | live view =>
              cases taken with
              | start unborn done => cases unborn.symm.trans view.live
              | startFails unborn done => cases unborn.symm.trans view.live
  | allocate taken =>
      cases allowed with
      | allocate bounded =>
          cases sees with
          | live view =>
              obtain ⟨k', allocates, sees'⟩ := view.allocate inv aligns bounded taken
              exact ⟨k', .allocate allocates, sees'⟩
  | free taken =>
      cases allowed with
      | free frees =>
          cases sees with
          | live view =>
              exact ⟨_, .free frees (fun w other => view.free_unique other frees),
                view.free frees taken⟩
  | classify live =>
      cases allowed with
      | classify classifies =>
          cases sees with
          | live view =>
              obtain ⟨rfl, rfl⟩ := Thread.live.inj (view.live.symm.trans live)
              exact ⟨_, .classify (fun other found => (view.classify found).symm), .live view⟩
  | stats live =>
      cases allowed with
      | stats =>
          cases sees with
          | live view =>
              obtain ⟨rfl, rfl⟩ := Thread.live.inj (view.live.symm.trans live)
              rw [view.stats]
              exact ⟨_, .stats, .live view⟩
  | @write _ _ a b taken =>
      cases allowed with
      | write inside =>
          have bounded : (Sys.Event.write a b).Bounded P := trivial
          have kept := (undisturbed aligns inv bounded taken).2
          exact ⟨_, .write, kept t (fun none => by cases none) _ sees⟩
  | @reserve _ _ bytes p taken =>
      cases allowed
      have bounded : (Sys.Event.malloc .program bytes (some p)).Bounded P := trivial
      have kept := (undisturbed aligns inv bounded taken).2
      exact ⟨_, .reserved, kept t (fun none => by cases none) _ sees⟩
  | @reserveFails _ _ bytes taken =>
      cases allowed
      have bounded : (Sys.Event.malloc .program bytes none).Bounded P := trivial
      have kept := (undisturbed aligns inv bounded taken).2
      exact ⟨_, .unreserved, kept t (fun none => by cases none) _ sees⟩
  | @release _ _ p taken =>
      cases allowed
      have bounded : (Sys.Event.mfree p).Bounded P := trivial
      have kept := (undisturbed aligns inv bounded taken).2
      exact ⟨_, .released, kept t (fun none => by cases none) _ sees⟩
  | released gone =>
      cases allowed
      exact ⟨_, .released, sees⟩

/-- The view of an allocator is all that the other threads leave of it: whatever they do between
a thread's calls, each call acts on the view as if the thread were alone. -/
theorem truthful (aligns : P.Aligns) :
    Crew.Truthful (interface P) (Does P) (Around P) SysInv (Sees P) := by
  refine ⟨?_, ?_, ?_⟩
  · intro s t k c r s' inv sees allowed does
    refine ⟨?_, does.tells aligns inv sees allowed⟩
    rcases does.step sees allowed with rfl | ⟨e, taken, bounded, _⟩
    · exact inv
    · exact (undisturbed aligns inv bounded taken).1
  · intro s t k c r s' u l inv sees allowed does other seen
    rcases does.step sees allowed with rfl | ⟨e, taken, bounded, own⟩
    · exact seen
    · exact (undisturbed aligns inv bounded taken).2 u (own u other) l seen
  · rintro s s' busy inv ⟨taken, bounded, stranger⟩
    obtain ⟨kept, unseen⟩ := undisturbed aligns inv bounded taken
    exact ⟨kept, fun t l running seen => unseen t (stranger t running) l seen⟩

/-- An allowed call can be made in every state. -/
theorem possible (sees : Sees P s t k) (allowed : Allowed P c k) :
    ∃ (r : c.Answer) (s' : Sys), Does P t c s r s' := by
  cases allowed with
  | first =>
      cases sees with
      | unborn unborn =>
          obtain ⟨x, h', done⟩ : ∃ x h', SingleThreadAllocator.new P (.slab t) (.arena t)
            (fun _ => ⟨none, none⟩) none s.shared.heap s.mem = (x, h') := ⟨_, _, rfl⟩
          cases x with
          | error e => exact ⟨_, _, .construct (.startFails unborn done)⟩
          | ok built => exact ⟨_, _, .construct (.start unborn done)⟩
  | again =>
      cases sees with
      | live view => exact ⟨_, _, .built view.live⟩
  | @allocate v n bounded =>
      cases sees with
      | @live _ pool client view =>
          have word : n < Words.radix := by
            have limit : n + P.maxAlign ≤ 9223372036854775808 := bounded
            simp only [Words.radix]
            omega
          obtain ⟨x, pool', g', m', done⟩ : ∃ x pool' g' m', pool.allocate P
              (acquireChunkCb P t ⟨none, none⟩ true) true n s.shared s.mem =
                (x, pool', g', m') := ⟨_, _, _, _, rfl⟩
          exact ⟨_, _, .allocate (.allocate view.live word done)⟩
  | free frees =>
      cases sees with
      | live view =>
          obtain ⟨s', taken⟩ := view.free_possible frees
          exact ⟨_, _, .free taken⟩
  | classify classifies =>
      cases sees with
      | live view => exact ⟨_, _, .classify view.live⟩
  | stats =>
      cases sees with
      | live view => exact ⟨_, _, .stats view.live⟩
  | write inside =>
      cases sees with
      | live view => exact ⟨_, _, .write (.write (view.writable inside))⟩
  | @reserve v bytes =>
      have refused : s.shared.heap.malloc (.outside .program) P.mallocAlign bytes none =
        (none, s.shared.heap) := rfl
      exact ⟨_, _, .reserveFails (.malloc refused)⟩
  | @release v p =>
      by_cases out : ∃ b ∈ s.shared.heap.blocks, ∃ use, b.owner = .outside use ∧ b.span.base = p
      · obtain ⟨b, member, use, owner, rfl⟩ := out
        exact ⟨_, _, .release (.mfree member owner)⟩
      · refine ⟨_, _, .released ?_⟩
        intro b member use owner same
        exact out ⟨b, member, use, owner, same⟩

end AllocatorCall

end MemAlloc
