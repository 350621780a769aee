import MemAlloc.GroundedRuns
import MemAlloc.RegistrySafety
import MemAlloc.RelativeRefinement

set_option autoImplicit false

namespace MemAlloc

open Malloc (Heap)
open Runs (Run Transition)
open SingleThreadAllocator (FreeForm)

/-- The block that a request for `n` bytes has been given at `p`. -/
def requestSpan (n p : Nat) : Span := ⟨p, if n ≤ maxSmall then blockFor n else n⟩

/-- Where the regions of a thread's allocator start: its slabs, its chunks and its arena. -/
def Shared.layout (g : Shared) (t : Nat) (a : SingleThreadAllocator) : Layout :=
  Layout.of (g.linkedBy t a) a.arena.base

/-- A process whose threads run fixed programs: how many calls each thread has made, its
requests with what they returned, and where its allocator's regions are, or were in the end.
The program keeps none of these. -/
structure Schedule where
  process : Process
  made : Nat → Nat
  requests : Nat → List (Nat × Except Exn (Option Nat))
  layout : Nat → Layout

def Sys.Event.request : Sys.Event → Option (Nat × Except Exn (Option Nat))
  | .allocate _ n x => some (n, x)
  | _ => none

namespace Schedule

def initial (m : ByteMemory) (h : Heap Owner) : Schedule :=
  ⟨Process.initial m h, fun _ => 0, fun _ => [], fun _ => ⟨fun _ _ => 0, 0⟩⟩

/-- The layouts when the process has moved on. -/
def placed (s : Schedule) (process' : Process) (t : Nat) : Layout :=
  match process'.sys.threads t with
  | .live pool _ => process'.sys.shared.layout t pool.alloc
  | _ => s.layout t

def called (s : Schedule) (t : Nat) (e : Sys.Event) (process' : Process) : Schedule :=
  ⟨process', Function.update s.made t (s.made t + 1),
    Function.update s.requests t (s.requests t ++ e.request.toList), s.placed process'⟩

/-- The event is the thread's call: a block that is freed is out, and is given by its start or
by any address inside it. -/
inductive Means (s : Schedule) (t : Nat) : ProgramCall → Sys.Event → Prop
  | allocate {n : Nat} {x : Except Exn (Option Nat)} : Means s t (.allocate n) (.allocate t n x)
  | free {form : FreeForm} {request size n p q : Nat}
      (returned : (s.requests t)[request]? = some (size, .ok (some q)))
      (out : requestSpan size q ∈ s.process.sys.liveSpans t)
      (names : form.Names (requestSpan size q) p) :
      Means s t (.free form request n) (.free t form p n)

/-- The next call of a thread's program, or a step around the calls. The program acquires no
chunks itself. -/
inductive Step (P : Platform) (offset : Nat) (programs : Nat → List ProgramCall) :
    Schedule → Process.Event → Schedule → Prop
  | call {s : Schedule} {t : Nat} {call : ProgramCall} {e : Sys.Event} {process' : Process}
      (next : (programs t)[s.made t]? = some call) (means : s.Means t call e)
      (taken : Process.Step P offset s.process (.operate e) process') :
      Step P offset programs s (.operate e) (s.called t e process')
  | around {s : Schedule} {e : Process.Event} {process' : Process}
      (noCall : ∀ e', e ≠ .operate e')
      (noChunk : ∀ bytes x, e ≠ .around (.acquireChunk bytes x))
      (taken : Process.Step P offset s.process e process') :
      Step P offset programs s e { s with process := process', layout := s.placed process' }

/-- The chunks that calls ask for are granted, and the vectors can grow. -/
def Supplied (P : Platform) (s : Schedule) (e : Process.Event) (s' : Schedule) : Prop :=
  ∀ e', e = .operate e' → s.process.sys.Supplied P e' s'.process.sys

/-- What the thread's calls so far amount to. -/
def progress (P : Platform) (programs : Nat → List ProgramCall) (s : Schedule) (t : Nat) :
    Progress :=
  Progress.after P ((programs t).take (s.made t))

theorem placed_live {s : Schedule} {process' : Process} {t : Nat} {pool : ThreadPoolAlloc}
    {client : Client} (live : process'.sys.threads t = .live pool client) :
    s.placed process' t = process'.sys.shared.layout t pool.alloc := by
  rw [placed, live]

theorem placed_absent {s : Schedule} {process' : Process} {t : Nat}
    (absent : ∀ pool client, process'.sys.threads t ≠ .live pool client) :
    s.placed process' t = s.layout t := by
  rw [placed]
  split
  · rename_i pool client live
    exact absurd live (absent pool client)
  · rfl

end Schedule

/-- The arena has its full size, where `malloc` put it. -/
def SingleThreadAllocator.ArenaPlaced (P : Platform) (a : SingleThreadAllocator) : Prop :=
  a.arena.capacity = kArenaCapacity ∧ P.mallocAlign ∣ a.arena.base

open SingleThreadAllocator (ArenaPlaced)

theorem arenaPlaced_lasting (P : Platform) : Lasting P (ArenaPlaced P) := by
  refine ⟨?_, ?_⟩
  · intro t reply arenaReply h h' m m' a done
    rw [SingleThreadAllocator.new] at done
    split at done
    · cases done
    · split at done
      · cases done
      · rename_i arena last made
        cases done
        rw [Arena.new] at made
        split at made
        · cases made
        · rename_i base final granted
          cases made
          obtain ⟨fresh, _⟩ := Heap.of_malloc_some granted
          exact ⟨rfl, fresh.2.1⟩
  · rintro a a' ⟨capacity, aligned⟩ extended
    refine ⟨extended.regions.capacity.trans capacity, ?_⟩
    rw [extended.regions.base]
    exact aligned

/-- Blocks that are out share no address. -/
theorem ThreadInv.span_unique {m : ByteMemory} {g : Shared} {t p : Nat} {a : SingleThreadAllocator}
    {client : Client} {free : SizeClass → List Nat} (inv : ThreadInv m g t a client free)
    {r q : Span} (left : r ∈ client.spans) (right : q ∈ client.spans) (first : r.Holds p)
    (second : q.Holds p) : r = q := by
  apply Classical.byContradiction
  intro different
  have apart : r.Apart q :=
    Span.Apart.of_pairwise (f := fun x => x) inv.spans_apart left right different
  exact apart.not_holds first second

/-- `malloc` aligns for every scalar type, and the arena's capacity is a multiple of that. -/
structure Platform.Aligns (P : Platform) : Prop where
  power : Words.PowerOfTwo P.maxAlign
  malloc : P.maxAlign ∣ P.mallocAlign
  whole : P.maxAlign ∣ kArenaCapacity

/-- A live thread's allocator is the one of its progress, in regions of its own. -/
structure Realizes (p : Progress) (s : Sys) (t : Nat) (pool : ThreadPoolAlloc) (client : Client) :
    Prop where
  large : ∀ b ∈ client.bumped, maxSmall < b.size
  inv : ∃ free, ThreadInv s.mem s.shared t pool.alloc client free ∧
    p.alloc.Represents pool.alloc (client.ledger free (s.shared.linkedBy t pool.alloc)) ∧
    Tabled pool.alloc (client.ledger free (s.shared.linkedBy t pool.alloc))

namespace Realizes

variable {P : Platform} {p : Progress} {s s' : Sys} {t n : Nat} {pool : ThreadPoolAlloc}
  {client : Client}

theorem noWrap (real : Realizes p s t pool client) (aligns : P.Aligns)
    (arena : ArenaPlaced P pool.alloc) (bounded : n + kArenaCapacity < Words.radix) :
    pool.alloc.arena.NoWrap n P.maxAlign := by
  obtain ⟨free, thread, _⟩ := real.inv
  have within := thread.alloc.arena.within
  rw [arena.1] at within
  have padded := Words.padding_within aligns.power.positive aligns.whole within
  have gap : pool.alloc.arena.padding P.maxAlign =
      Words.padding pool.alloc.arena.used P.maxAlign :=
    Words.padding_add (aligns.malloc.trans arena.2)
  left
  simp only [Arena.demand, gap]
  omega

theorem new {reply : SizeClass → SlabReply} {arenaReply : Option Nat}
    {a : SingleThreadAllocator} {m' : ByteMemory} {h' : Heap Owner} (inv : SysInv s)
    (unborn : s.threads t = .unborn)
    (done : SingleThreadAllocator.new P (.slab t) (.arena t) reply arenaReply s.shared.heap
      s.mem = (.ok (a, m'), h')) {id next : Nat} :
    Realizes Progress.start
      { (s.setHeap h').setThread t (.live ⟨a, 0, 0, id⟩ Client.none) with
        mem := m'
        nextThreadId := next } t ⟨a, 0, 0, id⟩ Client.none := by
  have different : Function.Injective (Owner.slab t) := fun i j same => (Owner.slab.inj same).2
  have apart : ∀ i, Owner.slab t i ≠ .arena t := fun i same => by cases same
  obtain ⟨_, _, stats, used, external, _⟩ := SingleThreadAllocator.new_ok different apart done
  obtain ⟨thread, linked, _⟩ := ThreadInv.new (inv.unborn t unborn) done
  have ledger : Client.none.ledger a.newLedger.free
      (Shared.linkedBy { s.shared with heap := h' } t a) = a.newLedger :=
    Client.ledger_eq rfl linked.symm rfl
  refine ⟨List.forall_mem_nil _, a.newLedger.free, thread, ?_, ?_⟩
  · exact ledger ▸ RelativeAllocator.represents_new a used stats
  · exact ledger ▸ Tabled.new external

theorem started (inv : SysInv s) (taken : Sys.Step P s (.start t (.ok ())) s') :
    s.threads t = .unborn ∧ ∃ pool client, s'.threads t = .live pool client ∧
      Realizes Progress.start s' t pool client := by
  cases taken with
  | start unborn done =>
      exact ⟨unborn, _, _, Sys.setThread_same _ t _, new inv unborn done⟩

/-- Requests of more than the largest class are the only ones from the arena. -/
theorem large_gain (real : Realizes p s t pool client) (n : Nat) (x : Except Exn (Option Nat)) :
    ∀ b ∈ (client.gain n x).bumped, maxSmall < b.size := by
  match x with
  | .error _ => exact real.large
  | .ok none => exact real.large
  | .ok (some q) =>
      by_cases small : n ≤ maxSmall
      · simp only [Client.gain, small, ↓reduceDIte]
        exact real.large
      · simp only [Client.gain, small, ↓reduceDIte]
        intro b member
        rcases List.mem_cons.mp member with rfl | old
        · exact Nat.lt_of_not_le small
        · exact real.large b old

/-- A request does what it does to the allocator of the progress. -/
theorem allocate {x : Except Exn (Option Nat)} (real : Realizes p s t pool client)
    (sound : p.Sound) (inv : SysInv s) (aligns : P.Aligns)
    (arena : ArenaPlaced P pool.alloc) (bounded : n + kArenaCapacity < Words.radix)
    (live : s.threads t = .live pool client) (supplied : s.Supplied P (.allocate t n x) s')
    (answered : n ≤ maxSmall → ∃ q, x = .ok (some q)) :
    ∃ pool' client', s'.threads t = .live pool' client' ∧
      Realizes (p.call P (.allocate n)) s' t pool' client' ∧
      x = .ok ((p.alloc.allocate P n).1.map (Place.address (s'.shared.layout t pool'.alloc))) ∧
      ∀ place, p.alloc.Known place → place.address (s'.shared.layout t pool'.alloc) =
        place.address (s.shared.layout t pool.alloc) := by
  obtain ⟨reply, served, _⟩ := supplied t n x rfl
  cases served with
  | @intro pool₀ pool' client₀ live₀ done after =>
      obtain ⟨rfl, rfl⟩ := Thread.live.inj (live.symm.trans live₀)
      obtain ⟨free, thread, rep, tabled⟩ := real.inv
      have sums := real.noWrap aligns arena bounded
      have word : n < Words.radix := Nat.lt_of_le_of_lt (Nat.le_add_right _ _) bounded
      obtain ⟨free', _, _, thread', _, _, _, _, granted, _⟩ :=
        thread.allocate inv.shared aligns.power word (fun _ => sums) done
      obtain ⟨result, rep'⟩ :=
        rep.granted sound.closed (aligns.malloc.trans arena.2) arena.1 granted answered
      have tabled' : Tabled pool'.alloc
          ((client.gain n x).ledger free' (s'.shared.linkedBy t pool'.alloc)) :=
        granted.recorded tabled (Or.inl rfl)
      refine ⟨pool', client.gain n x, after, ⟨real.large_gain n x, free', thread', rep', tabled'⟩,
        result, ?_⟩
      intro place known
      exact rep.address (RelativeAllocator.extended_granted granted) known

theorem spared (real : Realizes p s t pool client) (spares : s.Spares s' t)
    (live : s.threads t = .live pool client) : Realizes p s' t pool client := by
  obtain ⟨free, thread, rep, tabled⟩ := real.inv
  refine ⟨real.large, free, spares.thread pool client free live thread, ?_, ?_⟩
  · rw [spares.linked]
    exact rep
  · rw [spares.linked]
    exact tabled

theorem requestSpan_positive (size start : Nat) : 0 < (requestSpan size start).size := by
  rw [requestSpan]
  by_cases small : size ≤ maxSmall
  · simp only [small, ↓reduceIte, blockFor_eq small]
    exact SizeClass.bytes_positive _
  · simp only [small, ↓reduceIte]
    omega

theorem requestSpan_block {size start x : Nat} {i : SizeClass}
    (same : (⟨x, i.bytes⟩ : Span) = requestSpan size start) :
    x = start ∧ ∃ small : size ≤ maxSmall, i = sizeClassOf size small := by
  obtain ⟨base, bytes⟩ := Span.mk.inj same
  refine ⟨base, ?_⟩
  by_cases small : size ≤ maxSmall
  · rw [if_pos small, blockFor_eq small] at bytes
    exact ⟨small, SizeClass.bytes_injective bytes⟩
  · rw [if_neg small] at bytes
    have least := i.bytes_le
    omega

/-- A free of a request's block gives the place of the block back. -/
theorem free {form : FreeForm} {size start q : Nat} {place : Place}
    (real : Realizes p s t pool client) (live : s.threads t = .live pool client)
    (serves : place.Serves size) (address : start = place.address (s.shared.layout t pool.alloc))
    (out : requestSpan size start ∈ client.spans) (names : form.Names (requestSpan size start) q)
    (taken : Sys.Step P s (.free t form q n) s') :
    ∃ pool' client', s'.threads t = .live pool' client' ∧
      Realizes { p with alloc := p.alloc.deallocate n place } s' t pool' client' ∧
      s'.shared.layout t pool'.alloc = s.shared.layout t pool.alloc := by
  obtain ⟨free, thread, rep, tabled⟩ := real.inv
  cases taken with
  | @free _ x _ _ i _ pool₀ pool' client₀ m' live₀ held names₀ done =>
      obtain ⟨rfl, rfl⟩ := Thread.live.inj (live.symm.trans live₀)
      have listed : (⟨x, i.bytes⟩ : Span) ∈ client.spans :=
        Client.mem_spans.mpr (Or.inl ⟨i, x, held, rfl⟩)
      have same := thread.span_unique listed out (names₀.holds i.bytes_positive)
        (names.holds (requestSpan_positive size start))
      obtain ⟨rfl, small, rfl⟩ := requestSpan_block same
      cases place with
      | arena offset => exact absurd serves (Nat.not_lt.mpr small)
      | block j slab index =>
          obtain ⟨_, rfl⟩ := serves
          obtain ⟨free', after, _, released⟩ := thread.free_released held names₀ done
          have linked := released.linked
          have layout : s.shared.layout t pool'.alloc = s.shared.layout t pool.alloc := by
            have slabs : s.shared.linkedBy t pool'.alloc = s.shared.linkedBy t pool.alloc := linked
            rw [Shared.layout, slabs, released.regions.base]
            rfl
          refine ⟨pool', _, Sys.setThread_same s t _, ⟨real.large, free', after, ?_, ?_⟩, layout⟩
          · exact rep.released address released
          · exact tabled.move (P := P) (.released (t := t) (p := q) held names₀ released)
  | @freeArena _ _ _ b _ pool₀ pool' client₀ m' live₀ bumped names₀ done =>
      obtain ⟨rfl, rfl⟩ := Thread.live.inj (live.symm.trans live₀)
      obtain ⟨same, rfl⟩ := thread.free_ignored bumped names₀ done
      have large := (thread.free_arena_returns_iff bumped names₀).mp ⟨_, _, done⟩
      refine ⟨pool', _, Sys.setThread_same s t _, ⟨?_, free, ?_, ?_, ?_⟩, ?_⟩
      · exact fun c member => real.large c (List.mem_of_mem_erase member)
      · rw [same]
        exact thread.drop b
      · rw [same, RelativeAllocator.deallocate, if_neg (Nat.not_le.mpr large)]
        exact rep.congr rfl rfl
      · rw [same]
        exact tabled
      · rw [same]
        rfl

end Realizes

end MemAlloc
