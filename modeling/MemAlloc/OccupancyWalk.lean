import Mathlib.Data.List.Perm.Subperm
import MemAlloc.BlockPoolInvariant
import MemAlloc.Lib.Runs

set_option autoImplicit false

namespace MemAlloc.OccupancyWalk

open ByteMemory (readWord writeWord writeByte SameOutside wordBytes)
open Links (Linked)
open Runs (Run Transition)

/-- What a call on the pool writes where a reader can see it: a link, `head_`, and the entry
of a linked slab. -/
inductive Write where
  | word (p v : Nat)
  | head (v : Nat)
  | record (s : Slab)
deriving DecidableEq, Repr

def Write.apply (x : BlockPool × ByteMemory) : Write → BlockPool × ByteMemory
  | .word p v => (x.1, writeWord x.2 p v)
  | .head v => ({ x.1 with head := v }, x.2)
  | .record s => ({ x.1 with externalSlabs := x.1.externalSlabs ++ [s] }, x.2)

def Write.slab : Write → Option Slab
  | .record s => some s
  | _ => none

/-- The links that `linkBlocks` writes, in program order. -/
def linkWrites (B : Nat) (b last : Nat) : Nat → List Write
  | 0 => []
  | remaining + 1 =>
      .word b (if remaining = 0 then last else b + B) :: linkWrites B (b + B) last remaining

def deallocateWrites (pool : BlockPool) (p : Nat) : List Write :=
  [.word p pool.head, .head p]

def addExternalSlabWrites (B : Nat) (pool : BlockPool) (s : Slab) : List Write :=
  linkWrites B s.base pool.head s.numBlocks ++ [.head s.base, .record s]

theorem linkWrites_foldl (B : Nat) (last : Nat) (n : Nat) : ∀ (b : Nat) (pool : BlockPool)
    (m : ByteMemory),
    (linkWrites B b last n).foldl Write.apply (pool, m) = (pool, linkBlocks B m b last n) := by
  induction n with
  | zero =>
      intro b pool m
      rfl
  | succ n ih =>
      intro b pool m
      rw [linkWrites, List.foldl_cons]
      exact ih (b + B) pool _

/-- Made one after the other, the writes are the call. -/
theorem deallocateWrites_foldl {B N : Nat} {m m' : ByteMemory} {pool pool' : BlockPool} {p : Nat}
    (positive : 0 < B) (done : pool.deallocate B N m p = .ok (pool', m')) :
    (deallocateWrites pool p).foldl Write.apply (pool, m) = (pool', m') := by
  obtain ⟨_, rfl, rfl⟩ := BlockPool.of_deallocate_ok positive done
  rfl

theorem addExternalSlabWrites_foldl {B N : Nat} {m m' : ByteMemory} {pool pool' : BlockPool}
    {base n : Nat} (done : pool.addExternalSlab B N m base n true = (.ok (), pool', m')) :
    (addExternalSlabWrites B pool ⟨base, n⟩).foldl Write.apply (pool, m) = (pool', m') := by
  rw [addExternalSlabWrites, List.foldl_append, linkWrites_foldl]
  simp only [BlockPool.addExternalSlab, ↓reduceIte] at done
  split at done
  · cases done
    rfl
  · cases done

/-- The thread that displays the occupancy of a pool: `free_count()` with its cursor and the
blocks counted, then `total_blocks()` with the iterators of its loop; `buffer` numbers the
buffers of the slab table, and `stop` is none when the end was not that of the same buffer.
The program keeps none of the rest: `started` is the number of free blocks when the walk read
`head_`, `stale` tells whether the block at the cursor has been handed out since its address was
read, and `ahead` whether blocks of a slab that is still to be recorded were on the list then. -/
inductive Reader where
  | idle
  | walking (p n : Nat) (stale : Bool) (started : Nat) (ahead : Bool)
  | counted (n started : Nat) (ahead : Bool)
  | begun (n started : Nat) (ahead : Bool) (buffer : Nat)
  | scanning (n started : Nat) (buffer : Nat) (stop : Option Nat) (k total : Nat)
  | reported (freeCount cap started : Nat)
deriving DecidableEq, Repr

namespace Reader

/-- The owner has handed out the block at `p`. -/
def popped (p : Nat) : Reader → Reader
  | .walking q n stale started ahead => .walking q n (stale || p == q) started ahead
  | r => r

/-- The owner has recorded a slab. -/
def recorded : Reader → Reader
  | .walking p n stale started _ => .walking p n stale started false
  | .counted n started _ => .counted n started false
  | .begun n started _ buffer => .begun n started false buffer
  | r => r

end Reader

/-- One pool with the memory around it, the writes left of the call its owner is in, the blocks
the clients hold, the buffer of its slab table with the room left there, and the reader. -/
structure World where
  mem : ByteMemory
  pool : BlockPool
  pending : List Write
  live : List Nat
  buffer : Nat
  room : Nat
  reader : Reader

namespace World

def start (B N : Nat) (m : ByteMemory) (s : SlabAlloc) : World where
  mem := (BlockPool.ofSlab B N m s).2
  pool := (BlockPool.ofSlab B N m s).1
  pending := []
  live := []
  buffer := 0
  room := 0
  reader := .idle

def unrecorded (w : World) : List Slab := w.pending.filterMap Write.slab

def regions (N : Nat) (w : World) : List Slab := w.pool.slabs N ++ w.unrecorded

end World

inductive Event where
  | allocate
  | deallocate (x : Nat)
  | addExternalSlab (s : Slab)
  | owner (x : Write)
  | lost (s : Slab)
  | write (a : Nat) (b : UInt8)
  | elsewhere
  | readHead
  | dereference (p : Nat)
  | endWalk
  | readBegin
  | readEnd
  | readEntry (k v : Nat)
  | endScan

/-- The owner pops, enters `deallocate` or `add_external_slab` and makes their writes one by
one, the clients write to the blocks they hold, memory outside the pool changes, and the reader
reads word by word. A slab table that is full moves to a new buffer; what is read in an old
one, or past the end, can be anything. -/
inductive Step (B N : Nat) : World → Event → World → Prop
  | allocateNone {w : World} (idle : w.pending = []) (empty : w.pool.head = 0) :
      Step B N w .allocate w
  | allocate {w : World} (idle : w.pending = []) (stocked : w.pool.head ≠ 0) :
      Step B N w .allocate
        { w with
          pool := (w.pool.allocate w.mem).2
          live := w.pool.head :: w.live
          reader := w.reader.popped w.pool.head }
  | deallocate {w : World} {x : Nat} (idle : w.pending = []) (held : x ∈ w.live) :
      Step B N w (.deallocate x)
        { w with pending := deallocateWrites w.pool x, live := w.live.erase x }
  | addExternalSlab {w : World} {s : Slab} (idle : w.pending = []) (nonempty : 0 < s.numBlocks)
      (region : s.Region B) (fresh : ∀ t ∈ w.pool.slabs N, (t.span B).Apart (s.span B)) :
      Step B N w (.addExternalSlab s) { w with pending := addExternalSlabWrites B w.pool s }
  | word {w : World} {p v : Nat} {rest : List Write} (next : w.pending = .word p v :: rest) :
      Step B N w (.owner (.word p v)) { w with mem := writeWord w.mem p v, pending := rest }
  | head {w : World} {v : Nat} {rest : List Write} (next : w.pending = .head v :: rest) :
      Step B N w (.owner (.head v))
        { w with pool := { w.pool with head := v }, pending := rest }
  | record {w : World} {s : Slab} {rest : List Write} {room : Nat}
      (next : w.pending = .record s :: rest) (inPlace : w.room = room + 1) :
      Step B N w (.owner (.record s))
        { w with
          pool := { w.pool with externalSlabs := w.pool.externalSlabs ++ [s] }
          pending := rest
          room := room
          reader := w.reader.recorded }
  | recordMoved {w : World} {s : Slab} {rest : List Write} {room : Nat}
      (next : w.pending = .record s :: rest) (full : w.room = 0) :
      Step B N w (.owner (.record s))
        { w with
          pool := { w.pool with externalSlabs := w.pool.externalSlabs ++ [s] }
          pending := rest
          buffer := w.buffer + 1
          room := room
          reader := w.reader.recorded }
  | lost {w : World} {s : Slab} {rest : List Write} (next : w.pending = .record s :: rest)
      (full : w.room = 0) : Step B N w (.lost s) { w with pending := rest }
  | write {w : World} {x a : Nat} {b : UInt8} (held : x ∈ w.live)
      (inside : (Span.mk x B).Holds a) :
      Step B N w (.write a b) { w with mem := writeByte w.mem a b }
  | elsewhere {w : World} {m : ByteMemory}
      (kept : ∀ s ∈ w.regions N, ∀ a, (s.span B).Holds a → m a = w.mem a) :
      Step B N w .elsewhere { w with mem := m }
  | readHead {w : World} {started : Nat}
      (free : ∀ xs, Linked (readWord w.mem) w.pool.head xs → started = xs.length) :
      Step B N w .readHead
        { w with
          reader := .walking w.pool.head 0 false started
            ((w.pending.head?.bind Write.slab).isSome) }
  | dereference {w : World} {p n started : Nat} {stale ahead : Bool}
      (walking : w.reader = .walking p n stale started ahead) (nonnull : p ≠ 0) :
      Step B N w (.dereference p)
        { w with reader := .walking (readWord w.mem p) (n + 1) false started ahead }
  | endWalk {w : World} {n started : Nat} {stale ahead : Bool}
      (walking : w.reader = .walking 0 n stale started ahead) :
      Step B N w .endWalk { w with reader := .counted n started ahead }
  | readBegin {w : World} {n started : Nat} {ahead : Bool}
      (counted : w.reader = .counted n started ahead) :
      Step B N w .readBegin { w with reader := .begun n started ahead w.buffer }
  | readEnd {w : World} {n started buffer : Nat} {ahead : Bool}
      (begun : w.reader = .begun n started ahead buffer) :
      Step B N w .readEnd
        { w with
          reader := .scanning n started buffer
            (if buffer = w.buffer then some w.pool.externalSlabs.length else none) 0 N }
  | readEntry {w : World} {n started buffer k total v : Nat} {stop : Option Nat}
      (scanning : w.reader = .scanning n started buffer stop k total) (more : stop ≠ some k)
      (current : ∀ s, buffer = w.buffer → w.pool.externalSlabs[k]? = some s → v = s.numBlocks) :
      Step B N w (.readEntry k v)
        { w with reader := .scanning n started buffer stop (k + 1) (total + v) }
  | endScan {w : World} {n started buffer k total : Nat}
      (scanning : w.reader = .scanning n started buffer (some k) k total) :
      Step B N w .endScan { w with reader := .reported n total started }

/-- A block is dereferenced only if the owner has not handed it out since its address was read;
the bounds and entries of the slab table are read in the buffer in use, the end not while a slab
whose blocks were counted is still to be recorded; and recording a slab does not fail. -/
def Clean (w : World) : Event → Prop
  | .dereference _ => ∀ p n stale started ahead, w.reader = .walking p n stale started ahead →
      stale = false
  | .readEnd => ∀ n started ahead buffer, w.reader = .begun n started ahead buffer →
      ahead = false ∧ buffer = w.buffer
  | .readEntry _ _ => ∀ n started buffer stop k total,
      w.reader = .scanning n started buffer stop k total → buffer = w.buffer
  | .lost _ => False
  | _ => True

/-- The pending writes of the owner: links in the blocks that are being added, which complete
the chain, then `head_`, then the slab to be recorded. -/
inductive Pending (pool : BlockPool) (m : ByteMemory) (free : List Nat) :
    List Write → List Nat → Prop
  | idle : Pending pool m free [] []
  | adding {words records : List Write} {v : Nat} {added : List Nat}
      (targets : ∀ x ∈ words, ∃ p value, x = .word p value ∧ p ∈ added)
      (chain : Linked (readWord (words.foldl Write.apply (pool, m)).2) v (added ++ free))
      (completes : records = [] ∨ ∃ s, records = [.record s] ∧ s.numBlocks = added.length) :
      Pending pool m free (words ++ .head v :: records) added
  | recording {s : Slab} : Pending pool m free [.record s] []

/-- The blocks counted by a walk are blocks of recorded slabs, or of the one that is about to be
recorded. -/
structure Covered (N : Nat) (pool : BlockPool) (pending : List Write) (started : Nat)
    (ahead : Bool) : Prop where
  recorded : ahead = false → started ≤ pool.totalBlocks N
  pending : ahead = true → ∃ s, pending = [.record s] ∧
    started ≤ pool.totalBlocks N + s.numBlocks

/-- Where the reader stands, on a list `free`. -/
def Follows (N : Nat) (w : World) (free : List Nat) : Prop :=
  match w.reader with
  | .idle => True
  | .walking p n stale started ahead =>
      Covered N w.pool w.pending started ahead ∧ (stale = true → p ≠ 0 ∧ n < started) ∧
        (stale = false → ∃ rest, rest <:+ free ∧ p = rest.headD 0 ∧ n + rest.length = started)
  | .counted n started ahead => Covered N w.pool w.pending started ahead ∧ n = started
  | .begun n started ahead buffer =>
      Covered N w.pool w.pending started ahead ∧ n = started ∧ buffer ≤ w.buffer
  | .scanning n started buffer stop k total =>
      n = started ∧ buffer ≤ w.buffer ∧ ∃ table : List Slab, stop = some table.length ∧
        k ≤ table.length ∧
        total = (table.take k).foldl (fun total s => total + s.numBlocks) N ∧
        n ≤ table.foldl (fun total s => total + s.numBlocks) N ∧
        (buffer = w.buffer → table <+: w.pool.externalSlabs)
  | .reported n cap started => n = started ∧ n ≤ cap

structure Inv (B N : Nat) (w : World) (free added : List Nat) : Prop where
  pool : PoolInv B w.mem w.pool.head (w.regions N) free (added ++ w.live)
  pending : Pending w.pool w.mem free w.pending added
  reader : Follows N w free

section Owner

variable {B N : Nat} {w : World} {free added : List Nat} {pool : BlockPool} {m m' : ByteMemory}
  {rest : List Write}

theorem Pending.of_nil (pending : Pending pool m free [] added) : added = [] := by
  generalize none : ([] : List Write) = writes at pending
  cases pending with
  | idle => rfl
  | adding targets chain after => simp at none
  | recording => cases none

theorem Pending.of_word {p v : Nat} (pending : Pending pool m free (.word p v :: rest) added) :
    p ∈ added ∧ Pending pool (writeWord m p v) free rest added := by
  generalize shape : Write.word p v :: rest = writes at pending
  cases pending with
  | idle => cases shape
  | @adding words records v' _ targets chain after =>
      cases words with
      | nil => cases shape
      | cons first words =>
          rw [List.cons_append] at shape
          cases shape
          obtain ⟨q, value, same, listed⟩ := targets _ List.mem_cons_self
          cases same
          refine ⟨listed, .adding ?_ chain after⟩
          intro x member
          exact targets x (List.mem_cons_of_mem _ member)
  | recording => cases shape

theorem Pending.of_head {v : Nat} (pending : Pending pool m free (.head v :: rest) added) :
    Linked (readWord m) v (added ++ free) ∧
      (rest = [] ∨ ∃ s, rest = [.record s] ∧ s.numBlocks = added.length) := by
  generalize shape : Write.head v :: rest = writes at pending
  cases pending with
  | idle => cases shape
  | @adding words records v' _ targets chain after =>
      cases words with
      | nil =>
          cases shape
          exact ⟨chain, after⟩
      | cons first words =>
          rw [List.cons_append] at shape
          cases shape
          obtain ⟨q, value, same, _⟩ := targets _ List.mem_cons_self
          cases same
  | recording => cases shape

theorem Pending.of_record {s : Slab} (pending : Pending pool m free (.record s :: rest) added) :
    rest = [] ∧ added = [] := by
  generalize shape : Write.record s :: rest = writes at pending
  cases pending with
  | idle => cases shape
  | @adding words records v' _ targets chain after =>
      cases words with
      | nil => cases shape
      | cons first words =>
          rw [List.cons_append] at shape
          cases shape
          obtain ⟨q, value, same, _⟩ := targets _ List.mem_cons_self
          cases same
  | recording =>
      cases shape
      exact ⟨rfl, rfl⟩

theorem foldl_agree (writes : List Write) {a : Nat} : ∀ (m m' : ByteMemory), m' a = m a →
    (writes.foldl Write.apply (pool, m')).2 a = (writes.foldl Write.apply (pool, m)).2 a := by
  induction writes generalizing pool with
  | nil =>
      intro m m' same
      exact same
  | cons x writes ih =>
      intro m m' same
      cases x with
      | word p v => exact ih _ _ (ByteMemory.writeWord_congr same)
      | head v => exact ih _ _ same
      | record s => exact ih _ _ same

theorem Pending.congr {writes : List Write} (pending : Pending pool m free writes added)
    (same : ∀ y ∈ added ++ free, ∀ a, (Span.mk y wordBytes).Holds a → m' a = m a) :
    Pending pool m' free writes added := by
  cases pending with
  | idle => exact .idle
  | adding targets chain after =>
      refine .adding targets (chain.congr ?_) after
      intro y listed
      apply ByteMemory.readWord_congr
      intro a inside
      exact foldl_agree _ _ _ (same y listed a inside)
  | recording => exact .recording

theorem unrecorded_links (B b last n : Nat) :
    (linkWrites B b last n).filterMap Write.slab = [] := by
  induction n generalizing b with
  | zero => rfl
  | succ n ih =>
      rw [linkWrites, List.filterMap_cons]
      exact ih (b + B)

theorem Pending.unrecorded_none (pending : Pending pool m free w.pending added)
    (none : ∀ s, w.pending ≠ [.record s]) :
    (blocksOf B w.unrecorded).length ≤ added.length := by
  unfold World.unrecorded
  generalize w.pending = writes at pending none
  cases pending with
  | idle => exact Nat.zero_le _
  | @adding words records v _ targets chain completes =>
      have links : words.filterMap Write.slab = [] := by
        apply List.filterMap_eq_nil_iff.mpr
        intro x member
        obtain ⟨p, value, rfl, _⟩ := targets x member
        rfl
      rw [List.filterMap_append, links, List.nil_append, List.filterMap_cons]
      rcases completes with rfl | ⟨s, rfl, size⟩
      · exact Nat.zero_le _
      · show (blocksOf B [s]).length ≤ added.length
        rw [blocksOf, List.flatMap_singleton, Slab.length_blocks]
        exact Nat.le_of_eq size
  | @recording s => exact absurd rfl (none s)

theorem unrecorded_last (B : Nat) {w : World} {s : Slab} (pending : w.pending = [.record s]) :
    (blocksOf B w.unrecorded).length = s.numBlocks := by
  unfold World.unrecorded
  rw [pending]
  show (blocksOf B [s]).length = s.numBlocks
  rw [blocksOf, List.flatMap_singleton, Slab.length_blocks]

theorem length_regions (B N : Nat) (w : World) : (blocksOf B (w.regions N)).length =
    w.pool.totalBlocks N + (blocksOf B w.unrecorded).length := by
  rw [BlockPool.totalBlocks_eq (B := B), World.regions, blocksOf, List.flatMap_append,
    List.length_append]
  rfl

/-- The free blocks are blocks of recorded slabs, or of the one that is about to be recorded. -/
theorem Inv.covered (inv : Inv B N w free added) :
    Covered N w.pool w.pending free.length (w.pending.head?.bind Write.slab).isSome := by
  have listed := inv.pool.member
  have size : (free ++ (added ++ w.live)).length ≤ (blocksOf B (w.regions N)).length :=
    (List.subperm_of_subset inv.pool.nodup listed).length_le
  rw [length_regions] at size
  simp only [List.length_append] at size
  by_cases recording : ∃ s, w.pending = [.record s]
  · obtain ⟨s, pending⟩ := recording
    have last := unrecorded_last B pending
    constructor
    · intro none
      rw [pending] at none
      cases none
    · intro _
      exact ⟨s, pending, by omega⟩
  · have few := inv.pending.unrecorded_none (B := B) (fun s same => recording ⟨s, same⟩)
    constructor
    · intro _
      omega
    · intro ahead
      have pending := inv.pending
      generalize shape : w.pending = writes at pending
      rw [shape] at ahead
      cases pending with
      | idle => cases ahead
      | @adding words records v _ targets chain completes =>
          cases words with
          | nil => cases ahead
          | cons first words =>
              obtain ⟨p, value, rfl, _⟩ := targets first List.mem_cons_self
              cases ahead
      | @recording s => exact absurd ⟨s, shape⟩ recording

/-- A call that does not concern the table keeps what is covered. -/
theorem Covered.keep {pool' : BlockPool} {writes writes' : List Write} {started : Nat}
    {ahead : Bool} (covered : Covered N pool writes started ahead)
    (table : pool'.externalSlabs = pool.externalSlabs) (busy : ∀ s, writes ≠ [.record s]) :
    Covered N pool' writes' started ahead := by
  constructor
  · intro recorded
    have below := covered.recorded recorded
    unfold BlockPool.totalBlocks at *
    rw [table]
    exact below
  · intro pending
    obtain ⟨s, same, _⟩ := covered.pending pending
    exact absurd same (busy s)

theorem Covered.record {pool' : BlockPool} {writes : List Write} {started : Nat} {ahead : Bool}
    {s : Slab} (covered : Covered N pool (.record s :: rest) started ahead)
    (table : pool'.externalSlabs = pool.externalSlabs ++ [s]) :
    Covered N pool' writes started false := by
  have grown : pool'.totalBlocks N = pool.totalBlocks N + s.numBlocks := by
    unfold BlockPool.totalBlocks
    rw [table, List.foldl_append]
    rfl
  constructor
  · intro _
    cases ahead with
    | false =>
        have below := covered.recorded rfl
        omega
    | true =>
        obtain ⟨t, pending, below⟩ := covered.pending rfl
        cases pending
        omega
  · intro ahead
    cases ahead

/-- A list that keeps its old blocks at the end, and a table that stays as it is. -/
theorem Follows.keep {w' : World} {free' : List Nat} (follows : Follows N w free)
    (reader : w'.reader = w.reader) (suffix : ∀ rest, rest <:+ free → rest <:+ free')
    (table : w'.pool.externalSlabs = w.pool.externalSlabs) (buffer : w'.buffer = w.buffer)
    (busy : ∀ s, w.pending ≠ [.record s]) : Follows N w' free' := by
  unfold Follows at *
  rw [reader]
  cases shape : w.reader with
  | idle => trivial
  | walking p n stale started ahead =>
      rw [shape] at follows
      obtain ⟨covered, before, now⟩ := follows
      refine ⟨covered.keep table busy, before, ?_⟩
      intro fresh
      obtain ⟨rest, last, cursor, count⟩ := now fresh
      exact ⟨rest, suffix rest last, cursor, count⟩
  | counted n started ahead =>
      rw [shape] at follows
      exact ⟨follows.1.keep table busy, follows.2⟩
  | begun n started ahead old =>
      rw [shape] at follows
      obtain ⟨covered, count, older⟩ := follows
      exact ⟨covered.keep table busy, count, by rw [buffer]; exact older⟩
  | scanning n started old stop k total =>
      rw [shape] at follows
      rw [buffer, table]
      exact follows
  | reported n cap started =>
      rw [shape] at follows
      exact follows

theorem Inv.start {s : SlabAlloc} (m : ByteMemory) (wide : wordBytes ≤ B) (nonempty : 0 < N)
    (region : Slab.Region B ⟨s.aligned, N⟩) :
    Inv B N (World.start B N m s) (Slab.blocks B ⟨s.aligned, N⟩) [] := by
  refine ⟨?_, .idle, trivial⟩
  exact PoolInv.ofSlab m s wide nonempty region

theorem Inv.allocate (inv : Inv B N w free added) (idle : w.pending = [])
    (stocked : w.pool.head ≠ 0) :
    ∃ free', Inv B N
      { w with
        pool := (w.pool.allocate w.mem).2
        live := w.pool.head :: w.live
        reader := w.reader.popped w.pool.head } free' [] := by
  have pending := inv.pending
  rw [idle] at pending
  obtain rfl := pending.of_nil
  obtain ⟨rest, rfl, popped⟩ := inv.pool.pop stocked
  rw [BlockPool.allocate_head stocked]
  refine ⟨rest, popped, ?_, ?_⟩
  · show Pending _ _ _ w.pending []
    rw [idle]
    exact .idle
  · have follows := inv.reader
    have busy : ∀ s, w.pending ≠ [.record s] := by
      intro s same
      rw [idle] at same
      cases same
    unfold Follows at *
    dsimp only
    cases shape : w.reader with
    | idle => trivial
    | walking p n stale started ahead =>
        rw [shape] at follows
        obtain ⟨covered, before, now⟩ := follows
        simp only [Reader.popped]
        refine ⟨covered.keep rfl busy, ?_, ?_⟩
        · intro handed
          cases fresh : stale with
          | true => exact before fresh
          | false =>
              rw [fresh, Bool.false_or, beq_iff_eq] at handed
              obtain ⟨last, suffix, cursor, count⟩ := now fresh
              rw [handed] at stocked
              cases last with
              | nil => exact absurd cursor stocked
              | cons x last =>
                  refine ⟨stocked, ?_⟩
                  simp only [List.length_cons] at count
                  omega
        · intro fresh
          rw [Bool.or_eq_false_iff, beq_eq_false_iff_ne] at fresh
          obtain ⟨last, suffix, cursor, count⟩ := now fresh.1
          rcases List.suffix_cons_iff.mp suffix with whole | inner
          · rw [whole] at cursor
            exact absurd cursor.symm fresh.2
          · exact ⟨last, inner, cursor, count⟩
    | counted n started ahead =>
        rw [shape] at follows
        exact ⟨follows.1.keep rfl busy, follows.2⟩
    | begun n started ahead old =>
        rw [shape] at follows
        exact ⟨follows.1.keep rfl busy, follows.2⟩
    | scanning n started old stop k total =>
        rw [shape] at follows
        exact follows
    | reported n cap started =>
        rw [shape] at follows
        exact follows

theorem Inv.settled (inv : Inv B N w free added) (idle : w.pending = []) :
    added = [] ∧ PoolInv B w.mem w.pool.head (w.pool.slabs N) free w.live := by
  have pending := inv.pending
  rw [idle] at pending
  obtain rfl := pending.of_nil
  have pool := inv.pool
  unfold World.regions World.unrecorded at pool
  rw [idle] at pool
  exact ⟨rfl, by simpa using pool⟩

theorem Inv.deallocate {x : Nat} (inv : Inv B N w free added) (wide : wordBytes ≤ B)
    (idle : w.pending = []) (held : x ∈ w.live) :
    Inv B N { w with pending := deallocateWrites w.pool x, live := w.live.erase x } free [x] := by
  obtain ⟨rfl, old⟩ := inv.settled idle
  have moved : (free ++ x :: w.live.erase x).Perm (free ++ w.live) :=
    (List.perm_cons_erase held).symm.append_left free
  refine ⟨?_, ?_, ?_⟩
  · show PoolInv B w.mem w.pool.head (w.pool.slabs N ++ []) free (x :: w.live.erase x)
    rw [List.append_nil]
    exact ⟨old.links, moved.nodup_iff.mpr old.nodup,
      fun y listed => old.member y (moved.subset listed), old.apart, old.region⟩
  · have targets : ∀ y ∈ [Write.word x w.pool.head], ∃ p value, y = .word p value ∧ p ∈ [x] := by
      intro y member
      obtain rfl := List.mem_singleton.mp member
      exact ⟨x, w.pool.head, rfl, List.mem_singleton_self x⟩
    exact .adding targets (old.push wide held).links (Or.inl rfl)
  · refine inv.reader.keep (by rfl) (fun rest suffix => suffix) (by rfl) (by rfl) ?_
    intro s same
    rw [idle] at same
    cases same

theorem Inv.addExternalSlab {s : Slab} (inv : Inv B N w free added) (wide : wordBytes ≤ B)
    (idle : w.pending = []) (nonempty : 0 < s.numBlocks) (region : s.Region B)
    (fresh : ∀ t ∈ w.pool.slabs N, (t.span B).Apart (s.span B)) :
    Inv B N { w with pending := addExternalSlabWrites B w.pool s } free (s.blocks B) := by
  obtain ⟨rfl, old⟩ := inv.settled idle
  have linked := old.link wide nonempty region fresh
  have moved : (free ++ (s.blocks B ++ w.live)).Perm (s.blocks B ++ free ++ w.live) := by
    rw [← List.append_assoc]
    exact List.perm_append_comm.append_right w.live
  have recorded : (addExternalSlabWrites B w.pool s).filterMap Write.slab = [s] := by
    rw [addExternalSlabWrites, List.filterMap_append, unrecorded_links]
    rfl
  have targets : ∀ (n b last : Nat), ∀ x ∈ linkWrites B b last n,
      ∃ p value, x = .word p value ∧ p ∈ Slab.blocks B ⟨b, n⟩ := by
    intro n
    induction n with
    | zero =>
        intro b last x member
        cases member
    | succ n ih =>
        intro b last x member
        rw [Slab.blocks_succ]
        rw [linkWrites] at member
        rcases List.mem_cons.mp member with rfl | member
        · exact ⟨b, _, rfl, List.mem_cons_self⟩
        · obtain ⟨p, value, rfl, listed⟩ := ih (b + B) last x member
          exact ⟨p, value, rfl, List.mem_cons_of_mem _ listed⟩
  refine ⟨?_, ?_, ?_⟩
  · show PoolInv B w.mem w.pool.head (w.pool.slabs N ++
      (addExternalSlabWrites B w.pool s).filterMap Write.slab) free (s.blocks B ++ w.live)
    rw [recorded]
    exact ⟨old.links, moved.nodup_iff.mpr linked.nodup,
      fun y listed => linked.member y (moved.subset listed), linked.apart, linked.region⟩
  · refine .adding (targets _ _ _) ?_ (Or.inr ⟨s, rfl, (Slab.length_blocks B s).symm⟩)
    rw [linkWrites_foldl]
    exact linked.links
  · refine inv.reader.keep (by rfl) (fun rest suffix => suffix) (by rfl) (by rfl) ?_
    intro t same
    rw [idle] at same
    cases same

theorem World.regions_next (N : Nat) {x : Write} (next : w.pending = x :: rest)
    (slab : x.slab = none) : w.regions N = w.pool.slabs N ++ rest.filterMap Write.slab := by
  rw [World.regions, World.unrecorded, next, List.filterMap_cons_none slab]

theorem Inv.word {p v : Nat} (inv : Inv B N w free added) (wide : wordBytes ≤ B)
    (next : w.pending = .word p v :: rest) :
    Inv B N { w with mem := writeWord w.mem p v, pending := rest } free added := by
  have pending := inv.pending
  rw [next] at pending
  obtain ⟨listed, after⟩ := pending.of_word
  have pool := inv.pool
  rw [World.regions_next N next rfl] at pool
  refine ⟨?_, after, ?_⟩
  · apply pool.liveWrite wide (List.mem_append_left _ listed) (SameOutside.writeWord w.mem p v)
    intro t written
    obtain rfl := List.mem_singleton.mp written
    exact ⟨Nat.le_refl _, Nat.add_le_add_left wide p⟩
  · refine inv.reader.keep (by rfl) (fun rest suffix => suffix) (by rfl) (by rfl) ?_
    intro t same
    rw [next] at same
    cases same

theorem Inv.head {v : Nat} (inv : Inv B N w free added) (next : w.pending = .head v :: rest) :
    Inv B N { w with pool := { w.pool with head := v }, pending := rest } (added ++ free) [] := by
  have pending := inv.pending
  rw [next] at pending
  obtain ⟨chain, completes⟩ := pending.of_head
  have pool := inv.pool
  rw [World.regions_next N next rfl] at pool
  have moved : (added ++ free ++ w.live).Perm (free ++ (added ++ w.live)) := by
    rw [← List.append_assoc]
    exact List.perm_append_comm.append_right w.live
  refine ⟨?_, ?_, ?_⟩
  · exact ⟨chain, moved.nodup_iff.mpr pool.nodup,
      fun y listed => pool.member y (moved.subset listed), pool.apart, pool.region⟩
  · rcases completes with rfl | ⟨s, rfl, _⟩
    · exact .idle
    · exact .recording
  · refine inv.reader.keep (by rfl) (fun last suffix => suffix.trans (List.suffix_append _ _))
      (by rfl) (by rfl) ?_
    intro t same
    rw [next] at same
    cases same

/-- Recording a slab, in place or in a new buffer. -/
theorem Inv.record {s : Slab} {buffer room : Nat} (inv : Inv B N w free added)
    (next : w.pending = .record s :: rest) (later : buffer = w.buffer ∨ buffer = w.buffer + 1) :
    Inv B N
      { w with
        pool := { w.pool with externalSlabs := w.pool.externalSlabs ++ [s] }
        pending := rest
        buffer := buffer
        room := room
        reader := w.reader.recorded } free added := by
  have pending := inv.pending
  rw [next] at pending
  obtain ⟨rfl, rfl⟩ := pending.of_record
  have regions : w.regions N = w.pool.slabs N ++ [s] := by
    unfold World.regions World.unrecorded
    rw [next]
    rfl
  have pool := inv.pool
  rw [regions] at pool
  refine ⟨?_, .idle, ?_⟩
  · show PoolInv B w.mem w.pool.head (w.pool.slabs N ++ [s] ++ []) free ([] ++ w.live)
    rw [List.append_nil]
    exact pool
  · have follows := inv.reader
    have moved : ∀ {started ahead}, Covered N w.pool w.pending started ahead → Covered N
        { w.pool with externalSlabs := w.pool.externalSlabs ++ [s] } [] started false := by
      intro started ahead covered
      rw [next] at covered
      exact covered.record rfl
    unfold Follows at *
    dsimp only
    cases shape : w.reader with
    | idle => trivial
    | walking p n stale started ahead =>
        rw [shape] at follows
        exact ⟨moved follows.1, follows.2⟩
    | counted n started ahead =>
        rw [shape] at follows
        exact ⟨moved follows.1, follows.2⟩
    | begun n started ahead old =>
        rw [shape] at follows
        obtain ⟨covered, count, older⟩ := follows
        refine ⟨moved covered, count, ?_⟩
        show old ≤ buffer
        omega
    | scanning n started old stop k total =>
        rw [shape] at follows
        obtain ⟨count, older, table, stops, within, sum, enough, prefix_⟩ := follows
        refine ⟨count, ?_, table, stops, within, sum, enough, ?_⟩
        · show old ≤ buffer
          omega
        · intro same
          have current : old = w.buffer := by
            have same : old = buffer := same
            omega
          exact (prefix_ current).trans (List.prefix_append _ _)
    | reported n cap started =>
        rw [shape] at follows
        exact follows

theorem Inv.memory {m' : ByteMemory} (inv : Inv B N w free added)
    (same : ∀ y ∈ added ++ free, ∀ a, (Span.mk y wordBytes).Holds a → m' a = w.mem a) :
    Inv B N { w with mem := m' } free added := by
  refine ⟨?_, inv.pending.congr same, inv.reader⟩
  apply inv.pool.congr
  intro y stocked
  apply ByteMemory.readWord_congr
  exact same y (List.mem_append_right _ stocked)

theorem Inv.write {x a : Nat} {b : UInt8} (inv : Inv B N w free added) (wide : wordBytes ≤ B)
    (held : x ∈ w.live) (inside : (Span.mk x B).Holds a) :
    Inv B N { w with mem := writeByte w.mem a b } free added := by
  apply inv.memory
  intro y listed c word
  have apartLists := List.nodup_append'.mp inv.pool.nodup
  have different : y ≠ x := by
    rintro rfl
    rcases List.mem_append.mp listed with new | stocked
    · exact (List.nodup_append'.mp apartLists.2.1).2.2 new held
    · exact apartLists.2.2 stocked (List.mem_append_right _ held)
  have known : y ∈ free ++ (added ++ w.live) := by
    rcases List.mem_append.mp listed with new | stocked
    · exact List.mem_append_right _ (List.mem_append_left _ new)
    · exact List.mem_append_left _ stocked
  have separate := inv.pool.blocks_apart known
    (List.mem_append_right _ (List.mem_append_right _ held)) different
  have other : c ≠ a := by
    rintro rfl
    simp only [Span.Apart, Span.Holds, Span.stop] at separate inside word
    omega
  exact Function.update_of_ne other _ _

theorem Inv.elsewhere {m' : ByteMemory} (inv : Inv B N w free added) (wide : wordBytes ≤ B)
    (kept : ∀ s ∈ w.regions N, ∀ a, (s.span B).Holds a → m' a = w.mem a) :
    Inv B N { w with mem := m' } free added := by
  apply inv.memory
  intro y listed c word
  have known : y ∈ free ++ (added ++ w.live) := by
    rcases List.mem_append.mp listed with new | stocked
    · exact List.mem_append_right _ (List.mem_append_left _ new)
    · exact List.mem_append_left _ stocked
  obtain ⟨s, member, block⟩ := mem_blocksOf.mp (inv.pool.member y known)
  apply kept s member c
  have short : (Span.mk y wordBytes).Inside ⟨y, B⟩ :=
    ⟨Nat.le_refl _, Nat.add_le_add_left wide y⟩
  exact (short.trans (Slab.block_inside block)).holds word

end Owner

section Reading

variable {B N : Nat} {w w' : World} {free added : List Nat}

theorem Inv.setReader {r : Reader} (inv : Inv B N w free added)
    (follows : Follows N { w with reader := r } free) :
    Inv B N { w with reader := r } free added :=
  ⟨inv.pool, inv.pending, follows⟩

theorem head_eq {next : Nat → Nat} {p : Nat} {xs : List Nat} (linked : Linked next p xs) :
    p = xs.headD 0 := by
  cases xs with
  | nil => exact linked
  | cons x xs => exact linked.1

theorem Inv.readHead {started : Nat} (inv : Inv B N w free added)
    (count : ∀ xs, Linked (readWord w.mem) w.pool.head xs → started = xs.length) :
    Inv B N
      { w with
        reader := .walking w.pool.head 0 false started
          ((w.pending.head?.bind Write.slab).isSome) } free added := by
  apply inv.setReader
  obtain rfl := count free inv.pool.links
  refine ⟨inv.covered, ?_, ?_⟩
  · intro stale
    cases stale
  · intro _
    exact ⟨free, List.suffix_rfl, head_eq inv.pool.links, Nat.zero_add _⟩

/-- A cursor that is not stale stands on a free block, and its link is the next free block. -/
theorem Inv.cursor {p n started : Nat} {ahead : Bool} (inv : Inv B N w free added)
    (walking : w.reader = .walking p n false started ahead) (nonnull : p ≠ 0) :
    ∃ rest, p :: rest <:+ free ∧ readWord w.mem p = rest.headD 0 ∧
      n + (rest.length + 1) = started := by
  have follows := inv.reader
  unfold Follows at follows
  rw [walking] at follows
  obtain ⟨_, _, now⟩ := follows
  obtain ⟨rest, suffix, cursor, count⟩ := now rfl
  cases rest with
  | nil => exact absurd cursor nonnull
  | cons x rest =>
      obtain rfl : p = x := cursor
      obtain ⟨before, split⟩ := suffix
      have links := inv.pool.links
      rw [← split] at links
      exact ⟨rest, ⟨before, split⟩, head_eq links.suffix.2.2, count⟩

theorem Inv.dereference {p n started : Nat} {ahead : Bool} (inv : Inv B N w free added)
    (walking : w.reader = .walking p n false started ahead) (nonnull : p ≠ 0) :
    Inv B N { w with reader := .walking (readWord w.mem p) (n + 1) false started ahead }
      free added := by
  obtain ⟨rest, suffix, next, count⟩ := inv.cursor walking nonnull
  have follows := inv.reader
  unfold Follows at follows
  rw [walking] at follows
  apply inv.setReader
  refine ⟨follows.1, ?_, ?_⟩
  · intro stale
    cases stale
  · intro _
    exact ⟨rest, (List.suffix_cons p rest).trans suffix, next, by omega⟩

theorem Inv.endWalk {n started : Nat} {stale ahead : Bool} (inv : Inv B N w free added)
    (walking : w.reader = .walking 0 n stale started ahead) :
    Inv B N { w with reader := .counted n started ahead } free added := by
  have follows := inv.reader
  unfold Follows at follows
  rw [walking] at follows
  obtain ⟨covered, before, now⟩ := follows
  apply inv.setReader
  refine ⟨covered, ?_⟩
  cases stale with
  | true => exact absurd rfl (before rfl).1
  | false =>
      obtain ⟨rest, suffix, cursor, count⟩ := now rfl
      cases rest with
      | nil => exact count
      | cons x rest =>
          have nonzero := inv.pool.links.ne_zero x (suffix.subset List.mem_cons_self)
          exact absurd cursor.symm nonzero

theorem Inv.readBegin {n started : Nat} {ahead : Bool} (inv : Inv B N w free added)
    (counted : w.reader = .counted n started ahead) :
    Inv B N { w with reader := .begun n started ahead w.buffer } free added := by
  have follows := inv.reader
  unfold Follows at follows
  rw [counted] at follows
  apply inv.setReader
  exact ⟨follows.1, follows.2, Nat.le_refl _⟩

theorem Inv.readEnd {n started : Nat} (inv : Inv B N w free added)
    (begun : w.reader = .begun n started false w.buffer) :
    Inv B N
      { w with
        reader := .scanning n started w.buffer (some w.pool.externalSlabs.length) 0 N }
      free added := by
  have follows := inv.reader
  unfold Follows at follows
  rw [begun] at follows
  obtain ⟨covered, rfl, _⟩ := follows
  apply inv.setReader
  exact ⟨rfl, Nat.le_refl _, w.pool.externalSlabs, rfl, Nat.zero_le _, rfl,
    covered.recorded rfl, fun _ => List.prefix_rfl⟩

theorem Inv.readEntry {n started k total v : Nat} {stop : Option Nat}
    (inv : Inv B N w free added)
    (scanning : w.reader = .scanning n started w.buffer stop k total) (more : stop ≠ some k)
    (current : ∀ s, w.pool.externalSlabs[k]? = some s → v = s.numBlocks) :
    Inv B N { w with reader := .scanning n started w.buffer stop (k + 1) (total + v) }
      free added := by
  have follows := inv.reader
  unfold Follows at follows
  rw [scanning] at follows
  obtain ⟨count, older, table, rfl, within, rfl, enough, kept⟩ := follows
  have inside : k < table.length := by
    apply Nat.lt_of_le_of_ne within
    rintro rfl
    exact more rfl
  have entry : w.pool.externalSlabs[k]? = some table[k] := by
    obtain ⟨later, split⟩ := kept rfl
    rw [← split, List.getElem?_append_left inside]
    exact List.getElem?_eq_getElem inside
  have value := current _ entry
  apply inv.setReader
  refine ⟨count, older, table, rfl, inside, ?_, enough, kept⟩
  rw [List.take_succ_eq_append_getElem inside, List.foldl_append, value]
  rfl

theorem Inv.endScan {n started buffer k total : Nat} (inv : Inv B N w free added)
    (scanning : w.reader = .scanning n started buffer (some k) k total) :
    Inv B N { w with reader := .reported n total started } free added := by
  have follows := inv.reader
  unfold Follows at follows
  rw [scanning] at follows
  obtain ⟨count, _, table, stops, _, rfl, enough, _⟩ := follows
  apply inv.setReader
  refine ⟨count, ?_⟩
  obtain rfl : k = table.length := Option.some.inj stops
  rw [List.take_length]
  exact enough

theorem Inv.step {e : Event} (inv : Inv B N w free added) (wide : wordBytes ≤ B)
    (clean : Clean w e) (taken : Step B N w e w') :
    ∃ free' added', Inv B N w' free' added' := by
  cases taken with
  | allocateNone idle empty => exact ⟨free, added, inv⟩
  | allocate idle stocked =>
      obtain ⟨free', after⟩ := inv.allocate idle stocked
      exact ⟨free', [], after⟩
  | deallocate idle held => exact ⟨_, _, inv.deallocate wide idle held⟩
  | addExternalSlab idle nonempty region fresh =>
      exact ⟨_, _, inv.addExternalSlab wide idle nonempty region fresh⟩
  | word next => exact ⟨_, _, inv.word wide next⟩
  | head next => exact ⟨_, _, inv.head next⟩
  | record next inPlace => exact ⟨_, _, inv.record next (Or.inl rfl)⟩
  | recordMoved next full => exact ⟨_, _, inv.record next (Or.inr rfl)⟩
  | lost next full => exact clean.elim
  | write held inside => exact ⟨_, _, inv.write wide held inside⟩
  | elsewhere kept => exact ⟨_, _, inv.elsewhere wide kept⟩
  | readHead count => exact ⟨_, _, inv.readHead count⟩
  | dereference walking nonnull =>
      obtain rfl := clean _ _ _ _ _ walking
      exact ⟨_, _, inv.dereference walking nonnull⟩
  | endWalk walking => exact ⟨_, _, inv.endWalk walking⟩
  | readBegin counted => exact ⟨_, _, inv.readBegin counted⟩
  | readEnd begun =>
      obtain ⟨rfl, rfl⟩ := clean _ _ _ _ begun
      rw [if_pos rfl]
      exact ⟨_, _, inv.readEnd begun⟩
  | readEntry scanning more current =>
      obtain rfl := clean _ _ _ _ _ _ scanning
      exact ⟨_, _, inv.readEntry scanning more (fun s => current s rfl)⟩
  | endScan scanning => exact ⟨_, _, inv.endScan scanning⟩

end Reading

theorem Covered.le_blocks (B : Nat) {N : Nat} {w : World} {started : Nat} {ahead : Bool}
    (covered : Covered N w.pool w.pending started ahead) :
    started ≤ (blocksOf B (w.regions N)).length := by
  rw [length_regions]
  cases ahead with
  | false =>
      have below := covered.recorded rfl
      omega
  | true =>
      obtain ⟨s, pending, below⟩ := covered.pending rfl
      rw [unrecorded_last B pending]
      exact below

theorem Step.walking {B N : Nat} {w w' : World} {p : Nat}
    (taken : Step B N w (.dereference p) w') :
    p ≠ 0 ∧ ∃ n stale started ahead, w.reader = .walking p n stale started ahead := by
  cases taken with
  | dereference walking nonnull => exact ⟨nonnull, _, _, _, _, walking⟩

/-- A dereferenced block is free, and so is the one its link points to. -/
theorem Inv.dereferenced {B N : Nat} {w : World} {free added : List Nat}
    (inv : Inv B N w free added) {p n started : Nat} {ahead : Bool}
    (walking : w.reader = .walking p n false started ahead) (nonnull : p ≠ 0) :
    p ∈ blocksOf B (w.regions N) ∧ p ∉ w.live ∧
      (readWord w.mem p = 0 ∨ readWord w.mem p ∈ blocksOf B (w.regions N) ∧
        readWord w.mem p ∉ w.live) := by
  have free_block : ∀ x ∈ free, x ∈ blocksOf B (w.regions N) ∧ x ∉ w.live := by
    intro x stocked
    refine ⟨inv.pool.member x (List.mem_append_left _ stocked), ?_⟩
    intro held
    exact inv.pool.free_not_live stocked (List.mem_append_right _ held)
  obtain ⟨rest, suffix, next, _⟩ := inv.cursor walking nonnull
  obtain ⟨block, unheld⟩ := free_block p (suffix.subset List.mem_cons_self)
  refine ⟨block, unheld, ?_⟩
  rw [next]
  cases rest with
  | nil => exact Or.inl rfl
  | cons x rest =>
      exact Or.inr (free_block x (suffix.subset (List.mem_cons_of_mem _ List.mem_cons_self)))

/-- In runs all of whose steps are clean: every block that is dereferenced is a block of the
pool that nobody holds, and its first word is null or the next such block; a walk reaches null
after as many blocks as were free when it began; and the free count that is reported is that
number, and at most the reported capacity. -/
theorem walk_sound (B N : Nat) (wide : 8 ≤ B) (nonempty : 1 ≤ N) (m : ByteMemory)
    (slab : SlabAlloc) (region : Slab.Region B ⟨slab.aligned, N⟩)
    {trace : List (Transition World Event)} {w : World}
    (run : Run (Step B N) (World.start B N m slab) trace w)
    (clean : ∀ x ∈ trace, Clean x.before x.event) :
    (∀ x ∈ trace, ∀ p, x.event = .dereference p →
      p ∈ blocksOf B (x.before.regions N) ∧ p ∉ x.before.live ∧
        (readWord x.before.mem p = 0 ∨
          readWord x.before.mem p ∈ blocksOf B (x.before.regions N) ∧
            readWord x.before.mem p ∉ x.before.live)) ∧
    (∀ p n stale started ahead, w.reader = .walking p n stale started ahead →
      n ≤ started ∧ (n = started → p = 0) ∧ started ≤ (blocksOf B (w.regions N)).length) ∧
    ∀ n cap started, w.reader = .reported n cap started → n = started ∧ n ≤ cap := by
  let inv : World → Prop := fun w => ∃ free added, Inv B N w free added
  have first : inv (World.start B N m slab) := ⟨_, _, Inv.start m wide nonempty region⟩
  have keep : ∀ w e w', inv w → Clean w e → Step B N w e w' → inv w' := by
    rintro w e w' ⟨free, added, holds⟩ cleanly taken
    exact holds.step wide cleanly taken
  refine ⟨?_, ?_, ?_⟩
  · intro x member p event
    obtain ⟨free, added, holds⟩ := run.invariantBefore first keep clean x member
    obtain ⟨_, _, _, _, taken⟩ := run.reached x member
    have cleanly := clean x member
    rw [event] at taken cleanly
    obtain ⟨nonnull, n, stale, started, ahead, walking⟩ := taken.walking
    obtain rfl := cleanly _ _ _ _ _ walking
    exact holds.dereferenced walking nonnull
  · intro p n stale started ahead walking
    obtain ⟨free, added, holds⟩ := run.invariantWhere first keep clean
    have follows := holds.reader
    unfold Follows at follows
    rw [walking] at follows
    obtain ⟨covered, before, now⟩ := follows
    have bounded : n ≤ started ∧ (n = started → p = 0) := by
      cases stale with
      | true =>
          have less := (before rfl).2
          exact ⟨by omega, fun same => by omega⟩
      | false =>
          obtain ⟨rest, _, cursor, count⟩ := now rfl
          refine ⟨by omega, ?_⟩
          intro same
          obtain rfl : rest = [] := List.eq_nil_of_length_eq_zero (by omega)
          exact cursor
    exact ⟨bounded.1, bounded.2, covered.le_blocks B⟩
  · intro n cap started reported
    obtain ⟨free, added, holds⟩ := run.invariantWhere first keep clean
    have follows := holds.reader
    unfold Follows at follows
    rw [reported] at follows
    exact follows

/-- A pool of one block, which its owner hands out and takes back once the reader has left it. -/
theorem walk_sound_first : ∃ trace w,
    Run (Step 8 1) (World.start 8 1 (fun _ => 0) ⟨4096, 4096⟩) trace w ∧
    (∃ x ∈ trace, x.event = .deallocate 4096) ∧ w.reader = .reported 1 1 1 ∧
    ∀ n cap started, w.reader = .reported n cap started → n = started ∧ n ≤ cap := by
  have region : Slab.Region 8 ⟨4096, 1⟩ := ⟨by decide, by decide⟩
  have links := (PoolInv.ofSlab (fun _ => 0) ⟨4096, 4096⟩ (by decide) (by decide) region).links
  have next := links.2.2
  have cursor : Reader.popped 4096
      (.walking (readWord (World.start 8 1 (fun _ => 0) ⟨4096, 4096⟩).mem 4096) 1 false 1 false) =
        .walking 0 1 false 1 false :=
    congrArg (fun p => Reader.walking p 1 (false || 4096 == p) 1 false) next
  let CleanStep := fun w e w' => Step 8 1 w e w' ∧ Clean w e
  have run : Run CleanStep (World.start 8 1 (fun _ => 0) ⟨4096, 4096⟩) _ _ := .nil
  have run := run.snoc (e := .readHead)
    ⟨.readHead (fun xs linked => congrArg List.length (links.unique linked)), by trivial⟩
  have run := run.snoc (e := .dereference 4096) ⟨.dereference rfl (by decide), by
    intro _ _ _ _ _ walking
    cases walking
    rfl⟩
  have run := run.snoc (e := .allocate) ⟨.allocate rfl (by decide), by trivial⟩
  have run := run.snoc (e := .write 4096 7)
    ⟨.write (x := 4096) List.mem_cons_self (by decide), by trivial⟩
  have run := run.snoc (e := .endWalk) ⟨.endWalk cursor, by trivial⟩
  have run := run.snoc (e := .deallocate 4096) ⟨.deallocate rfl List.mem_cons_self, by trivial⟩
  have run := run.snoc (e := .readBegin) ⟨.readBegin rfl, by trivial⟩
  have run := run.snoc ⟨.word rfl, by trivial⟩
  have run := run.snoc (e := .readEnd) ⟨.readEnd rfl, by
    intro _ _ _ _ begun
    cases begun
    exact ⟨rfl, rfl⟩⟩
  have run := run.snoc ⟨.head rfl, by trivial⟩
  have run := run.snoc (e := .endScan) ⟨.endScan rfl, by trivial⟩
  have plain := run.mono (fun _ _ _ taken => taken.1)
  refine ⟨_, _, plain, by simp, rfl, ?_⟩
  refine (walk_sound 8 1 (by decide) (by decide) _ _ region plain ?_).2.2
  intro x member
  obtain ⟨_, _, _, _, _, clean⟩ := run.reached x member
  exact clean

/-- The owner takes the block the cursor stands on, and its holder writes there before the
reader follows the link: the reader then dereferences what was written. -/
theorem not_always_sound : ∃ trace w,
    Run (Step 8 1) (World.start 8 1 (fun _ => 0) ⟨4096, 4096⟩) trace w ∧
    ∃ x ∈ trace, x.event = .dereference 1 ∧ 1 ∉ blocksOf 8 (x.before.regions 1) := by
  have region : Slab.Region 8 ⟨4096, 1⟩ := ⟨by decide, by decide⟩
  have links := (PoolInv.ofSlab (fun _ => 0) ⟨4096, 4096⟩ (by decide) (by decide) region).links
  let m := (World.start 8 1 (fun _ => 0) ⟨4096, 4096⟩).mem
  have data : readWord (writeByte m 4096 1) 4096 = 1 := by
    simp [m, readWord, World.start, BlockPool.ofSlab, linkBlocks, writeWord, ByteMemory.readLE,
      ByteMemory.writeLE, writeByte, Function.update]
  have cursor : Reader.walking (readWord (writeByte m 4096 1) 4096) 1 false 1 false =
      .walking 1 1 false 1 false := congrArg (fun p => Reader.walking p 1 false 1 false) data
  have run : Run (Step 8 1) (World.start 8 1 (fun _ => 0) ⟨4096, 4096⟩) _ _ := .nil
  have run := run.snoc (e := .readHead)
    (.readHead (fun xs linked => congrArg List.length (links.unique linked)))
  have run := run.snoc (e := .allocate) (.allocate rfl (by decide))
  have run := run.snoc (e := .write 4096 1) (.write List.mem_cons_self ⟨by decide, by decide⟩)
  have run := run.snoc (e := .dereference 4096) (.dereference rfl (by decide))
  have run := run.snoc (e := .dereference 1) (.dereference cursor (by decide))
  refine ⟨_, _, run, _, List.mem_append_right _ List.mem_cons_self, rfl, ?_⟩
  decide

end MemAlloc.OccupancyWalk
