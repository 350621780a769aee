import MemAlloc.ChunkHeaders
import MemAlloc.ThreadHomes
import MemAlloc.Lib.Totals

set_option autoImplicit false

namespace MemAlloc

open Malloc (Heap Block addressLimit)
open Runs (Run Transition)
open AllocatorRuns (Whole)
open SingleThreadAllocator (Granted Released maxBlocks chunkSlab)

/-- The chunk was acquired by the pool of class `i` of thread `t`. -/
def Chunk.For (t : Nat) (i : SizeClass) (c : Chunk) : Prop :=
  c.user = some t ∧ c.sizeClassBytes = i.bytes

instance (t : Nat) (i : SizeClass) (c : Chunk) : Decidable (c.For t i) :=
  inferInstanceAs (Decidable (_ ∧ _))

namespace Shared

variable {g g' : Shared} {t : Nat} {i : SizeClass} {a : SingleThreadAllocator}

/-- The chunks that thread `t` has acquired for its class `i`. -/
def chunkCount (g : Shared) (t : Nat) (i : SizeClass) : Nat :=
  g.carved.countP (fun c => c.For t i)

theorem length_linkedBy : (g.linkedBy t a i).length = g.chunkCount t i + 1 := by
  rw [linkedBy, List.length_cons, List.length_map, chunkCount, List.countP_eq_length_filter]
  rfl

theorem length_blocks_linkedBy : (blocksOf i.bytes (g.linkedBy t a i)).length =
    blocksPerSlab + g.chunkCount t i * maxBlocks i := by
  have chunks : ∀ cs : List Chunk,
      (blocksOf i.bytes (cs.map (fun c => chunkSlab i c.body))).length =
        cs.length * maxBlocks i := by
    intro cs
    induction cs with
    | nil => simp [blocksOf]
    | cons c cs ih =>
        simp only [blocksOf, List.map_cons, List.flatMap_cons, List.length_append,
          Slab.length_blocks, List.length_cons, Nat.succ_mul] at ih ⊢
        rw [ih]
        exact Nat.add_comm _ _
  have whole := chunks (g.carved.filter (fun c => c.user = some t ∧ c.sizeClassBytes = i.bytes))
  simp only [linkedBy, blocksOf, List.flatMap_cons, List.length_append,
    Slab.length_blocks] at whole ⊢
  rw [whole, chunkCount, List.countP_eq_length_filter]
  rfl

end Shared

namespace Sys

/-- The blocks of class `i` that are out on thread `t`. -/
def heldCount (s : Sys) (t : Nat) (i : SizeClass) : Nat :=
  match s.threads t with
  | .live _ client => (client.held i).length
  | _ => 0

theorem heldCount_live {s : Sys} {t : Nat} {pool : ThreadPoolAlloc} {client : Client}
    (live : s.threads t = .live pool client) (i : SizeClass) :
    s.heldCount t i = (client.held i).length := by
  rw [heldCount, live]

/-- The largest number of blocks of class `i` that were out on thread `t` at any moment. -/
def peak (trace : List (Transition Sys Event)) (t : Nat) (i : SizeClass) : Nat :=
  Totals.highest (fun x => x.after.heldCount t i) trace

/-- How many chunks of `k` blocks it takes for `n` blocks to be out at once, 256 of which
lie in the constructor slab. -/
def refills (n k : Nat) : Nat := (n - blocksPerSlab + (k - 1)) / k

end Sys

/-- A whole ledger has as many blocks as its slabs. -/
theorem AllocatorRuns.Whole.count {g : Shared} {t : Nat} {a : SingleThreadAllocator}
    {client : Client} {free : SizeClass → List Nat}
    (whole : Whole (client.ledger free (g.linkedBy t a))) (i : SizeClass) :
    (free i).length + (client.held i).length =
      blocksPerSlab + g.chunkCount t i * maxBlocks i := by
  have size := (whole i).length_eq
  rw [List.length_append] at size
  exact size.trans Shared.length_blocks_linkedBy

/-- A call links a slab only when every block of the class is out, and then hands out its
first block. -/
theorem LedgerMove.counts {P : Platform} {a a' : SingleThreadAllocator} {L L' : Ledger}
    {e : Sys.Event} (move : LedgerMove P true a L a' L' e) (i : SizeClass) :
    (L'.linked i).length = (L.linked i).length ∨
      ((L'.linked i).length = (L.linked i).length + 1 ∧ L.free i = [] ∧
        (L'.held i).length = (L.held i).length + 1) := by
  cases move with
  | granted granted =>
      cases granted with
      | pool small cls stocked =>
          left
          simp [Ledger.take, Ledger.setPool]
      | refused small cls empty unanswered => exact Or.inl rfl
      | lost unrecorded small cls empty => cases unrecorded
      | @refilled j body head rest grown small cls empty blocks =>
          by_cases here : i = j
          · subst here
            right
            simp [Ledger.take, Ledger.link, Ledger.setPool, empty]
          · left
            simp [Ledger.take, Ledger.link, Ledger.setPool, here]
      | arena large served => exact Or.inl rfl
      | arenaFull large full => exact Or.inl rfl
  | released out names released =>
      left
      rw [released.linked]
  | aligned pools free held linked =>
      left
      rw [linked]
  | dropped same free held linked =>
      left
      rw [linked]

theorem Sys.refills_eq {n k c : Nat} (positive : 0 < k) (most : n ≤ blocksPerSlab + c * k)
    (least : c = 0 ∨ blocksPerSlab + (c - 1) * k < n) : refills n k = c := by
  rw [refills]
  apply Nat.div_eq_of_lt_le
  · cases c with
    | zero => omega
    | succ d =>
        have above := least.resolve_left (Nat.succ_ne_zero d)
        rw [Nat.add_sub_cancel] at above
        rw [Nat.succ_mul]
        omega
  · rw [Nat.succ_mul]
    omega

/-- What a step adds to the chunks that were handed out: nothing, or one for the caller. -/
inductive Shared.Gains (g g' : Shared) (user : Option Nat) : Prop
  | none (carved : g'.carved = g.carved) (total : g'.central.totalChunks = g.central.totalChunks)
  | one {c : Chunk} (carved : g'.carved = g.carved ++ [c])
      (total : g'.central.totalChunks = Words.add g.central.totalChunks 1) (owner : c.user = user)
      (bytes : user ≠ Option.none → ∃ i : SizeClass, c.sizeClassBytes = i.bytes)

namespace Shared

variable {P : Platform} {g g' : Shared} {m m' : ByteMemory}

theorem acquireChunk_gains {user : Option Nat} {reply : SlabReply} {recorded : Bool}
    {bytes : Nat} {x : Except Exn Nat}
    (class_ : user ≠ none → ∃ i : SizeClass, bytes = i.bytes)
    (done : g.acquireChunk P user reply recorded bytes m = (x, g', m')) : g.Gains g' user := by
  rcases acquireChunk_cases done with ⟨_, carved, central⟩ | ⟨base, _, carved, total, _⟩
  · exact .none carved (congrArg CentralHeap.totalChunks central)
  · exact .one carved total rfl class_

theorem allocate_gains {t n : Nat} {pool pool' : ThreadPoolAlloc} {reply : SlabReply}
    {chunkRecorded slabRecorded : Bool} {x : Except Exn (Option Nat)}
    (done : pool.allocate P (acquireChunkCb P t reply chunkRecorded) slabRecorded n g m =
      (x, pool', g', m')) : g.Gains g' (some t) := by
  simp only [ThreadPoolAlloc.allocate] at done
  generalize run : pool.alloc.allocate P (acquireChunkCb P t reply chunkRecorded) slabRecorded n
    g m = served at done
  obtain ⟨x₁, a', g₁, m₁⟩ := served
  cases done
  rcases SingleThreadAllocator.allocate_extends run with ⟨rfl, _⟩ | ⟨i, rfl, _⟩
  · exact .none rfl rfl
  · simp only [acquireChunkCb]
    generalize asked : g.acquireChunk P (some t) reply chunkRecorded i.bytes m = answer
    obtain ⟨y, g₁, m₁⟩ := answer
    exact acquireChunk_gains (fun _ => ⟨i, rfl⟩) asked

end Shared

namespace Sys

variable {P : Platform} {s s' : Sys} {e : Event} {t : Nat} {i : SizeClass}

theorem Step.gains (taken : Step P s e s') : s.shared.Gains s'.shared e.thread := by
  cases taken with
  | allocate live word done => exact Shared.allocate_gains done
  | acquireChunk done => exact Shared.acquireChunk_gains (fun absent => absurd rfl absent) done
  | start unborn done => exact .none rfl rfl
  | startFails unborn done => exact .none rfl rfl
  | exit live => exact .none rfl rfl
  | allocateAligned live word power done => exact .none rfl rfl
  | free live out names done => exact .none rfl rfl
  | freeArena live out names done => exact .none rfl rfl
  | write writable => exact .none rfl rfl
  | malloc done => exact .none rfl rfl
  | mfree member owner => exact .none rfl rfl

theorem Step.carved_absent (taken : Step P s e s') (acting : e.thread = some t)
    (absent : ∀ pool client, s'.threads t ≠ .live pool client) :
    s'.shared.carved = s.shared.carved := by
  cases taken with
  | allocate live word done =>
      cases acting
      exact absurd (Function.update_self t _ _) (absent _ _)
  | acquireChunk done => cases acting
  | _ => rfl

theorem chunkCount_other (gains : s.shared.Gains s'.shared e.thread) (other : e.thread ≠ some t) :
    s'.shared.chunkCount t i = s.shared.chunkCount t i := by
  cases gains with
  | none carved total => rw [Shared.chunkCount, carved, Shared.chunkCount]
  | @one c carved total owner bytes =>
      have stranger : ¬ c.For t i := fun both => other (owner.symm.trans both.1)
      simp [Shared.chunkCount, carved, stranger]

/-- A pool block is freed with a small size. -/
def FreesSmall (s : Sys) : Event → Prop
  | .free t form p n => ∀ pool client, s.threads t = .live pool client →
      ∀ i, ∀ x ∈ client.held i, form.Names ⟨x, SizeClass.bytes i⟩ p → n ≤ maxSmall
  | _ => True

theorem freesSmall_other {e : Event} (other : ∀ t form p n, e ≠ .free t form p n) :
    s.FreesSmall e := by
  cases e with
  | free t form p n => exact absurd rfl (other t form p n)
  | _ => trivial

theorem Supplied.answered {n : Nat} {x : Except Exn (Option Nat)} (inv : SysInv s.solid)
    (supplied : s.Supplied P (.allocate t n x) s') (small : n ≤ maxSmall) :
    ∃ p, x = .ok (some p) ∧ p ≠ 0 := by
  obtain ⟨reply, served, granted⟩ := supplied t n x rfl
  cases served with
  | @intro pool pool' client live done after =>
      by_cases empty : (pool.alloc.pools (sizeClassOf n small)).head = 0
      · have shared : SharedInv s.shared := inv.shared
        obtain ⟨body, g', m', asked⟩ := granted small pool client live empty
        obtain ⟨chunk, acquired⟩ := acquireChunk_acquired P (some t) reply true
          (sizeClassOf n small).bytes s.mem shared
        rw [asked] at acquired
        obtain ⟨_, _, positive, _⟩ := acquired.success body rfl
        have answered : acquireChunkCb P t reply true (sizeClassOf n small).bytes s.shared s.mem =
            (.ok (some body), g', m') := by
          simp only [acquireChunkCb, asked]
          rfl
        obtain ⟨t', m'', refilled⟩ :=
          ThreadPoolAlloc.allocate_refilled (P := P) small empty answered positive
        rw [refilled] at done
        exact ⟨body, (congrArg Prod.fst done).symm, Nat.ne_of_gt positive⟩
      · have stocked := ThreadPoolAlloc.allocate_stocked (P := P) (m := s.mem)
          (acquireChunkCb P t reply true) true s.shared small rfl empty
        rw [stocked] at done
        exact ⟨_, (congrArg Prod.fst done).symm, empty⟩

/-- Every block of every linked slab stays free or held. -/
theorem whole_step (whole : s.solid.Keeps (fun _ L => Whole L)) (taken : Step P s e s')
    (power : Words.PowerOfTwo P.maxAlign) (inv : SysInv s.solid) (proper : s.Proper P e)
    (supplied : s.Supplied P e s') (small : s.FreesSmall e) :
    s'.solid.Keeps (fun _ L => Whole L) := by
  refine whole.step taken power inv proper supplied.serves ?_ ?_
  · intro a external i
    simp [SingleThreadAllocator.newLedger, blocksOf]
  · intro u pool client acting live L a' L' held whole move
    cases move with
    | granted granted => exact whole.granted granted
    | released out names released =>
        cases released with
        | pool fits cls => exact whole.giveBack out
        | ignored large =>
            cases acting
            rw [held] at out
            exact absurd (small pool client live _ _ out names) (Nat.not_le.mpr large)
    | aligned pools free held linked =>
        intro i
        rw [free, held, linked]
        exact whole i
    | dropped same free held linked =>
        intro i
        rw [free, held, linked]
        exact whole i

theorem heldCount_le (inv : SysInv s.solid) (whole : s.solid.Keeps (fun _ L => Whole L)) :
    s.heldCount t i ≤ blocksPerSlab + s.shared.chunkCount t i * maxBlocks i := by
  cases status : s.threads t with
  | live pool client =>
      obtain ⟨free, thread⟩ := inv.live t pool client.solid (solid_live status)
      have count := (whole t _ _ free (solid_live status) thread).count i
      rw [heldCount_live status]
      exact Nat.le_trans (Nat.le_add_left _ _) (Nat.le_of_eq count)
  | unborn =>
      rw [heldCount, status]
      exact Nat.zero_le _
  | exited =>
      rw [heldCount, status]
      exact Nat.zero_le _

theorem chunkCount_unborn (inv : SysInv s.solid) (unborn : s.threads t = .unborn) :
    s.shared.chunkCount t i = 0 := by
  rw [Shared.chunkCount, List.countP_eq_zero]
  intro c member both
  have absent : s.solid.threads t = .unborn := congrArg Thread.solid unborn
  exact inv.unborn t absent c member (of_decide_eq_true both).1

/-- A chunk is acquired only when all blocks of the class are out, and the call hands out one
more. -/
theorem Step.counts (taken : Step P s e s') (power : Words.PowerOfTwo P.maxAlign)
    (inv : SysInv s.solid) (whole : s.solid.Keeps (fun _ L => Whole L)) (proper : s.Proper P e)
    (supplied : s.Supplied P e s') (t : Nat) (i : SizeClass) :
    s'.shared.chunkCount t i = s.shared.chunkCount t i ∨
      (s'.shared.chunkCount t i = s.shared.chunkCount t i + 1 ∧
        s'.heldCount t i = blocksPerSlab + s.shared.chunkCount t i * maxBlocks i + 1) := by
  by_cases acting : e.thread = some t
  · cases status : s'.threads t with
    | live pool' client' =>
        obtain ⟨free', after, acted⟩ := taken.acted power inv proper supplied.serves acting status
        have new : (s'.shared.linkedBy t pool'.alloc i).length =
            s'.shared.chunkCount t i + 1 := Shared.length_linkedBy
        generalize ledger : client'.solid.ledger free' (s'.shared.linkedBy t pool'.alloc) = L'
          at acted
        have linked' : (L'.linked i).length = s'.shared.chunkCount t i + 1 := by
          rw [← ledger]
          exact new
        cases acted with
        | new unborn external same =>
            left
            rw [chunkCount_unborn inv unborn]
            rw [same] at linked'
            exact (Nat.succ.inj linked').symm
        | @moved pool client free live before move =>
            have old : (s.shared.linkedBy t pool.alloc i).length =
                s.shared.chunkCount t i + 1 := Shared.length_linkedBy
            have linked : ((client.solid.ledger free
                (s.shared.linkedBy t pool.alloc)).linked i).length =
                  s.shared.chunkCount t i + 1 := old
            rcases move.counts i with same | ⟨grown, empty, more⟩
            · left
              omega
            · right
              have count : (free i).length + (client.held i).length =
                  blocksPerSlab + s.shared.chunkCount t i * maxBlocks i :=
                (whole t _ _ free (solid_live live) before).count i
              have none : (free i).length = 0 := congrArg List.length empty
              have held' : (L'.held i).length = (client'.held i).length := by
                rw [← ledger]
                rfl
              have held : ((client.solid.ledger free
                  (s.shared.linkedBy t pool.alloc)).held i).length =
                    (client.held i).length := rfl
              rw [heldCount_live status]
              omega
    | unborn =>
        left
        rw [Shared.chunkCount, taken.carved_absent acting (by simp [status]), Shared.chunkCount]
    | exited =>
        left
        rw [Shared.chunkCount, taken.carved_absent acting (by simp [status]), Shared.chunkCount]
  · exact Or.inl (chunkCount_other taken.gains acting)

end Sys

namespace Shared

variable {g g' : Shared}

def directCount (g : Shared) : Nat := g.carved.countP (fun c => c.user = none)

/-- The counter of chunks counts those that have been handed out, each for a class of its
user's. -/
structure Counted (g : Shared) : Prop where
  total : g.central.totalChunks = g.carved.length % Words.radix
  bytes : ∀ c ∈ g.carved, c.user ≠ none → ∃ i : SizeClass, c.sizeClassBytes = i.bytes

theorem Counted.gains {user : Option Nat} (counted : g.Counted) (gains : g.Gains g' user) :
    g'.Counted := by
  cases gains with
  | none carved total =>
      refine ⟨?_, ?_⟩
      · rw [total, carved]
        exact counted.total
      · rw [carved]
        exact counted.bytes
  | @one c carved total owner bytes =>
      refine ⟨?_, ?_⟩
      · rw [total, carved, counted.total, List.length_append, Words.add]
        exact Nat.mod_add_mod _ _ _
      · rw [carved]
        intro d member used
        rcases List.mem_append.mp member with old | new
        · exact counted.bytes d old used
        · obtain rfl := List.mem_singleton.mp new
          rw [owner] at used
          exact bytes used

/-- Chunks are 64 KiB apart, so there are too few of them for the counter to wrap. -/
theorem carved_lt (inv : SharedInv g) : g.carved.length < Words.radix := by
  have size : CentralHeap.chunkSize = 65536 := rfl
  have distinct : (g.carved.map (fun c => c.base / CentralHeap.chunkSize)).Nodup := by
    rw [List.Nodup, List.pairwise_map]
    refine inv.apart.imp_of_mem ?_
    intro c d left right apart same
    obtain ⟨j, first⟩ := inv.aligned c left
    obtain ⟨k, second⟩ := inv.aligned d right
    have bases : c.base = d.base := by
      rw [first, second, Nat.mul_div_cancel_left _ (by decide),
        Nat.mul_div_cancel_left _ (by decide)] at same
      rw [first, second, same]
    rcases apart with low | high
    · simp only [Chunk.span, Span.stop, size] at low
      omega
    · simp only [Chunk.span, Span.stop, size] at high
      omega
  have bounded : ∀ q ∈ g.carved.map (fun c => c.base / CentralHeap.chunkSize),
      q ∈ List.range 9223372036854775808 := by
    intro q member
    obtain ⟨c, carved, rfl⟩ := List.mem_map.mp member
    obtain ⟨b, block, _, inside⟩ := inv.homes c carved
    have limit : b.span.stop ≤ 9223372036854775808 := (g.heap.bounded b block).2.2
    have stop : c.base + CentralHeap.chunkSize ≤ b.span.stop := inside.2
    have small : c.base < 9223372036854775808 := by omega
    exact List.mem_range.mpr (Nat.lt_of_le_of_lt (Nat.div_le_self _ _) small)
  have count := (List.subperm_of_subset distinct bounded).length_le
  rw [List.length_map, List.length_range] at count
  simp only [Words.radix]
  omega

/-- Every chunk is the program's own, or counts for one thread and one class. -/
theorem length_carved {T : Finset Nat} {carved : List Chunk}
    (users : ∀ c ∈ carved, ∀ t, c.user = some t → t ∈ T)
    (bytes : ∀ c ∈ carved, c.user ≠ none → ∃ i : SizeClass, c.sizeClassBytes = i.bytes) :
    carved.length = carved.countP (fun c => c.user = none) +
      ∑ t ∈ T, ∑ i : SizeClass, carved.countP (fun c => c.For t i) := by
  induction carved with
  | nil => simp
  | cons c carved ih =>
      have rest := ih (fun d member => users d (List.mem_cons_of_mem _ member))
        (fun d member => bytes d (List.mem_cons_of_mem _ member))
      simp only [List.countP_cons, List.length_cons, Finset.sum_add_distrib]
      cases user : c.user with
      | none =>
          have nobody : ∀ t i, ¬ c.For t i := by
            intro t i both
            cases user.symm.trans both.1
          simp [nobody]
          omega
      | some u =>
          obtain ⟨j, size⟩ := bytes c List.mem_cons_self (by simp [user])
          have here := users c List.mem_cons_self u user
          have one :
              ∑ t ∈ T, ∑ i : SizeClass, (if decide (c.For t i) = true then 1 else 0) = 1 := by
            rw [Finset.sum_eq_single_of_mem u here]
            · rw [Finset.sum_eq_single_of_mem j (Finset.mem_univ j)]
              · simp [Chunk.For, user, size]
              · intro i _ different
                have other : ¬ c.For u i := fun both =>
                  different (SizeClass.bytes_injective (both.2.symm.trans size))
                simp [other]
            · intro t _ different
              have other : ∀ i, ¬ c.For t i := by
                intro i both
                exact different (Option.some.inj (both.1.symm.trans user))
              simp [other]
          rw [one]
          simp
          omega

end Shared

namespace Sys

variable {P : Platform} {s : Sys} {m : ByteMemory} {h : Heap Owner}

/-- What a run says about refills: small requests are met, no call takes two chunks, and each
pool has acquired the chunks that its largest number of blocks out at once takes. -/
structure RefillsExact (trace : List (Transition Sys Event)) (s : Sys) : Prop where
  answered : ∀ x ∈ trace, ∀ t n r, x.event = .allocate t n r → n ≤ maxSmall →
    ∃ p, r = .ok (some p) ∧ p ≠ 0
  single : ∀ x ∈ trace, x.after.shared.carved.length ≤ x.before.shared.carved.length + 1
  counts : ∀ t i, s.shared.chunkCount t i = refills (peak trace t i) (maxBlocks i)
  total : ∀ T : Finset Nat, (∀ t, s.threads t ≠ .unborn → t ∈ T) →
    s.shared.central.totalChunks =
      s.shared.directCount + ∑ t ∈ T, ∑ i, refills (peak trace t i) (maxBlocks i)

/-- What the steps of a run keep, and what the largest numbers of blocks say about the
chunks. -/
structure Refilling (trace : List (Transition Sys Event)) (s : Sys) : Prop where
  inv : SysInv s.solid
  whole : s.solid.Keeps (fun _ L => Whole L)
  counted : s.shared.Counted
  most : ∀ t i, peak trace t i ≤ blocksPerSlab + s.shared.chunkCount t i * maxBlocks i
  least : ∀ t i, s.shared.chunkCount t i = 0 ∨
    blocksPerSlab + (s.shared.chunkCount t i - 1) * maxBlocks i < peak trace t i

theorem Refilling.initial (m : ByteMemory) (h : Heap Owner) : Refilling [] (Sys.initial m h) :=
  ⟨(SysInv.initial m h).congr rfl rfl rfl, Keeps.initial m h,
    ⟨rfl, fun c member => by cases member⟩, fun _ _ => Nat.zero_le _, fun _ _ => Or.inl rfl⟩

/-- A step of such a run: the largest number of blocks follows the blocks out, and a chunk
comes only when it grows past what the slabs hold. -/
theorem Refilling.step {trace : List (Transition Sys Event)} {s s' : Sys} {e : Event}
    (refilling : Refilling trace s) (power : Words.PowerOfTwo P.maxAlign) (taken : Step P s e s')
    (proper : s.Proper P e) (supplied : s.Supplied P e s') (small : s.FreesSmall e) :
    Refilling (trace ++ [⟨s, e, s'⟩]) s' := by
  obtain ⟨inv, whole, counted, most, least⟩ := refilling
  have inv' := inv.next_solid power proper.1 proper.2 taken
  have whole' := whole_step whole taken power inv proper supplied small
  have last : ∀ t i,
      peak (trace ++ [⟨s, e, s'⟩]) t i = max (peak trace t i) (s'.heldCount t i) := by
    intro t i
    simp only [peak, Totals.highest_append, Totals.highest_cons]
    congr 1
    exact Nat.max_zero _
  refine ⟨inv', whole', counted.gains taken.gains, ?_, ?_⟩
  · intro t i
    have before := most t i
    have now := heldCount_le (t := t) (i := i) inv' whole'
    rw [last]
    rcases taken.counts power inv whole proper supplied t i with same | ⟨more, held⟩
    · rw [same] at now ⊢
      omega
    · rw [more, Nat.succ_mul] at now ⊢
      omega
  · intro t i
    rw [last]
    rcases taken.counts power inv whole proper supplied t i with same | ⟨more, held⟩
    · rw [same]
      rcases least t i with none | above
      · exact Or.inl none
      · right
        omega
    · right
      rw [more, Nat.add_sub_cancel]
      omega

theorem run_refilling (power : Words.PowerOfTwo P.maxAlign) {trace : List (Transition Sys Event)}
    (run : Run (Step P) (initial m h) trace s)
    (meets : ∀ x ∈ trace, x.before.Proper P x.event ∧ x.before.Supplied P x.event x.after ∧
      x.before.FreesSmall x.event) : Refilling trace s := by
  induction run with
  | nil => exact Refilling.initial m h
  | @snoc trace s s' e run taken ih =>
      have before := ih (fun x member => meets x (List.mem_append_left _ member))
      obtain ⟨proper, supplied, small⟩ := meets ⟨s, e, s'⟩ (by simp)
      exact before.step power taken proper supplied small

theorem Refilling.counts {trace : List (Transition Sys Event)} (refilling : Refilling trace s)
    (t : Nat) (i : SizeClass) :
    s.shared.chunkCount t i = refills (peak trace t i) (maxBlocks i) :=
  (refills_eq (SingleThreadAllocator.maxBlocks_positive i) (refilling.most t i)
    (refilling.least t i)).symm

/-- In every interleaving in which no chunk is refused, the chunks follow from the largest
numbers of blocks out at once. -/
theorem refills_exact (power : Words.PowerOfTwo P.maxAlign)
    {trace : List (Transition Sys Event)} (run : Run (Step P) (initial m h) trace s)
    (meets : ∀ x ∈ trace, x.before.Proper P x.event ∧ x.before.Supplied P x.event x.after ∧
      x.before.FreesSmall x.event) : RefillsExact trace s := by
  have refilling := run_refilling power run meets
  refine ⟨?_, ?_, refilling.counts, ?_⟩
  · intro x member t n r same small
    obtain ⟨past, rest, split, reached, _⟩ := run.reached x member
    have before := run_refilling power reached (fun y earlier =>
      meets y (by rw [split]; exact List.mem_append_left _ earlier))
    have supplied := (meets x member).2.1
    rw [same] at supplied
    exact supplied.answered before.inv small
  · intro x member
    obtain ⟨_, _, _, _, taken⟩ := run.reached x member
    cases taken.gains with
    | none carved total =>
        rw [carved]
        exact Nat.le_succ _
    | one carved total owner bytes => simp [carved]
  · intro T started
    have users : ∀ c ∈ s.shared.carved, ∀ t, c.user = some t → t ∈ T := by
      intro c member t user
      apply started t
      intro unborn
      have absent : s.solid.threads t = .unborn := congrArg Thread.solid unborn
      exact refilling.inv.unborn t absent c member user
    have few : s.shared.carved.length < Words.radix := Shared.carved_lt refilling.inv.shared
    rw [refilling.counted.total, Nat.mod_eq_of_lt few,
      Shared.length_carved users refilling.counted.bytes, Shared.directCount]
    congr 1
    apply Finset.sum_congr rfl
    intro t _
    apply Finset.sum_congr rfl
    intro i _
    exact refilling.counts t i

/-- A refill after 256 blocks. -/
theorem refills_exact_refilled : ∃ (trace : List (Transition Sys Event)) (s : Sys),
    Run (Step desktop) (initial (fun _ => 0) Heap.empty) trace s ∧ s.shared.chunkCount 0 0 = 1 ∧
      RefillsExact trace s := by
  obtain ⟨trace, s, run, steps, carved⟩ := refilled_run
  have counted : s.shared.chunkCount 0 0 = 1 := by
    rw [Shared.chunkCount, carved]
    decide
  refine ⟨trace, s, run, counted, refills_exact ⟨4, by decide, rfl⟩ run ?_⟩
  intro x member
  obtain ⟨supplied, proper, other⟩ := steps x member
  exact ⟨proper, supplied, freesSmall_other other⟩

theorem heldCount_setThread {t u : Nat} {i : SizeClass} {thread : Thread}
    (own : ∀ pool client, thread = .live pool client →
      (client.held i).length ≤ s.heldCount u i + 1) :
    (s.setThread u thread).heldCount t i ≤ s.heldCount t i + 1 := by
  by_cases same : t = u
  · subst same
    rw [heldCount, s.setThread_same t thread]
    cases thread with
    | unborn => exact Nat.zero_le _
    | exited => exact Nat.zero_le _
    | live pool client => exact own pool client rfl
  · rw [heldCount, s.setThread_other thread same]
    exact Nat.le_succ _

theorem Step.heldCount_le {s' : Sys} {e : Event} (taken : Step P s e s') (t : Nat)
    (i : SizeClass) : s'.heldCount t i ≤ s.heldCount t i + 1 := by
  cases taken with
  | @start u reply arenaReply a m' h' unborn done =>
      apply heldCount_setThread (s := s) (u := u)
      intro pool client same
      cases same
      exact Nat.zero_le _
  | startFails unborn done => exact Nat.le_succ _
  | @exit u pool client live =>
      apply heldCount_setThread (s := s.setHeap _) (u := u)
      intro pool' client' same
      cases same
  | @allocate u n pool pool' client reply chunkRecorded slabRecorded x g' m' live word done =>
      apply heldCount_setThread (s := s) (u := u)
      intro pool₁ client₁ same
      cases same
      rw [heldCount_live live]
      exact client.length_gain n x i
  | @allocateAligned u n alignment pool pool' client x live word power done =>
      apply heldCount_setThread (s := s) (u := u)
      intro pool₁ client₁ same
      cases same
      rw [heldCount_live live, client.held_gainAligned]
      exact Nat.le_succ _
  | @free u x p n j form pool pool' client m' live out names done =>
      apply heldCount_setThread (s := s) (u := u)
      intro pool₁ client₁ same
      cases same
      rw [heldCount_live live]
      exact Nat.le_succ_of_le (client.length_release j x i)
  | @freeArena u p n b form pool pool' client m' live out names done =>
      apply heldCount_setThread (s := s) (u := u)
      intro pool₁ client₁ same
      cases same
      rw [heldCount_live live]
      exact Nat.le_succ _
  | acquireChunk done => exact Nat.le_succ _
  | write writable => exact Nat.le_succ _
  | malloc done => exact Nat.le_succ _
  | mfree member owner => exact Nat.le_succ _

theorem peak_le_length {trace : List (Transition Sys Event)}
    (run : Run (Step P) (Sys.initial m h) trace s) (t : Nat) (i : SizeClass) :
    s.heldCount t i ≤ trace.length ∧ peak trace t i ≤ trace.length := by
  induction run with
  | nil => exact ⟨Nat.le_refl 0, Nat.le_refl 0⟩
  | @snoc trace s s' e run taken ih =>
      have grown := taken.heldCount_le t i
      simp only [peak, Totals.highest_append, Totals.highest_cons, List.length_append,
        List.length_singleton]
      simp only [peak] at ih
      have last :
          Totals.highest (fun x : Transition Sys Event => x.after.heldCount t i) [] = 0 := rfl
      omega

/-- A link that the client of a wrapped block has cleared makes the pool take a chunk for its
second block. -/
theorem refills_not_always_exact : ∃ (trace : List (Transition Sys Event)) (s : Sys),
    Run (Step desktop) (initial (fun _ => 0) Heap.empty) trace s ∧
      (∀ x ∈ trace, x.before.Supplied desktop x.event x.after ∧
        ∀ t form p n, x.event ≠ .free t form p n) ∧ ¬ RefillsExact trace s := by
  obtain ⟨trace, s, _, _, _, _, run, length, steps, _, _, _, carved⟩ := wiped_refill
  refine ⟨trace, s, run, steps, ?_⟩
  intro exact
  have counted : s.shared.chunkCount 1 0 = 1 := by
    rw [Shared.chunkCount, carved]
    decide
  have few : peak trace 1 0 ≤ 14 := by
    rw [← length]
    exact (peak_le_length run 1 0).2
  have none : refills (peak trace 1 0) (maxBlocks 0) = 0 := by
    rw [refills, Nat.sub_eq_zero_of_le (Nat.le_trans few (by decide))]
    decide
  have same := exact.counts 1 0
  rw [counted, none] at same
  cases same

end Sys

end MemAlloc
