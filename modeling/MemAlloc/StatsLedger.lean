import MemAlloc.Client
import MemAlloc.Construction
import MemAlloc.Lib.Runs

set_option autoImplicit false

namespace MemAlloc.StatsLedger

open ByteMemory (writeByte SameOutside)
open Runs (Run Transition)
open SingleThreadAllocator (Inv Granted Released SoundReply FreeForm ArenaServed)

/-- One allocator, its memory and what its client holds. -/
structure World where
  mem : ByteMemory
  alloc : SingleThreadAllocator
  client : Client

namespace World

def slabs (w : World) (i : SizeClass) : List Slab := (w.alloc.pools i).slabs blocksPerSlab

/-- What a request of `n` bytes consumes when it succeeds. -/
def cost (P : Platform) (w : World) (n : Nat) : Nat :=
  if n ≤ maxSmall then blockFor n else w.alloc.arena.padding P.maxAlign + n

end World

inductive Event where
  | allocate (n : Nat) (result : Except Exn (Option Nat))
  | allocateAligned (n alignment : Nat) (result : Option Nat)
  | free (form : FreeForm) (p n : Nat)
  | write (a : Nat) (b : UInt8)

/-- One call, or one client write to a byte it holds. The chunk source hands out fresh
chunks or nothing, the slab table grows, and no addition wraps around. -/
inductive Step (P : Platform) : World → Event → World → Prop
  | allocate {σ : Type} {w : World} {n : Nat} {source : ChunkSource σ} {e e' : σ} {chunk : Span}
      {x : Except Exn (Option Nat)} {a' : SingleThreadAllocator} {m' : ByteMemory}
      (room : w.alloc.stats.Room n (w.cost P n))
      (noWrap : maxSmall < n → w.alloc.arena.demand n P.maxAlign < Words.radix)
      (sound : ∀ small : n ≤ maxSmall, SoundReply w.alloc w.slabs w.mem chunk
        (source (sizeClassOf n small).bytes e w.mem))
      (done : w.alloc.allocate P source true n e w.mem = (x, a', e', m')) :
      Step P w (.allocate n x) ⟨m', a', w.client.gain n x⟩
  | allocateAligned {w : World} {n alignment : Nat} {x : Option Nat} {a' : SingleThreadAllocator}
      (power : Words.PowerOfTwo alignment)
      (room : w.alloc.stats.Room n (w.alloc.arena.padding alignment + n))
      (noWrap : w.alloc.arena.demand n alignment < Words.radix)
      (done : w.alloc.allocateAligned n alignment = (x, a')) :
      Step P w (.allocateAligned n alignment x) ⟨w.mem, a', w.client.gainAligned n x⟩
  | free {w : World} {i : SizeClass} {form : FreeForm} {x p n : Nat} {a' : SingleThreadAllocator}
      {m' : ByteMemory} (out : x ∈ w.client.held i) (names : form.Names ⟨x, i.bytes⟩ p)
      (small : n ≤ maxSmall) (cls : i = sizeClassOf n small) (room : w.alloc.stats.Room n i.bytes)
      (done : form.call w.alloc w.mem p n = .ok (a', m')) :
      Step P w (.free form p n) ⟨m', a', w.client.release i x⟩
  | freeArena {w : World} {form : FreeForm} {s : Span} {p n : Nat} {a' : SingleThreadAllocator}
      {m' : ByteMemory} (out : s ∈ w.client.bumped) (names : form.Names s p)
      (large : maxSmall < n) (done : form.call w.alloc w.mem p n = .ok (a', m')) :
      Step P w (.free form p n) ⟨m', a', w.client⟩
  | write {w : World} {i : SizeClass} {x a : Nat} {b : UInt8} (out : x ∈ w.client.held i)
      (inside : (Span.mk x i.bytes).Holds a) :
      Step P w (.write a b) { w with mem := writeByte w.mem a b }
  | writeArena {w : World} {s : Span} {a : Nat} {b : UInt8} (out : s ∈ w.client.bumped)
      (inside : s.Holds a) : Step P w (.write a b) { w with mem := writeByte w.mem a b }

/-- The free lists, the client's blocks and the counters tell the same story. -/
structure Balanced (w : World) (L : Ledger) : Prop where
  inv : Inv w.mem w.alloc L
  held : L.held = w.client.held
  bumped : L.bumped = w.client.bumped
  slabs : ∀ i, w.slabs i = L.linked i
  total : ∀ i, (L.free i).length + (L.held i).length = (w.alloc.pools i).totalBlocks blocksPerSlab
  counted : w.alloc.stats.Counted (w.client.bytesOut + w.alloc.arena.used)
    (w.client.blocksOut + w.client.bumped.length)

/-- The peak after a step is the larger of the old peak and the new live bytes. -/
def PeakFollows (w w' : World) : Prop :=
  w'.alloc.stats.peakAllocated = max w.alloc.stats.peakAllocated w'.alloc.stats.live

theorem PeakFollows.same {w w' : World} {L : Ledger} (balanced : Balanced w L)
    (stats : w'.alloc.stats = w.alloc.stats) : PeakFollows w w' := by
  have below := balanced.counted.livePeak
  simp only [PeakFollows, stats]
  omega

theorem totalBlocks_congr {pool pool' : BlockPool} {N : Nat}
    (slabs : pool'.slabs N = pool.slabs N) : pool'.totalBlocks N = pool.totalBlocks N := by
  rw [BlockPool.totalBlocks_eq (B := 8), BlockPool.totalBlocks_eq (B := 8), slabs]

theorem totalBlocks_link {pool pool' : BlockPool} {N : Nat} {s : Slab}
    (slabs : pool'.slabs N = pool.slabs N ++ [s]) :
    pool'.totalBlocks N = pool.totalBlocks N + s.numBlocks := by
  rw [BlockPool.totalBlocks_eq (B := 8), BlockPool.totalBlocks_eq (B := 8), slabs]
  simp [blocksOf]

namespace Balanced

variable {P : Platform} {w w' : World} {L L' : Ledger} {i : SizeClass} {n : Nat}

/-- A pool block has gone out, whatever the pool had to do for it. -/
theorem gainBlock {m' : ByteMemory} {pool : BlockPool} {p : Nat} (balanced : Balanced w L)
    (small : n ≤ maxSmall) (cls : i = sizeClassOf n small) (room : w.alloc.stats.Room n i.bytes)
    (inv : Inv m' ((w.alloc.setPool i pool).recordAlloc n i.bytes) L')
    (held : L'.held = (w.client.gainBlock i p).held) (bumped : L'.bumped = w.client.bumped)
    (slabs : pool.slabs blocksPerSlab = L'.linked i)
    (others : ∀ j, j ≠ i → L'.linked j = L.linked j ∧ L'.free j = L.free j)
    (total : (L'.free i).length + (L'.held i).length = pool.totalBlocks blocksPerSlab) :
    Balanced ⟨m', (w.alloc.setPool i pool).recordAlloc n i.bytes, w.client.gainBlock i p⟩ L' ∧
      PeakFollows w
        ⟨m', (w.alloc.setPool i pool).recordAlloc n i.bytes, w.client.gainBlock i p⟩ := by
  have covers : n ≤ i.bytes := cls ▸ le_bytes_sizeClassOf small
  obtain ⟨counted, peak⟩ := balanced.counted.recordAlloc room covers
  have pools : ∀ j, j ≠ i →
      ((w.alloc.setPool i pool).recordAlloc n i.bytes).pools j = w.alloc.pools j :=
    fun j different => Function.update_of_ne different _ _
  have here : ((w.alloc.setPool i pool).recordAlloc n i.bytes).pools i = pool :=
    Function.update_self i _ _
  refine ⟨⟨inv, held, bumped, ?_, ?_, ?_⟩, peak⟩
  · intro j
    by_cases same : j = i
    · subst same
      simpa only [World.slabs, here] using slabs
    · simp only [World.slabs, pools j same, (others j same).1]
      exact balanced.slabs j
  · intro j
    by_cases same : j = i
    · subst same
      simpa only [here] using total
    · have before := balanced.total j
      rw [balanced.held] at before
      simpa only [pools j same, held, (others j same).2, Client.gainBlock,
        Function.update_of_ne same] using before
  · rw [Client.bytesOut_gainBlock, Client.blocksOut_gainBlock]
    have bytes : w.client.bytesOut + i.bytes + w.alloc.arena.used =
        w.client.bytesOut + w.alloc.arena.used + i.bytes := by omega
    have blocks : w.client.blocksOut + 1 + w.client.bumped.length =
        w.client.blocksOut + w.client.bumped.length + 1 := by omega
    change Stats.Counted _ (w.client.bytesOut + i.bytes + w.alloc.arena.used)
      (w.client.blocksOut + 1 + w.client.bumped.length)
    rw [bytes, blocks]
    exact counted

/-- A block has been cut off the arena. -/
theorem gainSpan {m' : ByteMemory} {a' : SingleThreadAllocator} {alignment p : Nat}
    (balanced : Balanced w L)
    (room : w.alloc.stats.Room n (w.alloc.arena.padding alignment + n))
    (served : ArenaServed w.alloc n alignment p a') (inv : Inv m' a' (L.bump ⟨p, n⟩)) :
    Balanced ⟨m', a', w.client.gainSpan ⟨p, n⟩⟩ (L.bump ⟨p, n⟩) ∧
      PeakFollows w ⟨m', a', w.client.gainSpan ⟨p, n⟩⟩ := by
  obtain ⟨counted, peak⟩ := balanced.counted.recordAlloc room (Nat.le_add_left _ _)
  refine ⟨⟨inv, balanced.held, congrArg _ balanced.bumped, ?_, ?_, ?_⟩, ?_⟩
  · intro j
    simp only [World.slabs, served.pools]
    exact balanced.slabs j
  · intro j
    simp only [served.pools]
    exact balanced.total j
  · simp only [served.stats, served.used, Client.gainSpan, List.length_cons]
    have bytes : w.client.bytesOut + (w.alloc.arena.used + (w.alloc.arena.padding alignment + n)) =
        w.client.bytesOut + w.alloc.arena.used + (w.alloc.arena.padding alignment + n) := by omega
    change Stats.Counted _
      (w.client.bytesOut + (w.alloc.arena.used + (w.alloc.arena.padding alignment + n)))
      (w.client.blocksOut + (w.client.bumped.length + 1))
    rw [bytes]
    exact counted
  · simpa only [PeakFollows, served.stats] using peak

theorem keep {m' : ByteMemory} (balanced : Balanced w L) (inv : Inv m' w.alloc L) :
    Balanced { w with mem := m' } L :=
  ⟨inv, balanced.held, balanced.bumped, balanced.slabs, balanced.total, balanced.counted⟩

theorem allocate {m' : ByteMemory} {a' : SingleThreadAllocator} {x : Except Exn (Option Nat)}
    (balanced : Balanced w L) (room : w.alloc.stats.Room n (w.cost P n))
    {body : Option Nat} (granted : Granted P true w.alloc L n body x a' L') (inv : Inv m' a' L') :
    Balanced ⟨m', a', w.client.gain n x⟩ L' ∧ PeakFollows w ⟨m', a', w.client.gain n x⟩ := by
  have smallCost : ∀ small : n ≤ maxSmall, w.cost P n = (sizeClassOf n small).bytes :=
    fun small => (if_pos small).trans (blockFor_eq small)
  cases granted with
  | @pool i p head rest small cls stocked =>
      subst cls
      rw [smallCost small] at room
      have before := balanced.total (sizeClassOf n small)
      rw [stocked, List.length_cons] at before
      simp only [Client.gain, small, ↓reduceDIte]
      refine balanced.gainBlock small rfl room inv ?_ balanced.bumped ?_ ?_ ?_
      · simp only [Ledger.take, Ledger.setPool, Client.gainBlock, balanced.held]
      · simp only [Ledger.take, Ledger.setPool, Function.update_self]
        exact balanced.slabs _
      · intro j different
        simp [Ledger.take, Ledger.setPool, different]
      · simp only [Ledger.take, Ledger.setPool, Function.update_self, List.length_cons]
        change _ = (w.alloc.pools (sizeClassOf n small)).totalBlocks blocksPerSlab
        omega
  | refused small cls empty unanswered =>
      rw [Client.gain_unanswered w.client n unanswered]
      exact ⟨balanced.keep inv, PeakFollows.same balanced rfl⟩
  | lost unrecorded => cases unrecorded
  | @refilled i body head rest grown small cls empty blocks =>
      subst cls
      rw [smallCost small] at room
      have before := balanced.total (sizeClassOf n small)
      have count := congrArg List.length blocks
      rw [Slab.length_blocks, List.length_cons] at count
      rw [empty, List.length_nil, Nat.zero_add] at before
      simp only [Client.gain, small, ↓reduceDIte]
      refine balanced.gainBlock small rfl room inv ?_ balanced.bumped ?_ ?_ ?_
      · simp only [Ledger.take, Ledger.link, Ledger.setPool, Client.gainBlock, balanced.held,
          Function.update_self, Function.update_idem, Function.update_eq_self]
      · simp only [Ledger.take, Ledger.link, Ledger.setPool, Function.update_self,
          BlockPool.grown_slabs]
        rw [← balanced.slabs]
        rfl
      · intro j different
        simp [Ledger.take, Ledger.link, Ledger.setPool, different]
      · simp only [Ledger.take, Ledger.link, Ledger.setPool, Function.update_self,
          totalBlocks_link (BlockPool.grown_slabs _ true _ _ _), List.length_cons]
        omega
  | @arena p a' large served =>
      have notSmall : ¬ n ≤ maxSmall := Nat.not_le.mpr large
      rw [World.cost, if_neg notSmall] at room
      simp only [Client.gain, notSmall, ↓reduceDIte]
      exact balanced.gainSpan room served inv
  | arenaFull large full => exact ⟨balanced.keep inv, PeakFollows.same balanced rfl⟩

theorem release {m' : ByteMemory} {x : Nat} (balanced : Balanced w L) (small : n ≤ maxSmall)
    (cls : i = sizeClassOf n small) (out : x ∈ w.client.held i)
    (room : w.alloc.stats.Room n i.bytes)
    (inv : Inv m' (w.alloc.afterFree n i x) (L.giveBack i x)) :
    Balanced ⟨m', w.alloc.afterFree n i x, w.client.release i x⟩ (L.giveBack i x) ∧
      PeakFollows w ⟨m', w.alloc.afterFree n i x, w.client.release i x⟩ := by
  have covers : n ≤ i.bytes := cls ▸ le_bytes_sizeClassOf small
  have before := balanced.counted
  rw [Client.bytesOut_release out, Client.blocksOut_release out,
    show (w.client.release i x).bytesOut + i.bytes + w.alloc.arena.used =
      (w.client.release i x).bytesOut + w.alloc.arena.used + i.bytes by omega,
    show (w.client.release i x).blocksOut + 1 + w.client.bumped.length =
      (w.client.release i x).blocksOut + w.client.bumped.length + 1 by omega] at before
  obtain ⟨counted, peak⟩ := before.recordFree room covers
  have slabs : ∀ j, ((w.alloc.afterFree n i x).pools j).slabs blocksPerSlab =
      (w.alloc.pools j).slabs blocksPerSlab := by
    intro j
    by_cases same : j = i
    · subst same
      simp [SingleThreadAllocator.afterFree, SingleThreadAllocator.setPool, BlockPool.slabs]
    · simp [SingleThreadAllocator.afterFree, SingleThreadAllocator.setPool, same]
  refine ⟨⟨inv, ?_, balanced.bumped, ?_, ?_, counted⟩, peak⟩
  · simp only [Ledger.giveBack, Ledger.setPool, Client.release, balanced.held]
  · intro j
    simp only [World.slabs, slabs j, Ledger.giveBack, Ledger.setPool, Function.update_eq_self]
    exact balanced.slabs j
  · intro j
    rw [totalBlocks_congr (slabs j), ← balanced.total j]
    by_cases same : j = i
    · subst same
      have listed : x ∈ L.held j := balanced.held ▸ out
      have positive := List.length_pos_of_mem listed
      simp only [Ledger.giveBack, Ledger.setPool, Function.update_self, List.length_cons,
        List.length_erase_of_mem listed]
      omega
    · simp [Ledger.giveBack, Ledger.setPool, same]

theorem step {e : Event} (balanced : Balanced w L) (power : Words.PowerOfTwo P.maxAlign)
    (taken : Step P w e w') : ∃ L', Balanced w' L' ∧ PeakFollows w w' := by
  cases taken with
  | @allocate σ _ n source env env' chunk x a' m' room noWrap sound done =>
      have word : n < Words.radix := Nat.lt_of_le_of_lt (Nat.le_add_left _ _) room.1
      have linked : w.slabs = L.linked := funext balanced.slabs
      rw [linked] at sound
      obtain ⟨_, _, _, _, L', _, run, granted, inv, _⟩ :=
        balanced.inv.allocate true power word (fun large => Or.inl (noWrap large)) sound
      rw [done] at run
      cases run
      exact ⟨L', balanced.allocate room granted inv⟩
  | @allocateAligned _ n alignment x a' powerOfTwo room noWrap done =>
      have word : n < Words.radix := Nat.lt_of_le_of_lt (Nat.le_add_left _ _) room.1
      rw [SingleThreadAllocator.allocateAligned] at done
      by_cases fits : w.alloc.arena.demand n alignment ≤ w.alloc.arena.capacity
      · obtain ⟨p, served, run, effect⟩ := balanced.inv.arenaAllocate_fits powerOfTwo fits
        rw [run] at done
        cases done
        exact ⟨_, balanced.gainSpan room effect (balanced.inv.bump effect)⟩
      · rw [balanced.inv.arenaAllocate_full word powerOfTwo (Or.inl noWrap)
          (Nat.lt_of_not_le fits)] at done
        cases done
        exact ⟨L, balanced.keep balanced.inv, PeakFollows.same balanced rfl⟩
  | @free _ i form x p n a' m' out names small cls room done =>
      have listed : x ∈ L.held i := balanced.held ▸ out
      obtain ⟨L', released, inv, _⟩ := balanced.inv.free listed names done
      cases released with
      | pool _ _ => exact ⟨_, balanced.release small cls out room inv⟩
      | ignored large => exact absurd small (Nat.not_le.mpr large)
  | @freeArena _ form s p n a' m' out names large done =>
      rw [form.call_large _ _ large] at done
      cases done
      exact ⟨L, balanced, PeakFollows.same balanced rfl⟩
  | @write _ i x a b out inside =>
      have listed : x ∈ L.held i := balanced.held ▸ out
      have inv := balanced.inv.liveWrite listed (SameOutside.writeByte w.mem a b) (by
        intro t written
        obtain rfl := List.mem_singleton.mp written
        exact ⟨inside.1, inside.2⟩)
      exact ⟨L, balanced.keep inv, PeakFollows.same balanced rfl⟩
  | @writeArena _ s a b out inside =>
      have region := balanced.inv.bumped_inside (balanced.bumped ▸ out)
      have inv := balanced.inv.arenaWrite (SameOutside.writeByte w.mem a b) (by
        intro t written
        obtain rfl := List.mem_singleton.mp written
        exact ⟨Nat.le_trans region.1 inside.1, Nat.le_trans inside.2 region.2⟩)
      exact ⟨L, balanced.keep inv, PeakFollows.same balanced rfl⟩

/-- The walks of all free lists terminate, and the occupancy they report is the ledger's. -/
theorem occupancy (balanced : Balanced w L) {fuel : Nat}
    (enough : ∀ i, (w.alloc.pools i).totalBlocks blocksPerSlab < fuel) :
    w.alloc.occupancy fuel w.mem = some
      { freeCount := fun i => (L.free i).length
        cap := fun i => (w.alloc.pools i).totalBlocks blocksPerSlab
        arenaUsed := w.alloc.arena.used
        arenaCap := w.alloc.arena.capacity } := by
  have count : ∀ i, (w.alloc.pools i).freeCount fuel w.mem = some (L.free i).length := by
    intro i
    have total := balanced.total i
    have room := enough i
    rw [BlockPool.freeCount, BlockPool.freeCountFrom_linked (balanced.inv.pools i).links
      (by omega), Nat.zero_add]
  simp [SingleThreadAllocator.occupancy, count]

theorem used (balanced : Balanced w L) (i : SizeClass) :
    (w.alloc.pools i).totalBlocks blocksPerSlab - (L.free i).length =
      (w.client.held i).length := by
  have total := balanced.total i
  rw [balanced.held] at total
  omega

end Balanced

section Run

variable {τ : Type} {P : Platform} {owner : SizeClass → τ} {arenaOwner : τ}
  {reply : SizeClass → SlabReply} {arenaReply : Option Nat} {h h' : Malloc.Heap τ}
  {m₀ m : ByteMemory} {a : SingleThreadAllocator}

theorem Balanced.start (different : Function.Injective owner) (apart : ∀ i, owner i ≠ arenaOwner)
    (built : SingleThreadAllocator.new P owner arenaOwner reply arenaReply h m₀ =
      (.ok (a, m), h')) : Balanced ⟨m, a, Client.none⟩ a.newLedger := by
  obtain ⟨inv, _, stats, used, external, _⟩ :=
    SingleThreadAllocator.new_ok different apart built
  refine ⟨inv, rfl, rfl, ?_, ?_, ?_⟩
  · intro i
    simp [World.slabs, BlockPool.slabs, external, SingleThreadAllocator.newLedger]
  · intro i
    simp [BlockPool.totalBlocks, external, SingleThreadAllocator.newLedger]
  · have nothing : Client.none.bytesOut + a.arena.used = 0 := by
      simp [Client.bytesOut, Client.none, used]
    have noBlock : Client.none.blocksOut + Client.none.bumped.length = 0 := by
      simp [Client.blocksOut, Client.none]
    rw [stats, nothing, noBlock]
    exact Stats.Counted.zero

/-- The largest `live` any state of the run has shown. -/
def highestLive (trace : List (Transition World Event)) : Nat :=
  (trace.map (fun x => x.after.alloc.stats.live)).foldl max 0

theorem peak_eq (power : Words.PowerOfTwo P.maxAlign) {w₀ w : World} {L₀ : Ledger}
    (balanced : Balanced w₀ L₀) (fresh : w₀.alloc.stats.peakAllocated = 0)
    {trace : List (Transition World Event)} (run : Run (Step P) w₀ trace w) :
    (∃ L, Balanced w L) ∧ w.alloc.stats.peakAllocated = highestLive trace := by
  induction run with
  | nil => exact ⟨⟨L₀, balanced⟩, fresh⟩
  | @snoc trace s t e _ taken ih =>
      obtain ⟨⟨L, before⟩, peak⟩ := ih
      obtain ⟨L', after, follows⟩ := before.step power taken
      refine ⟨⟨L', after⟩, ?_⟩
      rw [highestLive, List.map_append, List.foldl_append]
      exact follows.trans (congrArg (max · _) peak)

/-- A free never takes more from the live bytes than there is. -/
theorem Balanced.covers_free {w w' : World} {L : Ledger} (balanced : Balanced w L)
    {form : FreeForm} {p n : Nat} (taken : Step P w (.free form p n) w') (small : n ≤ maxSmall) :
    blockFor n ≤ w.alloc.stats.live := by
  cases taken with
  | @free _ i _ x _ _ a' m' out names small cls room done =>
      have bytes := Client.bytesOut_release out
      rw [blockFor_eq small, ← cls, balanced.counted.live]
      omega
  | freeArena out names large done => exact absurd small (Nat.not_le.mpr large)

/-- The byte counters and the free lists agree. After every run of a newly constructed
allocator, the walks of the free lists terminate, no pool has more free blocks than
blocks, `live` is what the pools and the arena report as used and never underflowed,
the peak is the highest `live` of the run, the operation counters differ by the blocks
that are out, and no more bytes were requested than allocated. -/
theorem ledgers_agree (power : Words.PowerOfTwo P.maxAlign)
    (different : Function.Injective owner) (apart : ∀ i, owner i ≠ arenaOwner)
    (built : SingleThreadAllocator.new P owner arenaOwner reply arenaReply h m₀ =
      (.ok (a, m), h'))
    {trace : List (Transition World Event)} {w : World}
    (run : Run (Step P) ⟨m, a, Client.none⟩ trace w) :
    ∃ occ : SingleThreadAllocator.Occupancy,
      (∀ fuel, (∀ i, occ.cap i < fuel) → w.alloc.occupancy fuel w.mem = some occ) ∧
      (∀ i, occ.freeCount i ≤ occ.cap i) ∧
      w.alloc.stats.live =
        ∑ i : SizeClass, (occ.cap i - occ.freeCount i) * i.bytes + occ.arenaUsed ∧
      (∀ x ∈ trace, ∀ form p n, x.event = .free form p n → n ≤ maxSmall →
        blockFor n ≤ x.before.alloc.stats.live) ∧
      w.alloc.stats.peakAllocated = highestLive trace ∧
      w.alloc.stats.allocCount = w.alloc.stats.freeCount +
        (∑ i, (w.client.held i).length + w.client.bumped.length) ∧
      w.alloc.stats.requested ≤ w.alloc.stats.allocated := by
  have start := Balanced.start different apart built
  have fresh : a.stats.peakAllocated = 0 := by
    rw [(SingleThreadAllocator.new_ok different apart built).2.2.1]
    rfl
  obtain ⟨⟨L, balanced⟩, peak⟩ := peak_eq power start fresh run
  refine ⟨_, fun fuel enough => balanced.occupancy enough, ?_, ?_, ?_, peak,
    balanced.counted.counts, balanced.counted.ratio⟩
  · intro i
    have total := balanced.total i
    simp only
    omega
  · rw [balanced.counted.live]
    simp only [balanced.used]
    rfl
  · intro x member form p n freed small
    obtain ⟨past, _, _, reached, taken⟩ := run.reached x member
    obtain ⟨⟨_, before⟩, _⟩ := peak_eq power start fresh reached
    rw [freed] at taken
    exact before.covers_free taken small

/-- The first free block of a class goes out. -/
theorem takes_first {P : Platform} {w : World} {n p : Nat} (small : n ≤ maxSmall)
    (head : (w.alloc.pools (sizeClassOf n small)).head = p) (nonnull : p ≠ 0)
    (room : w.alloc.stats.Room n (blockFor n)) :
    ∃ w', Step P w (.allocate n (.ok (some p))) w' ∧ w'.mem = w.mem ∧
      w'.client = w.client.gainBlock (sizeClassOf n small) p ∧
      w'.alloc.stats = w.alloc.stats.recordAlloc n (sizeClassOf n small).bytes ∧
      w'.alloc.pools (sizeClassOf n small) = { w.alloc.pools (sizeClassOf n small) with
        head := ByteMemory.readWord w.mem p } := by
  have sound : ∀ small : n ≤ maxSmall, SoundReply w.alloc w.slabs w.mem ⟨0, 0⟩
      (ChunkSource.none (sizeClassOf n small).bytes () w.mem) := by
    refine fun _ => ⟨⟨fun i s _ => Or.inl (Nat.zero_le _), Or.inl (Nat.zero_le _), by decide⟩,
      SameOutside.refl _ _, ?_⟩
    intro b answered
    cases answered
  have cost : w.cost P n = blockFor n := if_pos small
  refine ⟨_, .allocate (cost ▸ room) (fun large => absurd small (Nat.not_le.mpr large)) sound
    (SingleThreadAllocator.allocate_stocked ChunkSource.none true () small head nonnull), rfl,
    dif_pos small, rfl, ?_⟩
  simp [SingleThreadAllocator.recordAlloc, SingleThreadAllocator.setPool]

/-- Two blocks go out, and the first one comes back. -/
theorem ledgers_agree_first : ∃ (trace : List (Transition World Event)) (w : World) (p : Nat),
    (trace.map fun x => x.event) = [.allocate 16 (.ok (some p)),
      .allocate 16 (.ok (some (p + 16))), .free .start p 16] ∧
      w.client.held 0 = [p + 16] ∧ w.alloc.stats.peakAllocated = highestLive trace ∧
      w.alloc.stats.allocCount = w.alloc.stats.freeCount +
        (∑ i, (w.client.held i).length + w.client.bumped.length) := by
  obtain ⟨a, m, h, built, slab, _⟩ := SingleThreadAllocator.new_possible some none (fun _ => 0)
    Malloc.Heap.empty (Nat.dvd_refl 1048576) (by decide) (fun b member => by cases member)
  have power : Words.PowerOfTwo desktop.maxAlign := ⟨4, by decide, rfl⟩
  have apart : ∀ i : SizeClass, some i ≠ none := fun i => Option.some_ne_none i
  have zero := (SingleThreadAllocator.new_ok (Option.some_injective _) apart built).2.2.1
  obtain ⟨head, next⟩ := SingleThreadAllocator.new_heads (Option.some_injective _) apart built 0
  have positive : (a.pools 0).slab ≠ 0 := by
    simp [slab, spreadAddress]
  have small : 16 ≤ maxSmall := by decide
  have cls : sizeClassOf 16 small = 0 := rfl
  obtain ⟨w₁, first, mem₁, client₁, stats₁, pools₁⟩ := takes_first (P := desktop)
    (w := ⟨m, a, Client.none⟩) small (by rw [cls]; exact head) positive
    (by rw [zero]; exact ⟨by decide, by decide, by decide, by decide⟩)
  obtain ⟨w₂, second, mem₂, client₂, stats₂, pools₂⟩ := takes_first (P := desktop) (w := w₁) small
    (p := (a.pools 0).slab + 16) (by rw [pools₁]; exact next) (by omega)
    (by rw [stats₁, zero, cls]; exact ⟨by decide, by decide, by decide, by decide⟩)
  rw [cls] at client₁ client₂ pools₁ pools₂
  have held : w₂.client.held 0 = [(a.pools 0).slab + 16, (a.pools 0).slab] := by
    rw [client₂, client₁]
    simp [Client.gainBlock, Client.none]
  have owned : (w₂.alloc.pools (sizeClassOf 16 small)).ownsBlock
      (sizeClassOf 16 small).bytes blocksPerSlab (a.pools 0).slab = true := by
    rw [cls, pools₂, pools₁]
    exact BlockPool.ownsBlock_slab _ (by decide) (by decide)
  obtain ⟨a₃, m₃, done⟩ := SingleThreadAllocator.deallocate_owned (m := w₂.mem) small positive owned
  have freed : Step desktop w₂ (.free .start (a.pools 0).slab 16) _ :=
    .free (i := 0) (by rw [held]; simp) rfl small rfl (by
      rw [stats₂, stats₁, zero, cls]
      exact ⟨by decide, by decide, by decide, by decide⟩) done
  obtain ⟨_, _, _, _, _, peak, counts, _⟩ := ledgers_agree power (Option.some_injective _) apart
    built (((Run.nil.snoc first).snoc second).snoc freed)
  refine ⟨_, _, (a.pools 0).slab, rfl, ?_, peak, counts⟩
  simp [Client.release, held]

end Run

end MemAlloc.StatsLedger
