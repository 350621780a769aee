import MemAlloc.ThreadSafety

set_option autoImplicit false

namespace MemAlloc

open Malloc (Heap addressLimit)
open Runs (Run Transition)

/-- The address ranges of everything the client holds, whole size-class blocks included. -/
def Client.spans (c : Client) : List Span :=
  (List.finRange 7).flatMap (fun i => (c.held i).map (fun x => ⟨x, SizeClass.bytes i⟩)) ++
    c.bumped

theorem Client.mem_spans {c : Client} {r : Span} :
    r ∈ c.spans ↔ (∃ i, ∃ x ∈ c.held i, r = ⟨x, SizeClass.bytes i⟩) ∨ r ∈ c.bumped := by
  simp only [spans, List.mem_append, List.mem_flatMap, List.mem_finRange, true_and, List.mem_map,
    eq_comm (b := r)]

namespace ThreadInv

variable {m : ByteMemory} {g : Shared} {t : Nat} {a : SingleThreadAllocator} {client : Client}
  {free : SizeClass → List Nat}

theorem spans_region (inv : ThreadInv m g t a client free) {r : Span} (out : r ∈ client.spans) :
    ∃ q, Region g t a q ∧ r.Inside q := by
  rcases Client.mem_spans.mp out with ⟨i, x, held, rfl⟩ | bumped
  · exact inv.held_region held
  · exact ⟨_, inv.bumped_region bumped⟩

/-- Blocks of the same class avoid each other, blocks of different classes lie in different
slabs, and the arena holds none of them. -/
theorem spans_apart (inv : ThreadInv m g t a client free) :
    client.spans.Pairwise Span.Apart := by
  refine List.pairwise_append.mpr ⟨List.pairwise_flatMap.mpr ⟨?_, ?_⟩, inv.alloc.bumped.apart, ?_⟩
  · intro i _
    have distinct : (client.held i).Nodup := (List.nodup_append'.mp (inv.alloc.pools i).nodup).2.1
    refine List.pairwise_map.mpr (distinct.imp_of_mem ?_)
    intro x y left right different
    exact (inv.alloc.pools i).blocks_apart (List.mem_append_right _ left)
      (List.mem_append_right _ right) different
  · refine (List.nodup_finRange 7).imp ?_
    intro i j different r left q right
    obtain ⟨x, out, rfl⟩ := List.mem_map.mp left
    obtain ⟨y, out', rfl⟩ := List.mem_map.mp right
    obtain ⟨s, linked, block⟩ := inv.alloc.mem_linked (i := j) (List.mem_append_right _ out')
    exact (inv.alloc.block_apart (List.mem_append_right _ out) different linked).mono
      (Span.Inside.refl _) (Slab.block_inside block)
  · intro r left b right
    obtain ⟨i, _, listed⟩ := List.mem_flatMap.mp left
    obtain ⟨x, out, rfl⟩ := List.mem_map.mp listed
    obtain ⟨s, linked, block⟩ := inv.alloc.mem_linked (i := i) (List.mem_append_right _ out)
    exact (inv.alloc.arenaApart i s linked).mono (Slab.block_inside block)
      (inv.alloc.bumped_inside right)

end ThreadInv

namespace Sys

variable {P : Platform} {s : Sys}

/-- The blocks that are out on a thread; none before its start and after its exit. -/
def liveSpans (s : Sys) (t : Nat) : List Span :=
  match s.threads t with
  | .live _ client => client.spans
  | _ => []

/-- The regions of a thread's allocator while the thread lives. -/
inductive OwnRegion (s : Sys) (t : Nat) (r : Span) : Prop
  | intro {pool : ThreadPoolAlloc} {client : Client} (live : s.threads t = .live pool client)
      (region : Region s.shared t pool.alloc r)

/-- All blocks that are out, on all threads, share no byte with each other or with a
chunk header, and each lies in a region of its own thread. -/
structure Separated (s : Sys) : Prop where
  owned : ∀ t, ∀ r ∈ s.liveSpans t, ∃ q, s.OwnRegion t q ∧ r.Inside q
  within : ∀ t, (s.liveSpans t).Pairwise Span.Apart
  across : ∀ t u, t ≠ u → ∀ r ∈ s.liveSpans t, ∀ q ∈ s.liveSpans u, r.Apart q
  headers : ∀ t, ∀ r ∈ s.liveSpans t, ∀ c ∈ s.shared.carved, r.Apart c.header

theorem mem_liveSpans {t : Nat} {r : Span} (out : r ∈ s.liveSpans t) :
    ∃ pool client, s.threads t = .live pool client ∧ r ∈ client.spans := by
  rw [liveSpans] at out
  split at out
  · rename_i pool client live
    exact ⟨pool, client, live, out⟩
  · cases out

theorem liveSpans_live {t : Nat} {pool : ThreadPoolAlloc} {client : Client}
    (live : s.threads t = .live pool client) : s.liveSpans t = client.spans := by
  rw [liveSpans, live]

/-- The call handed thread `t` the block `r` for a request of `n` bytes. -/
inductive Event.Returns : Event → Nat → Nat → Span → Prop
  | allocate {t n p : Nat} :
      Returns (.allocate t n (.ok (some p))) t n ⟨p, if n ≤ maxSmall then blockFor n else n⟩
  | allocateAligned {t n alignment p : Nat} :
      Returns (.allocateAligned t n alignment (some p)) t n ⟨p, n⟩

theorem Event.Returns.size {e : Event} {t n : Nat} {r : Span} (returned : e.Returns t n r) :
    n ≤ r.size := by
  cases returned with
  | allocate =>
      simp only
      split
      · rename_i small
        rw [blockFor_eq small]
        exact le_bytes_sizeClassOf small
      · exact Nat.le_refl n
  | allocateAligned => exact Nat.le_refl n

theorem Step.returned {s' : Sys} {e : Event} {t n : Nat} {r : Span} (taken : Step P s e s')
    (returned : e.Returns t n r) : r ∈ s'.liveSpans t := by
  cases taken with
  | allocate live word done =>
      cases returned with
      | @allocate _ _ p =>
          rw [liveSpans_live (Function.update_self t _ _), Client.mem_spans]
          by_cases small : n ≤ maxSmall
          · left
            refine ⟨sizeClassOf n small, p, ?_, ?_⟩
            · simp [Client.gain, small, Client.gainBlock]
            · rw [if_pos small, blockFor_eq small]
          · right
            rw [if_neg small]
            simp [Client.gain, small, Client.gainSpan]
  | allocateAligned live word power done =>
      cases returned with
      | @allocateAligned _ _ _ p =>
          rw [liveSpans_live (Function.update_self t _ _), Client.mem_spans]
          right
          simp [Client.gainAligned, Client.gainSpan]
  | _ => cases returned

end Sys

theorem SysInv.separated {s : Sys} (inv : SysInv s) : s.Separated := by
  refine ⟨?_, ?_, ?_, ?_⟩
  · intro t r out
    obtain ⟨pool, client, live, listed⟩ := Sys.mem_liveSpans out
    obtain ⟨free, thread⟩ := inv.live t pool client live
    obtain ⟨q, region, inside⟩ := thread.spans_region listed
    exact ⟨q, ⟨live, region⟩, inside⟩
  · intro t
    cases status : s.threads t with
    | live pool client =>
        obtain ⟨free, thread⟩ := inv.live t pool client status
        rw [Sys.liveSpans_live status]
        exact thread.spans_apart
    | unborn =>
        rw [Sys.liveSpans, status]
        exact List.Pairwise.nil
    | exited =>
        rw [Sys.liveSpans, status]
        exact List.Pairwise.nil
  · intro t u different r left q right
    obtain ⟨pool, client, live, listed⟩ := Sys.mem_liveSpans left
    obtain ⟨pool', client', live', listed'⟩ := Sys.mem_liveSpans right
    obtain ⟨free, thread⟩ := inv.live t pool client live
    obtain ⟨free', thread'⟩ := inv.live u pool' client' live'
    obtain ⟨_, region, inside⟩ := thread.spans_region listed
    obtain ⟨_, region', inside'⟩ := thread'.spans_region listed'
    exact ((thread.home region).apart inv.shared (thread'.home region') different).mono inside
      inside'
  · intro t r out c member
    obtain ⟨pool, client, live, listed⟩ := Sys.mem_liveSpans out
    obtain ⟨free, thread⟩ := inv.live t pool client live
    obtain ⟨_, region, inside⟩ := thread.spans_region listed
    exact (thread.header_apart inv.shared region member).mono inside (Span.Inside.refl _)

namespace Sys

variable {P : Platform} {m : ByteMemory} {h : Heap Owner}

theorem run_inv (power : Words.PowerOfTwo P.maxAlign) {trace : List (Transition Sys Event)}
    {s : Sys} (run : Run (Step P) (initial m h) trace s)
    (bounded : ∀ x ∈ trace, x.event.Bounded P) : SysInv s :=
  run.invariantWhere (SysInv.initial m h)
    (fun _ _ _ inv small taken =>
      have sums := inv.noWrap power small taken
      inv.next power sums.1 sums.2 taken) bounded

/-- Memory safety of the per-thread allocators. In every state of every interleaving the
blocks that are out are separated, and every pointer a call returned was the start of such
a block, as large as requested, inside a region of the calling thread. -/
theorem blocks_separated (power : Words.PowerOfTwo P.maxAlign)
    {trace : List (Transition Sys Event)} {s : Sys}
    (run : Run (Step P) (initial m h) trace s) (bounded : ∀ x ∈ trace, x.event.Bounded P) :
    s.Separated ∧ ∀ x ∈ trace, x.after.Separated ∧ ∀ t n r, x.event.Returns t n r →
      r ∈ x.after.liveSpans t ∧ n ≤ r.size ∧ ∃ q, x.after.OwnRegion t q ∧ r.Inside q := by
  refine ⟨(run_inv power run bounded).separated, ?_⟩
  intro x member
  obtain ⟨past, rest, split, reached, taken⟩ := run.reached x member
  have before := run_inv power reached (fun y earlier =>
    bounded y (by rw [split]; exact List.mem_append_left _ earlier))
  have sums := before.noWrap power (bounded x member) taken
  have separated := (before.next power sums.1 sums.2 taken).separated
  refine ⟨separated, fun t n r returned => ?_⟩
  have out := taken.returned returned
  exact ⟨out, returned.size, separated.owned t r out⟩

/-- A thread takes the first free block of a class. -/
theorem takes_first {s : Sys} {t n p : Nat} {pool : ThreadPoolAlloc} {client : Client}
    (live : s.threads t = .live pool client) (small : n ≤ maxSmall)
    (head : (pool.alloc.pools (sizeClassOf n small)).head = p) (nonnull : p ≠ 0) :
    ∃ s' pool', Step P s (.allocate t n (.ok (some p))) s' ∧
      s'.threads t = .live pool' (client.gainBlock (sizeClassOf n small) p) ∧ s'.mem = s.mem ∧
      s'.shared = s.shared ∧
      pool'.alloc.pools (sizeClassOf n small) = { pool.alloc.pools (sizeClassOf n small) with
        head := ByteMemory.readWord s.mem p } := by
  have word : n < Words.radix :=
    Nat.lt_of_le_of_lt small (by simp only [maxSmall, Words.radix]; omega)
  have done := ThreadPoolAlloc.allocate_stocked (P := P) (m := s.mem)
    (acquireChunkCb P t ⟨none, none⟩ true) true s.shared small head nonnull
  have gained : client.gain n (.ok (some p)) = client.gainBlock (sizeClassOf n small) p :=
    dif_pos small
  rw [← gained]
  refine ⟨_, _, .allocate live word done, Function.update_self _ _ _, rfl, rfl, ?_⟩
  simp [SingleThreadAllocator.recordAlloc, SingleThreadAllocator.setPool]

/-- A thread starts, takes two blocks of the smallest class, writes into the second one and gives
the first one back. -/
theorem first_calls : ∃ (p : Nat) (s₁ s₂ s₃ s₄ s₅ : Sys) (pool pool' : ThreadPoolAlloc)
    (client client' : Client),
    Step desktop (initial (fun _ => 0) Heap.empty) (.start 0 (.ok ())) s₁ ∧
      Step desktop s₁ (.allocate 0 16 (.ok (some p))) s₂ ∧
      Step desktop s₂ (.allocate 0 16 (.ok (some (p + 16)))) s₃ ∧
      Step desktop s₃ (.write (p + 16) 7) s₄ ∧ Step desktop s₄ (.free 0 .start p 16) s₅ ∧
      s₄.threads = s₃.threads ∧
      s₃.threads 0 = .live pool client ∧ client.held 0 = [p + 16, p] ∧
      s₅.threads 0 = .live pool' client' ∧ client'.held 0 = [p + 16] := by
  obtain ⟨a, m, h, built, slab, _⟩ := SingleThreadAllocator.new_possible (Owner.slab 0) (.arena 0)
    (fun _ => 0) Heap.empty (Nat.dvd_refl 1048576) (by decide) (fun b member => by cases member)
  obtain ⟨head, next⟩ := SingleThreadAllocator.new_heads
    (fun i j same => (Owner.slab.inj same).2) (fun i same => by cases same) built 0
  have small : 16 ≤ maxSmall := by decide
  have cls : sizeClassOf 16 small = 0 := rfl
  have positive : (a.pools 0).slab ≠ 0 := by
    simp [slab, spreadAddress]
  obtain ⟨s₁, pool₁, started, live₁, alloc₁, mem₁⟩ : ∃ s₁ pool₁,
      Step desktop (initial (fun _ => 0) Heap.empty) (.start 0 (.ok ())) s₁ ∧
        s₁.threads 0 = .live pool₁ Client.none ∧ pool₁.alloc = a ∧ s₁.mem = m :=
    ⟨_, ⟨a, 0, 0, 0⟩, .start rfl built, rfl, rfl, rfl⟩
  obtain ⟨s₂, pool₂, first, live₂, mem₂, _, pools₂⟩ := takes_first (P := desktop) live₁ small
    (by rw [cls, alloc₁]; exact head) positive
  obtain ⟨s₃, pool₃, second, live₃, _, _, pools₃⟩ := takes_first (P := desktop) live₂ small
    (p := (a.pools 0).slab + 16) (by rw [pools₂, mem₁]; exact next) (by omega)
  rw [cls] at live₃ live₂ pools₂ pools₃
  have owned : (pool₃.alloc.pools (sizeClassOf 16 small)).ownsBlock
      (sizeClassOf 16 small).bytes blocksPerSlab (a.pools 0).slab = true := by
    rw [cls, pools₃, pools₂, alloc₁]
    exact BlockPool.ownsBlock_slab _ (by decide) (by decide)
  have held : ((Client.none.gainBlock 0 (a.pools 0).slab).gainBlock 0
      ((a.pools 0).slab + 16)).held 0 = [(a.pools 0).slab + 16, (a.pools 0).slab] := by
    simp [Client.gainBlock, Client.none]
  generalize (Client.none.gainBlock 0 (a.pools 0).slab).gainBlock 0 ((a.pools 0).slab + 16) =
    client at live₃ held
  have written : Step desktop s₃ (.write ((a.pools 0).slab + 16) 7) _ :=
    .write (.block (i := 0) (x := (a.pools 0).slab + 16) live₃ (by rw [held]; simp)
      (Span.Holds.base (SizeClass.bytes_positive 0)))
  obtain ⟨pool₄, m₄, freed⟩ := ThreadPoolAlloc.free_owned
    (m := ByteMemory.writeByte s₃.mem ((a.pools 0).slab + 16) 7) small positive owned
  have out : (a.pools 0).slab ∈ client.held 0 := by
    rw [held]
    simp
  refine ⟨_, s₁, s₂, s₃, _, _, pool₃, pool₄, client, client.release 0 (a.pools 0).slab, started,
    first, second, written, .free live₃ out rfl freed, rfl, live₃, held, rfl, ?_⟩
  simp [Client.release, held]

/-- Two blocks are out, and one of them comes back. -/
theorem blocks_separated_first : ∃ (trace : List (Transition Sys Event)) (s s' : Sys) (p : Nat)
    (pool pool' : ThreadPoolAlloc) (client client' : Client),
    Run (Step desktop) (initial (fun _ => 0) Heap.empty) trace s' ∧
      s.threads 0 = .live pool client ∧ client.held 0 = [p + 16, p] ∧ s.Separated ∧
      s'.threads 0 = .live pool' client' ∧ client'.held 0 = [p + 16] ∧ s'.Separated := by
  obtain ⟨p, s₁, s₂, s₃, s₄, s₅, pool, pool', client, client', started, first, second, written,
    freed, _, live, held, live', held'⟩ := first_calls
  have run := ((((Run.nil.snoc started).snoc first).snoc second).snoc written).snoc freed
  have separated := blocks_separated ⟨4, by decide, rfl⟩ run (by
    simp [Event.Bounded, desktop, addressLimit])
  have both := (separated.2 ⟨s₂, .allocate 0 16 (.ok (some (p + 16))), s₃⟩ (by simp)).1
  exact ⟨_, s₃, s₅, p, pool, pool', client, client', run, live, held, both, live', held',
    separated.1⟩

end Sys

end MemAlloc
