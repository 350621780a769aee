import MemAlloc.ThreadSystem

set_option autoImplicit false

namespace MemAlloc

open Malloc (Heap Block addressLimit)
open ByteMemory (SameOutside SameInside wordBytes)
open SingleThreadAllocator (Inv Homes SameRegions SoundReply chunkBody chunkSlab chunkSlab_inside)

theorem CentralHeap.writeHeader_outside (m : ByteMemory) (base bytes : Nat) :
    SameOutside m (CentralHeap.writeHeader m base bytes) [⟨base, CentralHeap.headerBytes⟩] := by
  have first : SameOutside m (ByteMemory.writeWord m base bytes)
      [⟨base, CentralHeap.headerBytes⟩] := by
    apply (SameOutside.writeWord m base bytes).mono
    intro s member
    obtain rfl := List.mem_singleton.mp member
    exact ⟨_, List.mem_cons_self, Span.Inside.shorter (by decide) base⟩
  refine first.trans ((SameOutside.writeWord _ (base + 8) bytes).mono ?_)
  intro s member
  obtain rfl := List.mem_singleton.mp member
  exact ⟨_, List.mem_cons_self, Nat.le_add_right _ _, Nat.le_refl _⟩

/-- The chunks handed out lie in blocks of their own. -/
structure SharedInv (g : Shared) : Prop where
  homes : ∀ c ∈ g.carved, ∃ b ∈ g.heap.blocks, b.owner = .chunk ∧ c.span.Inside b.span
  apart : g.carved.Pairwise (fun c d => c.span.Apart d.span)
  aligned : ∀ c ∈ g.carved, CentralHeap.chunkSize ∣ c.base

namespace SharedInv

variable {g g' : Shared}

theorem chunks_apart (inv : SharedInv g) {c d : Chunk} (left : c ∈ g.carved)
    (right : d ∈ g.carved) (different : c ≠ d) : c.span.Apart d.span :=
  Span.Apart.of_pairwise inv.apart left right different

theorem heap {h : Heap Owner} (inv : SharedInv g)
    (kept : ∀ b ∈ g.heap.blocks, b.owner = .chunk → b ∈ h.blocks) :
    SharedInv { g with heap := h } := by
  refine ⟨fun c member => ?_, inv.apart, inv.aligned⟩
  obtain ⟨b, block, owner, inside⟩ := inv.homes c member
  exact ⟨b, kept b block owner, owner, inside⟩

end SharedInv

/-- What an `acquireChunk` changes: a new block of the heap, at most. -/
structure Acquired (g : Shared) (m : ByteMemory) (user : Option Nat) (bytes : Nat)
    (answer : Except Exn Nat × Shared × ByteMemory) (chunk : Span) : Prop where
  fresh : ∀ b ∈ g.heap.blocks, chunk.Apart b.span
  bounded : chunk.stop ≤ addressLimit
  frame : SameOutside m answer.2.2 [chunk]
  kept : ∀ b ∈ g.heap.blocks, b ∈ answer.2.1.heap.blocks
  shared : SharedInv answer.2.1
  success : ∀ body, answer.1 = .ok body → ∃ c : Chunk, c.body = body ∧ 0 < body ∧
    c.user = user ∧ c.sizeClassBytes = bytes ∧ (Span.mk body chunkBody).Inside chunk ∧
    answer.2.1.carved = g.carved ++ [c]
  failure : ∀ e, answer.1 = .error e → answer.2.1.carved = g.carved

/-- `acquire_chunk` throws and counts nothing, or hands out the body of a chunk it has carved. -/
theorem Shared.acquireChunk_cases {P : Platform} {user : Option Nat} {reply : SlabReply}
    {recorded : Bool} {bytes : Nat} {g g' : Shared} {m m' : ByteMemory} {x : Except Exn Nat}
    (done : g.acquireChunk P user reply recorded bytes m = (x, g', m')) :
    (x = .error .badAlloc ∧ g'.carved = g.carved ∧ g'.central = g.central) ∨
    ∃ base, x = .ok (base + CentralHeap.kHeaderOffset) ∧
      g'.carved = g.carved ++ [⟨base, user, bytes⟩] ∧
      g'.central.totalChunks = Words.add g.central.totalChunks 1 ∧
      m' = CentralHeap.writeHeader m base bytes := by
  simp only [acquireChunk, CentralHeap.acquireChunk] at done
  cases slab : allocateSlab P g.heap .chunk CentralHeap.chunkSize CentralHeap.chunkSize reply with
  | mk region h =>
      cases region with
      | none =>
          simp only [slab] at done
          cases done
          exact Or.inl ⟨rfl, rfl, rfl⟩
      | some s =>
          cases recorded with
          | false =>
              simp only [slab] at done
              cases done
              exact Or.inl ⟨rfl, rfl, rfl⟩
          | true =>
              simp only [slab, ↓reduceIte, Nat.add_sub_cancel] at done
              cases done
              exact Or.inr ⟨s.aligned, rfl, rfl, rfl, rfl⟩

theorem acquireChunk_acquired (P : Platform) (user : Option Nat) (reply : SlabReply)
    (recorded : Bool) (bytes : Nat) {g : Shared} (m : ByteMemory) (inv : SharedInv g) :
    ∃ chunk, Acquired g m user bytes (g.acquireChunk P user reply recorded bytes m) chunk := by
  have power : Words.PowerOfTwo CentralHeap.chunkSize := ⟨16, by decide, rfl⟩
  simp only [Shared.acquireChunk, CentralHeap.acquireChunk]
  cases slab : allocateSlab P g.heap .chunk CentralHeap.chunkSize CentralHeap.chunkSize reply with
  | mk region grown =>
      cases region with
      | none =>
          obtain rfl := allocateSlab_none slab
          refine ⟨⟨0, 0⟩, fun b _ => Or.inl (Nat.zero_le _), by decide, SameOutside.refl _ _,
            fun _ member => member, inv, ?_, fun _ _ => rfl⟩
          intro body impossible
          cases impossible
      | some s =>
          obtain ⟨b, added, owner, _, inside, aligned⟩ :=
            allocateSlab_some power (by decide) slab
          have member : b ∈ grown.blocks := added ▸ List.mem_cons_self
          have older : ∀ c ∈ g.heap.blocks, c ∈ grown.blocks :=
            fun c old => added ▸ List.mem_cons_of_mem _ old
          have bounds := grown.bounded b member
          have fresh : ∀ c ∈ g.heap.blocks, b.span.Apart c.span :=
            fun c old => new_block_apart added _ (mem_spansOf old)
          have header : (Span.mk s.aligned CentralHeap.headerBytes).Inside b.span :=
            (Span.Inside.shorter (by decide) s.aligned).trans inside
          have frame : SameOutside m (CentralHeap.writeHeader m s.aligned bytes) [b.span] := by
            apply (CentralHeap.writeHeader_outside m s.aligned bytes).mono
            intro t written
            obtain rfl := List.mem_singleton.mp written
            exact ⟨_, List.mem_cons_self, header⟩
          have base : s.aligned + CentralHeap.kHeaderOffset - CentralHeap.kHeaderOffset =
              s.aligned := Nat.add_sub_cancel _ _
          cases recorded with
          | false =>
              refine ⟨b.span, fresh, bounds.2.2, frame, older,
                inv.heap (fun c old _ => older c old), ?_, fun _ _ => rfl⟩
              intro body impossible
              cases impossible
          | true =>
              simp only [↓reduceIte, base]
              refine ⟨b.span, fresh, bounds.2.2, frame, older, ⟨?_, ?_, ?_⟩, ?_, ?_⟩
              · intro c listed
                rcases List.mem_append.mp listed with old | new
                · obtain ⟨home, block, tag, within⟩ := inv.homes c old
                  exact ⟨home, older home block, tag, within⟩
                · obtain rfl := List.mem_singleton.mp new
                  exact ⟨b, member, owner, inside⟩
              · refine List.pairwise_append.mpr ⟨inv.apart, List.pairwise_singleton _ _, ?_⟩
                intro c old d new
                obtain rfl := List.mem_singleton.mp new
                obtain ⟨home, block, _, within⟩ := inv.homes c old
                exact (fresh home block).symm.mono within inside
              · intro c listed
                rcases List.mem_append.mp listed with old | new
                · exact inv.aligned c old
                · obtain rfl := List.mem_singleton.mp new
                  exact aligned
              · rintro body ⟨⟩
                refine ⟨⟨s.aligned, user, bytes⟩, rfl, ?_, rfl, rfl, ?_, rfl⟩
                · exact Nat.lt_of_lt_of_le (by decide) (Nat.le_add_left _ _)
                · refine Span.Inside.trans ⟨Nat.le_add_right _ _, ?_⟩ inside
                  change s.aligned + 64 + 65472 ≤ s.aligned + 65536
                  omega
              · intro e impossible
                cases impossible

/-- The slabs of the class `i` that thread `t`'s allocator manages: its constructor slab and
the linked part of every chunk handed to that pool. -/
def Shared.linkedBy (g : Shared) (t : Nat) (a : SingleThreadAllocator) (i : SizeClass) :
    List Slab :=
  ⟨(a.pools i).slab, blocksPerSlab⟩ ::
    (g.carved.filter (fun c => c.user = some t ∧ c.sizeClassBytes = i.bytes)).map
      (fun c => chunkSlab i c.body)

namespace Shared

variable {g g' : Shared} {t : Nat} {a : SingleThreadAllocator} {i : SizeClass}

theorem mem_linkedBy {s : Slab} : s ∈ g.linkedBy t a i ↔
    s = ⟨(a.pools i).slab, blocksPerSlab⟩ ∨
      ∃ c ∈ g.carved, c.user = some t ∧ c.sizeClassBytes = i.bytes ∧ s = chunkSlab i c.body := by
  simp only [linkedBy, List.mem_cons, List.mem_map, List.mem_filter, decide_eq_true_eq]
  constructor
  · rintro (own | ⟨c, ⟨member, user, bytes⟩, rfl⟩)
    · exact Or.inl own
    · exact Or.inr ⟨c, member, user, bytes, rfl⟩
  · rintro (own | ⟨c, member, user, bytes, rfl⟩)
    · exact Or.inl own
    · exact Or.inr ⟨c, ⟨member, user, bytes⟩, rfl⟩

theorem linkedBy_other {c : Chunk} (carved : g'.carved = g.carved ++ [c])
    (other : ¬ (c.user = some t ∧ c.sizeClassBytes = i.bytes)) :
    g'.linkedBy t a i = g.linkedBy t a i := by
  simp [linkedBy, carved, other]

theorem linkedBy_own {c : Chunk} (carved : g'.carved = g.carved ++ [c])
    (user : c.user = some t) (bytes : c.sizeClassBytes = i.bytes) :
    g'.linkedBy t a i = g.linkedBy t a i ++ [chunkSlab i c.body] := by
  simp [linkedBy, carved, user, bytes]

theorem linkedBy_congr {a' : SingleThreadAllocator} (carved : g'.carved = g.carved)
    (same : SameRegions a a') : g'.linkedBy t a' i = g.linkedBy t a i := by
  simp only [linkedBy, carved, same.slab]

theorem chunkSlab_body (c : Chunk) :
    ((chunkSlab i c.body).span i.bytes).Inside c.span ∧
      ((chunkSlab i c.body).span i.bytes).Apart c.header := by
  have inside := chunkSlab_inside i c.body
  constructor
  · refine inside.trans ⟨Nat.le_add_right _ _, ?_⟩
    change c.base + 64 + 65472 ≤ c.base + 65536
    omega
  · have short : CentralHeap.headerBytes ≤ CentralHeap.kHeaderOffset := by decide
    exact Or.inr (Nat.le_trans (Nat.add_le_add_left short c.base) inside.1)

end Shared

end MemAlloc
