import MemAlloc.BlockPoolInvariant
import MemAlloc.Lib.LifoPool
import MemAlloc.Lib.Runs

set_option autoImplicit false

namespace MemAlloc.BlockPool

open ByteMemory (readWord writeByte SameOutside wordBytes)
open Runs (Run Transition)

/-- What happens to one pool. The result of `allocate` is part of the event; a client
write stores one byte, so that longer writes are several events. -/
inductive Event where
  | allocate (result : Option Nat)
  | deallocate (p : Nat)
  | deallocateContaining (a : Nat)
  | addExternalSlab (base numBlocks : Nat)
  | write (a : Nat) (b : UInt8)

/-- The memory, the pool object and the blocks its client holds. -/
structure World where
  mem : ByteMemory
  pool : BlockPool
  live : List Nat

def World.start (B N : Nat) (m : ByteMemory) (s : SlabAlloc) : World :=
  ⟨(ofSlab B N m s).2, (ofSlab B N m s).1, []⟩

/-- One call on the pool, or one client write to a byte of a block it holds. An external
slab is fresh memory; the vector that records it grows successfully. -/
inductive Step (B N : Nat) : World → Event → World → Prop
  | allocate (w : World) :
      Step B N w (.allocate (w.pool.allocate w.mem).1)
        ⟨w.mem, (w.pool.allocate w.mem).2, (w.pool.allocate w.mem).1.toList ++ w.live⟩
  | deallocate {w : World} {p : Nat} {pool : BlockPool} {m : ByteMemory} (held : p ∈ w.live)
      (done : w.pool.deallocate B N w.mem p = .ok (pool, m)) :
      Step B N w (.deallocate p) ⟨m, pool, w.live.erase p⟩
  | deallocateContaining {w : World} {x a : Nat} {pool : BlockPool} {m : ByteMemory}
      (held : x ∈ w.live) (inside : (Span.mk x B).Holds a)
      (done : w.pool.deallocateContaining B N w.mem a = .ok (pool, m)) :
      Step B N w (.deallocateContaining a) ⟨m, pool, w.live.erase x⟩
  | addExternalSlab {w : World} {base n : Nat} {pool : BlockPool} {m : ByteMemory}
      (region : Slab.Region B ⟨base, n⟩)
      (fresh : ∀ s ∈ w.pool.slabs N, (s.span B).Apart (Slab.span B ⟨base, n⟩))
      (done : w.pool.addExternalSlab B N w.mem base n true = (.ok (), pool, m)) :
      Step B N w (.addExternalSlab base n) ⟨m, pool, w.live⟩
  | write {w : World} {x a : Nat} {b : UInt8} (held : x ∈ w.live)
      (inside : (Span.mk x B).Holds a) :
      Step B N w (.write a b) { w with mem := writeByte w.mem a b }

/-- The abstract stack's answer to the same events. Client writes are invisible. -/
inductive LifoStep (B : Nat) : LifoPool Nat → Event → LifoPool Nat → Prop
  | take (s : LifoPool Nat) : LifoStep B s (.allocate s.take.1) s.take.2
  | giveBack {s : LifoPool Nat} {p : Nat} (out : p ∈ s.out) :
      LifoStep B s (.deallocate p) (s.giveBack p)
  | giveBackContaining {s : LifoPool Nat} {x a : Nat} (out : x ∈ s.out)
      (inside : (Span.mk x B).Holds a) : LifoStep B s (.deallocateContaining a) (s.giveBack x)
  | supply (s : LifoPool Nat) (base n : Nat) :
      LifoStep B s (.addExternalSlab base n) (s.supply (Slab.blocks B ⟨base, n⟩))
  | write (s : LifoPool Nat) (a : Nat) (b : UInt8) : LifoStep B s (.write a b) s

/-- The pool in memory represents the abstract stack, and no block is unaccounted for. -/
structure Refines (B N : Nat) (w : World) (s : LifoPool Nat) : Prop where
  pool : PoolInv B w.mem w.pool.head (w.pool.slabs N) s.stock s.out
  live : w.live = s.out
  every : ∀ x ∈ blocksOf B (w.pool.slabs N), x ∈ s.all

namespace Refines

variable {B N : Nat} {w : World} {s : LifoPool Nat}

theorem start (m : ByteMemory) (slab : SlabAlloc) (wide : wordBytes ≤ B) (nonempty : 0 < N)
    (region : Slab.Region B ⟨slab.aligned, N⟩) :
    Refines B N (World.start B N m slab) ⟨Slab.blocks B ⟨slab.aligned, N⟩, []⟩ := by
  refine ⟨PoolInv.ofSlab m slab wide nonempty region, rfl, ?_⟩
  intro x member
  simpa [LifoPool.all, World.start, ofSlab, slabs, blocksOf] using member

theorem take (related : Refines B N w s) :
    (w.pool.allocate w.mem).1 = s.take.1 ∧
      Refines B N ⟨w.mem, (w.pool.allocate w.mem).2,
        (w.pool.allocate w.mem).1.toList ++ w.live⟩ s.take.2 := by
  obtain ⟨stock, out⟩ := s
  have inv := related.pool
  by_cases null : w.pool.head = 0
  · have empty := inv.links.head_eq_zero.mp null
    simp only at empty
    subst empty
    rw [allocate_null null]
    exact ⟨rfl, related⟩
  · obtain ⟨rest, split, popped⟩ := inv.pop null
    simp only at split
    subst split
    rw [allocate_head null]
    refine ⟨rfl, popped, ?_, ?_⟩
    · simp [LifoPool.take, related.live]
    · intro x member
      exact (LifoPool.take_all _).mem_iff.mpr (related.every x member)

/-- Both assertions of `deallocate` hold for a block that is out. -/
theorem deallocate_eq (related : Refines B N w s) (wide : wordBytes ≤ B) {p : Nat}
    (out : p ∈ s.out) :
    w.pool.deallocate B N w.mem p =
      .ok ({ w.pool with head := p }, ByteMemory.writeWord w.mem p w.pool.head) := by
  have listed : p ∈ s.stock ++ s.out := List.mem_append_right _ out
  exact deallocate_ok (Nat.lt_of_lt_of_le (by decide) wide)
    (Nat.ne_of_gt (related.pool.block_bounds listed).1) (related.pool.member p listed)

theorem deallocateContaining_eq (related : Refines B N w s) {x a : Nat}
    (out : x ∈ s.out) (inside : (Span.mk x B).Holds a) :
    w.pool.deallocateContaining B N w.mem a = w.pool.deallocate B N w.mem x := by
  obtain ⟨slab, member, block⟩ :=
    mem_blocksOf.mp (related.pool.member x (List.mem_append_right _ out))
  exact BlockPool.deallocateContaining_eq related.pool.apart member block inside

theorem giveBack (related : Refines B N w s) (wide : wordBytes ≤ B) {p : Nat}
    {pool : BlockPool} {m : ByteMemory} (out : p ∈ s.out)
    (done : w.pool.deallocate B N w.mem p = .ok (pool, m)) :
    Refines B N ⟨m, pool, w.live.erase p⟩ (s.giveBack p) := by
  rw [related.deallocate_eq wide out] at done
  cases done
  refine ⟨related.pool.push wide out, by rw [related.live]; rfl, ?_⟩
  intro x member
  exact (LifoPool.giveBack_all s out).mem_iff.mpr (related.every x member)

theorem supply (related : Refines B N w s) (wide : wordBytes ≤ B) {base n : Nat}
    {pool : BlockPool} {m : ByteMemory} (region : Slab.Region B ⟨base, n⟩)
    (fresh : ∀ t ∈ w.pool.slabs N, (t.span B).Apart (Slab.span B ⟨base, n⟩))
    (done : w.pool.addExternalSlab B N w.mem base n true = (.ok (), pool, m)) :
    Refines B N ⟨m, pool, w.live⟩ (s.supply (Slab.blocks B ⟨base, n⟩)) := by
  simp only [addExternalSlab, ↓reduceIte] at done
  split at done
  · rename_i accepted
    cases done
    have linked := related.pool.link wide accepted.2.1 region fresh
    refine ⟨linked, related.live, ?_⟩
    intro x member
    change x ∈ blocksOf B (w.pool.slabs N ++ [⟨base, n⟩]) at member
    rw [LifoPool.supply_all]
    simp only [blocksOf, List.flatMap_append, List.mem_append, List.flatMap_cons,
      List.flatMap_nil, List.append_nil] at member
    rcases member with old | new
    · exact List.mem_append_right _ (related.every x old)
    · exact List.mem_append_left _ new
  · cases done

theorem write (related : Refines B N w s) (wide : wordBytes ≤ B) {x a : Nat} (b : UInt8)
    (out : x ∈ s.out) (inside : (Span.mk x B).Holds a) :
    Refines B N { w with mem := writeByte w.mem a b } s := by
  refine ⟨related.pool.liveWrite wide out (SameOutside.writeByte w.mem a b) ?_, related.live,
    related.every⟩
  intro t written
  obtain rfl := List.mem_singleton.mp written
  exact ⟨inside.1, inside.2⟩

/-- The stack answers every step of the pool. -/
theorem answer (related : Refines B N w s) (wide : wordBytes ≤ B) {e : Event} {w' : World}
    (step : Step B N w e w') : ∃ s', LifoStep B s e s' ∧ Refines B N w' s' := by
  cases step with
  | allocate =>
      obtain ⟨result, next⟩ := related.take
      refine ⟨s.take.2, ?_, next⟩
      rw [result]
      exact .take s
  | deallocate held done =>
      rw [related.live] at held
      exact ⟨_, .giveBack held, related.giveBack wide held done⟩
  | deallocateContaining held inside done =>
      rw [related.live] at held
      rw [related.deallocateContaining_eq held inside] at done
      exact ⟨_, .giveBackContaining held inside, related.giveBack wide held done⟩
  | addExternalSlab region fresh done =>
      exact ⟨_, .supply s _ _, related.supply wide region fresh done⟩
  | write held inside =>
      rw [related.live] at held
      exact ⟨s, .write s _ _, related.write wide _ held inside⟩

theorem blocks_nodup (related : Refines B N w s) (wide : wordBytes ≤ B) :
    (blocksOf B (w.pool.slabs N)).Nodup := by
  have positive : 0 < B := Nat.lt_of_lt_of_le (by decide) wide
  refine List.nodup_flatMap.mpr ⟨fun t _ => ?_, related.pool.apart.imp ?_⟩
  · refine List.Nodup.map_on ?_ List.nodup_range
    intro i _ j _ equal
    exact Nat.eq_of_mul_eq_mul_right positive (Nat.add_left_cancel equal)
  · intro t u separate x left right
    have apart := separate.mono (Slab.block_inside left) (Slab.block_inside right)
    simp only [Span.Apart, Span.stop] at apart
    omega

theorem partition (related : Refines B N w s) (wide : wordBytes ≤ B) :
    (s.stock ++ w.live).Perm (blocksOf B (w.pool.slabs N)) := by
  rw [related.live]
  refine (List.perm_ext_iff_of_nodup related.pool.nodup (related.blocks_nodup wide)).mpr ?_
  exact fun x => ⟨related.pool.member x, related.every x⟩

theorem count (related : Refines B N w s) (wide : wordBytes ≤ B) :
    s.stock.length + w.live.length = w.pool.totalBlocks N := by
  rw [totalBlocks_eq, ← (related.partition wide).length_eq, List.length_append]

end Refines

/-- A `BlockPool` over byte memory is a LIFO stack. Every run of the pool is a run of the
stack with the same events and results. Wherever it stands, following the stored links
terminates with exactly the stacked blocks, stacked and live blocks partition the blocks
of all slabs, the counters agree, and a live block is accepted back by its start or by
any address inside it. -/
theorem refines_lifo (B N : Nat) (wide : 8 ≤ B) (nonempty : 1 ≤ N) (m : ByteMemory)
    (slab : SlabAlloc) (region : Slab.Region B ⟨slab.aligned, N⟩)
    {trace : List (Transition World Event)} {w : World}
    (run : Run (Step B N) (World.start B N m slab) trace w) :
    ∃ stackTrace s,
      Run (LifoStep B) ⟨Slab.blocks B ⟨slab.aligned, N⟩, []⟩ stackTrace s ∧
      stackTrace.map Transition.event = trace.map Transition.event ∧
      s.out = w.live ∧
      (∀ fuel, s.stock.length < fuel →
        Links.walk (readWord w.mem) fuel w.pool.head = some s.stock) ∧
      s.stock.Nodup ∧
      (blocksOf B (w.pool.slabs N)).Nodup ∧
      (s.stock ++ w.live).Perm (blocksOf B (w.pool.slabs N)) ∧
      (w.pool.allocate w.mem).1 = s.stock.head? ∧
      (∀ fuel, s.stock.length < fuel → w.pool.freeCount fuel w.mem = some s.stock.length) ∧
      s.stock.length + w.live.length = w.pool.totalBlocks N ∧
      (∀ p ∈ w.live, (∃ next, w.pool.deallocate B N w.mem p = .ok next) ∧
        ∀ a, (Span.mk p B).Holds a →
          w.pool.deallocateContaining B N w.mem a = w.pool.deallocate B N w.mem p) := by
  have answer : ∀ w e w' s, Refines B N w s → Step B N w e w' →
      ∃ s', LifoStep B s e s' ∧ Refines B N w' s' :=
    fun _ _ _ _ related step => related.answer wide step
  obtain ⟨stackTrace, s, stackRun, related, events⟩ :=
    run.simulate (Refines.start m slab wide nonempty region) answer
  refine ⟨stackTrace, s, stackRun, events, related.live.symm, ?_,
    (List.nodup_append'.mp related.pool.nodup).1, related.blocks_nodup wide,
    related.partition wide, ?_, ?_, related.count wide, ?_⟩
  · exact fun fuel enough => Links.walk_of_linked related.pool.links enough
  · rw [related.take.1, LifoPool.take_fst]
  · intro fuel enough
    rw [freeCount, freeCountFrom_linked related.pool.links enough, Nat.zero_add]
  · intro p held
    rw [related.live] at held
    exact ⟨⟨_, related.deallocate_eq wide held⟩,
      fun a inside => related.deallocateContaining_eq held inside⟩

theorem refines_lifo_first_block :
    ∃ stackTrace s, Run (LifoStep 8) ⟨[4096, 4104], []⟩ stackTrace s ∧
      stackTrace.map Transition.event = [.allocate (some 4096)] ∧ s.out = [4096] := by
  have first := Step.allocate (B := 8) (N := 2) (World.start 8 2 (fun _ => 0) ⟨4096, 4096⟩)
  obtain ⟨stackTrace, s, stackRun, events, out, _⟩ :=
    refines_lifo 8 2 (by decide) (by decide) (fun _ => 0) ⟨4096, 4096⟩
      ⟨by decide, by decide⟩ (Run.nil.snoc first)
  exact ⟨stackTrace, s, stackRun, events, out.trans rfl⟩

end MemAlloc.BlockPool
