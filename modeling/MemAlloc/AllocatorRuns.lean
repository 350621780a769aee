import MemAlloc.Client
import MemAlloc.Construction
import MemAlloc.Lib.Runs

set_option autoImplicit false

namespace MemAlloc.AllocatorRuns

open ByteMemory (writeByte readWord SameOutside)
open Runs (Run Transition)
open SingleThreadAllocator (Inv Granted Released SoundReply FreeForm ArenaServed chunkSlab
  answeredBody)

/-- One allocator, its memory and what its client holds. `linked` are all slabs whose blocks
have been linked into a pool and `sizes` the requested size of each pool block that is out;
the program keeps neither. -/
structure World where
  mem : ByteMemory
  alloc : SingleThreadAllocator
  client : Client
  linked : SizeClass → List Slab
  sizes : Nat → Nat

namespace World

def linkedAfter (w : World) (n : Nat) (body : Option Nat) (j : SizeClass) : List Slab :=
  w.linked j ++
    if n ≤ maxSmall ∧ sizeClassIndex n = j.val then body.toList.map (chunkSlab j) else []

def sizesAfter (w : World) (n : Nat) : Except Exn (Option Nat) → Nat → Nat
  | .ok (some p) => if n ≤ maxSmall then Function.update w.sizes p n else w.sizes
  | _ => w.sizes

def start (m : ByteMemory) (a : SingleThreadAllocator) : World :=
  ⟨m, a, Client.none, a.newLedger.linked, fun _ => 0⟩

end World

inductive Event where
  | allocate (n : Nat) (body : Option Nat) (recorded : Bool) (result : Except Exn (Option Nat))
  | allocateAligned (n alignment : Nat) (result : Option Nat)
  | free (form : FreeForm) (x p n : Nat)
  | freeArena (form : FreeForm) (p n : Nat)
  | write (a : Nat) (b : UInt8)

/-- One call, or one client write to a byte it holds. The chunk source may hand out a fresh
chunk, hand out none or throw; `recorded` tells whether the slab table can grow. -/
inductive Step (P : Platform) : World → Event → World → Prop
  | allocate {σ : Type} {w : World} {n : Nat} {source : ChunkSource σ} {e e' : σ} {chunk : Span}
      {recorded : Bool} {x : Except Exn (Option Nat)} {a' : SingleThreadAllocator}
      {m' : ByteMemory} (word : n < Words.radix)
      (sound : ∀ small : n ≤ maxSmall, SoundReply w.alloc w.linked w.mem chunk
        (source (sizeClassOf n small).bytes e w.mem))
      (done : w.alloc.allocate P source recorded n e w.mem = (x, a', e', m')) :
      Step P w (.allocate n (w.alloc.obtains source n e w.mem) recorded x)
        ⟨m', a', w.client.gain n x, w.linkedAfter n (w.alloc.obtains source n e w.mem),
          w.sizesAfter n x⟩
  | allocateAligned {w : World} {n alignment : Nat} {x : Option Nat} {a' : SingleThreadAllocator}
      (nonempty : 1 ≤ n) (word : n < Words.radix) (power : Words.PowerOfTwo alignment)
      (done : w.alloc.allocateAligned n alignment = (x, a')) :
      Step P w (.allocateAligned n alignment x)
        { w with alloc := a', client := w.client.gainAligned n x }
  | free {w : World} {i : SizeClass} {form : FreeForm} {x p n : Nat} {a' : SingleThreadAllocator}
      {m' : ByteMemory} (out : x ∈ w.client.held i) (names : form.Names ⟨x, i.bytes⟩ p)
      (small : n ≤ maxSmall) (cls : i = sizeClassOf n small)
      (done : form.call w.alloc w.mem p n = .ok (a', m')) :
      Step P w (.free form x p n)
        { w with mem := m', alloc := a', client := w.client.release i x }
  | freeArena {w : World} {form : FreeForm} {s : Span} {p n : Nat} {a' : SingleThreadAllocator}
      {m' : ByteMemory} (out : s ∈ w.client.bumped) (names : form.Names s p)
      (large : maxSmall < n) (done : form.call w.alloc w.mem p n = .ok (a', m')) :
      Step P w (.freeArena form p n) { w with mem := m', alloc := a' }
  | write {w : World} {i : SizeClass} {x a : Nat} {b : UInt8} (out : x ∈ w.client.held i)
      (inside : (Span.mk x i.bytes).Holds a) :
      Step P w (.write a b) { w with mem := writeByte w.mem a b }
  | writeArena {w : World} {s : Span} {a : Nat} {b : UInt8} (out : s ∈ w.client.bumped)
      (inside : s.Holds a) : Step P w (.write a b) { w with mem := writeByte w.mem a b }

/-- The sum that admits an arena request is right. -/
def NoWrap (P : Platform) (w : World) : Event → Prop
  | .allocate n _ _ _ => maxSmall < n → w.alloc.arena.NoWrap n P.maxAlign
  | .allocateAligned n alignment _ => w.alloc.arena.NoWrap n alignment
  | _ => True

/-- When a chunk has been obtained, the slab table does grow. -/
def Grows : Event → Prop
  | .allocate _ body recorded _ => recorded = true ∨ body = none
  | _ => True

def Whole (L : Ledger) : Prop :=
  ∀ i, (L.free i ++ L.held i).Perm (blocksOf i.bytes (L.linked i))

section Whole

variable {L : Ledger} {i : SizeClass}

theorem Whole.setPool {free held : List Nat} {linked : List Slab} (whole : Whole L)
    (here : (free ++ held).Perm (blocksOf i.bytes linked)) :
    Whole (L.setPool i free held linked) := by
  intro j
  by_cases same : j = i
  · subst same
    simpa [Ledger.setPool] using here
  · simpa [Ledger.setPool, same] using whole j

theorem Whole.take {p : Nat} {rest : List Nat} (whole : Whole L)
    (stocked : L.free i = p :: rest) : Whole (L.take i p rest) := by
  have before := whole i
  rw [stocked] at before
  exact whole.setPool (List.perm_middle.trans before)

theorem Whole.link {s : Slab} (whole : Whole L) : Whole (L.link i s) := by
  refine whole.setPool ?_
  rw [List.append_assoc, blocksOf, List.flatMap_append, List.flatMap_singleton]
  exact ((whole i).append_left _).trans List.perm_append_comm

theorem Whole.giveBack {x : Nat} (whole : Whole L) (out : x ∈ L.held i) :
    Whole (L.giveBack i x) := by
  refine whole.setPool ?_
  have moved : (x :: L.free i ++ (L.held i).erase x).Perm (L.free i ++ L.held i) :=
    List.perm_middle.symm.trans ((List.perm_cons_erase out).symm.append_left (L.free i))
  exact moved.trans (whole i)

theorem Whole.granted {P : Platform} {recorded : Bool} {a a' : SingleThreadAllocator}
    {L' : Ledger} {n : Nat} {body : Option Nat} {x : Except Exn (Option Nat)} (whole : Whole L)
    (granted : Granted P recorded a L n body x a' L') : Whole L' := by
  cases granted with
  | pool small cls stocked => exact whole.take stocked
  | refused small cls empty unanswered => exact whole
  | lost unrecorded small cls empty => exact whole.link
  | refilled grown small cls empty blocks =>
      refine whole.link.take ?_
      simp [Ledger.link, Ledger.setPool, empty, blocks]
  | arena large served => exact whole
  | arenaFull large full => exact whole

end Whole

/-- The ledger is what the state represents, and every block that is out has the class of its
request. -/
structure Consistent (w : World) (L : Ledger) : Prop where
  inv : Inv w.mem w.alloc L
  held : L.held = w.client.held
  bumped : L.bumped = w.client.bumped
  linked : L.linked = w.linked
  whole : Whole L
  sized : ∀ i, ∀ x ∈ w.client.held i, ∃ small : w.sizes x ≤ maxSmall,
    i = sizeClassOf (w.sizes x) small

def Recorded (w : World) : Prop := ∀ i, (w.alloc.pools i).slabs blocksPerSlab = w.linked i

section Preservation

variable {P : Platform} {w w' : World} {L L' : Ledger}

/-- A block is out in one class only. -/
theorem held_unique {m : ByteMemory} {a : SingleThreadAllocator} (inv : Inv m a L)
    {i j : SizeClass} {x : Nat} (left : x ∈ L.held i) (right : x ∈ L.held j) : i = j := by
  apply Classical.byContradiction
  intro different
  obtain ⟨s, member, block⟩ := inv.mem_linked (List.mem_append_right _ right)
  have separate := inv.block_apart (List.mem_append_right _ left) different member
  exact separate.not_holds (Span.Holds.base i.bytes_positive)
    ((Slab.block_inside block).holds (Span.Holds.base j.bytes_positive))

theorem gained_new {m : ByteMemory} {a : SingleThreadAllocator} {c : Client} {i : SizeClass}
    {p : Nat} (inv : Inv m a L) (held : L.held = (c.gainBlock i p).held) (j : SizeClass) :
    p ∉ c.held j := by
  intro old
  have new : p ∈ L.held i := by
    rw [held, Client.gainBlock_same]
    exact List.mem_cons_self
  by_cases same : j = i
  · subst same
    have nodup := (List.nodup_append'.mp (inv.pools j).nodup).2.1
    rw [held, Client.gainBlock_same] at nodup
    exact (List.nodup_cons.mp nodup).1 old
  · have other : p ∈ L.held j := by
      rw [held, Client.gainBlock_other _ _ same]
      exact old
    exact same (held_unique inv other new)

theorem sized_gain {m : ByteMemory} {a : SingleThreadAllocator} {n : Nat}
    {x : Except Exn (Option Nat)} (consistent : Consistent w L) (inv : Inv m a L')
    (held : L'.held = (w.client.gain n x).held) :
    ∀ i, ∀ y ∈ (w.client.gain n x).held i, ∃ small : w.sizesAfter n x y ≤ maxSmall,
      i = sizeClassOf (w.sizesAfter n x y) small := by
  intro i y out
  cases x with
  | error _ => exact consistent.sized i y out
  | ok answer =>
      cases answer with
      | none => exact consistent.sized i y out
      | some p =>
          by_cases small : n ≤ maxSmall
          · have gained : w.client.gain n (.ok (some p)) =
                w.client.gainBlock (sizeClassOf n small) p := dif_pos small
            have sizes : w.sizesAfter n (.ok (some p)) = Function.update w.sizes p n :=
              if_pos small
            rw [gained] at held out
            rw [sizes]
            have fresh := gained_new inv held
            by_cases new : y = p
            · subst new
              rw [Function.update_self]
              refine ⟨small, ?_⟩
              by_cases same : i = sizeClassOf n small
              · exact same
              · rw [Client.gainBlock_other _ _ same] at out
                exact absurd out (fresh i)
            · rw [Function.update_of_ne new]
              by_cases same : i = sizeClassOf n small
              · subst same
                rw [Client.gainBlock_same] at out
                exact consistent.sized _ y ((List.mem_cons.mp out).resolve_left new)
              · rw [Client.gainBlock_other _ _ same] at out
                exact consistent.sized i y out
          · have gained : w.client.gain n (.ok (some p)) = w.client.gainSpan ⟨p, n⟩ :=
              dif_neg small
            have sizes : w.sizesAfter n (.ok (some p)) = w.sizes := if_neg small
            rw [gained] at out
            rw [sizes]
            exact consistent.sized i y out

theorem Consistent.allocate {m' : ByteMemory} {a' : SingleThreadAllocator} {n : Nat}
    {body : Option Nat} {recorded : Bool} {x : Except Exn (Option Nat)}
    (consistent : Consistent w L) (granted : Granted P recorded w.alloc L n body x a' L')
    (inv : Inv m' a' L') :
    Consistent ⟨m', a', w.client.gain n x, w.linkedAfter n body, w.sizesAfter n x⟩ L' := by
  obtain ⟨held, bumped⟩ := Client.gain_granted granted consistent.held consistent.bumped
  refine ⟨inv, held, bumped, ?_, consistent.whole.granted granted,
    sized_gain consistent inv held⟩
  funext j
  rw [granted.linked j, consistent.linked]
  rfl

theorem Consistent.keep {m' : ByteMemory} (consistent : Consistent w L)
    (inv : Inv m' w.alloc L) : Consistent { w with mem := m' } L :=
  ⟨inv, consistent.held, consistent.bumped, consistent.linked, consistent.whole,
    consistent.sized⟩

theorem Consistent.allocateAligned {n alignment : Nat} {x : Option Nat}
    {a' : SingleThreadAllocator} (consistent : Consistent w L) (word : n < Words.radix)
    (power : Words.PowerOfTwo alignment) (noWrap : w.alloc.arena.NoWrap n alignment)
    (done : w.alloc.allocateAligned n alignment = (x, a')) :
    ∃ L', Consistent { w with alloc := a', client := w.client.gainAligned n x } L' ∧
      a'.pools = w.alloc.pools ∧ L'.free = L.free := by
  obtain ⟨inv, held, bumped, linked, whole, sized⟩ := consistent
  rw [SingleThreadAllocator.allocateAligned] at done
  by_cases fits : w.alloc.arena.demand n alignment ≤ w.alloc.arena.capacity
  · obtain ⟨p, served, run, effect⟩ := inv.arenaAllocate_fits power fits
    rw [run] at done
    cases done
    exact ⟨L.bump ⟨p, n⟩, ⟨inv.bump effect, held, congrArg _ bumped, linked, whole, sized⟩,
      effect.pools, rfl⟩
  · rw [inv.arenaAllocate_full word power noWrap (Nat.lt_of_not_le fits)] at done
    cases done
    exact ⟨L, ⟨inv, held, bumped, linked, whole, sized⟩, rfl, rfl⟩

theorem Consistent.free {form : FreeForm} {i : SizeClass} {x p n : Nat}
    {a' : SingleThreadAllocator} {m' : ByteMemory} (consistent : Consistent w L)
    (out : x ∈ w.client.held i) (names : form.Names ⟨x, i.bytes⟩ p) (small : n ≤ maxSmall)
    (done : form.call w.alloc w.mem p n = .ok (a', m')) :
    a' = w.alloc.afterFree n i x ∧
      Consistent { w with mem := m', alloc := a', client := w.client.release i x }
        (L.giveBack i x) := by
  have listed : x ∈ L.held i := consistent.held ▸ out
  obtain ⟨L', released, inv, _⟩ := consistent.inv.free listed names done
  cases released with
  | ignored large => exact absurd small (Nat.not_le.mpr large)
  | pool _ _ =>
      refine ⟨rfl, inv, ?_, consistent.bumped, ?_, consistent.whole.giveBack listed, ?_⟩
      · simp only [Ledger.giveBack, Ledger.setPool, Client.release, consistent.held]
      · simp only [Ledger.giveBack, Ledger.setPool, Function.update_eq_self]
        exact consistent.linked
      · intro j y still
        by_cases same : j = i
        · subst same
          rw [Client.release_same] at still
          exact consistent.sized j y (List.mem_of_mem_erase still)
        · simp only [Client.release, Function.update_of_ne same] at still
          exact consistent.sized j y still

/-- What a call of `allocate` does. -/
theorem Consistent.granted {n : Nat} {body : Option Nat} {recorded : Bool}
    {x : Except Exn (Option Nat)} (consistent : Consistent w L)
    (power : Words.PowerOfTwo P.maxAlign) (noWrap : NoWrap P w (.allocate n body recorded x))
    (taken : Step P w (.allocate n body recorded x) w') :
    ∃ L', Granted P recorded w.alloc L n body x w'.alloc L' ∧ Consistent w' L' ∧
      w'.client = w.client.gain n x ∧ w'.sizes = w.sizesAfter n x := by
  cases taken with
  | @allocate σ _ _ source env env' chunk _ _ a' m' word sound done =>
      rw [← consistent.linked] at sound
      obtain ⟨_, _, _, _, L', body, run, granted, inv, _, _, obtained⟩ :=
        consistent.inv.allocate recorded power word noWrap sound
      rw [done] at run
      cases run
      rw [← obtained]
      exact ⟨L', granted, consistent.allocate granted inv, rfl, rfl⟩

/-- Every step keeps the state consistent, also a refill that is cut short. -/
theorem Consistent.step {e : Event} (consistent : Consistent w L)
    (power : Words.PowerOfTwo P.maxAlign) (noWrap : NoWrap P w e) (taken : Step P w e w') :
    ∃ L', Consistent w' L' := by
  have step := taken
  cases taken with
  | allocate word sound done =>
      obtain ⟨L', _, after, _⟩ := consistent.granted power noWrap step
      exact ⟨L', after⟩
  | allocateAligned nonempty word powerOfTwo done =>
      obtain ⟨L', after, _⟩ := consistent.allocateAligned word powerOfTwo noWrap done
      exact ⟨L', after⟩
  | free out names small cls done => exact ⟨_, (consistent.free out names small done).2⟩
  | @freeArena _ form s p n a' m' out names large done =>
      rw [form.call_large _ _ large] at done
      cases done
      exact ⟨L, consistent⟩
  | @write _ i x a b out inside =>
      have listed : x ∈ L.held i := consistent.held ▸ out
      have inv := consistent.inv.liveWrite listed (SameOutside.writeByte w.mem a b) (by
        intro t written
        obtain rfl := List.mem_singleton.mp written
        exact ⟨inside.1, inside.2⟩)
      exact ⟨L, consistent.keep inv⟩
  | @writeArena _ s a b out inside =>
      have region := consistent.inv.bumped_inside (consistent.bumped ▸ out)
      have inv := consistent.inv.arenaWrite (SameOutside.writeByte w.mem a b) (by
        intro t written
        obtain rfl := List.mem_singleton.mp written
        exact ⟨Nat.le_trans region.1 inside.1, Nat.le_trans inside.2 region.2⟩)
      exact ⟨L, consistent.keep inv⟩

/-- Every state reached from a consistent one by runs without wrapped arena sums. -/
theorem run_consistent (power : Words.PowerOfTwo P.maxAlign) {w₀ : World} {L₀ : Ledger}
    (start : Consistent w₀ L₀) {trace : List (Transition World Event)}
    (run : Run (Step P) w₀ trace w) (noWrap : ∀ x ∈ trace, NoWrap P x.before x.event) :
    (∃ L, Consistent w L) ∧ ∀ x ∈ trace, ∃ L, Consistent x.before L := by
  let inv : World → Prop := fun w => ∃ L, Consistent w L
  have first : inv w₀ := ⟨L₀, start⟩
  have keep : ∀ w e w', inv w → NoWrap P w e → Step P w e w' → inv w' := by
    rintro w e w' ⟨_, consistent⟩ noWrap taken
    exact consistent.step power noWrap taken
  exact ⟨run.invariantWhere first keep noWrap, run.invariantBefore first keep noWrap⟩

theorem Consistent.start {τ : Type} {owner : SizeClass → τ} {arenaOwner : τ}
    {reply : SizeClass → SlabReply} {arenaReply : Option Nat} {h h' : Malloc.Heap τ}
    {m₀ m : ByteMemory} {a : SingleThreadAllocator} (different : Function.Injective owner)
    (apart : ∀ i, owner i ≠ arenaOwner)
    (built : SingleThreadAllocator.new P owner arenaOwner reply arenaReply h m₀ =
      (.ok (a, m), h')) :
    Consistent (World.start m a) a.newLedger ∧ Recorded (World.start m a) ∧
      a.stats = Stats.zero := by
  obtain ⟨inv, _, stats, _, external, _⟩ := SingleThreadAllocator.new_ok different apart built
  refine ⟨⟨inv, rfl, rfl, rfl, ?_, ?_⟩, ?_, stats⟩
  · intro i
    simp [SingleThreadAllocator.newLedger, blocksOf]
  · intro i x out
    cases out
  · intro i
    simp [World.start, BlockPool.slabs, external, SingleThreadAllocator.newLedger]

end Preservation

end MemAlloc.AllocatorRuns
