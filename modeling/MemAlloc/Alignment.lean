import MemAlloc.UndisturbedRuns
import MemAlloc.EmptyBlocks
import MemAlloc.LargeAlignment

set_option autoImplicit false

namespace MemAlloc

open Malloc (Heap)
open Runs (Run Transition)
open SingleThreadAllocator (Extends chunkSlab)

/-- What a block of the class is aligned to, in whichever slab it lies. -/
def SizeClass.alignment (i : SizeClass) : Nat := min i.bytes 64

theorem SizeClass.alignment_dvd (i : SizeClass) :
    i.alignment ∣ i.bytes ∧ i.alignment ∣ CentralHeap.kHeaderOffset ∧
      i.alignment ∣ CentralHeap.chunkSize ∧ 16 ∣ i.alignment := by
  revert i
  decide

namespace SingleThreadAllocator

def SlabsAligned (a : SingleThreadAllocator) : Prop := ∀ i, i.bytes ∣ (a.pools i).slab

theorem slabsAligned_lasting (P : Platform) : Lasting P SlabsAligned := by
  refine ⟨?_, ?_⟩
  · intro t reply arenaReply h h' m m' a done i
    have different : Function.Injective (Owner.slab t) := fun i j same => (Owner.slab.inj same).2
    have apart : ∀ i, Owner.slab t i ≠ .arena t := fun i same => by cases same
    obtain ⟨_, _, _, _, _, aligned, _⟩ := new_ok different apart done
    exact aligned i
  · intro a a' aligned extended i
    rw [extended.regions.slab i]
    exact aligned i

end SingleThreadAllocator

open SingleThreadAllocator (SlabsAligned slabsAligned_lasting)

theorem Slab.block_dvd {B d x : Nat} {s : Slab} (block : x ∈ s.blocks B) (size : d ∣ B)
    (start : d ∣ s.base) : d ∣ x := by
  obtain ⟨k, _, rfl⟩ := List.mem_map.mp block
  exact (Nat.dvd_add_right start).mpr (size.mul_left k)

theorem linkedBy_aligned {g : Shared} {t : Nat} {a : SingleThreadAllocator} {i : SizeClass}
    {s : Slab} (shared : SharedInv g) (aligned : a.SlabsAligned) (member : s ∈ g.linkedBy t a i) :
    i.alignment ∣ s.base := by
  obtain ⟨size, header, chunk, _⟩ := i.alignment_dvd
  rcases Shared.mem_linkedBy.mp member with rfl | ⟨c, carved, _, _, rfl⟩
  · exact size.trans (aligned i)
  · show i.alignment ∣ c.base + CentralHeap.kHeaderOffset
    exact (Nat.dvd_add_right (chunk.trans (shared.aligned c carved))).mpr header

section Blocks

variable {P : Platform} {m m' : ByteMemory} {g g' : Shared} {t n p : Nat}
  {pool pool' : ThreadPoolAlloc} {client : Client} {free : SizeClass → List Nat}

theorem ThreadInv.held_aligned (shared : SharedInv g)
    (inv : ThreadInv m g t pool.alloc client free) (aligned : pool.alloc.SlabsAligned)
    {i : SizeClass} (out : p ∈ client.held i) : i.alignment ∣ p := by
  obtain ⟨s, member, block⟩ := inv.alloc.mem_linked (i := i) (List.mem_append_right _ out)
  exact Slab.block_dvd block i.alignment_dvd.1 (linkedBy_aligned shared aligned member)

theorem ThreadPoolAlloc.allocate_aligned {reply : SlabReply} {chunkRecorded slabRecorded : Bool}
    (shared : SharedInv g) (inv : ThreadInv m g t pool.alloc client free)
    (aligned : pool.alloc.SlabsAligned) (power : Words.PowerOfTwo P.maxAlign)
    (small : n ≤ maxSmall)
    (done : pool.allocate P (acquireChunkCb P t reply chunkRecorded) slabRecorded n g m =
      (.ok (some p), pool', g', m')) : (sizeClassOf n small).alignment ∣ p := by
  have word : n < Words.radix :=
    Nat.lt_of_le_of_lt small (by simp only [maxSmall, Words.radix]; omega)
  obtain ⟨free', _, _, after, shared', _⟩ := inv.allocate shared power word
    (fun large => absurd small (Nat.not_le.mpr large)) done
  have kept := (slabsAligned_lasting P).extend aligned (ThreadPoolAlloc.allocate_extends done)
  have gained : client.gain n (.ok (some p)) = client.gainBlock (sizeClassOf n small) p :=
    dif_pos small
  apply after.held_aligned shared' kept
  rw [gained, Client.gainBlock_same]
  exact List.mem_cons_self

theorem ThreadPoolAlloc.allocateAligned_aligned {alignment : Nat} (arena : pool.alloc.arena.Inv)
    (power : Words.PowerOfTwo alignment)
    (done : pool.allocateAligned n alignment = (some p, pool')) : alignment ∣ p := by
  obtain ⟨served, called⟩ : ∃ served, pool.alloc.arenaAllocate n alignment = served := ⟨_, rfl⟩
  simp only [ThreadPoolAlloc.allocateAligned, SingleThreadAllocator.allocateAligned,
    called] at done
  have place : (pool.alloc.arenaAllocate n alignment).1 = some p := by
    rw [called]
    exact congrArg Prod.fst done
  rw [SingleThreadAllocator.arenaAllocate_pointer arena power place]
  exact Words.padding_dvd power.positive

end Blocks

namespace Sys

/-- Pool blocks are aligned to their size, up to 64, and aligned blocks as requested. -/
def Event.Aligned : Event → Prop
  | .allocate _ n (.ok (some p)) => n ≤ maxSmall → min (blockFor n) 64 ∣ p
  | .allocateAligned _ _ alignment (some p) => alignment ∣ p
  | _ => True

theorem Step.aligned {P : Platform} {s s' : Sys} {e : Event}
    (power : Words.PowerOfTwo P.maxAlign) (inv : SysInv s.solid)
    (aligned : s.Each SlabsAligned) (taken : Step P s e s') : e.Aligned := by
  cases taken with
  | @allocate t n pool pool' client _ _ _ x g' m' live word done =>
      match x with
      | .error _ => trivial
      | .ok none => trivial
      | .ok (some p) =>
          intro small
          obtain ⟨free, thread⟩ := inv.live t pool client.solid (solid_live live)
          rw [blockFor_eq small]
          exact ThreadPoolAlloc.allocate_aligned inv.shared thread (aligned t pool client live)
            power small done
  | @allocateAligned t n alignment pool pool' client x live word power' done =>
      match x with
      | none => trivial
      | some p =>
          obtain ⟨free, thread⟩ := inv.live t pool client.solid (solid_live live)
          exact ThreadPoolAlloc.allocateAligned_aligned thread.alloc.arena power' done
  | _ => trivial

end Sys

namespace NewDelete

variable {P : Platform} {w w' : NewDelete} {r : Replies} {active : Bool}
  {t size alignment p : Nat}

/-- Pool blocks are aligned to their size, up to 64, and the aligned forms return what was
asked for. -/
def AlignedResult (w : NewDelete) : Event → Prop
  | .new t size active (.ok (some p)) =>
      takesFallback w.ready active (w.allocatorGone t) = false → size ≤ maxSmall →
        min (blockFor size) 64 ∣ p
  | .alignedNew _ _ alignment _ (.ok (some p)) => alignment ∣ p
  | _ => True

theorem issueServed_some {source : Nat × Origin} {served : Except Exn (Option Nat)}
    (done : w.issueServed source served = (.ok (some p), w')) : served = .ok (some p) := by
  cases served with
  | error x => cases done
  | ok answer =>
      cases answer with
      | none => cases done
      | some q =>
          cases done
          rfl

theorem poolNew_small {pool : ThreadPoolAlloc} {client : Client} (sys : SysInv w.sys)
    (aligned : w.sys.Each SlabsAligned) (power : Words.PowerOfTwo P.maxAlign)
    (live : w.sys.threads t = .live pool client) (small : size ≤ maxSmall)
    (done : w.poolNew P r t size pool client = (.ok (some p), w')) :
    (sizeClassOf size small).alignment ∣ p := by
  obtain ⟨served, called⟩ : ∃ served, pool.allocate P (acquireChunkCb P t r.chunk true) true
    size w.sys.shared w.sys.mem = served := ⟨_, rfl⟩
  obtain ⟨x, pool', g', m'⟩ := served
  obtain ⟨free, thread⟩ := sys.live t pool client live
  rw [poolNew, called] at done
  have answer : x = .ok (some p) := issueServed_some done
  rw [answer] at called
  exact ThreadPoolAlloc.allocate_aligned sys.shared thread (aligned t pool client live) power small
    called

theorem poolNew_maxAlign {pool : ThreadPoolAlloc} {client : Client} (sys : SysInv w.sys)
    (aligned : w.sys.Each SlabsAligned) (power : Words.PowerOfTwo P.maxAlign)
    (sixteen : P.maxAlign ∣ 16) (live : w.sys.threads t = .live pool client)
    (done : w.poolNew P r t size pool client = (.ok (some p), w')) : P.maxAlign ∣ p := by
  by_cases small : size ≤ maxSmall
  · have block := poolNew_small sys aligned power live small done
    exact sixteen.trans ((sizeClassOf size small).alignment_dvd.2.2.2.trans block)
  · obtain ⟨free, thread⟩ := sys.live t pool client live
    have place := SingleThreadAllocator.arenaAllocate_pointer thread.alloc.arena power
      (poolNew_large (Nat.lt_of_not_le small) done)
    rw [place]
    exact Words.padding_dvd power.positive

/-- What a plain `operator new` returns is aligned for every type that needs no aligned
form. -/
theorem doNew_maxAlign (sys : SysInv w.sys) (aligned : w.sys.Each SlabsAligned)
    (power : Words.PowerOfTwo P.maxAlign) (sixteen : P.maxAlign ∣ 16)
    (malloc : P.maxAlign ∣ P.mallocAlign)
    (done : w.doNew P r active t size = some (.ok (some p), w')) : P.maxAlign ∣ p := by
  simp only [doNew] at done
  split at done
  · exact malloc.trans (fallbackNew_pointer (Option.some.inj done))
  · split at done
    · rename_i live
      exact poolNew_maxAlign sys aligned power sixteen live (Option.some.inj done)
    · cases done

theorem bootstrapAlignedNew_aligned (power : Words.PowerOfTwo alignment)
    (word : size + alignment < Words.radix)
    (done : w.bootstrapAlignedNew P r t size alignment = (.ok (some p), w')) :
    alignment ∣ p := by
  rw [bootstrapAlignedNew] at done
  split at done
  · cases done
  · rename_i raw w₁ granted
    cases done
    obtain ⟨h, rfl, fresh, _⟩ := of_malloc_some granted
    have room : raw + max (Words.add size alignment) 1 ≤ 9223372036854775808 := fresh.2.2.1
    rw [Words.add_of_lt word] at room
    apply (Words.alignUp_spec power _).2.2
    simp only [Words.radix]
    omega

theorem poolAlignedNew_aligned {pool : ThreadPoolAlloc} {client : Client} (sys : SysInv w.sys)
    (power : Words.PowerOfTwo alignment) (live : w.sys.threads t = .live pool client)
    (done : w.poolAlignedNew t size alignment pool client = (.ok (some p), w')) :
    alignment ∣ p := by
  obtain ⟨served, called⟩ : ∃ served, pool.allocateAligned size alignment = served := ⟨_, rfl⟩
  obtain ⟨x, pool'⟩ := served
  obtain ⟨free, thread⟩ := sys.live t pool client live
  rw [poolAlignedNew, called] at done
  have answer : x = some p := Except.ok.inj (issueServed_some done)
  rw [answer] at called
  exact ThreadPoolAlloc.allocateAligned_aligned thread.alloc.arena power called

theorem doAlignedNew_aligned {x : Except Exn (Option Nat)} (sys : SysInv w.sys)
    (aligned : w.sys.Each SlabsAligned) (power : Words.PowerOfTwo P.maxAlign)
    (sixteen : P.maxAlign ∣ 16) (malloc : P.maxAlign ∣ P.mallocAlign)
    (power' : Words.PowerOfTwo alignment)
    (noWrap : w.NoWrap P (.alignedNew t size alignment active x))
    (done : w.doAlignedNew P r active t size alignment = some (.ok (some p), w')) :
    alignment ∣ p := by
  rw [doAlignedNew] at done
  rw [NoWrap] at noWrap
  generalize (if size = 0 then 1 else size) = n at done noWrap
  split at done
  · rename_i plain
    exact (power'.dvd power plain).trans (doNew_maxAlign sys aligned power sixteen malloc done)
  · rename_i strict
    simp only [strict, ↓reduceIte] at noWrap
    split at done
    · rename_i falls
      simp only [falls, ↓reduceIte] at noWrap
      exact bootstrapAlignedNew_aligned power' noWrap (Option.some.inj done)
    · split at done
      · rename_i live
        exact poolAlignedNew_aligned sys power' live (Option.some.inj done)
      · cases done

/-- A small request that the allocator serves gets a block of its class. -/
theorem doNew_small (sys : SysInv w.sys) (aligned : w.sys.Each SlabsAligned)
    (power : Words.PowerOfTwo P.maxAlign) (small : size ≤ maxSmall)
    (serves : takesFallback w.ready active (w.allocatorGone t) = false)
    (done : w.doNew P r active t size = some (.ok (some p), w')) :
    min (blockFor size) 64 ∣ p := by
  simp only [doNew, serves, Bool.false_eq_true, ↓reduceIte] at done
  have fits : (if size = 0 then 1 else size) ≤ maxSmall ∧
      blockFor (if size = 0 then 1 else size) = blockFor size := by
    split
    · rename_i zero
      subst zero
      exact ⟨by decide, by decide⟩
    · exact ⟨small, rfl⟩
  rw [← fits.2]
  generalize (if size = 0 then 1 else size) = n at done fits ⊢
  split at done
  · rename_i live
    rw [blockFor_eq fits.1]
    exact poolNew_small sys aligned power live fits.1 (Option.some.inj done)
  · cases done

theorem Step.aligned {e : Event} (power : Words.PowerOfTwo P.maxAlign) (sixteen : P.maxAlign ∣ 16)
    (malloc : P.maxAlign ∣ P.mallocAlign) (sys : SysInv w.sys) (aligned : w.sys.Each SlabsAligned)
    (noWrap : w.NoWrap P e) (taken : Step P w e w') : w.AlignedResult e := by
  cases taken with
  | @new w' t size active r x word done =>
      match x with
      | .error _ => trivial
      | .ok none => trivial
      | .ok (some p) =>
          intro serves small
          exact doNew_small sys aligned power small serves done
  | @alignedNew w' t size alignment active r x word power' done =>
      match x with
      | .error _ => trivial
      | .ok none => trivial
      | .ok (some p) =>
          exact doAlignedNew_aligned sys aligned power sixteen malloc power' noWrap done
  | _ => trivial

section Run

variable {m : ByteMemory} {h : Heap Owner}

/-- Every block and every aligned result has its alignment: in all runs of the allocators'
own interface, and in those runs of `operator new` and `operator delete` in which no deletion
takes its pointer for another one at the same address. No sum may wrap around. -/
theorem results_aligned (power : Words.PowerOfTwo P.maxAlign) (most : P.maxAlign ≤ 16)
    (malloc : P.maxAlign ∣ P.mallocAlign) :
    (∀ (trace : List (Transition Sys Sys.Event)) (s : Sys),
      Run (Sys.Step P) (Sys.initial m h) trace s →
        (∀ x ∈ trace, x.before.Proper P x.event) → ∀ x ∈ trace, x.event.Aligned) ∧
      ∀ (trace : List (Transition NewDelete Event)) (w : NewDelete),
        Run (Step P) (initial m h) trace w →
          (∀ x ∈ trace, x.before.NoWrap P x.event ∧ x.before.Undisturbed x.event) →
            ∀ x ∈ trace, x.before.AlignedResult x.event := by
  have sixteen : P.maxAlign ∣ 16 := power.dvd ⟨4, by decide, rfl⟩ most
  constructor
  · intro trace s run proper x member
    obtain ⟨past, rest, split, reached, taken⟩ := run.reached x member
    exact taken.aligned power ((Sys.proper_run power run proper).2 x member)
      ((Sys.each_run (slabsAligned_lasting P) run).2 x member)
  · intro trace w run meets x member
    obtain ⟨past, rest, split, reached, taken⟩ := run.reached x member
    have keep : ∀ w e w', Placed w → w.NoWrap P e ∧ w.Undisturbed e → Step P w e w' → Placed w' :=
      fun _ _ _ placed meets taken => placed.step power meets.1 meets.2 taken
    have placed := run.invariantBefore (Placed.initial m h) keep meets x member
    exact taken.aligned power sixteen malloc placed.sound.sys
      (each_run (slabsAligned_lasting P) reached) (meets x member).1

end Run

theorem noWrap_small (w : NewDelete) (small : size ≤ maxSmall) (x : Except Exn (Option Nat)) :
    w.NoWrap P (.new t size active x) := fun large => absurd small (Nat.not_le.mpr large)

theorem noWrap_plain (w : NewDelete) (small : size ≤ maxSmall) (plain : alignment ≤ P.maxAlign)
    (x : Except Exn (Option Nat)) : w.NoWrap P (.alignedNew t size alignment active x) := by
  simp only [NoWrap, plain, ↓reduceIte]
  intro large
  split at large
  · exact absurd large (by decide)
  · exact absurd small (Nat.not_le.mpr large)

theorem noWrap_bootstrap (w : NewDelete) (wide : ¬ alignment ≤ P.maxAlign)
    (falls : takesFallback w.ready active (w.allocatorGone t) = true)
    (sum : (if size = 0 then 1 else size) + alignment < Words.radix)
    (x : Except Exn (Option Nat)) : w.NoWrap P (.alignedNew t size alignment active x) := by
  simpa only [NoWrap, if_neg wide, if_pos falls] using sum

/-- A thread asks its allocator for 100 bytes; another program asks for 16 bytes at a multiple of
64, starts up and asks for 16 again. -/
theorem results_aligned_first :
    (∃ (trace : List (Transition Sys Sys.Event)) (s : Sys),
      Run (Sys.Step desktop) (Sys.initial (fun _ => 0) Heap.empty) trace s ∧
        trace.length = 2 ∧ ∀ x ∈ trace, x.event.Aligned) ∧
      ∃ (trace : List (Transition NewDelete Event)) (w : NewDelete),
        Run (Step desktop) (initial (fun _ => 0) Heap.empty) trace w ∧
          (∃ x ∈ trace, x.event = .alignedNew 0 16 64 false (.ok (some 4096))) ∧
          (∃ x ∈ trace, x.event = .new 0 16 false (.ok (some 1048576))) ∧
          ∀ x ∈ trace, x.before.AlignedResult x.event := by
  have power : Words.PowerOfTwo desktop.maxAlign := ⟨4, by decide, rfl⟩
  have aligned : 1048576 ∣ 0 := Nat.dvd_zero _
  have room : 0 + 33554432 ≤ Malloc.addressLimit := by decide
  constructor
  · obtain ⟨a, m', h', built, _⟩ := SingleThreadAllocator.new_possible (Owner.slab 0) (.arena 0)
      (fun _ => 0) Heap.empty aligned room (fun b member => by cases member)
    obtain ⟨s, pool, started, live⟩ : ∃ s pool,
        Sys.Step desktop (Sys.initial (fun _ => 0) Heap.empty) (.start 0 (.ok ())) s ∧
          s.threads 0 = .live pool Client.none :=
      ⟨_, ⟨a, 0, 0, 0⟩, .start rfl built, rfl⟩
    obtain ⟨x, pool', g', m'', done⟩ : ∃ x pool' g' m'', pool.allocate desktop
        (acquireChunkCb desktop 0 ⟨none, none⟩ true) true 100 s.shared s.mem =
          (x, pool', g', m'') := ⟨_, _, _, _, rfl⟩
    have run := (Run.nil.snoc started).snoc (.allocate live (by decide) done)
    refine ⟨_, _, run, rfl, (results_aligned power (by decide) (by decide)).1 _ _ run ?_⟩
    intro y member
    rcases List.mem_append.mp member with first | second
    · obtain rfl := List.mem_singleton.mp first
      exact ⟨trivial, trivial⟩
    · obtain rfl := List.mem_singleton.mp second
      exact ⟨fun large => absurd large (by decide), trivial⟩
  · obtain ⟨w₀, first, unborn, outside, early, _, _, _, heap⟩ := overAligned_possible
    have below : Below w₀.sys.shared.heap (0 + 1048576) := by
      intro b member
      rw [heap] at member
      obtain rfl := List.mem_singleton.mp member
      decide
    obtain ⟨w₁, w₂, pool, begun, built, threads, _, _, _, heads, _⟩ :=
      construct_possible (t := 0) (congrFun unborn 0) (congrFun outside 0) aligned room below
    have live : w₂.sys.threads 0 = .live pool Client.none := by rw [threads, Function.update_self]
    have init : Step desktop w₂ (.initAllocator 0) { w₂ with ready := true } := .initAllocator live
    obtain ⟨pool', w₃, served, _⟩ :=
      pooled_possible (P := desktop) (w := { w₂ with ready := true }) (t := 0) (n := 16)
        (p := 1048576) rfl live (by decide) (by decide) (heads 0) (by decide)
    have run := ((((Run.nil.snoc first).snoc begun).snoc built).snoc init).snoc served
    refine ⟨_, _, run, ⟨_, List.mem_cons_self, rfl⟩,
      ⟨_, List.mem_append_right _ List.mem_cons_self, rfl⟩,
      (results_aligned power (by decide) (by decide)).2 _ _ run ?_⟩
    intro y member
    simp only [List.mem_append, List.mem_singleton, List.nil_append] at member
    rcases member with (((rfl | rfl) | rfl) | rfl) | rfl
    · exact ⟨noWrap_bootstrap _ (by decide) rfl (by decide) _, trivial⟩
    · exact ⟨trivial, trivial⟩
    · exact ⟨trivial, trivial⟩
    · exact ⟨trivial, trivial⟩
    · exact ⟨noWrap_small _ (by decide) _, trivial⟩

/-- What a freed block leaves behind can be allocated again. -/
theorem refilled_possible {b : Malloc.Block Owner} {n : Nat} (block : b ∈ w.sys.shared.heap.blocks)
    (base : b.span.base = p) (within : (Span.mk p n).Inside b.span) (positive : 0 < n)
    (multiple : P.mallocAlign ∣ p) :
    (w.safeFree p).sys.shared.heap.Fresh P.mallocAlign n p := by
  have bounds := w.sys.shared.heap.bounded b block
  have request : Heap.request p n = ⟨p, n⟩ := by
    rw [Heap.request, Nat.max_eq_left positive]
  refine ⟨?_, multiple, ?_, ?_⟩
  · rw [← base]
    exact bounds.1
  · rw [request]
    exact Nat.le_trans within.2 bounds.2.2
  · intro c member
    obtain ⟨old, other⟩ := Heap.mem_free.mp member
    have different : b ≠ c := by
      rintro rfl
      exact other base
    rw [request]
    exact (Heap.apart_of_ne block old different).mono within (Span.Inside.refl _)

/-- Once its slab has been freed, the pool hands out what another user of the memory has
written there. -/
theorem results_not_always_aligned : ∃ (trace : List (Transition NewDelete Event))
    (w : NewDelete), Run (Step desktop) (initial (fun _ => 0) Heap.empty) trace w ∧
      (∀ x ∈ trace, x.before.NoWrap desktop x.event) ∧
      ¬ ∀ x ∈ trace, x.before.AlignedResult x.event := by
  obtain ⟨trace, w, w₁, pool, client, b, run, events, last, freed, block, owner, base, within,
    ready, live, head⟩ := slab_freed
  have fresh : w₁.sys.shared.heap.Fresh desktop.mallocAlign 4096 2097152 := by
    rw [freed]
    exact refilled_possible block base within (by decide) (by decide)
  have live₁ : w₁.sys.threads 0 = .live pool client := by rw [freed]; exact live
  have ready₁ : w₁.ready = true := by rw [freed]; exact ready
  let h := w₁.sys.shared.heap.add (.outside .program) desktop.mallocAlign 4096 2097152 fresh
  let w₂ : NewDelete := { w₁ with sys := w₁.sys.setHeap h }
  have third : Step desktop w₁ (.malloc 4096 (some 2097152)) w₂ :=
    .malloc (malloc_fresh .program fresh)
  have member : (⟨Heap.request 2097152 4096, .outside .program⟩ : Malloc.Block Owner) ∈
      w₂.sys.shared.heap.blocks := List.mem_cons_self
  have inside : (Heap.request 2097152 4096).Holds 2097168 := by decide
  -- The program writes to the memory it has been given.
  let m := ByteMemory.writeByte w₂.sys.mem 2097168 1
  let w₃ : NewDelete := { w₂ with sys := { w₂.sys with mem := m } }
  have fourth : Step desktop w₂ (.write 2097168 1) w₃ :=
    .write (.write (.outside member rfl inside))
  obtain ⟨pool₄, w₄, called, sys₄, head₄, ready₄, _⟩ :=
    pooled_call (P := desktop) (w := w₃) (t := 0) (n := 16) (p := 2097168) ready₁ live₁
      (by decide) (by decide) head (by decide)
  have fifth : Step desktop w₃ (.new 0 16 false (.ok (some 2097168))) w₄ :=
    .new (by decide) called
  generalize link : ByteMemory.readWord w₃.sys.mem 2097168 = q at head₄
  have odd : q % 256 = 1 := by
    have byte : w₃.sys.mem 2097168 = 1 := Function.update_self 2097168 1 w₂.sys.mem
    rw [← link, ByteMemory.readWord_mod, byte]
    rfl
  have live₄ : w₄.sys.threads 0 = .live pool₄ (client.gain 16 (.ok (some 2097168))) := by
    rw [sys₄]
    exact Sys.setThread_same _ _ _
  obtain ⟨pool₅, w₅, served, _⟩ :=
    pooled_call (P := desktop) (w := w₄) (t := 0) (n := 16) (p := q) (ready₄.trans ready₁) live₄
      (by decide) (by decide) head₄ (by omega)
  have sixth : Step desktop w₄ (.alignedNew 0 16 16 false (.ok (some q))) w₅ := by
    refine .alignedNew (by decide) ⟨4, by decide, rfl⟩ (r := ⟨none, none, ⟨none, none⟩⟩) ?_
    have plain : 16 ≤ desktop.maxAlign := Nat.le_refl _
    rw [doAlignedNew, if_pos plain]
    exact served
  refine ⟨_, w₅, ((((run.snoc last).snoc third).snoc fourth).snoc fifth).snoc sixth, ?_, ?_⟩
  · intro x member
    have listed := List.mem_map_of_mem (f := Transition.event) member
    simp only [List.map_append, events, List.map_cons, List.map_nil, List.cons_append,
      List.nil_append, List.mem_cons, List.not_mem_nil, or_false] at listed
    generalize x.event = e at listed ⊢
    rcases listed with rfl | rfl | rfl | rfl | rfl | rfl | rfl | rfl | rfl | rfl | rfl | rfl | rfl
    all_goals first | trivial | exact noWrap_small _ (by decide) _ |
      exact noWrap_plain _ (by decide) (Nat.le_refl _) _
  · intro aligned
    have multiple : 16 ∣ q := aligned _ (List.mem_append_right _ (List.mem_singleton_self _))
    omega

end NewDelete

end MemAlloc
