import MemAlloc.FallbackInvariant

set_option autoImplicit false

namespace MemAlloc.NewDelete

open Malloc (Heap Block)
open Runs (Run Transition)
open SingleThreadAllocator (kArenaPointer)

/-- What holds in every run, whatever sizes are requested. -/
structure Inv (w : NewDelete) : Prop where
  housed : SysHoused w.sys
  backed : Backed w.sys.shared.heap w.alignedScratch w.issued

/-- The address has its only meaning in the registry and the flags: the thread stashes no
such payload, and its allocator is not in use or does not know the address. -/
def ConsultsRegistry (w : NewDelete) (t p : Nat) : Prop :=
  (∀ e ∈ w.alignedScratch t, e.payload ≠ p) ∧
    (w.ready = false ∨
      match w.sys.threads t with
      | .unborn => False
      | .live pool _ => pool.classify p = 0
      | .exited => True)

/-- When the deletion is left to the registry and the registry has the address, the pointer
is a fallback pointer itself, not another one at an address that was registered before. -/
def FreshRecord (w : NewDelete) : Event → Prop
  | .delete t p source _ => w.ConsultsRegistry t p → p ∈ w.mallocRecs → source.2 = .fallback
  | _ => True

/-- Every `std::free` gets an outstanding block of the fallback path, and so no address of a
slab, an arena or a chunk. -/
def FreesFallback (w : NewDelete) : Event → Prop
  | .delete _ _ _ (some freed) => ∀ p ∈ freed,
      (Outstanding w.sys.shared.heap .fallback p ∨ Outstanding w.sys.shared.heap .overAligned p) ∧
        ∀ b ∈ w.sys.shared.heap.blocks, b.span.Holds p → ∃ use, b.owner = .outside use
  | _ => True

theorem Outstanding.owner {h : Heap Owner} {use : Use} {p : Nat} (out : Outstanding h use p)
    {b : Block Owner} (member : b ∈ h.blocks) (held : b.span.Holds p) :
    b.owner = .outside use := by
  obtain ⟨c, block, owner, rfl⟩ := out
  obtain rfl := Heap.eq_of_holds member block held (Heap.holds_base block)
  exact owner

section Calls

variable {P : Platform} {w w' : NewDelete} {r : Replies} {t n p : Nat}
  {x : Except Exn (Option Nat)}

theorem of_malloc_none {use : Use} {reply : Option Nat}
    (done : w.malloc P use n reply = (none, w')) : w' = w := by
  unfold malloc at done
  cases answer : w.sys.shared.heap.malloc (.outside use) P.mallocAlign n reply with
  | mk result h =>
      rw [answer] at done
      cases done
      obtain rfl := Heap.of_malloc_none answer
      rfl

theorem of_malloc_some {use : Use} {reply : Option Nat}
    (done : w.malloc P use n reply = (some p, w')) :
    ∃ h, w' = { w with sys := w.sys.setHeap h } ∧
      w.sys.shared.heap.Fresh P.mallocAlign n p ∧
      h.blocks = ⟨Heap.request p n, .outside use⟩ :: w.sys.shared.heap.blocks := by
  unfold malloc at done
  cases answer : w.sys.shared.heap.malloc (.outside use) P.mallocAlign n reply with
  | mk result h =>
      rw [answer] at done
      cases done
      obtain ⟨fresh, added⟩ := Heap.of_malloc_some answer
      exact ⟨h, rfl, fresh, added⟩

theorem of_recordMallocPtr (P : Platform) (reply : Option Nat) (p : Nat) (w : NewDelete) :
    ∃ h recs, w.recordMallocPtr P reply p =
        { w with sys := w.sys.setHeap h, mallocRecs := recs } ∧
      (∀ b ∈ w.sys.shared.heap.blocks, b ∈ h.blocks) ∧
      (recs = w.mallocRecs ∨ recs = p :: w.mallocRecs) := by
  rw [recordMallocPtr]
  cases answer : w.malloc P .node mallocRecBytes reply with
  | mk result w' =>
      cases result with
      | none =>
          obtain rfl := of_malloc_none answer
          exact ⟨_, _, rfl, fun _ member => member, Or.inl rfl⟩
      | some q =>
          obtain ⟨h, rfl, _, added⟩ := of_malloc_some answer
          refine ⟨h, _, rfl, fun b member => ?_, Or.inr rfl⟩
          rw [added]
          exact List.mem_cons_of_mem _ member

/-- Requests to the C heap, and changes to the registry and the flags, keep everything. -/
theorem Inv.grow {h : Heap Owner} (inv : Inv w)
    (kept : ∀ b ∈ w.sys.shared.heap.blocks, b ∈ h.blocks) :
    SysHoused (w.sys.setHeap h) ∧ Backed h w.alignedScratch w.issued :=
  ⟨inv.housed.heap fun b member _ => kept b member,
    inv.backed.heap fun b member _ => kept b member⟩

theorem Inv.malloc {use : Use} {reply answer : Option Nat} (inv : Inv w)
    (done : w.malloc P use n reply = (answer, w')) : Inv w' := by
  cases answer with
  | none => rwa [of_malloc_none done]
  | some p =>
      obtain ⟨h, rfl, _, added⟩ := of_malloc_some done
      obtain ⟨housed, backed⟩ := inv.grow (h := h) (fun b member => by
        rw [added]
        exact List.mem_cons_of_mem _ member)
      exact ⟨housed, backed⟩

theorem Inv.recordMallocPtr (inv : Inv w) (P : Platform) (reply : Option Nat) (p : Nat) :
    Inv (w.recordMallocPtr P reply p) := by
  obtain ⟨h, recs, same, kept, _⟩ := of_recordMallocPtr P reply p w
  obtain ⟨housed, backed⟩ := inv.grow kept
  rw [same]
  exact ⟨housed, backed⟩

theorem Inv.fallbackNew (inv : Inv w) (done : w.fallbackNew P r t n = (x, w')) : Inv w' := by
  rw [NewDelete.fallbackNew] at done
  split at done
  · rename_i w₁ refused
    cases done
    exact (inv.malloc refused).recordMallocPtr P r.node 0
  · rename_i p w₁ granted
    cases done
    have grown := (inv.malloc granted).recordMallocPtr P r.node p
    obtain ⟨h, rfl, fresh, added⟩ := of_malloc_some granted
    obtain ⟨h', recs, same, kept, _⟩ :=
      of_recordMallocPtr P r.node p { w with sys := w.sys.setHeap h }
    rw [same] at grown ⊢
    have block : Outstanding h .fallback p :=
      ⟨_, by rw [added]; exact List.mem_cons_self, rfl, rfl⟩
    refine ⟨grown.housed, grown.backed.issue t (block.mono fun b member _ => kept b member) ?_⟩
    intro u out
    exact Outstanding.fresh fresh (inv.backed.plain u p out) rfl

theorem Inv.bootstrapAlignedNew {alignment : Nat} (inv : Inv w)
    (done : w.bootstrapAlignedNew P r t n alignment = (x, w')) : Inv w' := by
  rw [NewDelete.bootstrapAlignedNew] at done
  split at done
  · rename_i w₁ refused
    cases done
    exact inv.malloc refused
  · rename_i raw w₁ granted
    cases done
    have grown := inv.malloc granted
    obtain ⟨h, rfl, fresh, added⟩ := of_malloc_some granted
    have block : Outstanding h .overAligned raw :=
      ⟨_, by rw [added]; exact List.mem_cons_self, rfl, rfl⟩
    refine ⟨grown.housed, ?_⟩
    refine (grown.backed.stash t _ block ?_).issueOther (by simp) _
    intro u e stashed
    exact Outstanding.fresh fresh (inv.backed.raw u e stashed)

theorem Inv.issueServed {source : Nat × Origin} {served : Except Exn (Option Nat)}
    (inv : Inv w) (other : source.2 ≠ .fallback)
    (done : w.issueServed source served = (x, w')) : Inv w' := by
  unfold NewDelete.issueServed at done
  split at done
  · cases done
    exact ⟨inv.housed, inv.backed.issueOther other _⟩
  · cases done
    exact inv

theorem ofSize_ne (n : Nat) : Origin.ofSize n ≠ .fallback := by
  rw [Origin.ofSize]
  split
  · exact fun same => by cases same
  · exact fun same => by cases same

theorem Inv.poolNew {pool : ThreadPoolAlloc} {client : Client} (inv : Inv w)
    (live : w.sys.threads t = .live pool client)
    (done : w.poolNew P r t n pool client = (x, w')) : Inv w' := by
  rw [NewDelete.poolNew] at done
  generalize served : pool.allocate P (acquireChunkCb P t r.chunk true) true n w.sys.shared
    w.sys.mem = answer at done
  obtain ⟨x₁, pool', g', m'⟩ := answer
  obtain ⟨housed, shared, kept⟩ := ThreadPoolAlloc.allocate_housed inv.housed.shared
    (inv.housed.live t pool client live) served
  have after : SysHoused { w.sys.setThread t (.live pool' (client.gain n x₁)) with
      mem := m'
      shared := g' } := by
    refine inv.housed.advance (t := t) shared rfl ?_ (fun _ _ b member _ => kept b member)
    intro pool₁ client₁ same
    obtain ⟨rfl, _⟩ := Thread.live.inj same
    exact housed
  have backed : Backed g'.heap w.alignedScratch w.issued :=
    inv.backed.heap fun b member _ => kept b member
  exact Inv.issueServed ⟨after, backed⟩ (ofSize_ne n) done

theorem Inv.poolAlignedNew {alignment : Nat} {pool : ThreadPoolAlloc} {client : Client}
    (inv : Inv w) (live : w.sys.threads t = .live pool client)
    (done : w.poolAlignedNew t n alignment pool client = (x, w')) : Inv w' := by
  rw [NewDelete.poolAlignedNew] at done
  generalize called : pool.allocateAligned n alignment = served at done
  obtain ⟨y, pool'⟩ := served
  have extended := ThreadPoolAlloc.allocateAligned_extends called
  have after : SysHoused (w.sys.setThread t (.live pool' (client.gainAligned n y))) := by
    refine inv.housed.advance (t := t) inv.housed.shared rfl ?_ (fun _ _ b member _ => member)
    intro pool₁ client₁ same
    obtain ⟨rfl, _⟩ := Thread.live.inj same
    exact (inv.housed.live t pool client live).extend extended (fun _ member _ => member)
      (fun _ _ impossible => impossible.elim)
  have settled := Inv.mk (w := { w with sys := _ }) after inv.backed
  exact settled.issueServed (by simp) done

theorem Inv.doNew {active : Bool} (inv : Inv w) (done : w.doNew P r active t n = some (x, w')) :
    Inv w' := by
  rw [NewDelete.doNew] at done
  generalize (if n = 0 then 1 else n) = size at done
  split at done
  · exact inv.fallbackNew (Option.some.inj done)
  · split at done
    · rename_i live
      exact inv.poolNew live (Option.some.inj done)
    · cases done

theorem Inv.doAlignedNew {active : Bool} {alignment : Nat} (inv : Inv w)
    (done : w.doAlignedNew P r active t n alignment = some (x, w')) : Inv w' := by
  rw [NewDelete.doAlignedNew] at done
  generalize (if n = 0 then 1 else n) = size at done
  split at done
  · exact inv.doNew done
  · split at done
    · exact inv.bootstrapAlignedNew (Option.some.inj done)
    · split at done
      · rename_i live
        exact inv.poolAlignedNew live (Option.some.inj done)
      · cases done

end Calls

/-- The ways in which `do_delete` ends. -/
inductive Deleted (w : NewDelete) (t p : Nat) : List Nat → NewDelete → Prop
  | null (null : p = 0) : Deleted w t p [] w
  | stashed {e : Scratch} {before after : List Scratch}
      (split : w.alignedScratch t = before ++ e :: after) (payload : e.payload = p) :
      Deleted w t p [e.raw]
        { w.safeFree e.raw with
          alignedScratch := Function.update w.alignedScratch t (before ++ after) }
  | registered (consults : w.ConsultsRegistry t p) (member : p ∈ w.mallocRecs) :
      Deleted w t p [p] (w.safeFree p)
  | ignored (consults : w.ConsultsRegistry t p) (absent : p ∉ w.mallocRecs) :
      Deleted w t p [] w
  | arena {pool : ThreadPoolAlloc} {client : Client} (ready : w.ready = true)
      (live : w.sys.threads t = .live pool client)
      (unstashed : ∀ e ∈ w.alignedScratch t, e.payload ≠ p)
      (classified : pool.classify p = kArenaPointer) : Deleted w t p [] w
  | pool {pool pool' : ThreadPoolAlloc} {client : Client} {m' : ByteMemory}
      (ready : w.ready = true) (live : w.sys.threads t = .live pool client)
      (unstashed : ∀ e ∈ w.alignedScratch t, e.payload ≠ p)
      (known : pool.classify p ≠ 0) (small : pool.classify p ≠ kArenaPointer)
      (done : pool.deallocateContaining w.sys.mem p (pool.classify p) = .ok (pool', m')) :
      Deleted w t p []
        { w with sys := { w.sys.setThread t (.live pool'
            (client.releaseAt (pool.classify p) p)) with mem := m' } }

section Delete

variable {P : Platform} {w w' : NewDelete} {t p : Nat} {source : Nat × Origin} {freed : List Nat}

theorem of_freeRegistered (consults : w.ConsultsRegistry t p)
    (done : w.freeRegistered p = (freed, w')) : Deleted w t p freed w' := by
  unfold freeRegistered isRegisteredMallocPtr at done
  split at done
  · rename_i found
    cases done
    exact .registered consults (of_decide_eq_true found)
  · rename_i missed
    cases done
    exact .ignored consults (fun member => missed (decide_eq_true member))

theorem of_doDelete (done : w.doDelete t p = some (freed, w')) : Deleted w t p freed w' := by
  unfold doDelete at done
  split at done
  · rename_i null
    cases done
    exact .null null
  · split at done
    · rename_i e found
      cases done
      obtain ⟨payload, before, after, split, others⟩ := List.find?_eq_some_iff_append.mp found
      have erased : (w.alignedScratch t).eraseP (fun e => decide (e.payload = p)) =
          before ++ after := by
        rw [split, List.eraseP_append_right _ (fun f member => by simpa using others f member),
          List.eraseP_cons_of_pos (p := fun e : Scratch => decide (e.payload = p)) payload]
      rw [erased]
      exact .stashed split (of_decide_eq_true payload)
    · rename_i missed
      have unstashed : ∀ e ∈ w.alignedScratch t, e.payload ≠ p := by
        intro e member
        simpa using List.find?_eq_none.mp missed e member
      split at done
      · rename_i early
        exact of_freeRegistered ⟨unstashed, Or.inl early⟩ (Option.some.inj done)
      · rename_i late
        have ready : w.ready = true := by simpa using late
        split at done
        · rename_i gone
          refine of_freeRegistered ⟨unstashed, Or.inr ?_⟩ (Option.some.inj done)
          rw [gone]
          trivial
        · cases done
        · rename_i pool client live
          dsimp only at done
          split at done
          · rename_i unknown
            refine of_freeRegistered ⟨unstashed, Or.inr ?_⟩ (Option.some.inj done)
            rw [live]
            exact unknown
          · rename_i known
            split at done
            · rename_i arena
              cases done
              exact .arena ready live unstashed arena
            · rename_i small
              split at done
              · cases done
              · rename_i taken
                cases done
                exact .pool ready live unstashed known small taken

/-- The tests of `do_delete` keep the invariant, and free what the fallback path allocated,
as long as the registry is right about the pointer. -/
theorem Inv.deleted (inv : Inv w) (out : p ∈ w.issued source)
    (fresh : w.FreshRecord (.delete t p source (some freed))) (deleted : Deleted w t p freed w') :
    Inv (w'.retire source p) ∧ w.FreesFallback (.delete t p source (some freed)) := by
  have fewer := inv.backed.retire source p
  cases deleted with
  | null null => exact ⟨⟨inv.housed, fewer⟩, fun q member => by cases member⟩
  | ignored consults absent => exact ⟨⟨inv.housed, fewer⟩, fun q member => by cases member⟩
  | arena ready live unstashed classified =>
      exact ⟨⟨inv.housed, fewer⟩, fun q member => by cases member⟩
  | @stashed e before after split payload =>
      have member : e ∈ w.alignedScratch t := by
        rw [split]
        exact List.mem_append_right _ List.mem_cons_self
      have block := inv.backed.raw t e member
      have permuted : (w.alignedScratch t).Perm (e :: (before ++ after)) := by
        rw [split]
        exact List.perm_middle
      have sublist : (before ++ after).Sublist (w.alignedScratch t) := by
        rw [split]
        exact (List.sublist_cons_self e after).append_left before
      refine ⟨⟨inv.housed.heap fun b held other => block.free_others held (other _),
        fewer.freeStashed member permuted sublist⟩, ?_⟩
      intro q listed
      obtain rfl := List.mem_singleton.mp listed
      exact ⟨Or.inr block, fun b held inside => ⟨_, block.owner held inside⟩⟩
  | registered consults member =>
      obtain ⟨u, origin⟩ := source
      obtain rfl : origin = .fallback := fresh consults member
      have block := inv.backed.plain u p out
      refine ⟨⟨inv.housed.heap fun b held other => block.free_others held (other _),
        inv.backed.freePlain out⟩, ?_⟩
      intro q listed
      obtain rfl := List.mem_singleton.mp listed
      exact ⟨Or.inl block, fun b held inside => ⟨_, block.owner held inside⟩⟩
  | @pool pool pool' client m' ready live unstashed known small done =>
      have extended := SingleThreadAllocator.call_extends
        (ThreadPoolAlloc.of_free done)
      exact ⟨⟨inv.housed.extend live rfl rfl extended, fewer⟩, fun q member => by cases member⟩

theorem Inv.step {e : Event} (inv : Inv w) (fresh : w.FreshRecord e) (taken : Step P w e w') :
    Inv w' := by
  cases taken with
  | begin unborn first => exact ⟨inv.housed, inv.backed⟩
  | construct begun taken =>
      cases taken with
      | start unborn done =>
          have growth := (Housed.new done).2
          exact ⟨inv.housed.start done, inv.backed.heap fun b old _ => growth b old⟩
      | startFails unborn done =>
          have growth := SingleThreadAllocator.new_error done
          obtain ⟨housed, backed⟩ := inv.grow growth
          exact ⟨⟨housed.shared, housed.live⟩, backed⟩
  | exit taken =>
      cases taken with
      | exit live =>
          obtain ⟨housed, survives⟩ := inv.housed.exit live
          refine ⟨housed, inv.backed.heap fun b member free => survives b member ?_⟩
          rw [free]
          exact fun same => by cases same
  | initAllocator live => exact ⟨inv.housed, inv.backed⟩
  | new word done => exact inv.doNew done
  | alignedNew word power done => exact inv.doAlignedNew done
  | delete out done => exact (inv.deleted out fresh (of_doDelete done)).1
  | reenter out begun stuck => exact ⟨inv.housed, inv.backed.retire _ _⟩
  | malloc done => exact inv.malloc done
  | mfree member owner =>
      have block : Outstanding w.sys.shared.heap .program _ := ⟨_, member, owner, rfl⟩
      refine ⟨inv.housed.heap fun b held other => block.free_others held (other _), ?_⟩
      refine ⟨fun t p out => ?_, inv.backed.plainOnce, inv.backed.plainOwner, fun t e stashed => ?_,
        inv.backed.rawOnce, inv.backed.rawOwner⟩
      · refine (inv.backed.plain t p out).free ?_
        rintro rfl
        cases (inv.backed.plain t _ out).use_unique block
      · refine (inv.backed.raw t e stashed).free ?_
        intro same
        rw [← same] at block
        cases (inv.backed.raw t e stashed).use_unique block
  | write taken =>
      cases taken with
      | write writable => exact ⟨⟨inv.housed.shared, inv.housed.live⟩, inv.backed⟩

end Delete

theorem Inv.initial (m : ByteMemory) (h : Heap Owner) : Inv (initial m h) := by
  refine ⟨SysHoused.initial m h, ?_, ?_, ?_, ?_, ?_, ?_⟩
  · intro t p out
    cases out
  · intro t
    exact List.nodup_nil
  · intro t u p out
    cases out
  · intro t e stashed
    cases stashed
  · intro t
    exact List.nodup_nil
  · intro t u e stashed
    cases stashed

section Possible

variable {P : Platform} {w : NewDelete} {t n p : Nat} {source : Nat × Origin}

theorem malloc_fresh (use : Use) (fresh : w.sys.shared.heap.Fresh P.mallocAlign n p) :
    w.malloc P use n (some p) = (some p, { w with
      sys := w.sys.setHeap (w.sys.shared.heap.add (.outside use) P.mallocAlign n p fresh) }) := by
  rw [malloc, Heap.malloc_fresh (.outside use) fresh]

/-- The fallback can hand out any fresh address, and register it in a fresh node. -/
theorem fallback_possible {node : Nat} {nested : Bool} (positive : n ≠ 0)
    (word : n < Words.radix) (falls : takesFallback w.ready nested (w.allocatorGone t) = true)
    (fresh : w.sys.shared.heap.Fresh P.mallocAlign n p)
    (room : (w.sys.shared.heap.add (.outside .fallback) P.mallocAlign n p fresh).Fresh
      P.mallocAlign mallocRecBytes node) :
    Step P w (.new t n nested (.ok (some p)))
      ({ w with
        sys := w.sys.setHeap ((w.sys.shared.heap.add (.outside .fallback) P.mallocAlign n p
          fresh).add (.outside .node) P.mallocAlign mallocRecBytes node room)
        mallocRecs := p :: w.mallocRecs }.issue (t, .fallback) p) := by
  have granted := malloc_fresh .fallback fresh
  refine Step.new (r := ⟨some p, some node, ⟨none, none⟩⟩) word ?_
  rw [doNew]
  simp only [positive, ↓reduceIte, falls, fallbackNew, granted, recordMallocPtr]
  rw [malloc_fresh .node room]
  rfl

/-- A registered pointer that is left to the registry is freed. -/
theorem registered_possible (nonnull : p ≠ 0) (out : p ∈ w.issued source)
    (consults : w.ConsultsRegistry t p) (member : p ∈ w.mallocRecs) :
    Step P w (.delete t p source (some [p])) ((w.safeFree p).retire source p) := by
  refine Step.delete out ?_
  obtain ⟨unstashed, phase⟩ := consults
  have missed : (w.alignedScratch t).find? (fun e => decide (e.payload = p)) = none := by
    refine List.find?_eq_none.mpr (fun e stashed => ?_)
    simpa using unstashed e stashed
  have found : w.freeRegistered p = ([p], w.safeFree p) := by
    simp [freeRegistered, isRegisteredMallocPtr, member]
  rw [doDelete, if_neg nonnull]
  simp only [missed, found]
  by_cases early : w.ready = false
  · rw [if_pos early]
  · rw [if_neg early]
    have late := phase.resolve_left early
    cases thread : w.sys.threads t with
    | unborn =>
        rw [thread] at late
        exact late.elim
    | exited => rfl
    | live pool client =>
        rw [thread] at late
        have unknown : pool.classify p = 0 := late
        simp only [unknown, ↓reduceIte]

/-- Before anything else, thread 0 allocates 16 bytes at `p` and frees them again. -/
theorem bootstrap_possible {p : Nat} (aligned : 16 ∣ p) (above : 8192 ≤ p)
    (room : p + 16 ≤ Malloc.addressLimit) :
    ∃ w₁ w₂, Step desktop (initial (fun _ => 0) Heap.empty) (.new 0 16 false (.ok (some p))) w₁ ∧
      Step desktop w₁ (.delete 0 p (0, .fallback) (some [p])) w₂ ∧
      w₁.mallocRecs = [p] ∧ (∀ s, ∀ q ∈ w₁.issued s, q = p) ∧
      (∀ s, ∀ q ∈ w₂.issued s, q ∈ w₁.issued s) ∧ w₁.alignedScratch = (fun _ => []) ∧
      Below w₂.sys.shared.heap 8192 ∧
      (∃ h, w₂.sys = (initial (fun _ => 0) Heap.empty).sys.setHeap h) ∧ w₂.ready = false ∧
      w₂.mallocRecs = [p] ∧ w₂.alignedScratch = (fun _ => []) ∧
      w₂.constructing = fun _ => false := by
  let w : NewDelete := initial (fun _ => 0) Heap.empty
  have limit : p + 16 ≤ 9223372036854775808 := room
  have fresh : w.sys.shared.heap.Fresh desktop.mallocAlign 16 p := by
    refine ⟨by omega, aligned, room, fun b member => ?_⟩
    cases member
  have space : (w.sys.shared.heap.add (.outside .fallback) desktop.mallocAlign 16 p fresh).Fresh
      desktop.mallocAlign mallocRecBytes 4096 := by
    refine ⟨by decide, by decide, by decide, fun b member => ?_⟩
    obtain rfl := List.mem_singleton.mp member
    have order : 4096 + 16 ≤ p := by omega
    exact Or.inl order
  have falls : takesFallback w.ready false (w.allocatorGone 0) = true := rfl
  have first := fallback_possible (P := desktop) (by decide) (by decide) falls fresh space
  refine ⟨_, _, first, registered_possible (by omega) ?_ ⟨?_, Or.inl rfl⟩ ?_, rfl, ?_,
    fun s q member => (retire_sublist _ _ s p).subset member, rfl, ?_, ⟨_, rfl⟩, rfl, rfl, rfl,
    rfl⟩
  · exact List.mem_cons_self
  · intro e stashed
    cases stashed
  · exact List.mem_cons_self
  · intro s q member
    by_cases same : s = (0, .fallback)
    · subst same
      exact List.mem_singleton.mp member
    · change q ∈ Function.update w.issued (0, Origin.fallback) [p] s at member
      rw [Function.update_of_ne same] at member
      cases member
  · intro b member
    obtain ⟨member, other⟩ := Heap.mem_free.mp member
    rcases List.mem_cons.mp member with rfl | older
    · change 4096 + 16 ≤ 8192
      omega
    · obtain rfl := List.mem_singleton.mp older
      exact absurd rfl other

/-- A stocked pool serves a request from its free list. -/
theorem pooled_call {pool : ThreadPoolAlloc} {client : Client} (ready : w.ready = true)
    (live : w.sys.threads t = .live pool client) (positive : n ≠ 0) (small : n ≤ maxSmall)
    (head : (pool.alloc.pools (sizeClassOf n small)).head = p) (nonnull : p ≠ 0) :
    ∃ pool' w', w.doNew P ⟨none, none, ⟨none, none⟩⟩ false t n = some (.ok (some p), w') ∧
      w'.sys = w.sys.setThread t (.live pool' (client.gain n (.ok (some p)))) ∧
      (pool'.alloc.pools (sizeClassOf n small)).head = ByteMemory.readWord w.sys.mem p ∧
      w'.ready = w.ready ∧ w'.mallocRecs = w.mallocRecs ∧
      w'.alignedScratch = w.alignedScratch ∧ w'.constructing = w.constructing ∧
      w'.issued = Function.update w.issued (t, .pool n) (p :: w.issued (t, .pool n)) := by
  have serves : takesFallback w.ready false (w.allocatorGone t) = false := by
    rw [takesFallback, ready, allocatorGone, live]
    rfl
  have route : Origin.ofSize n = .pool n := if_pos small
  obtain ⟨pool', served, popped⟩ : ∃ pool',
      pool.allocate P (acquireChunkCb P t ⟨none, none⟩ true) true n w.sys.shared w.sys.mem =
        (.ok (some p), pool', w.sys.shared, w.sys.mem) ∧
      (pool'.alloc.pools (sizeClassOf n small)).head = ByteMemory.readWord w.sys.mem p :=
    ⟨_, ThreadPoolAlloc.allocate_stocked _ true w.sys.shared small head nonnull,
      by simp [SingleThreadAllocator.recordAlloc, SingleThreadAllocator.setPool]⟩
  let thread := Thread.live pool' (client.gain n (.ok (some p)))
  refine ⟨pool', { w with sys := w.sys.setThread t thread }.issue (t, .pool n) p, ?_, rfl, popped,
    rfl, rfl, rfl, rfl, rfl⟩
  rw [doNew, if_neg positive, serves]
  simp only [Bool.false_eq_true, ↓reduceIte, live]
  rw [poolNew, served, issueServed, route]
  rfl

theorem pooled_possible {pool : ThreadPoolAlloc} {client : Client} (ready : w.ready = true)
    (live : w.sys.threads t = .live pool client) (positive : n ≠ 0) (small : n ≤ maxSmall)
    (head : (pool.alloc.pools (sizeClassOf n small)).head = p) (nonnull : p ≠ 0) :
    ∃ pool' w', Step P w (.new t n false (.ok (some p))) w' ∧
      w'.sys = w.sys.setThread t (.live pool' (client.gain n (.ok (some p)))) ∧
      w'.ready = w.ready ∧ w'.mallocRecs = w.mallocRecs ∧
      w'.alignedScratch = w.alignedScratch ∧ w'.constructing = w.constructing ∧
      w'.issued = Function.update w.issued (t, .pool n) (p :: w.issued (t, .pool n)) := by
  have word : n < Words.radix :=
    Nat.lt_of_le_of_lt small (by simp only [maxSmall, Words.radix]; omega)
  obtain ⟨pool', w', done, sys, _, rest⟩ :=
    pooled_call (P := P) ready live positive small head nonnull
  exact ⟨pool', w', .new word done, sys, rest⟩

/-- Above everything outstanding, a thread's allocator can be constructed. -/
theorem construct_possible {base : Nat} (unborn : w.sys.threads t = .unborn)
    (first : w.constructing t = false) (aligned : 1048576 ∣ base)
    (room : base + 33554432 ≤ Malloc.addressLimit)
    (below : Below w.sys.shared.heap (base + 1048576)) :
    ∃ w₁ w₂ pool, Step desktop w (.begin t) w₁ ∧ Step desktop w₁ (.construct t (.ok ())) w₂ ∧
      w₂.sys.threads = Function.update w.sys.threads t (.live pool Client.none) ∧
      w₂.sys.shared.carved = w.sys.shared.carved ∧
      Housed w₂.sys.shared.heap t pool.alloc ∧
      (∀ i, (pool.alloc.pools i).slab = spreadAddress base i) ∧
      (∀ i, (pool.alloc.pools i).head = spreadAddress base i) ∧
      Below w₂.sys.shared.heap (base + 33554432) ∧
      (∀ b ∈ w.sys.shared.heap.blocks, b ∈ w₂.sys.shared.heap.blocks) ∧
      w₂.ready = w.ready ∧ w₂.mallocRecs = w.mallocRecs ∧
      w₂.alignedScratch = w.alignedScratch ∧ w₂.issued = w.issued ∧
      w₂.constructing = w.constructing ∧
      ∀ i, (pool.alloc.pools i).raw = spreadAddress base i ∧
        ByteMemory.readWord w₂.sys.mem (spreadAddress base i) = spreadAddress base i + i.bytes := by
  obtain ⟨a, m', h', built, slabs, _, below', _⟩ :=
    SingleThreadAllocator.new_possible (Owner.slab t) (.arena t) w.sys.mem w.sys.shared.heap
      aligned room below
  obtain ⟨housed, growth⟩ := Housed.new built
  have different : Function.Injective (Owner.slab t) := fun i j same => (Owner.slab.inj same).2
  have heads :=
    SingleThreadAllocator.new_heads different (fun i same => by cases same) built
  have spelled : ∀ i, (a.pools i).raw = spreadAddress base i ∧
      ByteMemory.readWord m' (spreadAddress base i) = spreadAddress base i + i.bytes := by
    intro i
    have raw := SingleThreadAllocator.new_raw (fun _ => rfl) built i
    have next := (heads i).2
    rw [slabs i] at raw next
    exact ⟨raw, next⟩
  have cleared : Function.update (Function.update w.constructing t true) t false =
      w.constructing := by
    rw [Function.update_idem, ← first, Function.update_eq_self]
  exact ⟨_, _, _, .begin unborn first,
    .construct (Function.update_self _ _ _) (.start unborn built), rfl, rfl, housed, slabs,
    fun i => (heads i).1.trans (slabs i), below', growth, rfl, rfl, rfl, rfl, cleared, spelled⟩

end Possible

section Run

variable {P : Platform} {m : ByteMemory} {h : Heap Owner}

/-- When no deletion is answered by a registry entry that another pointer has left behind,
`std::free` only ever gets outstanding blocks of the fallback path. -/
theorem frees_fallback {trace : List (Transition NewDelete Event)} {w : NewDelete}
    (run : Run (Step P) (initial m h) trace w)
    (fresh : ∀ x ∈ trace, x.before.FreshRecord x.event) :
    ∀ x ∈ trace, x.before.FreesFallback x.event := by
  intro x member
  have keep : ∀ w e w', Inv w → w.FreshRecord e → Step P w e w' → Inv w' :=
    fun _ _ _ inv fresh taken => inv.step fresh taken
  have inv := run.invariantBefore (Inv.initial m h) keep fresh x member
  obtain ⟨_, _, _, _, taken⟩ := run.reached x member
  have right := fresh x member
  revert taken right
  generalize x.before = before at inv ⊢
  generalize x.event = event
  generalize x.after = after
  intro taken right
  cases taken with
  | delete out done => exact (inv.deleted out right (of_doDelete done)).2
  | _ => trivial

/-- A bootstrap pointer is allocated and freed. -/
theorem frees_fallback_bootstrap : ∃ (trace : List (Transition NewDelete Event)) (w : NewDelete),
    Run (Step desktop) (initial (fun _ => 0) Heap.empty) trace w ∧ trace.length = 2 ∧
      ∀ x ∈ trace, x.before.FreesFallback x.event := by
  obtain ⟨w₁, w₂, first, second, _⟩ := bootstrap_possible (p := 8192) (by decide) (by decide)
    (by decide)
  have run := (Run.nil.snoc first).snoc second
  refine ⟨_, _, run, rfl, frees_fallback run ?_⟩
  intro x member
  rcases List.mem_append.mp member with old | new
  · obtain rfl := List.mem_singleton.mp old
    trivial
  · obtain rfl := List.mem_singleton.mp new
    intro _ _
    rfl

/-- The address of a bootstrap pointer that has been freed becomes the first block of a slab
of thread 0. When thread 1 deletes that block, the slab itself goes to `std::free`, and thread
0 goes on to hand out the second block. -/
theorem slab_freed : ∃ (trace : List (Transition NewDelete Event)) (w w' : NewDelete)
    (pool : ThreadPoolAlloc) (client : Client) (b : Block Owner),
    Run (Step desktop) (initial (fun _ => 0) Heap.empty) trace w ∧
      trace.map Transition.event = [.new 0 16 false (.ok (some 2097152)),
        .delete 0 2097152 (0, .fallback) (some [2097152]), .begin 0, .construct 0 (.ok ()),
        .initAllocator 0, .new 0 16 false (.ok (some 2097152)), .begin 1,
        .construct 1 (.ok ())] ∧
      Step desktop w (.delete 1 2097152 (0, .pool 16) (some [2097152])) w' ∧
      w' = (w.safeFree 2097152).retire (0, .pool 16) 2097152 ∧
      b ∈ w.sys.shared.heap.blocks ∧ b.owner = .slab 0 0 ∧ b.span.base = 2097152 ∧
      (Span.mk 2097152 4096).Inside b.span ∧ w.ready = true ∧
      w.sys.threads 0 = .live pool client ∧ (pool.alloc.pools 0).head = 2097168 := by
  obtain ⟨w₁, w₂, first, second, _, _, _, _, below, ⟨h₂, sys⟩, _, recs, scratch, constructing⟩ :=
    bootstrap_possible (p := 2097152) (by decide) (by decide) (by decide)
  have unborn : ∀ t, w₂.sys.threads t = .unborn := fun t => by rw [sys]; rfl
  have aligned : 1048576 ∣ 1048576 := by decide
  have room : 1048576 + 33554432 ≤ Malloc.addressLimit := by decide
  have aligned' : 1048576 ∣ 67108864 := by decide
  have room' : 67108864 + 33554432 ≤ Malloc.addressLimit := by decide
  obtain ⟨w₃, w₄, pool, begun, built, threads, _, housed, slabs, heads, below₄, _, ready₄, recs₄,
    scratch₄, issued₄, constructing₄, spelled⟩ := construct_possible (w := w₂) (t := 0) (unborn 0)
      (by rw [constructing]) aligned room
      (fun b member => Nat.le_trans (below b member) (by decide))
  have live : w₄.sys.threads 0 = .live pool Client.none := by rw [threads, Function.update_self]
  have init : Step desktop w₄ (.initAllocator 0) { w₄ with ready := true } := .initAllocator live
  obtain ⟨pool', w₅, called, sys₅, next, ready₅, recs₅, scratch₅, constructing₅, issued₅⟩ :=
    pooled_call (P := desktop) (w := { w₄ with ready := true }) (t := 0) (n := 16)
      (p := 2097152) rfl live (by decide) (by decide) (heads 0) (by decide)
  have served : Step desktop { w₄ with ready := true } (.new 0 16 false (.ok (some 2097152))) w₅ :=
    .new (by decide) called
  have other : w₅.sys.threads 1 = .unborn := by
    rw [sys₅, Sys.setThread_other _ _ (by decide)]
    change w₄.sys.threads 1 = .unborn
    rw [threads, Function.update_of_ne (by decide)]
    exact unborn 1
  have heap₅ : w₅.sys.shared = w₄.sys.shared := by rw [sys₅]; rfl
  obtain ⟨w₆, w₇, rival, begun', built', threads', _, housed', _, _, _, growth, ready₇, recs₇,
    scratch₇, issued₇, _⟩ := construct_possible (w := w₅) (t := 1) other
      (by rw [constructing₅, constructing₄, constructing]) aligned' room'
      (fun b member => by
        rw [heap₅] at member
        exact Nat.le_trans (below₄ b member) (by decide))
  obtain ⟨b, block, owner, base, inside⟩ := housed.homes.slab 0
  have start : b.span.base = 2097152 := base.trans (spelled 0).1
  have within : (Span.mk 2097152 4096).Inside b.span := by
    have slab := inside
    simp only [Slab.span, slabs 0] at slab
    exact slab
  have held : b.span.Holds 2097152 := within.holds (Span.Holds.base (by decide))
  have block₇ : b ∈ w₇.sys.shared.heap.blocks := growth b (by rw [heap₅]; exact block)
  have stranger : ¬ b.owner.Serves 1 := by
    rw [owner]
    rintro (thread | chunk)
    · cases thread
    · cases chunk
  have out : 2097152 ∈ w₇.issued (0, .pool 16) := by
    rw [issued₇, issued₅, Function.update_self]
    exact List.mem_cons_self
  have consults : w₇.ConsultsRegistry 1 2097152 := by
    refine ⟨fun e stashed => ?_, Or.inr ?_⟩
    · rw [scratch₇, scratch₅, scratch₄, scratch] at stashed
      cases stashed
    · rw [threads', Function.update_self]
      exact housed'.classify_outside block₇ stranger held
  have listed : 2097152 ∈ w₇.mallocRecs := by
    rw [recs₇, recs₅, recs₄, recs]
    exact List.mem_singleton_self _
  have live₇ : w₇.sys.threads 0 = .live pool' (Client.none.gain 16 (.ok (some 2097152))) := by
    rw [threads', Function.update_of_ne (by decide), sys₅]
    exact Sys.setThread_same _ _ _
  have last := registered_possible (P := desktop) (by decide) out consults listed
  have run := (((((((Run.nil.snoc first).snoc second).snoc begun).snoc built).snoc init).snoc
    served).snoc begun').snoc built'
  exact ⟨_, w₇, _, pool', _, b, run, rfl, last, rfl, block₇, owner, start, within,
    ready₇.trans ready₅, live₇, next.trans (spelled 0).2⟩

theorem not_always_frees_fallback : ∃ (trace : List (Transition NewDelete Event))
    (w : NewDelete), Run (Step desktop) (initial (fun _ => 0) Heap.empty) trace w ∧
      ¬ ∀ x ∈ trace, x.before.FreesFallback x.event := by
  obtain ⟨trace, w, w', _, _, b, run, _, last, _, block, owner, base, _⟩ := slab_freed
  refine ⟨_, _, run.snoc last, fun safe => ?_⟩
  have freed := safe _ (List.mem_append_right _ (List.mem_singleton_self _)) 2097152
    (List.mem_singleton_self _)
  have held : b.span.Holds 2097152 := by
    rw [← base]
    exact Malloc.Heap.holds_base block
  obtain ⟨use, outside⟩ := freed.2 b block held
  rw [owner] at outside
  cases outside

end Run

end MemAlloc.NewDelete
