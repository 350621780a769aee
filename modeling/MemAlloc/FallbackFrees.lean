import MemAlloc.FreeSafety

set_option autoImplicit false

namespace MemAlloc.NewDelete

open Malloc (Heap Block)
open Runs (Run Transition)

/-- Every over-aligned fallback pointer that is out is in the stash of the thread that asked
for it, under its own raw pointer. -/
structure Stashed (scratch : Nat → List Scratch) (issued : Nat × Origin → List Nat) : Prop where
  entry : ∀ t raw, ∀ p ∈ issued (t, .overAligned raw), (⟨raw, p⟩ : Scratch) ∈ scratch t
  once : ∀ t raw, (issued (t, .overAligned raw)).Nodup
  nonnull : ∀ t, ∀ e ∈ scratch t, e.payload ≠ 0

namespace Stashed

variable {scratch : Nat → List Scratch} {issued issued' : Nat × Origin → List Nat} {t : Nat}

theorem fewer (stashed : Stashed scratch issued) (sublist : ∀ t raw,
    (issued' (t, .overAligned raw)).Sublist (issued (t, .overAligned raw))) :
    Stashed scratch issued' :=
  ⟨fun t raw p out => stashed.entry t raw p ((sublist t raw).subset out),
    fun t raw => (stashed.once t raw).sublist (sublist t raw), stashed.nonnull⟩

theorem retire (stashed : Stashed scratch issued) (source : Nat × Origin) (p : Nat) :
    Stashed scratch (Function.update issued source ((issued source).erase p)) :=
  stashed.fewer fun _ _ => retire_sublist issued source _ p

theorem issueOther (stashed : Stashed scratch issued) {source : Nat × Origin}
    (other : ∀ raw, source.2 ≠ .overAligned raw) (p : Nat) :
    Stashed scratch (Function.update issued source (p :: issued source)) := by
  apply stashed.fewer
  intro t raw
  have different : (t, Origin.overAligned raw) ≠ source := fun same => other raw (by rw [← same])
  rw [Function.update_of_ne different]

/-- A new entry and its pointer. -/
theorem stash (stashed : Stashed scratch issued) {raw payload : Nat} (nonnull : payload ≠ 0)
    (new : ∀ e ∈ scratch t, e.raw ≠ raw) :
    Stashed (Function.update scratch t (scratch t ++ [⟨raw, payload⟩]))
      (Function.update issued (t, .overAligned raw)
        (payload :: issued (t, .overAligned raw))) := by
  have none : issued (t, .overAligned raw) = [] := by
    refine List.eq_nil_iff_forall_not_mem.mpr (fun p out => ?_)
    exact new _ (stashed.entry t raw p out) rfl
  have kept : ∀ u e, e ∈ scratch u →
      e ∈ Function.update scratch t (scratch t ++ [⟨raw, payload⟩]) u := by
    intro u e member
    by_cases same : u = t
    · subst same
      rw [Function.update_self]
      exact List.mem_append_left _ member
    · rwa [Function.update_of_ne same]
  refine ⟨?_, ?_, ?_⟩
  · intro u r p out
    by_cases same : (u, Origin.overAligned r) = (t, .overAligned raw)
    · cases same
      rw [Function.update_self, none] at out
      rw [Function.update_self, List.mem_singleton.mp out]
      exact List.mem_append_right _ (List.mem_singleton_self _)
    · rw [Function.update_of_ne same] at out
      exact kept u _ (stashed.entry u r p out)
  · intro u r
    by_cases same : (u, Origin.overAligned r) = (t, .overAligned raw)
    · cases same
      rw [Function.update_self, none]
      exact List.nodup_singleton _
    · rw [Function.update_of_ne same]
      exact stashed.once u r
  · intro u e member
    by_cases same : u = t
    · subst same
      rw [Function.update_self] at member
      rcases List.mem_append.mp member with old | last
      · exact stashed.nonnull u e old
      · rw [List.mem_singleton.mp last]
        exact nonnull
    · rw [Function.update_of_ne same] at member
      exact stashed.nonnull u e member

/-- An entry is erased together with the pointer it was for. -/
theorem unstash (stashed : Stashed scratch issued) {e : Scratch} {before after : List Scratch}
    (split : scratch t = before ++ e :: after) :
    Stashed (Function.update scratch t (before ++ after))
      (Function.update issued (t, .overAligned e.raw)
        ((issued (t, .overAligned e.raw)).erase e.payload)) := by
  have fewer := stashed.retire (t, .overAligned e.raw) e.payload
  refine ⟨?_, fewer.once, ?_⟩
  · intro u r p out
    have old := fewer.entry u r p out
    by_cases same : u = t
    · subst same
      rw [Function.update_self]
      rw [split] at old
      rcases List.mem_append.mp old with first | rest
      · exact List.mem_append_left _ first
      · rcases List.mem_cons.mp rest with here | last
        · -- the entry of the pointer that is no longer out
          subst here
          rw [Function.update_self] at out
          exact absurd out (stashed.once u r).not_mem_erase
        · exact List.mem_append_right _ last
    · rwa [Function.update_of_ne same]
  · intro u f member
    by_cases same : u = t
    · subst same
      rw [Function.update_self] at member
      refine stashed.nonnull u f ?_
      rw [split]
      exact ((List.sublist_cons_self e after).append_left before).subset member
    · rw [Function.update_of_ne same] at member
      exact stashed.nonnull u f member

end Stashed

/-- A deletion that finds the address in the stash or in the registry finds the entry that
was made for this pointer, not one for another pointer at the same address. -/
def Unambiguous (w : NewDelete) : Event → Prop
  | .delete t p source freed =>
      (∀ e ∈ w.alignedScratch t, e.payload = p → source.2 = .overAligned e.raw) ∧
        w.FreshRecord (.delete t p source freed)
  | _ => True

/-- The fallback pointers a step hands out are registered by it. -/
def Registers (w w' : NewDelete) : Prop :=
  ∀ t, ∀ p ∈ w'.issued (t, .fallback), p ∈ w.issued (t, .fallback) ∨ p ∈ w'.mallocRecs

/-- A plain fallback pointer reaches the registry, on whichever thread, unless that thread is
constructing its allocator and the heap is ready. An over-aligned one is only known to the
thread that asked for it. -/
def Reaches (w : NewDelete) (t : Nat) : Nat × Origin → Prop
  | (_, .fallback) => w.ready = false ∨ w.constructing t = false
  | (u, .overAligned _) => t = u
  | _ => False

/-- What holds in the runs whose deletions are unambiguous. -/
structure Tracked (w : NewDelete) : Prop where
  inv : Inv w
  stashed : Stashed w.alignedScratch w.issued
  registered : ∀ t, ∀ p ∈ w.issued (t, .fallback), p ∈ w.mallocRecs
  busy : ∀ t, w.constructing t = true → w.sys.threads t = .unborn

section Calls

variable {P : Platform} {w w' : NewDelete} {r : Replies} {t n : Nat}
  {x : Except Exn (Option Nat)}

/-- What a call of `operator new` changes besides the heap: at most one pointer is handed out,
and an over-aligned fallback pointer is stashed under a raw pointer that is new. -/
inductive Allocated (w w' : NewDelete) (t : Nat) : Prop
  | quiet (scratch : w'.alignedScratch = w.alignedScratch)
      (issued : w'.issued = w.issued ∨ ∃ source p, (∀ raw, source.2 ≠ .overAligned raw) ∧
        w'.issued = Function.update w.issued source (p :: w.issued source))
  | stashed {raw payload : Nat} (nonnull : payload ≠ 0)
      (new : ¬ Outstanding w.sys.shared.heap .overAligned raw)
      (scratch : w'.alignedScratch =
        Function.update w.alignedScratch t (w.alignedScratch t ++ [⟨raw, payload⟩]))
      (issued : w'.issued = Function.update w.issued (t, .overAligned raw)
        (payload :: w.issued (t, .overAligned raw)))

/-- What no call of `operator new` changes. -/
structure Steady (w w' : NewDelete) : Prop where
  ready : w'.ready = w.ready
  constructing : w'.constructing = w.constructing
  recs : ∀ p ∈ w.mallocRecs, p ∈ w'.mallocRecs
  unborn : ∀ u, w.sys.threads u = .unborn → w'.sys.threads u = .unborn

theorem Steady.recordMallocPtr (P : Platform) (reply : Option Nat) (p : Nat) (w : NewDelete) :
    Steady w (w.recordMallocPtr P reply p) ∧
      (w.recordMallocPtr P reply p).alignedScratch = w.alignedScratch ∧
      (w.recordMallocPtr P reply p).issued = w.issued := by
  obtain ⟨h, recs, same, _, grown⟩ := of_recordMallocPtr P reply p w
  rw [same]
  refine ⟨⟨rfl, rfl, fun q member => ?_, fun _ unborn => unborn⟩, rfl, rfl⟩
  rcases grown with rfl | rfl
  · exact member
  · exact List.mem_cons_of_mem _ member

theorem fallbackNew_effect (done : w.fallbackNew P r t n = (x, w')) :
    Steady w w' ∧ Allocated w w' t := by
  unfold fallbackNew at done
  split at done
  · rename_i w₁ refused
    cases done
    obtain rfl := of_malloc_none refused
    obtain ⟨steady, scratch, issued⟩ := Steady.recordMallocPtr P r.node 0 w₁
    exact ⟨steady, .quiet scratch (Or.inl issued)⟩
  · rename_i p w₁ granted
    cases done
    obtain ⟨h, rfl, _, _⟩ := of_malloc_some granted
    obtain ⟨steady, scratch, issued⟩ :=
      Steady.recordMallocPtr P r.node p { w with sys := w.sys.setHeap h }
    refine ⟨⟨steady.ready, steady.constructing, steady.recs, steady.unborn⟩,
      .quiet scratch (Or.inr ⟨(t, .fallback), p, by simp, ?_⟩)⟩
    rw [issue, issued]

theorem bootstrapAlignedNew_effect {alignment : Nat} (power : Words.PowerOfTwo alignment)
    (done : w.bootstrapAlignedNew P r t n alignment = (x, w')) :
    Steady w w' ∧ Allocated w w' t := by
  unfold bootstrapAlignedNew at done
  split at done
  · rename_i w₁ refused
    cases done
    obtain rfl := of_malloc_none refused
    exact ⟨⟨rfl, rfl, fun _ member => member, fun _ unborn => unborn⟩, .quiet rfl (Or.inl rfl)⟩
  · rename_i raw w₁ granted
    cases done
    obtain ⟨h, rfl, fresh, _⟩ := of_malloc_some granted
    refine ⟨⟨rfl, rfl, fun _ member => member, fun _ unborn => unborn⟩, .stashed ?_ ?_ rfl rfl⟩
    · have positive := power.positive
      have bound := power.le
      have room : raw + max (Words.add n alignment) 1 ≤ 9223372036854775808 := fresh.2.2.1
      have low := (Words.alignUp_spec (x := raw) power (by
        simp only [Words.radix]
        omega)).1
      have start := fresh.1
      omega
    · intro out
      exact Outstanding.fresh fresh out rfl

theorem served_effect {source : Nat × Origin} {served : Except Exn (Option Nat)} {sys : Sys}
    {pool : ThreadPoolAlloc} {client : Client} {thread : Thread}
    (live : w.sys.threads t = .live pool client)
    (threads : sys.threads = Function.update w.sys.threads t thread)
    (other : ∀ raw, source.2 ≠ .overAligned raw)
    (done : { w with sys := sys }.issueServed source served = (x, w')) :
    Steady w w' ∧ Allocated w w' t := by
  have kept : ∀ u, w.sys.threads u = .unborn → sys.threads u = .unborn := by
    intro u unborn
    rw [threads, Function.update_of_ne]
    · exact unborn
    · rintro rfl
      rw [live] at unborn
      cases unborn
  unfold issueServed at done
  split at done
  · cases done
    exact ⟨⟨rfl, rfl, fun _ member => member, kept⟩, .quiet rfl (Or.inr ⟨source, _, other, rfl⟩)⟩
  · cases done
    exact ⟨⟨rfl, rfl, fun _ member => member, kept⟩, .quiet rfl (Or.inl rfl)⟩

theorem doNew_effect {active : Bool} (done : w.doNew P r active t n = some (x, w')) :
    Steady w w' ∧ Allocated w w' t := by
  rw [NewDelete.doNew] at done
  generalize (if n = 0 then 1 else n) = size at done
  split at done
  · exact fallbackNew_effect (Option.some.inj done)
  · split at done
    · rename_i live
      refine served_effect live rfl (fun raw same => ?_) (Option.some.inj done)
      unfold Origin.ofSize at same
      split at same
      · cases same
      · cases same
    · cases done

theorem doAlignedNew_effect {active : Bool} {alignment : Nat}
    (power : Words.PowerOfTwo alignment)
    (done : w.doAlignedNew P r active t n alignment = some (x, w')) :
    Steady w w' ∧ Allocated w w' t := by
  rw [NewDelete.doAlignedNew] at done
  generalize (if n = 0 then 1 else n) = size at done
  split at done
  · exact doNew_effect done
  · split at done
    · exact bootstrapAlignedNew_effect power (Option.some.inj done)
    · split at done
      · rename_i live
        exact served_effect live rfl (fun raw same => by cases same) (Option.some.inj done)
      · cases done

end Calls

section Steps

variable {P : Platform} {w w' : NewDelete} {t p : Nat} {source : Nat × Origin}
  {freed : List Nat}

theorem Stashed.allocated (stashed : Stashed w.alignedScratch w.issued) (inv : Inv w)
    (allocated : Allocated w w' t) : Stashed w'.alignedScratch w'.issued := by
  cases allocated with
  | quiet scratch issued =>
      rw [scratch]
      rcases issued with same | ⟨source, p, other, same⟩
      · rw [same]
        exact stashed
      · rw [same]
        exact stashed.issueOther other p
  | stashed nonnull new scratch issued =>
      rw [scratch, issued]
      refine stashed.stash nonnull (fun e member same => new ?_)
      rw [← same]
      exact inv.backed.raw t e member

theorem Stashed.unique (stashed : Stashed w.alignedScratch w.issued) (inv : Inv w) {u : Nat}
    {e : Scratch} {o : Origin} (out : p ∈ w.issued (u, o)) (member : e ∈ w.alignedScratch t)
    (payload : e.payload = p) (right : o = .overAligned e.raw) : t = u ∧ e = ⟨e.raw, p⟩ := by
  subst right
  have mine := stashed.entry u e.raw p out
  exact ⟨inv.backed.rawOwner t u e member _ mine rfl, by rw [← payload]⟩

theorem Stashed.deleted (stashed : Stashed w.alignedScratch w.issued) (inv : Inv w)
    (out : p ∈ w.issued source) (clear : w.Unambiguous (.delete t p source (some freed)))
    (deleted : Deleted w t p freed w') :
    Stashed (w'.retire source p).alignedScratch (w'.retire source p).issued := by
  have left := stashed.retire source p
  cases deleted with
  | null null => exact left
  | ignored consults absent => exact left
  | registered consults member => exact left
  | arena ready live unstashed classified => exact left
  | pool ready live unstashed known small done => exact left
  | @stashed e before after split payload =>
      have member : e ∈ w.alignedScratch t := by
        rw [split]
        exact List.mem_append_right _ List.mem_cons_self
      obtain ⟨u, o⟩ := source
      have right : o = .overAligned e.raw := clear.1 e member payload
      obtain ⟨rfl, _⟩ := stashed.unique inv out member payload right
      have both := stashed.unstash split
      rw [payload] at both
      subst right
      exact both

theorem Stashed.step {e : Event} (stashed : Stashed w.alignedScratch w.issued) (inv : Inv w)
    (clear : w.Unambiguous e) (taken : Step P w e w') :
    Stashed w'.alignedScratch w'.issued := by
  cases taken with
  | new word done => exact stashed.allocated inv (doNew_effect done).2
  | alignedNew word power done => exact stashed.allocated inv (doAlignedNew_effect power done).2
  | delete out done => exact stashed.deleted inv out clear (of_doDelete done)
  | reenter out begun stuck => exact stashed.retire _ _
  | @malloc w' size reply x done =>
      cases x with
      | none => rwa [of_malloc_none done]
      | some p =>
          obtain ⟨h, rfl, _, _⟩ := of_malloc_some done
          exact stashed
  | begin _ _ => exact stashed
  | construct _ _ => exact stashed
  | exit _ => exact stashed
  | initAllocator _ => exact stashed
  | mfree _ _ => exact stashed
  | write _ => exact stashed

theorem Tracked.allocated (tracked : Tracked w) (inv : Inv w') (registers : w.Registers w')
    (steady : Steady w w') (allocated : Allocated w w' t) : Tracked w' := by
  refine ⟨inv, tracked.stashed.allocated tracked.inv allocated, ?_, ?_⟩
  · intro u p out
    rcases registers u p out with old | here
    · exact steady.recs p (tracked.registered u p old)
    · exact here
  · intro u busy
    rw [steady.constructing] at busy
    exact steady.unborn u (tracked.busy u busy)

theorem Tracked.retire (tracked : Tracked w) (source : Nat × Origin) (p : Nat) :
    Tracked (w.retire source p) := by
  refine ⟨⟨tracked.inv.housed, tracked.inv.backed.retire source p⟩,
    tracked.stashed.retire source p, ?_, tracked.busy⟩
  intro t q out
  exact tracked.registered t q ((retire_sublist w.issued source _ p).subset out)

theorem Tracked.deleted (tracked : Tracked w) (out : p ∈ w.issued source)
    (clear : w.Unambiguous (.delete t p source (some freed))) (deleted : Deleted w t p freed w') :
    Tracked (w'.retire source p) := by
  have inv := (tracked.inv.deleted out clear.2 deleted).1
  have stashed := tracked.stashed.deleted tracked.inv out clear deleted
  have left := tracked.retire source p
  cases deleted with
  | null null => exact ⟨inv, stashed, left.registered, left.busy⟩
  | ignored consults absent => exact ⟨inv, stashed, left.registered, left.busy⟩
  | registered consults member => exact ⟨inv, stashed, left.registered, left.busy⟩
  | arena ready live unstashed classified =>
      exact ⟨inv, stashed, left.registered, left.busy⟩
  | stashed split payload => exact ⟨inv, stashed, left.registered, left.busy⟩
  | @pool pool pool' client m' ready live unstashed known small done =>
      refine ⟨inv, stashed, left.registered, fun u busy => ?_⟩
      have unborn := tracked.busy u busy
      change Function.update w.sys.threads t _ u = .unborn
      rw [Function.update_of_ne]
      · exact unborn
      · rintro rfl
        rw [live] at unborn
        cases unborn

theorem Unambiguous.freshRecord {e : Event} (clear : w.Unambiguous e) : w.FreshRecord e := by
  cases e with
  | delete t p source freed => exact clear.2
  | _ => trivial

theorem Tracked.step {e : Event} (tracked : Tracked w) (clear : w.Unambiguous e)
    (registers : w.Registers w') (taken : Step P w e w') : Tracked w' := by
  have inv := tracked.inv.step clear.freshRecord taken
  cases taken with
  | @begin t unborn first =>
      refine ⟨inv, tracked.stashed, tracked.registered, fun u busy => ?_⟩
      by_cases same : u = t
      · rw [same]
        exact unborn
      · change Function.update w.constructing t true u = true at busy
        rw [Function.update_of_ne same] at busy
        exact tracked.busy u busy
  | @construct t x sys' begun taken =>
      refine ⟨inv, tracked.stashed, tracked.registered, fun u busy => ?_⟩
      change Function.update w.constructing t false u = true at busy
      by_cases same : u = t
      · subst same
        rw [Function.update_self] at busy
        cases busy
      · rw [Function.update_of_ne same] at busy
        have unborn := tracked.busy u busy
        cases taken with
        | start _ done => exact (Sys.setThread_other _ _ same).trans unborn
        | startFails _ done => exact unborn
  | @exit t sys' taken =>
      refine ⟨inv, tracked.stashed, tracked.registered, fun u busy => ?_⟩
      have unborn := tracked.busy u busy
      cases taken with
      | exit live =>
          refine (Sys.setThread_other _ _ ?_).trans unborn
          rintro rfl
          rw [live] at unborn
          cases unborn
  | initAllocator live => exact ⟨inv, tracked.stashed, tracked.registered, tracked.busy⟩
  | new word done =>
      obtain ⟨steady, allocated⟩ := doNew_effect done
      exact tracked.allocated inv registers steady allocated
  | alignedNew word power done =>
      obtain ⟨steady, allocated⟩ := doAlignedNew_effect power done
      exact tracked.allocated inv registers steady allocated
  | delete out done => exact tracked.deleted out clear (of_doDelete done)
  | reenter out begun stuck => exact tracked.retire _ _
  | @malloc w' size reply x done =>
      cases x with
      | none => rwa [of_malloc_none done]
      | some p =>
          obtain ⟨h, rfl, _, _⟩ := of_malloc_some done
          exact ⟨inv, tracked.stashed, tracked.registered, tracked.busy⟩
  | mfree member owner => exact ⟨inv, tracked.stashed, tracked.registered, tracked.busy⟩
  | write taken =>
      cases taken with
      | write writable => exact ⟨inv, tracked.stashed, tracked.registered, tracked.busy⟩

theorem Tracked.initial (m : ByteMemory) (h : Heap Owner) : Tracked (initial m h) := by
  refine ⟨Inv.initial m h, ⟨?_, ?_, ?_⟩, ?_, ?_⟩
  · intro t raw p out
    cases out
  · intro t raw
    exact List.nodup_nil
  · intro t e stashed
    cases stashed
  · intro t p out
    cases out
  · intro t busy
    cases busy

theorem Tracked.nonnull (tracked : Tracked w) {u raw : Nat} {o : Origin}
    (fallback : o.raw p = some raw) (out : p ∈ w.issued (u, o)) : p ≠ 0 := by
  cases o with
  | pool i => cases fallback
  | arena => cases fallback
  | fallback =>
      obtain ⟨b, member, _, rfl⟩ := tracked.inv.backed.plain u p out
      exact Nat.ne_of_gt (w.sys.shared.heap.bounded b member).1
  | overAligned r => exact tracked.stashed.nonnull u _ (tracked.stashed.entry u r p out)

/-- A plain fallback pointer is in no stash and in no allocator's regions. -/
theorem Tracked.plain_deleted (tracked : Tracked w) {u : Nat} (out : p ∈ w.issued (u, .fallback))
    (clear : w.Unambiguous (.delete t p (u, .fallback) (some freed)))
    (deleted : Deleted w t p freed w') :
    freed = [p] ∧ (w.ready = false ∨ w.constructing t = false) := by
  have unstashed : ∀ e ∈ w.alignedScratch t, e.payload ≠ p := by
    intro e member payload
    cases clear.1 e member payload
  have unclassified : ∀ pool client, w.sys.threads t = .live pool client →
      pool.classify p = 0 := by
    intro pool client live
    obtain ⟨b, member, owner, rfl⟩ := tracked.inv.backed.plain u p out
    refine (tracked.inv.housed.live t pool client live).classify_outside member ?_
      (Heap.holds_base member)
    exact fun serves => serves.inside _ owner
  have idle : w.sys.threads t ≠ .unborn → w.constructing t = false := by
    intro born
    cases busy : w.constructing t with
    | false => rfl
    | true => exact absurd (tracked.busy t busy) born
  cases deleted with
  | null null => exact absurd null (tracked.nonnull rfl out)
  | @stashed e before after split payload =>
      refine absurd payload (unstashed e ?_)
      rw [split]
      exact List.mem_append_right _ List.mem_cons_self
  | ignored consults absent => exact absurd (tracked.registered u p out) absent
  | arena ready live _ classified =>
      rw [unclassified _ _ live] at classified
      cases classified
  | pool ready live _ known => exact absurd (unclassified _ _ live) known
  | registered consults member =>
      refine ⟨rfl, consults.2.imp_right (fun phase => idle ?_)⟩
      intro unborn
      rw [unborn] at phase
      exact phase

theorem of_doDelete_none (stuck : w.doDelete t p = none) :
    w.ready = true ∧ ∀ e ∈ w.alignedScratch t, e.payload ≠ p := by
  unfold doDelete at stuck
  split at stuck
  · cases stuck
  · split at stuck
    · cases stuck
    · rename_i missed
      split at stuck
      · cases stuck
      · rename_i late
        refine ⟨by simpa using late, fun e member => ?_⟩
        simpa using List.find?_eq_none.mp missed e member

theorem Tracked.freed_iff {w' : NewDelete} {outcome : Option (List Nat)} {raw : Nat}
    (tracked : Tracked w) (clear : w.Unambiguous (.delete t p source outcome))
    (fallback : source.2.raw p = some raw)
    (taken : Step P w (.delete t p source outcome) w') :
    outcome = some [raw] ↔ w.Reaches t source := by
  obtain ⟨u, o⟩ := source
  cases o with
  | pool i => cases fallback
  | arena => cases fallback
  | fallback =>
      cases fallback
      cases taken with
      | delete out done =>
          obtain ⟨rfl, reached⟩ := tracked.plain_deleted out clear (of_doDelete done)
          exact ⟨fun _ => reached, fun _ => rfl⟩
      | reenter out begun stuck =>
          constructor
          · intro returned
            cases returned
          · intro reached
            rcases reached with early | idle
            · rw [(of_doDelete_none stuck).1] at early
              cases early
            · rw [begun] at idle
              cases idle
  | overAligned r =>
      cases fallback
      cases taken with
      | reenter out begun stuck =>
          constructor
          · intro returned
            cases returned
          · intro own
            obtain rfl : t = u := own
            exact absurd rfl ((of_doDelete_none stuck).2 _ (tracked.stashed.entry t raw p out))
      | @delete w₁ _ _ _ freed out done =>
          have entry := tracked.stashed.entry u raw p out
          constructor
          · intro returned
            cases Option.some.inj returned
            cases of_doDelete done with
            | @stashed e before after split payload =>
                have member : e ∈ w.alignedScratch t := by
                  rw [split]
                  exact List.mem_append_right _ List.mem_cons_self
                exact (tracked.stashed.unique tracked.inv out member payload
                  (clear.1 e member payload)).1
            | registered consults member => cases clear.2 consults member
          · intro own
            obtain rfl : t = u := own
            cases of_doDelete done with
            | null null => exact absurd null (tracked.nonnull rfl out)
            | @stashed e before after split payload =>
                have member : e ∈ w.alignedScratch t := by
                  rw [split]
                  exact List.mem_append_right _ List.mem_cons_self
                rw [Origin.overAligned.inj (clear.1 e member payload)]
            | registered consults member => exact absurd rfl (consults.1 _ entry)
            | ignored consults absent => exact absurd rfl (consults.1 _ entry)
            | arena ready live unstashed classified => exact absurd rfl (unstashed _ entry)
            | pool ready live unstashed known small done => exact absurd rfl (unstashed _ entry)

end Steps

section Run

variable {P : Platform} {m : ByteMemory} {h : Heap Owner}

/-- When every fallback pointer is registered and no deletion finds another pointer's entry,
deleting a fallback pointer frees its raw pointer, once, exactly if the entry is within reach
of the deleting thread. -/
theorem fallback_freed_iff {trace : List (Transition NewDelete Event)} {w : NewDelete}
    (run : Run (Step P) (initial m h) trace w)
    (registers : ∀ x ∈ trace, x.before.Registers x.after)
    (clear : ∀ x ∈ trace, x.before.Unambiguous x.event) :
    ∀ x ∈ trace, ∀ t p source outcome raw, x.event = .delete t p source outcome →
      source.2.raw p = some raw → (outcome = some [raw] ↔ x.before.Reaches t source) := by
  intro x member t p source outcome raw event fallback
  have keep : ∀ w e w', Tracked w → w.Unambiguous e → Step P w e w' ∧ w.Registers w' →
      Tracked w' := fun _ _ _ tracked clear taken => tracked.step clear taken.2 taken.1
  have tracked := (run.restrict registers).invariantBefore (Tracked.initial m h) keep clear x
    member
  obtain ⟨_, _, _, _, taken⟩ := run.reached x member
  have right := clear x member
  rw [event] at taken right
  exact tracked.freed_iff right fallback taken

/-- A bootstrap pointer is allocated and freed on the same thread. -/
theorem fallback_freed_bootstrap : ∃ (trace : List (Transition NewDelete Event))
    (w : NewDelete), Run (Step desktop) (initial (fun _ => 0) Heap.empty) trace w ∧
      ∃ x ∈ trace, x.event = .delete 0 8192 (0, .fallback) (some [8192]) ∧
        x.before.Reaches 0 (0, .fallback) := by
  obtain ⟨w₁, w₂, first, second, recs, only, fewer, scratch, _⟩ :=
    bootstrap_possible (p := 8192) (by decide) (by decide) (by decide)
  have run := (Run.nil.snoc first).snoc second
  have last : (⟨w₁, .delete 0 8192 (0, .fallback) (some [8192]), w₂⟩ :
      Transition NewDelete Event) ∈ [⟨initial (fun _ => 0) Heap.empty, .new 0 16 false
        (.ok (some 8192)), w₁⟩] ++ [⟨w₁, .delete 0 8192 (0, .fallback) (some [8192]), w₂⟩] :=
    List.mem_append_right _ (List.mem_singleton_self _)
  refine ⟨_, _, run, _, last, rfl, (fallback_freed_iff run ?_ ?_ _ last 0 8192 (0, .fallback) _
    8192 rfl rfl).mp rfl⟩
  · intro x member t p out
    rcases List.mem_append.mp member with old | new
    · obtain rfl := List.mem_singleton.mp old
      rw [only _ p out]
      exact Or.inr (by rw [recs]; exact List.mem_singleton_self _)
    · obtain rfl := List.mem_singleton.mp new
      exact Or.inl (fewer _ p out)
  · intro x member
    rcases List.mem_append.mp member with old | new
    · obtain rfl := List.mem_singleton.mp old
      trivial
    · obtain rfl := List.mem_singleton.mp new
      refine ⟨fun e stashed => ?_, fun _ _ => rfl⟩
      rw [scratch] at stashed
      cases stashed

/-- The first call of a program asks for 16 bytes at a multiple of 64. -/
theorem overAligned_possible : ∃ (w : NewDelete),
    Step desktop (initial (fun _ => 0) Heap.empty) (.alignedNew 0 16 64 false (.ok (some 4096))) w ∧
      w.sys.threads = (fun _ => .unborn) ∧ (w.constructing = fun _ => false) ∧
      w.ready = false ∧ w.mallocRecs = [] ∧
      w.alignedScratch = Function.update (fun _ => []) 0 [⟨4096, 4096⟩] ∧
      w.issued = Function.update (fun _ => []) (0, .overAligned 4096) [4096] ∧
      w.sys.shared.heap.blocks = [⟨⟨4096, 80⟩, .outside .overAligned⟩] := by
  let w : NewDelete := initial (fun _ => 0) Heap.empty
  have fresh : w.sys.shared.heap.Fresh desktop.mallocAlign 80 4096 := by
    refine ⟨by decide, by decide, by decide, fun b member => ?_⟩
    cases member
  have size : Words.add 16 64 = 80 := rfl
  have granted := malloc_fresh .overAligned fresh
  let w₁ : NewDelete := { w with
    sys := w.sys.setHeap (w.sys.shared.heap.add (.outside .overAligned) desktop.mallocAlign 80
      4096 fresh)
    alignedScratch := Function.update w.alignedScratch 0 [⟨4096, 4096⟩] }.issue
      (0, .overAligned 4096) 4096
  refine ⟨w₁, .alignedNew (r := ⟨some 4096, none, ⟨none, none⟩⟩) (by decide)
    ⟨6, by decide, rfl⟩ ?_, rfl, rfl, rfl, rfl, rfl, rfl, rfl⟩
  have wide : ¬ 64 ≤ desktop.maxAlign := by decide
  have falls : takesFallback w.ready false (w.allocatorGone 0) = true := rfl
  have sized : (if (16 : Nat) = 0 then 1 else 16) = 16 := rfl
  rw [doAlignedNew, if_neg wide, falls, if_pos rfl, sized, bootstrapAlignedNew, size, granted]
  rfl

/-- An over-aligned bootstrap pointer of thread 0 is deleted by thread 1, whose stash is
empty, and is not freed. -/
theorem not_always_freed : ∃ (trace : List (Transition NewDelete Event)) (w : NewDelete),
    Run (Step desktop) (initial (fun _ => 0) Heap.empty) trace w ∧
      (∀ x ∈ trace, x.before.Registers x.after) ∧
      ∃ x ∈ trace, ∃ t p source outcome raw, x.event = .delete t p source outcome ∧
        source.2.raw p = some raw ∧ outcome ≠ some [raw] := by
  obtain ⟨w₁, first, _, _, ready, recs, scratch, issued, _⟩ := overAligned_possible
  have out : 4096 ∈ w₁.issued (0, .overAligned 4096) := by
    rw [issued, Function.update_self]
    exact List.mem_cons_self
  have second : Step desktop w₁ (.delete 1 4096 (0, .overAligned 4096) (some []))
      (w₁.retire (0, .overAligned 4096) 4096) := by
    refine .delete out ?_
    have nonnull : (4096 : Nat) ≠ 0 := by decide
    have unstashed : w₁.alignedScratch 1 = [] := by
      rw [scratch, Function.update_of_ne (by decide)]
    rw [doDelete, if_neg nonnull, unstashed, ready]
    simp only [List.find?_nil, ↓reduceIte, freeRegistered, isRegisteredMallocPtr, recs,
      List.not_mem_nil, decide_false, Bool.false_eq_true]
  have run := (Run.nil.snoc first).snoc second
  refine ⟨_, _, run, ?_, _, List.mem_append_right _ (List.mem_singleton_self _), 1, 4096,
    (0, .overAligned 4096), some [], 4096, rfl, rfl, fun same => by cases same⟩
  intro x member t p out
  rcases List.mem_append.mp member with old | new
  · obtain rfl := List.mem_singleton.mp old
    have other : (t, Origin.fallback) ≠ (0, .overAligned 4096) := by simp
    rw [issued, Function.update_of_ne other] at out
    cases out
  · obtain rfl := List.mem_singleton.mp new
    exact Or.inl ((retire_sublist w₁.issued _ _ 4096).subset out)

end Run

end MemAlloc.NewDelete
