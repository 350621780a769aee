import MemAlloc.FallbackFrees

set_option autoImplicit false

namespace MemAlloc

open Malloc (Heap Block addressLimit)
open SingleThreadAllocator (Inv SameRegions)

namespace NewDelete

/-- What the allocator of a live thread knows of the pointers the thread has obtained from it
and not deleted. -/
structure ServedBy (g : Shared) (t : Nat) (a : SingleThreadAllocator) (client : Client)
    (issued : Nat × Origin → List Nat) : Prop where
  recorded : ∀ i, (a.pools i).slabs blocksPerSlab = g.linkedBy t a i
  pool : ∀ n, ∀ p ∈ issued (t, .pool n),
    ∃ small : n ≤ maxSmall, p ∈ client.held (sizeClassOf n small)
  arena : ∀ p ∈ issued (t, .arena), ∃ b ∈ client.bumped, b.base = p

namespace ServedBy

variable {g g' : Shared} {t n p : Nat} {a a' : SingleThreadAllocator} {client : Client}
  {issued issued' : Nat × Origin → List Nat}

/-- The chunks handed to the thread are the same, and no pointer is new. -/
theorem frame (served : ServedBy g t a client issued)
    (linked : g'.linkedBy t a = g.linkedBy t a)
    (fewer : ∀ o, o.raw 0 = none → (issued' (t, o)).Sublist (issued (t, o))) :
    ServedBy g' t a client issued' := by
  refine ⟨fun i => ?_, ?_, ?_⟩
  · rw [linked]
    exact served.recorded i
  · intro n p out
    exact served.pool n p ((fewer (.pool n) rfl).subset out)
  · intro p out
    exact served.arena p ((fewer .arena rfl).subset out)

theorem unanswered {x : Except Exn (Option Nat)} (served : ServedBy g t a client issued)
    (recorded : ∀ i, (a'.pools i).slabs blocksPerSlab = g'.linkedBy t a' i)
    (nothing : ∀ p, x ≠ .ok (some p)) : ServedBy g' t a' (client.gain n x) issued := by
  rw [client.gain_unanswered n nothing]
  exact ⟨recorded, served.pool, served.arena⟩

/-- A request that returned a block. -/
theorem gain (served : ServedBy g t a client issued)
    (recorded : ∀ i, (a'.pools i).slabs blocksPerSlab = g'.linkedBy t a' i) :
    ServedBy g' t a' (client.gain n (.ok (some p)))
      (Function.update issued (t, Origin.ofSize n) (p :: issued (t, Origin.ofSize n))) := by
  by_cases small : n ≤ maxSmall
  · have route : Origin.ofSize n = .pool n := if_pos small
    have gained : client.gain n (.ok (some p)) = client.gainBlock (sizeClassOf n small) p :=
      dif_pos small
    rw [route, gained]
    have kept : ∀ j q, q ∈ client.held j →
        q ∈ (client.gainBlock (sizeClassOf n small) p).held j := by
      intro j q out
      by_cases same : j = sizeClassOf n small
      · subst same
        rw [Client.gainBlock_same]
        exact List.mem_cons_of_mem _ out
      · rwa [Client.gainBlock_other _ _ same]
    refine ⟨recorded, ?_, ?_⟩
    · intro k q out
      by_cases same : k = n
      · subst same
        rw [Function.update_self] at out
        refine ⟨small, ?_⟩
        rcases List.mem_cons.mp out with rfl | old
        · rw [Client.gainBlock_same]
          exact List.mem_cons_self
        · obtain ⟨_, held⟩ := served.pool k q old
          exact kept _ q held
      · have different : (t, Origin.pool k) ≠ (t, .pool n) := by simp [same]
        rw [Function.update_of_ne different] at out
        obtain ⟨small', held⟩ := served.pool k q out
        exact ⟨small', kept _ q held⟩
    · intro q out
      rw [Function.update_of_ne (by simp)] at out
      exact served.arena q out
  · have route : Origin.ofSize n = .arena := if_neg small
    have gained : client.gain n (.ok (some p)) = client.gainSpan ⟨p, n⟩ := dif_neg small
    rw [route, gained]
    refine ⟨recorded, ?_, ?_⟩
    · intro k q out
      rw [Function.update_of_ne (by simp)] at out
      exact served.pool k q out
    · intro q out
      rw [Function.update_self] at out
      rcases List.mem_cons.mp out with rfl | old
      · exact ⟨_, List.mem_cons_self, rfl⟩
      · obtain ⟨b, member, base⟩ := served.arena q old
        exact ⟨b, List.mem_cons_of_mem _ member, base⟩

/-- An aligned request is served by the arena. -/
theorem gainAligned (served : ServedBy g t a client issued)
    (recorded : ∀ i, (a'.pools i).slabs blocksPerSlab = g'.linkedBy t a' i) :
    ServedBy g' t a' (client.gainAligned n (some p))
      (Function.update issued (t, .arena) (p :: issued (t, .arena))) := by
  refine ⟨recorded, ?_, ?_⟩
  · intro k q out
    rw [Function.update_of_ne (by simp)] at out
    exact served.pool k q out
  · intro q out
    rw [Function.update_self] at out
    rcases List.mem_cons.mp out with rfl | old
    · exact ⟨_, List.mem_cons_self, rfl⟩
    · obtain ⟨b, member, base⟩ := served.arena q old
      exact ⟨b, List.mem_cons_of_mem _ member, base⟩

/-- A pool pointer goes back; no other pointer is the same. -/
theorem release (served : ServedBy g t a client issued)
    (recorded : ∀ i, (a'.pools i).slabs blocksPerSlab = g'.linkedBy t a' i)
    (small : n ≤ maxSmall) (once : (issued (t, .pool n)).Nodup)
    (size : ∀ k, p ∈ issued (t, .pool k) → k = n) :
    ServedBy g' t a' (client.release (sizeClassOf n small) p)
      (Function.update issued (t, .pool n) ((issued (t, .pool n)).erase p)) := by
  refine ⟨recorded, ?_, ?_⟩
  · intro k q out
    have old := (retire_sublist issued (t, .pool n) (t, .pool k) p).subset out
    have other : q ≠ p := by
      rintro rfl
      obtain rfl := size k old
      rw [Function.update_self] at out
      exact once.not_mem_erase out
    obtain ⟨small', held⟩ := served.pool k q old
    refine ⟨small', ?_⟩
    by_cases same : sizeClassOf k small' = sizeClassOf n small
    · rw [same] at held ⊢
      rw [Client.release_same]
      exact (List.mem_erase_of_ne other).mpr held
    · rwa [Client.release_other _ _ same]
  · intro q out
    rw [Function.update_of_ne (by simp)] at out
    exact served.arena q out

end ServedBy

/-- All live threads know the pointers they have served, and a pointer is out for one size. -/
structure Served (s : Sys) (ready : Bool) (issued : Nat × Origin → List Nat) : Prop where
  live : ∀ t pool client, s.threads t = .live pool client →
    ServedBy s.shared t pool.alloc client issued
  once : ∀ t n, (issued (t, .pool n)).Nodup
  size : ∀ t n k p, p ∈ issued (t, .pool n) → p ∈ issued (t, .pool k) → n = k
  born : ∀ t o, o.raw 0 = none → ∀ p ∈ issued (t, o), ready = true ∧ s.threads t ≠ .unborn

namespace Served

variable {s s' : Sys} {ready : Bool} {issued issued' : Nat × Origin → List Nat} {t n p : Nat}

/-- Fewer pool and arena pointers are out, and the threads are the same. -/
theorem fewer (served : Served s ready issued) (threads : s'.threads = s.threads)
    (carved : s'.shared.carved = s.shared.carved)
    (sublist : ∀ t o, o.raw 0 = none → (issued' (t, o)).Sublist (issued (t, o))) :
    Served s' ready issued' := by
  refine ⟨?_, ?_, ?_, ?_⟩
  · intro t pool client live
    rw [threads] at live
    refine (served.live t pool client live).frame ?_ (sublist t)
    funext i
    exact Shared.linkedBy_congr carved (SameRegions.refl _)
  · intro t n
    exact (served.once t n).sublist (sublist t _ rfl)
  · intro t n k p left right
    exact served.size t n k p ((sublist t _ rfl).subset left) ((sublist t _ rfl).subset right)
  · intro t o served' p out
    rw [threads]
    exact served.born t o served' p ((sublist t o served').subset out)

theorem retire (served : Served s ready issued) (source : Nat × Origin) (p : Nat) :
    Served s ready (Function.update issued source ((issued source).erase p)) :=
  served.fewer rfl rfl fun _ _ _ => retire_sublist issued source _ p

theorem issueFallback (served : Served s ready issued) {o : Origin} (fallback : o.raw 0 ≠ none)
    (t p : Nat) :
    Served s ready (Function.update issued (t, o) (p :: issued (t, o))) := by
  apply served.fewer rfl rfl
  intro u o' other
  have different : (u, o') ≠ (t, o) := by
    rintro ⟨⟩
    exact fallback other
  rw [Function.update_of_ne different]

/-- One thread moves on, and the chunks of the others stay. -/
theorem advance {thread : Thread} (served : Served s ready issued)
    (threads : s'.threads = Function.update s.threads t thread)
    (carved : s'.shared.carved = s.shared.carved ∨ ∃ c,
      s'.shared.carved = s.shared.carved ++ [c] ∧ c.user = some t)
    (own : ∀ pool client, thread = .live pool client →
      ServedBy s'.shared t pool.alloc client issued')
    (others : ∀ u, u ≠ t → ∀ o, o.raw 0 = none → (issued' (u, o)).Sublist (issued (u, o)))
    (once : ∀ n, (issued' (t, .pool n)).Nodup)
    (size : ∀ n k p, p ∈ issued' (t, .pool n) → p ∈ issued' (t, .pool k) → n = k)
    (born : ∀ o, o.raw 0 = none → ∀ p ∈ issued' (t, o), ready = true ∧ thread ≠ .unborn) :
    Served s' ready issued' := by
  refine ⟨?_, ?_, ?_, ?_⟩
  · intro u pool client live
    rw [threads] at live
    by_cases same : u = t
    · subst same
      rw [Function.update_self] at live
      exact own pool client live
    · rw [Function.update_of_ne same] at live
      refine (served.live u pool client live).frame ?_ (others u same)
      funext i
      rcases carved with equal | ⟨c, added, user⟩
      · exact Shared.linkedBy_congr equal (SameRegions.refl _)
      · refine Shared.linkedBy_other added ?_
        rintro ⟨user', _⟩
        rw [user] at user'
        exact same (Option.some.inj user').symm
  · intro u n
    by_cases same : u = t
    · subst same
      exact once n
    · exact (served.once u n).sublist (others u same _ rfl)
  · intro u n k p left right
    by_cases same : u = t
    · subst same
      exact size n k p left right
    · exact served.size u n k p ((others u same _ rfl).subset left)
        ((others u same _ rfl).subset right)
  · intro u o served' p out
    rw [threads]
    by_cases same : u = t
    · subst same
      rw [Function.update_self]
      exact born o served' p out
    · rw [Function.update_of_ne same]
      exact served.born u o served' p ((others u same o served').subset out)

theorem initial (m : ByteMemory) (h : Heap Owner) :
    Served (Sys.initial m h) false (fun _ => []) := by
  refine ⟨?_, ?_, ?_, ?_⟩
  · intro t pool client live
    cases live
  · intro t n
    exact List.nodup_nil
  · intro t n k p out
    cases out
  · intro t o served p out
    cases out

/-- The thread that starts has obtained nothing from its allocator yet. -/
theorem start {P : Platform} {reply : SizeClass → SlabReply} {arenaReply : Option Nat}
    {a : SingleThreadAllocator} {m' : ByteMemory} {h' : Heap Owner} {id next : Nat}
    (inv : SysInv s) (served : Served s ready issued) (unborn : s.threads t = .unborn)
    (done : SingleThreadAllocator.new P (.slab t) (.arena t) reply arenaReply s.shared.heap
      s.mem = (.ok (a, m'), h')) :
    Served { (s.setHeap h').setThread t (.live ⟨a, 0, 0, id⟩ Client.none) with
      mem := m'
      nextThreadId := next } ready issued := by
  have different : Function.Injective (Owner.slab t) := fun i j same => (Owner.slab.inj same).2
  have apart : ∀ i, Owner.slab t i ≠ .arena t := fun i same => by cases same
  obtain ⟨_, _, _, _, external, _⟩ := SingleThreadAllocator.new_ok different apart done
  have none : ∀ o, o.raw 0 = none → ∀ p, p ∉ issued (t, o) :=
    fun o served' p out => (served.born t o served' p out).2 unborn
  have nothing : ∀ i : SizeClass, s.shared.carved.filter
      (fun c => c.user = some t ∧ c.sizeClassBytes = i.bytes) = [] := by
    intro i
    refine List.filter_eq_nil_iff.mpr (fun c member both => ?_)
    exact inv.unborn t unborn c member (of_decide_eq_true both).1
  refine served.advance (t := t) rfl (Or.inl rfl) ?_ (fun _ _ _ _ => List.Sublist.refl _)
    (served.once t) (served.size t) (fun o served' p out => absurd out (none o served' p))
  intro pool client same
  obtain ⟨rfl, rfl⟩ := Thread.live.inj same
  refine ⟨fun i => ?_, fun n p out => absurd out (none _ rfl p),
    fun p out => absurd out (none _ rfl p)⟩
  change BlockPool.slabs blocksPerSlab (a.pools i) = _ :: List.map _ (s.shared.carved.filter _)
  rw [nothing i, BlockPool.slabs, external i]
  rfl

theorem exit (served : Served s ready issued) (t : Nat) (h' : Heap Owner) :
    Served ((s.setHeap h').setThread t .exited) ready issued := by
  refine served.advance (t := t) rfl (Or.inl rfl) ?_ (fun _ _ _ _ => List.Sublist.refl _)
    (served.once t) (served.size t) ?_
  · intro pool client impossible
    cases impossible
  · intro o served' p out
    exact ⟨(served.born t o served' p out).1, fun impossible => by cases impossible⟩

end Served

end NewDelete

end MemAlloc
