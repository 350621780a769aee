import MemAlloc.EmptyBlocks

set_option autoImplicit false

namespace MemAlloc

open Malloc (Heap)
open SingleThreadAllocator (Inv Granted Released)

theorem ThreadInv.free_unique {m : ByteMemory} {g : Shared} {t : Nat} {a : SingleThreadAllocator}
    {client client' : Client} {free free' : SizeClass → List Nat}
    (first : ThreadInv m g t a client free) (second : ThreadInv m g t a client' free') :
    free = free' := by
  funext i
  exact (first.alloc.pools i).links.unique (second.alloc.pools i).links

/-- What a call can do to an allocator and its ledger. The flag is the one of `Granted`. -/
inductive LedgerMove (P : Platform) (recorded : Bool) (a : SingleThreadAllocator) (L : Ledger)
    (a' : SingleThreadAllocator) (L' : Ledger) : Sys.Event → Prop
  | granted {t n : Nat} {body : Option Nat} {x : Except Exn (Option Nat)}
      (granted : Granted P recorded a L n body x a' L') :
      LedgerMove P recorded a L a' L' (.allocate t n x)
  | released {t p n x : Nat} {i : SizeClass} {form : SingleThreadAllocator.FreeForm}
      (out : x ∈ L.held i) (names : form.Names ⟨x, i.bytes⟩ p)
      (released : Released a L n i x a' L') :
      LedgerMove P recorded a L a' L' (.free t form p n)
  | aligned {t n alignment : Nat} {x : Option Nat} (pools : a'.pools = a.pools)
      (free : L'.free = L.free) (held : L'.held = L.held) (linked : L'.linked = L.linked) :
      LedgerMove P recorded a L a' L' (.allocateAligned t n alignment x)
  | dropped {t p n : Nat} {form : SingleThreadAllocator.FreeForm} (same : a' = a)
      (free : L'.free = L.free) (held : L'.held = L.held) (linked : L'.linked = L.linked) :
      LedgerMove P recorded a L a' L' (.free t form p n)

namespace Sys

/-- The step is a call of `allocate(n)` on thread `t` in which the C heap answers a request
for a chunk with `reply`, and the vectors of chunks and of external slabs grow as given. -/
inductive Serves (P : Platform) (s s' : Sys) (t n : Nat) (x : Except Exn (Option Nat))
    (reply : SlabReply) (chunkRecorded slabRecorded : Bool) : Prop
  | intro {pool pool' : ThreadPoolAlloc} {client : Client} (live : s.threads t = .live pool client)
      (done : pool.allocate P (acquireChunkCb P t reply chunkRecorded) slabRecorded n s.shared
        s.mem = (x, pool', s'.shared, s'.mem))
      (after : s'.threads t = .live pool' (client.gain n x))

/-- The chunk that a request needs, if any, is granted, and both vectors can record it. -/
def Supplied (P : Platform) (s : Sys) (e : Event) (s' : Sys) : Prop :=
  ∀ t n x, e = .allocate t n x → ∃ reply, s.Serves P s' t n x reply true true ∧
    ∀ (small : n ≤ maxSmall) pool client, s.threads t = .live pool client →
      (pool.alloc.pools (sizeClassOf n small)).head = 0 → ∃ body g' m',
        s.shared.acquireChunk P (some t) reply true (sizeClassOf n small).bytes s.mem =
          (.ok body, g', m')

theorem Supplied.serves {P : Platform} {s s' : Sys} {e : Event} (supplied : s.Supplied P e s') :
    ∀ u n x, e = .allocate u n x → ∃ reply chunkRecorded,
      s.Serves P s' u n x reply chunkRecorded true := by
  intro u n x same
  obtain ⟨reply, served, _⟩ := supplied u n x same
  exact ⟨reply, true, served⟩

theorem proper_small {P : Platform} {s : Sys} {t n : Nat} {x : Except Exn (Option Nat)}
    (small : n ≤ maxSmall) : s.Proper P (.allocate t n x) :=
  ⟨fun large => absurd large (Nat.not_lt.mpr small), trivial⟩

theorem proper_start {P : Platform} {s : Sys} {t : Nat} {x : Except Exn Unit} :
    s.Proper P (.start t x) := ⟨trivial, trivial⟩

/-- The ledger of a thread after a call on it: that of a new allocator, or the one from before
with the call's move. -/
inductive Acted (P : Platform) (recorded : Bool) (s : Sys) (t : Nat) (e : Event)
    (a' : SingleThreadAllocator) (L' : Ledger) : Prop
  | new (unborn : s.threads t = .unborn) (external : ∀ i, (a'.pools i).externalSlabs = [])
      (ledger : L' = a'.newLedger)
  | moved {pool : ThreadPoolAlloc} {client : Client} {free : SizeClass → List Nat}
      (live : s.threads t = .live pool client)
      (before : ThreadInv s.mem s.shared t pool.alloc client.solid free)
      (move : LedgerMove P recorded pool.alloc
        (client.solid.ledger free (s.shared.linkedBy t pool.alloc)) a' L' e)

section Step

variable {P : Platform} {s s' : Sys} {e : Event} {t : Nat} {pool' : ThreadPoolAlloc}
  {client' : Client} {recorded : Bool}

/-- The ledger of the live thread that a step's call is made on. -/
theorem Step.acted (taken : Step P s e s') (power : Words.PowerOfTwo P.maxAlign)
    (inv : SysInv s.solid) (proper : s.Proper P e)
    (serves : ∀ u n x, e = .allocate u n x → ∃ reply chunkRecorded,
      s.Serves P s' u n x reply chunkRecorded recorded)
    (acting : e.thread = some t) (live' : s'.threads t = .live pool' client') :
    ∃ free', ThreadInv s'.mem s'.shared t pool'.alloc client'.solid free' ∧
      s.Acted P recorded t e pool'.alloc
        (client'.solid.ledger free' (s'.shared.linkedBy t pool'.alloc)) := by
  obtain ⟨sums, frees⟩ := proper
  cases taken with
  | @start u reply arenaReply a m' h' unborn done =>
      cases acting
      obtain ⟨rfl, rfl⟩ := Thread.live.inj ((Function.update_self t _ _).symm.trans live')
      have different : Function.Injective (Owner.slab t) := fun i j same => (Owner.slab.inj same).2
      have apart : ∀ i, Owner.slab t i ≠ .arena t := fun i same => by cases same
      obtain ⟨_, _, _, _, external, _⟩ := SingleThreadAllocator.new_ok different apart done
      have unused := inv.unborn t (congrArg Thread.solid unborn)
      obtain ⟨thread, linked, _⟩ := ThreadInv.new unused done
      exact ⟨a.newLedger.free, thread, .new unborn external (Client.ledger_eq rfl linked.symm rfl)⟩
  | startFails unborn done =>
      cases acting
      exact absurd (unborn.symm.trans live') (by simp)
  | exit live =>
      cases acting
      cases (Function.update_self t _ _).symm.trans live'
  | @allocate u n pool₀ _ client _ _ _ x g' m' live word _ =>
      cases acting
      obtain ⟨reply, chunkRecorded, served⟩ := serves t n x rfl
      cases served with
      | @intro pool pool₁ client₁ live₁ done after =>
          obtain ⟨rfl, rfl⟩ := Thread.live.inj (live.symm.trans live₁)
          obtain ⟨rfl, rfl⟩ := Thread.live.inj (after.symm.trans live')
          obtain ⟨free, thread⟩ := inv.live t pool₀ client.solid (solid_live live)
          obtain ⟨free', _, _, thread', _, _, _, _, granted, _⟩ :=
            thread.allocate inv.shared power word (fun large => sums large _ _ live) done
          rw [← Client.solid_gain] at thread' granted
          exact ⟨free', thread', .moved live thread (.granted granted)⟩
  | @allocateAligned u n alignment pool moved client x live word power' done =>
      cases acting
      obtain ⟨rfl, rfl⟩ := Thread.live.inj ((Function.update_self t _ _).symm.trans live')
      obtain ⟨free, thread⟩ := inv.live t pool client.solid (solid_live live)
      have pools := ThreadPoolAlloc.allocateAligned_pools done
      have slabs : s.shared.linkedBy t moved.alloc = s.shared.linkedBy t pool.alloc := by
        funext i
        simp only [Shared.linkedBy, pools]
      have held := client.held_gainAligned n x
      suffices after : ThreadInv s.mem s.shared t moved.alloc (client.gainAligned n x).solid free
        from ⟨free, after, .moved live thread (.aligned pools rfl held slabs)⟩
      by_cases empty : n = 0
      · subst empty
        rw [client.solid_gainAligned_zero x]
        exact thread.allocateEmpty power' (sums pool client live) done
      · have nonempty : 1 ≤ n := Nat.one_le_iff_ne_zero.mpr empty
        rw [client.solid_gainAligned x nonempty]
        exact thread.allocateAligned nonempty word power' (sums pool client live) done
  | @free u x p n i form pool _ client m' live out names done =>
      cases acting
      obtain ⟨rfl, rfl⟩ := Thread.live.inj ((Function.update_self t _ _).symm.trans live')
      obtain ⟨free, thread⟩ := inv.live t pool client.solid (solid_live live)
      obtain ⟨free', after, _, released⟩ := thread.free_released out names done
      exact ⟨free', after, .moved live thread (.released out names released)⟩
  | @freeArena u p n b form pool _ client m' live out names done =>
      cases acting
      obtain ⟨rfl, rfl⟩ := Thread.live.inj ((Function.update_self t _ _).symm.trans live')
      obtain ⟨free, thread⟩ := inv.live t pool client.solid (solid_live live)
      obtain ⟨c, member, nonempty, same⟩ := frees pool client live b out names
      have solid : c ∈ client.solid.bumped := Client.mem_solid.mpr ⟨member, nonempty⟩
      obtain ⟨alloc, rfl⟩ := thread.free_ignored solid same done
      refine ⟨free, ?_, .moved live thread (.dropped alloc rfl rfl ?_)⟩
      · rw [alloc, Client.solid_erase]
        exact thread.drop b
      · exact congrArg (s.shared.linkedBy t) alloc
  | acquireChunk done => cases acting
  | write writable => cases acting
  | malloc done => cases acting
  | mfree member owner => cases acting

end Step

/-- The ledger of every live thread has the property. -/
def Keeps (s : Sys) (keeps : SingleThreadAllocator → Ledger → Prop) : Prop :=
  ∀ t pool client free, s.threads t = .live pool client →
    ThreadInv s.mem s.shared t pool.alloc client free →
      keeps pool.alloc (client.ledger free (s.shared.linkedBy t pool.alloc))

section Keeps

variable {P : Platform} {s s' : Sys} {e : Event} {recorded : Bool}
  {keeps : SingleThreadAllocator → Ledger → Prop}

theorem Keeps.initial (m : ByteMemory) (h : Heap Owner) : (Sys.initial m h).solid.Keeps keeps := by
  intro t pool client free live
  cases live

/-- A property of ledgers that new allocators have, and that the call's moves keep, is kept. -/
theorem Keeps.step (kept : s.solid.Keeps keeps) (taken : Step P s e s')
    (power : Words.PowerOfTwo P.maxAlign) (inv : SysInv s.solid) (proper : s.Proper P e)
    (serves : ∀ u n x, e = .allocate u n x → ∃ reply chunkRecorded,
      s.Serves P s' u n x reply chunkRecorded recorded)
    (new : ∀ a : SingleThreadAllocator, (∀ i, (a.pools i).externalSlabs = []) →
      keeps a a.newLedger)
    (moves : ∀ t pool client, e.thread = some t → s.threads t = .live pool client →
      ∀ L a' L', L.held = client.held → keeps pool.alloc L →
        LedgerMove P recorded pool.alloc L a' L' e → keeps a' L') :
    s'.solid.Keeps keeps := by
  intro t pool' client' free live' thread'
  obtain ⟨client, live, rfl⟩ := Thread.of_solid live'
  by_cases acting : e.thread = some t
  · obtain ⟨free₁, after, acted⟩ := taken.acted power inv proper serves acting live
    rw [thread'.free_unique after]
    cases acted with
    | new unborn external ledger =>
        show keeps pool'.alloc (client.solid.ledger free₁ (s'.shared.linkedBy t pool'.alloc))
        rw [ledger]
        exact new pool'.alloc external
    | moved live₀ before move =>
        exact moves t _ _ acting live₀ _ _ _ rfl (kept t _ _ _ (solid_live live₀) before) move
  · have spares := (inv.settles_solid power proper.1 proper.2 taken).spares t acting
    have live₀ := spares.threads.symm.trans live'
    obtain ⟨free₁, before⟩ := inv.live t pool' client.solid live₀
    have after := spares.thread pool' client.solid free₁ live₀ before
    rw [thread'.free_unique after, spares.linked]
    exact kept t pool' client.solid free₁ live₀ before

end Keeps

end Sys

end MemAlloc
