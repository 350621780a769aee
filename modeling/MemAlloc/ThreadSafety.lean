import MemAlloc.ThreadInvariant

set_option autoImplicit false

namespace MemAlloc

open Malloc (Heap Block addressLimit)
open ByteMemory (SameOutside SameInside)
open Runs (Run Transition)
open SingleThreadAllocator (Inv Homes SameRegions SoundReply Granted Released FreeForm chunkBody
  chunkSlab answeredBody)

/-- The chunk that a request has obtained, if any, is the last one handed out. -/
def Shared.Obtained (g g' : Shared) (t n : Nat) (body : Option Nat) : Prop :=
  (body = none ∧ g'.carved = g.carved) ∨ ∃ small : n ≤ maxSmall, ∃ b c,
    body = some b ∧ c.body = b ∧ c.user = some t ∧
      c.sizeClassBytes = (sizeClassOf n small).bytes ∧ g'.carved = g.carved ++ [c]

theorem Shared.Obtained.carved {g g' : Shared} {t n : Nat} {body : Option Nat}
    (obtained : g.Obtained g' t n body) :
    g'.carved = g.carved ∨ ∃ c, g'.carved = g.carved ++ [c] ∧ c.user = some t := by
  rcases obtained with ⟨_, same⟩ | ⟨_, _, c, _, _, user, _, added⟩
  · exact Or.inl same
  · exact Or.inr ⟨c, added, user⟩

namespace ThreadInv

variable {P : Platform} {m m' : ByteMemory} {g g' : Shared} {t n : Nat}
  {pool pool' : ThreadPoolAlloc} {client : Client} {free : SizeClass → List Nat}

/-- The central heap keeps its promise to the allocator that asks. -/
theorem soundReply {a : SingleThreadAllocator} {bytes : Nat} {reply : SlabReply}
    {recorded : Bool} {chunk : Span} (shared : SharedInv g) (inv : ThreadInv m g t a client free)
    (acquired : Acquired g m (some t) bytes
      (g.acquireChunk P (some t) reply recorded bytes m) chunk) :
    SoundReply a (g.linkedBy t a) m chunk (acquireChunkCb P t reply recorded bytes g m) := by
  have away : ∀ r, Region g t a r → chunk.Apart r := by
    intro r region
    obtain ⟨b, block, inside, _⟩ := (inv.home region).block shared
    exact (acquired.fresh b block).mono (Span.Inside.refl _) inside
  refine ⟨⟨fun i s member => away _ (.slab member), away _ .arena, acquired.bounded⟩,
    acquired.frame, ?_⟩
  intro b answered
  simp only [acquireChunkCb] at answered
  cases outcome : (g.acquireChunk P (some t) reply recorded bytes m).1 with
  | error e =>
      rw [outcome] at answered
      cases answered
  | ok body =>
      rw [outcome] at answered
      cases answered
      obtain ⟨_, _, positive, _, _, inside, _⟩ := acquired.success b outcome
      exact ⟨positive, inside⟩

/-- The slabs a request links are those of the chunks handed out for it. -/
theorem linked_granted {a a' : SingleThreadAllocator} {L L' : Ledger} {recorded : Bool}
    {body : Option Nat} {x : Except Exn (Option Nat)}
    (granted : Granted P recorded a L n body x a' L') (linked : L.linked = g.linkedBy t a)
    (obtained : g.Obtained g' t n body) :
    L'.linked = g'.linkedBy t a' := by
  funext j
  have moved : g'.linkedBy t a' j = g'.linkedBy t a j :=
    Shared.linkedBy_congr rfl granted.regions
  rw [granted.linked j, moved, linked]
  rcases obtained with ⟨rfl, same⟩ | ⟨small, b, c, rfl, rfl, user, bytes, added⟩
  · rw [Shared.linkedBy_congr same (SameRegions.refl a)]
    simp
  · by_cases here : j = sizeClassOf n small
    · subst here
      have chosen : n ≤ maxSmall ∧ sizeClassIndex n = (sizeClassOf n small).val := ⟨small, rfl⟩
      rw [if_pos chosen, Shared.linkedBy_own added user bytes]
      rfl
    · have elsewhere : ¬ (n ≤ maxSmall ∧ sizeClassIndex n = j.val) :=
        fun both => here (Fin.ext both.2.symm)
      have other : ¬ (c.user = some t ∧ c.sizeClassBytes = j.bytes) :=
        fun both => here (SizeClass.bytes_injective (both.2.symm.trans bytes))
      rw [if_neg elsewhere, Shared.linkedBy_other added other, List.append_nil]

/-- What `allocate` leaves behind for its thread and for everybody else. -/
theorem allocate {reply : SlabReply} {chunkRecorded slabRecorded : Bool}
    {x : Except Exn (Option Nat)} (shared : SharedInv g)
    (inv : ThreadInv m g t pool.alloc client free) (power : Words.PowerOfTwo P.maxAlign)
    (word : n < Words.radix) (noWrap : maxSmall < n → pool.alloc.arena.NoWrap n P.maxAlign)
    (done : pool.allocate P (acquireChunkCb P t reply chunkRecorded) slabRecorded n g m =
      (x, pool', g', m')) :
    ∃ free' chunk body, ThreadInv m' g' t pool'.alloc (client.gain n x) free' ∧ SharedInv g' ∧
      (∀ b ∈ g.heap.blocks, chunk.Apart b.span) ∧ SameOutside m m' [chunk] ∧
      (∀ b ∈ g.heap.blocks, b ∈ g'.heap.blocks) ∧
      Granted P slabRecorded pool.alloc (client.ledger free (g.linkedBy t pool.alloc)) n body x
        pool'.alloc ((client.gain n x).ledger free' (g'.linkedBy t pool'.alloc)) ∧
      g.Obtained g' t n body := by
  have nonempty : ∀ b ∈ (client.gain n x).bumped, 0 < b.size := by
    intro b member
    match x with
    | .error _ => exact inv.nonempty b member
    | .ok none => exact inv.nonempty b member
    | .ok (some p) =>
        by_cases small : n ≤ maxSmall
        · simp only [Client.gain, small, ↓reduceDIte] at member
          exact inv.nonempty b member
        · simp only [Client.gain, small, ↓reduceDIte] at member
          rcases List.mem_cons.mp member with rfl | old
          · exact Nat.lt_of_le_of_lt (Nat.zero_le _) (Nat.lt_of_not_le small)
          · exact inv.nonempty b old
  -- The region the central heap answers with, if it is asked at all.
  have source : ∃ chunk, (∀ b ∈ g.heap.blocks, chunk.Apart b.span) ∧
      ∀ small : n ≤ maxSmall, Acquired g m (some t) (sizeClassOf n small).bytes
        (g.acquireChunk P (some t) reply chunkRecorded (sizeClassOf n small).bytes m) chunk := by
    by_cases small : n ≤ maxSmall
    · obtain ⟨chunk, acquired⟩ := acquireChunk_acquired P (some t) reply chunkRecorded
        (sizeClassOf n small).bytes m shared
      exact ⟨chunk, acquired.fresh, fun _ => acquired⟩
    · exact ⟨⟨0, 0⟩, fun b _ => Or.inl (Nat.zero_le _), fun small' => absurd small' small⟩
  obtain ⟨chunk, fresh, acquired⟩ := source
  obtain ⟨x', a', e', m'', L', body, run, granted, alloc, frame, asked, _⟩ :=
    inv.alloc.allocate slabRecorded power word noWrap
      (fun small => inv.soundReply shared (acquired small))
  simp only [ThreadPoolAlloc.allocate, run] at done
  cases done
  obtain ⟨held, bumped⟩ := Client.gain_granted (c := client) granted rfl rfl
  suffices rest : SharedInv g' ∧ (∀ b ∈ g.heap.blocks, b ∈ g'.heap.blocks) ∧
      g.Obtained g' t n body by
    obtain ⟨after, kept, obtained⟩ := rest
    have linked := linked_granted granted rfl obtained
    have same := Client.ledger_eq held linked bumped
    refine ⟨L'.free, chunk, body, inv.advance alloc granted.regions held bumped linked kept
      nonempty, after, fresh, frame, kept, ?_, obtained⟩
    rw [same]
    exact granted
  rcases asked with ⟨rfl, rfl, rfl⟩ | ⟨small, rfl, rfl⟩
  · exact ⟨shared, fun _ member => member, Or.inl ⟨rfl, rfl⟩⟩
  · have effect := acquired small
    simp only [acquireChunkCb]
    generalize g.acquireChunk P (some t) reply chunkRecorded (sizeClassOf n small).bytes m =
      answer at effect
    obtain ⟨outcome, g', m'⟩ := answer
    cases outcome with
    | error e => exact ⟨effect.shared, effect.kept, Or.inl ⟨rfl, effect.failure e rfl⟩⟩
    | ok b =>
        obtain ⟨c, body, _, user, bytes, _, added⟩ := effect.success b rfl
        exact ⟨effect.shared, effect.kept,
          Or.inr ⟨small, b, c, rfl, body, user, bytes, added⟩⟩

/-- Slab tables that are complete stay so when what is linked is recorded. -/
theorem recorded_granted {body : Option Nat} {x : Except Exn (Option Nat)} {client' : Client}
    {free' : SizeClass → List Nat} (granted : Granted P true pool.alloc
      (client.ledger free (g.linkedBy t pool.alloc)) n body x pool'.alloc
      (client'.ledger free' (g'.linkedBy t pool'.alloc)))
    (complete : ∀ i, (pool.alloc.pools i).slabs blocksPerSlab = g.linkedBy t pool.alloc i)
    (i : SizeClass) : (pool'.alloc.pools i).slabs blocksPerSlab = g'.linkedBy t pool'.alloc i :=
  granted.recorded complete (Or.inl rfl) i

/-- Freeing a pool block changes only its own bytes and its own thread. -/
theorem free_released {form : FreeForm} {i : SizeClass} {y p : Nat}
    (inv : ThreadInv m g t pool.alloc client free) (out : y ∈ client.held i)
    (names : form.Names ⟨y, i.bytes⟩ p) (done : pool.free form m p n = .ok (pool', m')) :
    ∃ free', ThreadInv m' g t pool'.alloc (client.release i y) free' ∧
      SameOutside m m' [⟨y, i.bytes⟩] ∧
      Released pool.alloc (client.ledger free (g.linkedBy t pool.alloc)) n i y pool'.alloc
        ((client.release i y).ledger free' (g.linkedBy t pool'.alloc)) := by
  obtain ⟨L', released, alloc, frame⟩ :=
    inv.alloc.free out names (ThreadPoolAlloc.of_free done)
  obtain ⟨held, bumped⟩ := released.held
  have linked : L'.linked = g.linkedBy t pool'.alloc := by
    rw [released.linked]
    exact funext fun j => (Shared.linkedBy_congr rfl released.regions).symm
  have same : (client.release i y).ledger L'.free (g.linkedBy t pool'.alloc) = L' :=
    Client.ledger_eq held linked bumped
  refine ⟨L'.free, inv.advance alloc released.regions held bumped linked
    (fun _ member => member) inv.nonempty, frame, ?_⟩
  rw [same]
  exact released

theorem free_block {form : FreeForm} {i : SizeClass} {y p : Nat}
    (inv : ThreadInv m g t pool.alloc client free) (out : y ∈ client.held i)
    (names : form.Names ⟨y, i.bytes⟩ p) (done : pool.free form m p n = .ok (pool', m')) :
    ∃ free', ThreadInv m' g t pool'.alloc (client.release i y) free' ∧
      SameOutside m m' [⟨y, i.bytes⟩] := by
  obtain ⟨free', after, frame, _⟩ := inv.free_released out names done
  exact ⟨free', after, frame⟩

/-- Freeing an arena block changes nothing. -/
theorem free_ignored {form : FreeForm} {b : Span} {p : Nat}
    (inv : ThreadInv m g t pool.alloc client free) (out : b ∈ client.bumped)
    (names : form.Names b p) (done : pool.free form m p n = .ok (pool', m')) :
    pool'.alloc = pool.alloc ∧ m' = m := by
  have inside := (inv.bumped_region out).2.holds (names.holds (inv.nonempty b out))
  exact (inv.alloc.free_arena inside (ThreadPoolAlloc.of_free done)).2

theorem drop (inv : ThreadInv m g t pool.alloc client free) (b : Span) :
    ThreadInv m g t pool.alloc { client with bumped := client.bumped.erase b } free :=
  ⟨inv.alloc.drop b, inv.homes, fun c member => inv.nonempty c (List.mem_of_mem_erase member)⟩

theorem free_arena {form : FreeForm} {b : Span} {p : Nat}
    (inv : ThreadInv m g t pool.alloc client free) (out : b ∈ client.bumped)
    (names : form.Names b p) (done : pool.free form m p n = .ok (pool', m')) :
    ThreadInv m' g t pool'.alloc { client with bumped := client.bumped.erase b } free ∧
      m' = m := by
  obtain ⟨same, rfl⟩ := inv.free_ignored out names done
  rw [same]
  exact ⟨inv.drop b, rfl⟩

/-- An aligned request for no bytes only moves the arena's cursor. -/
theorem allocateEmpty {alignment : Nat} {x : Option Nat}
    (inv : ThreadInv m g t pool.alloc client free) (power : Words.PowerOfTwo alignment)
    (noWrap : pool.alloc.arena.NoWrap 0 alignment)
    (done : pool.allocateAligned 0 alignment = (x, pool')) :
    ThreadInv m g t pool'.alloc client free := by
  simp only [ThreadPoolAlloc.allocateAligned, SingleThreadAllocator.allocateAligned] at done
  by_cases fits : pool.alloc.arena.demand 0 alignment ≤ pool.alloc.arena.capacity
  · obtain ⟨p, a', run, served⟩ := inv.alloc.arenaAllocate_fits power fits
    rw [run] at done
    cases done
    have moved := (inv.alloc.bump served).drop ⟨p, 0⟩
    rw [Ledger.drop_bump] at moved
    refine inv.advance moved served.regions rfl rfl ?_ (fun _ member => member) inv.nonempty
    exact funext fun j => (Shared.linkedBy_congr rfl served.regions).symm
  · rw [inv.alloc.arenaAllocate_full (by decide) power noWrap (Nat.lt_of_not_le fits)] at done
    cases done
    exact inv

theorem allocateAligned {alignment : Nat} {x : Option Nat}
    (inv : ThreadInv m g t pool.alloc client free) (nonempty : 1 ≤ n)
    (word : n < Words.radix) (power : Words.PowerOfTwo alignment)
    (noWrap : pool.alloc.arena.NoWrap n alignment)
    (done : pool.allocateAligned n alignment = (x, pool')) :
    ThreadInv m g t pool'.alloc (client.gainAligned n x) free := by
  simp only [ThreadPoolAlloc.allocateAligned, SingleThreadAllocator.allocateAligned] at done
  by_cases fits : pool.alloc.arena.demand n alignment ≤ pool.alloc.arena.capacity
  · obtain ⟨p, a', run, served⟩ := inv.alloc.arenaAllocate_fits power fits
    rw [run] at done
    cases done
    refine inv.advance (inv.alloc.bump served) served.regions rfl rfl ?_
      (fun _ member => member) ?_
    · exact funext fun j => (Shared.linkedBy_congr rfl served.regions).symm
    · intro b member
      rcases List.mem_cons.mp member with rfl | old
      · exact nonempty
      · exact inv.nonempty b old
  · rw [inv.alloc.arenaAllocate_full word power noWrap (Nat.lt_of_not_le fits)] at done
    cases done
    exact inv

/-- A new allocator lies in new blocks of the heap, and has no chunks. -/
theorem new {a : SingleThreadAllocator} {reply : SizeClass → SlabReply} {arenaReply : Option Nat}
    {h' : Heap Owner} (unused : ∀ c ∈ g.carved, c.user ≠ some t)
    (done : SingleThreadAllocator.new P (.slab t) (.arena t) reply arenaReply g.heap m =
      (.ok (a, m'), h')) :
    ThreadInv m' { g with heap := h' } t a Client.none a.newLedger.free ∧
      Shared.linkedBy { g with heap := h' } t a = a.newLedger.linked ∧
      (∀ b ∈ g.heap.blocks, b ∈ h'.blocks) ∧ SameInside m m' (spansOf g.heap) := by
  have different : Function.Injective (Owner.slab t) := fun i j same => (Owner.slab.inj same).2
  have apart : ∀ i, Owner.slab t i ≠ .arena t := fun i same => by cases same
  obtain ⟨alloc, homes, _, _, _, _, growth, kept⟩ :=
    SingleThreadAllocator.new_ok different apart done
  have nothing : ∀ i : SizeClass,
      g.carved.filter (fun c => c.user = some t ∧ c.sizeClassBytes = i.bytes) = [] := by
    intro i
    refine List.filter_eq_nil_iff.mpr (fun c member both => ?_)
    exact unused c member (of_decide_eq_true both).1
  have linked : Shared.linkedBy { g with heap := h' } t a = a.newLedger.linked := by
    funext i
    simp only [Shared.linkedBy, nothing i]
    rfl
  have ledger : Client.none.ledger a.newLedger.free
      (Shared.linkedBy { g with heap := h' } t a) = a.newLedger :=
    Client.ledger_eq rfl linked.symm rfl
  rw [← ledger] at alloc
  exact ⟨⟨alloc, homes, fun b member => by cases member⟩, linked, growth, kept⟩

end ThreadInv

namespace Sys

/-- The sum that admits an arena request is right. -/
def NoWrap (P : Platform) (s : Sys) : Event → Prop
  | .allocate t n _ => maxSmall < n → ∀ pool client, s.threads t = .live pool client →
      pool.alloc.arena.NoWrap n P.maxAlign
  | .allocateAligned t n alignment _ => ∀ pool client, s.threads t = .live pool client →
      pool.alloc.arena.NoWrap n alignment
  | _ => True

def Event.thread : Event → Option Nat
  | .start t _ | .exit t | .allocate t _ _ | .allocateAligned t _ _ _ | .free t _ _ _ => some t
  | .acquireChunk _ _ | .write _ _ | .malloc _ _ _ | .mfree _ => none

def Event.Nonempty : Event → Prop
  | .allocateAligned _ n _ _ => 1 ≤ n
  | _ => True

end Sys

namespace SysInv

variable {P : Platform} {s : Sys} {t : Nat} {pool : ThreadPoolAlloc} {client : Client}

/-- A new thread's allocator lies in new blocks of the heap. -/
theorem start {reply : SizeClass → SlabReply} {arenaReply : Option Nat}
    {a : SingleThreadAllocator} {m' : ByteMemory} {h' : Heap Owner} (inv : SysInv s)
    (unborn : s.threads t = .unborn)
    (done : SingleThreadAllocator.new P (.slab t) (.arena t) reply arenaReply s.shared.heap
      s.mem = (.ok (a, m'), h')) :
    s.Settles { (s.setHeap h').setThread t (.live ⟨a, 0, 0, s.nextThreadId⟩ Client.none) with
      mem := m'
      nextThreadId := (s.nextThreadId + 1) % 4294967296 } (· = t) := by
  obtain ⟨thread, _, growth, kept⟩ := ThreadInv.new (inv.unborn t unborn) done
  refine inv.step (· = t) (inv.shared.heap fun b old _ => growth b old) ?_ ?_ ?_
  · intro u other
    refine .intro (Function.update_of_ne other _ _) ?_ (fun b old _ => growth b old) (Or.inl rfl)
    intro pool client live r region
    obtain ⟨free, thread⟩ := inv.live u pool client live
    obtain ⟨b, block, inside, _⟩ := (thread.home region).block inv.shared
    intro q member x held
    obtain rfl := List.mem_singleton.mp member
    exact kept b.span (mem_spansOf block) x (inside.holds held)
  · rintro u rfl pool client live
    obtain ⟨rfl, rfl⟩ := Thread.live.inj ((Function.update_self u _ _).symm.trans live)
    exact ⟨a.newLedger.free, thread⟩
  · rintro u rfl still
    cases (Function.update_self u _ _).symm.trans still

/-- An exiting thread releases only blocks of its own. -/
theorem exit (inv : SysInv s) (live : s.threads t = .live pool client) :
    s.Settles ((s.setHeap (pool.alloc.destroy s.shared.heap)).setThread t .exited) (· = t) := by
  obtain ⟨free, thread⟩ := inv.live t pool client live
  have survives : ∀ b ∈ s.shared.heap.blocks, b.owner.thread ≠ some t →
      b ∈ (pool.alloc.destroy s.shared.heap).blocks :=
    fun b member stranger => Owner.survives thread.homes member stranger
  refine inv.step (· = t) ?_ ?_ ?_ ?_
  · exact inv.shared.heap fun b member owner =>
      survives b member (by rw [owner]; simp [Owner.thread])
  · intro u other
    refine .intro (Function.update_of_ne other _ _) (fun _ _ _ _ _ => SameInside.refl _ _) ?_
      (Or.inl rfl)
    intro b member owner
    refine survives b member ?_
    rw [owner]
    exact fun same => other (Option.some.inj same)
  · rintro u rfl pool client still
    cases (Function.update_self u _ _).symm.trans still
  · rintro u rfl still
    cases (Function.update_self u _ _).symm.trans still

/-- A step of one live thread that stays inside its regions and fresh memory. -/
theorem advance {s' : Sys} {pool' : ThreadPoolAlloc} {client' : Client}
    {free' : SizeClass → List Nat} (inv : SysInv s)
    (thread : ThreadInv s'.mem s'.shared t pool'.alloc client' free')
    (threads : s'.threads = Function.update s.threads t (.live pool' client'))
    (shared : SharedInv s'.shared)
    (quiet : ∀ u, u ≠ t → ∀ pool client, s.threads u = .live pool client →
      ∀ r, Region s.shared u pool.alloc r → SameInside s.mem s'.mem [r])
    (kept : ∀ b ∈ s.shared.heap.blocks, b ∈ s'.shared.heap.blocks)
    (carved : s'.shared.carved = s.shared.carved ∨ ∃ c,
      s'.shared.carved = s.shared.carved ++ [c] ∧ c.user = some t) : s.Settles s' (· = t) := by
  refine inv.step (· = t) shared ?_ ?_ ?_
  · intro u other
    have same : s'.threads u = s.threads u := by
      rw [threads]
      exact Function.update_of_ne other _ _
    refine .intro same (quiet u other) (fun b old _ => kept b old) ?_
    refine carved.imp_right ?_
    rintro ⟨c, added, user⟩
    refine ⟨c, added, fun mine => ?_⟩
    rw [user] at mine
    exact other (Option.some.inj mine).symm
  · rintro u rfl pool client live
    rw [threads, Function.update_self] at live
    obtain ⟨rfl, rfl⟩ := Thread.live.inj live
    exact ⟨free', thread⟩
  · rintro u rfl still
    rw [threads, Function.update_self] at still
    cases still

theorem stay {s' : Sys} (inv : SysInv s) (shared : SharedInv s'.shared)
    (spares : ∀ u, s.Spares s' u) : s.Settles s' (fun _ => False) :=
  inv.step _ shared (fun u _ => spares u) (fun _ never => never.elim) (fun _ never => never.elim)

/-- What the program may write, no allocator relies on. -/
theorem write {a : Nat} (inv : SysInv s) (b : UInt8) (writable : Sys.Writable s a) :
    s.Settles { s with mem := ByteMemory.writeByte s.mem a b } (fun _ => False) := by
  have same := SameOutside.writeByte s.mem a b
  have byte : ∀ {r : Span}, r.Holds a → (Span.mk a 1).Inside r := fun held => ⟨held.1, held.2⟩
  have confined : ∀ {r : Span}, r.Holds a → ∀ w ∈ [Span.mk a 1], w.Inside r := by
    intro r held w written
    obtain rfl := List.mem_singleton.mp written
    exact byte held
  -- A byte outside every region that the thread hands blocks out from.
  have elsewhere : ∀ {q : Span} {u : Nat}, q.Holds a →
      (∀ pool client, s.threads u = .live pool client → ∀ r, Region s.shared u pool.alloc r →
        q.Apart r) → s.Spares { s with mem := ByteMemory.writeByte s.mem a b } u := by
    intro q u held away
    refine .intro rfl ?_ (fun _ old _ => old) (Or.inl rfl)
    intro pool client live r region
    refine SameInside.ofOutside same ?_
    intro w written x member
    obtain rfl := List.mem_singleton.mp member
    exact (away pool client live _ region).mono (confined held w written) (Span.Inside.refl _)
  -- A byte that the thread itself has handed out.
  have handed : ∀ {t : Nat} {pool : ThreadPoolAlloc} {client : Client} {r : Span},
      s.threads t = .live pool client → Region s.shared t pool.alloc r → r.Holds a →
      (∀ free, ThreadInv s.mem s.shared t pool.alloc client free →
        Inv (ByteMemory.writeByte s.mem a b) pool.alloc
          (client.ledger free (s.shared.linkedBy t pool.alloc))) →
      ∀ u, s.Spares { s with mem := ByteMemory.writeByte s.mem a b } u := by
    intro t pool client r live region held keeps u
    by_cases other : u = t
    · subst other
      refine ⟨rfl, fun _ => rfl, fun _ member _ => member, ?_⟩
      intro pool' client' free live' thread
      obtain ⟨rfl, rfl⟩ := Thread.live.inj (live.symm.trans live')
      exact ⟨keeps free thread, thread.homes, thread.nonempty⟩
    · obtain ⟨_, thread⟩ := inv.live t pool client live
      refine elsewhere held ?_
      intro pool' client' live' q region'
      obtain ⟨_, thread'⟩ := inv.live u pool' client' live'
      exact (thread.home region).apart inv.shared (thread'.home region') (Ne.symm other)
  refine inv.stay inv.shared ?_
  cases writable with
  | @block t pool client i x live out inside =>
      obtain ⟨_, thread⟩ := inv.live t pool client live
      obtain ⟨r, region, within⟩ := thread.held_region out
      refine handed live region (within.holds inside) ?_
      intro free thread
      exact thread.alloc.liveWrite out same (confined inside)
  | @arena t pool client block live out inside =>
      obtain ⟨_, thread⟩ := inv.live t pool client live
      obtain ⟨region, within⟩ := thread.bumped_region out
      refine handed live region (within.holds inside) ?_
      intro free thread
      exact thread.alloc.arenaWrite same (confined (within.holds inside))
  | @chunk c member unused inside =>
      refine fun u => elsewhere inside ?_
      intro pool client live r region
      obtain ⟨free, thread⟩ := inv.live u pool client live
      have within : (Span.mk c.body chunkBody).Inside c.span := by
        refine ⟨Nat.le_add_right _ _, ?_⟩
        change c.base + 64 + 65472 ≤ c.base + 65536
        omega
      cases thread.home region with
      | own block owner inside' =>
          obtain ⟨home, block', tag, outer⟩ := inv.shared.homes c member
          refine (Heap.apart_of_owner block' block ?_).mono (within.trans outer) inside'
          intro same
          rw [← same, tag] at owner
          cases owner
      | chunk carved user inside' =>
          refine (inv.shared.chunks_apart member carved ?_).mono within inside'
          rintro rfl
          rw [unused] at user
          cases user
  | @outside block use member owner inside =>
      refine fun u => elsewhere inside ?_
      intro pool client live r region
      obtain ⟨free, thread⟩ := inv.live u pool client live
      obtain ⟨home, block', within, managed⟩ := (thread.home region).block inv.shared
      refine (Heap.apart_of_owner member block' ?_).mono (Span.Inside.refl _) within
      rw [owner]
      exact fun same => managed use same.symm

/-- Requests to the C heap and chunks for other users do not disturb any thread. -/
theorem acquire {user : Option Nat} {bytes : Nat} {answer : Except Exn Nat × Shared × ByteMemory}
    {chunk : Span} (inv : SysInv s) (nobody : user = none)
    (acquired : Acquired s.shared s.mem user bytes answer chunk) :
    s.Settles { s with mem := answer.2.2, shared := answer.2.1 } (fun _ => False) := by
  refine inv.stay acquired.shared (fun u => .intro rfl ?_ (fun b old _ => acquired.kept b old) ?_)
  · exact fun _ _ live r region =>
      inv.quiet_of_fresh acquired.frame acquired.fresh live region
  · obtain ⟨outcome, g', m'⟩ := answer
    cases outcome with
    | error e => exact Or.inl (acquired.failure e rfl)
    | ok body =>
        obtain ⟨c, _, _, owner, _, _, added⟩ := acquired.success body rfl
        refine Or.inr ⟨c, added, fun same => ?_⟩
        rw [owner, nobody] at same
        cases same

theorem heap {h : Heap Owner} (inv : SysInv s)
    (kept : ∀ b ∈ s.shared.heap.blocks, (∀ use, b.owner ≠ .outside use) → b ∈ h.blocks) :
    s.Settles (s.setHeap h) (fun _ => False) := by
  refine inv.stay ?_ (fun u => .intro rfl (fun _ _ _ _ _ => SameInside.refl _ _) ?_ (Or.inl rfl))
  · exact inv.shared.heap fun b old owner => kept b old (by rw [owner]; intro use same; cases same)
  · intro b old owner
    refine kept b old ?_
    intro use same
    rw [same] at owner
    cases owner

theorem noWrap {s' : Sys} {e : Sys.Event} (power : Words.PowerOfTwo P.maxAlign) (inv : SysInv s)
    (bounded : e.Bounded P) (taken : Sys.Step P s e s') : s.NoWrap P e ∧ e.Nonempty := by
  cases taken with
  | allocate live word done =>
      refine ⟨fun large pool client live => Or.inl ?_, trivial⟩
      obtain ⟨free, thread⟩ := inv.live _ _ _ live
      exact Arena.noWrap_of_bounded thread.alloc.arena power bounded
  | allocateAligned live word power' done =>
      refine ⟨fun pool client live => Or.inl ?_, bounded.1⟩
      obtain ⟨free, thread⟩ := inv.live _ _ _ live
      exact Arena.noWrap_of_bounded thread.alloc.arena power' bounded.2
  | _ => exact ⟨trivial, trivial⟩

/-- No step of any thread, nor of the program around them, breaks the invariant, or changes
the ledger of another thread. -/
theorem settles {s' : Sys} {e : Sys.Event} (power : Words.PowerOfTwo P.maxAlign) (inv : SysInv s)
    (sums : s.NoWrap P e) (nonempty : e.Nonempty) (taken : Sys.Step P s e s') :
    s.Settles s' (fun u => e.thread = some u) := by
  cases taken with
  | start unborn done => exact (inv.start unborn done).wider (fun u same => same ▸ rfl)
  | @startFails t _ _ x h' unborn done =>
      have growth := SingleThreadAllocator.new_error done
      have kept := inv.heap (h := h') (fun b old _ => growth b old)
      refine .wider ⟨⟨kept.inv.shared, kept.inv.live, kept.inv.unborn⟩, ?_⟩
        (fun u (never : False) => never.elim)
      exact fun u never => (kept.spares u never).congr rfl rfl rfl
  | exit live => exact (inv.exit live).wider (fun u same => same ▸ rfl)
  | allocate live word done =>
      obtain ⟨free, thread⟩ := inv.live _ _ _ live
      obtain ⟨free', chunk, _, after, shared, fresh, frame, kept, _, obtained⟩ :=
        thread.allocate inv.shared power word (fun large => sums large _ _ live) done
      refine .wider (inv.advance after rfl shared ?_ kept obtained.carved)
        (fun u same => same ▸ rfl)
      exact fun u _ _ _ live' r region => inv.quiet_of_fresh frame fresh live' region
  | allocateAligned live word power' done =>
      obtain ⟨free, thread⟩ := inv.live _ _ _ live
      refine .wider (inv.advance (thread.allocateAligned nonempty word power' (sums _ _ live) done)
        rfl inv.shared ?_ (fun _ old => old) (Or.inl rfl)) (fun u same => same ▸ rfl)
      exact fun _ _ _ _ _ _ _ => SameInside.refl _ _
  | free live out names done =>
      obtain ⟨free, thread⟩ := inv.live _ _ _ live
      obtain ⟨r, region, inside⟩ := thread.held_region out
      obtain ⟨free', after, frame⟩ := thread.free_block out names done
      refine .wider (inv.advance after rfl inv.shared ?_ (fun _ old => old) (Or.inl rfl))
        (fun u same => same ▸ rfl)
      exact fun u other _ _ live' r' region' =>
        inv.quiet_of_region frame live live' (Ne.symm other) region inside region'
  | freeArena live out names done =>
      obtain ⟨free, thread⟩ := inv.live _ _ _ live
      obtain ⟨after, rfl⟩ := thread.free_arena out names done
      refine .wider (inv.advance after rfl inv.shared ?_ (fun _ old => old) (Or.inl rfl))
        (fun u same => same ▸ rfl)
      exact fun _ _ _ _ _ _ _ => SameInside.refl _ _
  | acquireChunk done =>
      obtain ⟨chunk, acquired⟩ := acquireChunk_acquired P none _ _ _ s.mem inv.shared
      have after := inv.acquire rfl acquired
      rw [done] at after
      exact after.wider (fun u never => never.elim)
  | write writable => exact (inv.write _ writable).wider (fun u never => never.elim)
  | @malloc use size reply x h' done =>
      refine .wider (inv.heap (fun b old _ => ?_)) (fun u never => never.elim)
      have grown : b ∈ (s.shared.heap.malloc (.outside use) P.mallocAlign size reply).2.blocks :=
        Heap.mem_malloc old
      rwa [done] at grown
  | @mfree block use member owner =>
      refine .wider (inv.heap (fun b old managed => Heap.mem_free.mpr ⟨old, fun same => ?_⟩))
        (fun u never => never.elim)
      obtain rfl := Heap.eq_of_base old member same
      exact managed use owner

theorem next {s' : Sys} {e : Sys.Event} (power : Words.PowerOfTwo P.maxAlign) (inv : SysInv s)
    (sums : s.NoWrap P e) (nonempty : e.Nonempty) (taken : Sys.Step P s e s') : SysInv s' :=
  (inv.settles power sums nonempty taken).inv

end SysInv

end MemAlloc
