import MemAlloc.Classification
import MemAlloc.SuppliedRuns

set_option autoImplicit false

namespace MemAlloc

open Malloc (Heap Block addressLimit)
open ByteMemory (readWord SameOutside SameInside wordBytes)
open Runs (Run Transition)
open SingleThreadAllocator (chunkBody chunkSlab answeredBody)

theorem CentralHeap.headerFor_eq {base p : Nat} (aligned : chunkSize ∣ base) (above : base ≤ p)
    (below : p < base + chunkSize) (word : p < Words.radix) : headerFor p = base := by
  have power : chunkSize = 2 ^ 16 := rfl
  obtain ⟨k, rfl⟩ := aligned
  rw [headerFor, power, Words.and_complement p 16 word (by decide)]
  rw [power] at above below
  have quotient : p / 2 ^ 16 = k := by
    apply Nat.div_eq_of_lt_le
    · omega
    · rw [Nat.succ_mul]
      omega
  rw [quotient, Nat.mul_comm]

/-- Both words of the chunk's header are the size the chunk was acquired with. -/
def Chunk.Headed (m : ByteMemory) (c : Chunk) : Prop :=
  c.sizeClassBytes < Words.radix → readWord m c.base = c.sizeClassBytes ∧
    readWord m (c.base + 8) = c.sizeClassBytes

namespace Chunk

variable {m m' : ByteMemory} {c : Chunk}

theorem Headed.frame (headed : c.Headed m) (same : SameInside m m' [c.header]) :
    c.Headed m' := by
  intro word
  have first : (Span.mk c.base wordBytes).Inside c.header := Span.Inside.shorter (by decide) c.base
  have second : (Span.mk (c.base + 8) wordBytes).Inside c.header := by
    constructor
    · exact Nat.le_add_right _ _
    · exact Nat.le_refl (c.base + 16)
  rw [same.readWord List.mem_cons_self first, same.readWord List.mem_cons_self second]
  exact headed word

theorem Headed.outside {touched : List Span} (headed : c.Headed m)
    (same : SameOutside m m' touched) (apart : ∀ s ∈ touched, s.Apart c.header) :
    c.Headed m' := by
  apply headed.frame
  apply SameInside.ofOutside same
  intro t written s member
  rw [List.mem_singleton.mp member]
  exact apart t written

theorem writeHeader_headed (m : ByteMemory) (c : Chunk) :
    c.Headed (CentralHeap.writeHeader m c.base c.sizeClassBytes) := by
  intro word
  have separate : c.base + wordBytes ≤ c.base + 8 := Nat.le_refl _
  constructor
  · rw [CentralHeap.writeHeader, ByteMemory.readWord_writeWord_apart _ _ _ _ (Or.inr separate)]
    exact ByteMemory.readWord_writeWord m c.base _ word
  · exact ByteMemory.readWord_writeWord _ _ _ word

end Chunk

def Shared.Headed (m : ByteMemory) (g : Shared) : Prop := ∀ c ∈ g.carved, c.Headed m

namespace Shared.Headed

variable {P : Platform} {m m' : ByteMemory} {g g' : Shared}

theorem header_home (inv : SharedInv g) {c : Chunk} (member : c ∈ g.carved) :
    ∃ b ∈ g.heap.blocks, b.owner = .chunk ∧ c.header.Inside b.span := by
  obtain ⟨b, block, owner, inside⟩ := inv.homes c member
  have header : c.header.Inside c.span := Span.Inside.shorter (by decide) c.base
  exact ⟨b, block, owner, header.trans inside⟩

theorem fresh {chunk : Span} (headed : Headed m g) (inv : SharedInv g)
    (same : SameOutside m m' [chunk]) (apart : ∀ b ∈ g.heap.blocks, chunk.Apart b.span) :
    Headed m' g := by
  intro c member
  apply (headed c member).outside same
  intro s written
  obtain rfl := List.mem_singleton.mp written
  obtain ⟨b, block, _, inside⟩ := header_home inv member
  exact (apart b block).mono (Span.Inside.refl _) inside

theorem acquireChunk {user : Option Nat} {reply : SlabReply} {recorded : Bool} {bytes : Nat}
    {x : Except Exn Nat} (headed : Headed m g) (inv : SharedInv g)
    (done : g.acquireChunk P user reply recorded bytes m = (x, g', m')) : Headed m' g' := by
  obtain ⟨chunk, acquired⟩ := acquireChunk_acquired P user reply recorded bytes m inv
  rw [done] at acquired
  have old := headed.fresh inv acquired.frame acquired.fresh
  rcases Shared.acquireChunk_cases done with ⟨_, carved, _⟩ | ⟨base, _, carved, _, rfl⟩
  · intro c member
    rw [carved] at member
    exact old c member
  · intro c member
    rw [carved] at member
    rcases List.mem_append.mp member with earlier | new
    · exact old c earlier
    · obtain rfl := List.mem_singleton.mp new
      exact Chunk.writeHeader_headed m ⟨base, user, bytes⟩

end Shared.Headed

namespace SingleThreadAllocator

variable {σ : Type} {a a' : SingleThreadAllocator} {i : SizeClass} {n : Nat} {m m' : ByteMemory}

theorem poolAddExternalSlab_outside (a : SingleThreadAllocator) (i : SizeClass) (m : ByteMemory)
    (body : Nat) (recorded : Bool) :
    SameOutside m (a.poolAddExternalSlab i m body recorded).2.2
      [(chunkSlab i body).span i.bytes] := by
  have linked := linkBlocks_outside i.bytes i.wide (a.pools i).head (maxBlocks i) m body
  simp only [poolAddExternalSlab, BlockPool.addExternalSlab]
  split
  · cases recorded with
    | false => exact linked
    | true => exact linked
  · exact SameOutside.refl m _

/-- Besides what its chunk source writes, a refill writes to the part of the chunk that it
links. -/
theorem refill_outside {source : ChunkSource σ} {recorded : Bool} {e e' : σ}
    {x : Except Exn (Option Nat)}
    (done : a.refill source recorded n i e m = (x, a', e', m')) :
    e' = (source i.bytes e m).2.1 ∧ SameOutside (source i.bytes e m).2.2 m'
      ((answeredBody (source i.bytes e m).1).toList.map
        (fun body => (chunkSlab i body).span i.bytes)) := by
  rw [refill] at done
  split at done
  · rename_i answered
    cases done
    rw [answered]
    exact ⟨rfl, SameOutside.refl _ _⟩
  · rename_i answered
    cases done
    rw [answered]
    exact ⟨rfl, SameOutside.refl _ _⟩
  · rename_i body e₁ m₁ answered
    rw [answered]
    have linked := a.poolAddExternalSlab_outside i m₁ body recorded
    split at done
    · rename_i failed
      rw [failed] at linked
      cases done
      exact ⟨rfl, linked⟩
    · rename_i grown
      rw [grown] at linked
      split at done
      · cases done
        exact ⟨rfl, linked⟩
      · cases done
        exact ⟨rfl, linked⟩

end SingleThreadAllocator

namespace Shared.Headed

variable {P : Platform} {m m' : ByteMemory} {g g' : Shared}

theorem linked_apart (inv : SharedInv g) {c d : Chunk} (left : c ∈ g.carved)
    (right : d ∈ g.carved) (i : SizeClass) :
    ((chunkSlab i c.body).span i.bytes).Apart d.header := by
  by_cases same : c = d
  · rw [same]
    exact (Shared.chunkSlab_body d).2
  · have header : d.header.Inside d.span := Span.Inside.shorter (by decide) d.base
    exact (inv.chunks_apart left right same).mono (Shared.chunkSlab_body c).1 header

/-- A request writes no header but that of the chunk it obtains. -/
theorem allocate {t n : Nat} {pool pool' : ThreadPoolAlloc} {reply : SlabReply}
    {chunkRecorded slabRecorded : Bool} {x : Except Exn (Option Nat)} (headed : Headed m g)
    (inv : SharedInv g)
    (done : pool.allocate P (acquireChunkCb P t reply chunkRecorded) slabRecorded n g m =
      (x, pool', g', m')) : Headed m' g' := by
  simp only [ThreadPoolAlloc.allocate, SingleThreadAllocator.allocate] at done
  split at done
  · rename_i small
    generalize sizeClassOf n small = i at done
    split at done
    · cases done
      exact headed
    · generalize refilled : SingleThreadAllocator.refill (acquireChunkCb P t reply chunkRecorded)
        slabRecorded _ n i g m = served at done
      obtain ⟨x₁, a', g₁, m₁⟩ := served
      cases done
      obtain ⟨rfl, linked⟩ := SingleThreadAllocator.refill_outside refilled
      obtain ⟨chunk, acquired⟩ :=
        acquireChunk_acquired P (some t) reply chunkRecorded i.bytes m inv
      simp only [acquireChunkCb] at linked ⊢
      generalize asked : g.acquireChunk P (some t) reply chunkRecorded i.bytes m = answer at *
      obtain ⟨outcome, g₁, m₁⟩ := answer
      have after := headed.acquireChunk inv asked
      intro c member
      apply (after c member).outside linked
      intro s written
      cases outcome with
      | error e => cases written
      | ok body =>
          obtain ⟨d, rfl, _, _, _, _, added⟩ := acquired.success body rfl
          obtain rfl := List.mem_singleton.mp written
          refine linked_apart acquired.shared ?_ member i
          rw [added]
          exact List.mem_append_right _ (List.mem_singleton_self _)
  · cases done
    exact headed

end Shared.Headed

namespace Sys

variable {P : Platform} {s s' : Sys} {e : Event}

theorem Writable.header_apart {a : Nat} (inv : SysInv s) (writable : Writable s a) {c : Chunk}
    (member : c ∈ s.shared.carved) : (Span.mk a 1).Apart c.header := by
  have byte : ∀ {r : Span}, r.Holds a → (Span.mk a 1).Inside r := fun held => ⟨held.1, held.2⟩
  have out : ∀ {t : Nat} {r : Span}, r ∈ s.liveSpans t → r.Holds a →
      (Span.mk a 1).Apart c.header := by
    intro t r live held
    exact (inv.separated.headers t r live c member).mono (byte held) (Span.Inside.refl _)
  cases writable with
  | @block t pool client i x live held inside =>
      refine out (t := t) ?_ inside
      rw [liveSpans_live live]
      exact Client.mem_spans.mpr (Or.inl ⟨i, x, held, rfl⟩)
  | @arena t pool client b live held inside =>
      refine out (t := t) ?_ inside
      rw [liveSpans_live live]
      exact Client.mem_spans.mpr (Or.inr held)
  | @chunk d carved unused inside =>
      by_cases same : d = c
      · subst same
        refine Or.inr (Nat.le_trans ?_ inside.1)
        have short : CentralHeap.headerBytes ≤ CentralHeap.kHeaderOffset := by decide
        exact Nat.add_le_add_left short d.base
      · have header : c.header.Inside c.span := Span.Inside.shorter (by decide) c.base
        have body : (Span.mk d.body chunkBody).Inside d.span := by
          refine ⟨Nat.le_add_right _ _, ?_⟩
          change d.base + 64 + 65472 ≤ d.base + 65536
          omega
        exact (inv.shared.chunks_apart carved member same).mono ((byte inside).trans body) header
  | @outside b use block owner inside =>
      obtain ⟨home, block', tag, within⟩ := Shared.Headed.header_home inv.shared member
      refine (Heap.apart_of_owner block block' ?_).mono (byte inside) within
      intro same
      rw [owner, tag] at same
      cases same

/-- No step of any thread, nor of the program around them, changes a header. -/
theorem Step.headed (taken : Step P s e s') (inv : SysInv s.solid) (frees : s.FreesBlock e)
    (headed : Shared.Headed s.mem s.shared) : Shared.Headed s'.mem s'.shared := by
  cases taken with
  | @start t _ _ a m' h' unborn done =>
      have different : Function.Injective (Owner.slab t) := fun i j same => (Owner.slab.inj same).2
      have apart : ∀ i, Owner.slab t i ≠ .arena t := fun i same => by cases same
      obtain ⟨_, _, _, _, _, _, _, kept⟩ := SingleThreadAllocator.new_ok different apart done
      intro c member
      apply (headed c member).frame
      obtain ⟨b, block, _, inside⟩ := Shared.Headed.header_home inv.shared member
      intro r listed x held
      obtain rfl := List.mem_singleton.mp listed
      exact kept b.span (mem_spansOf block) x (inside.holds held)
  | startFails unborn done => exact headed
  | exit live => exact headed
  | allocate live word done => exact headed.allocate inv.shared done
  | allocateAligned live word power done => exact headed
  | @free t x p n i form pool pool' client m' live out names done =>
      obtain ⟨free, thread⟩ := inv.live t pool client.solid (solid_live live)
      obtain ⟨_, _, frame⟩ := thread.free_block out names done
      intro c member
      apply (headed c member).outside frame
      intro r written
      obtain rfl := List.mem_singleton.mp written
      apply inv.separated.headers t _ _ c member
      rw [liveSpans_live (solid_live live)]
      exact Client.mem_spans.mpr (Or.inl ⟨i, x, out, rfl⟩)
  | @freeArena t p n b form pool pool' client m' live out names done =>
      obtain ⟨d, member, nonempty, same⟩ := frees pool client live b out names
      have solid : d ∈ client.solid.bumped := Client.mem_solid.mpr ⟨member, nonempty⟩
      obtain ⟨free, thread⟩ := inv.live t pool client.solid (solid_live live)
      obtain ⟨_, rfl⟩ := thread.free_ignored solid same done
      exact headed
  | acquireChunk done => exact headed.acquireChunk inv.shared done
  | @write a b writable =>
      intro c member
      apply (headed c member).outside (SameOutside.writeByte s.mem a b)
      intro r written
      obtain rfl := List.mem_singleton.mp written
      exact writable.solid.header_apart inv member
  | malloc done => exact headed
  | mfree member owner => exact headed

/-- If the step links a chunk, the vector of external slabs grows. -/
def Records (P : Platform) (s : Sys) (e : Event) (s' : Sys) : Prop :=
  ∀ t n x, e = .allocate t n x → ∃ reply chunkRecorded,
    s.Serves P s' t n x reply chunkRecorded true

/-- Each block carved from a chunk is masked to the chunk's header, whose two words are the
block's size, and so is what the pool's thread classifies it as while it lives. -/
def Masked (s : Sys) : Prop :=
  ∀ c ∈ s.shared.carved, ∀ t i, c.user = some t → c.sizeClassBytes = i.bytes →
    ∀ x ∈ (chunkSlab i c.body).blocks i.bytes, ∀ p, (Span.mk x i.bytes).Holds p →
      CentralHeap.headerFor p = c.base ∧
      readWord s.mem (CentralHeap.headerFor p) = i.bytes ∧
      readWord s.mem (CentralHeap.headerFor p + 8) = i.bytes ∧
      ∀ pool client, s.threads t = .live pool client → pool.classify p = i.bytes

end Sys

def Tabled (a : SingleThreadAllocator) (L : Ledger) : Prop :=
  ∀ i, (a.pools i).slabs blocksPerSlab = L.linked i

theorem Tabled.new {a : SingleThreadAllocator} (external : ∀ i, (a.pools i).externalSlabs = []) :
    Tabled a a.newLedger := by
  intro i
  simp [BlockPool.slabs, external i, SingleThreadAllocator.newLedger]

theorem Tabled.afterFree {a : SingleThreadAllocator} {L : Ledger} (tabled : Tabled a L)
    (n x : Nat) (i : SizeClass) : Tabled (a.afterFree n i x) L := by
  intro j
  rw [← tabled j]
  by_cases same : j = i
  · subst same
    simp [SingleThreadAllocator.afterFree, SingleThreadAllocator.setPool, BlockPool.slabs]
  · simp [SingleThreadAllocator.afterFree, SingleThreadAllocator.setPool, same]

theorem Tabled.move {P : Platform} {a a' : SingleThreadAllocator} {L L' : Ledger} {e : Sys.Event}
    (tabled : Tabled a L) (move : LedgerMove P true a L a' L' e) : Tabled a' L' := by
  cases move with
  | granted granted => exact granted.recorded tabled (Or.inl rfl)
  | released out names released =>
      have linked := released.linked
      intro j
      rw [linked]
      cases released with
      | pool small cls => exact tabled.afterFree _ _ _ j
      | ignored large => exact tabled j
  | aligned pools free held linked =>
      intro j
      rw [pools, linked]
      exact tabled j
  | dropped same free held linked =>
      intro j
      rw [same, linked]
      exact tabled j

/-- An address of a linked slab is given the slab's class. -/
theorem ThreadInv.classify_linked {m : ByteMemory} {g : Shared} {t p : Nat}
    {a : SingleThreadAllocator} {client : Client} {free : SizeClass → List Nat} {i : SizeClass}
    {s : Slab} (inv : ThreadInv m g t a client free)
    (tabled : Tabled a (client.ledger free (g.linkedBy t a))) (member : s ∈ g.linkedBy t a i)
    (held : (s.span i.bytes).Holds p) : a.classify p = i.bytes := by
  have positive : 0 < s.base := ((inv.alloc.pools i).region s member).1
  apply SingleThreadAllocator.classify_pool (Nat.ne_of_gt (Nat.lt_of_lt_of_le positive held.1))
  intro j
  rw [SingleThreadAllocator.contains_iff, tabled j]
  constructor
  · rintro ⟨r, listed, other⟩
    apply Classical.byContradiction
    intro different
    exact (inv.alloc.apart j i different r listed s member).not_holds other held
  · rintro rfl
    exact ⟨s, member, held⟩

namespace Sys

variable {P : Platform} {s : Sys}

theorem masked_of_headed (inv : SysInv s.solid) (headed : Shared.Headed s.mem s.shared)
    (tabled : s.solid.Keeps Tabled) : s.Masked := by
  intro c member t i user bytes x block p held
  have inside : ((chunkSlab i c.body).span i.bytes).Holds p := (Slab.block_inside block).holds held
  have chunk : c.span.Holds p := (Shared.chunkSlab_body c).1.holds inside
  obtain ⟨b, listed, _, within⟩ := inv.shared.homes c member
  have word : p < Words.radix := by
    have low : p < b.span.stop := (within.holds chunk).2
    have high : b.span.stop ≤ 9223372036854775808 := (s.shared.heap.bounded b listed).2.2
    simp only [Words.radix]
    omega
  have base := CentralHeap.headerFor_eq (inv.shared.aligned c member) chunk.1 chunk.2 word
  have size : c.sizeClassBytes < Words.radix := by
    have small := i.bytes_le
    rw [bytes]
    simp only [maxSmall, Words.radix] at small ⊢
    omega
  obtain ⟨first, second⟩ := headed c member size
  rw [base]
  refine ⟨rfl, first.trans bytes, second.trans bytes, ?_⟩
  intro pool client live
  obtain ⟨free, thread⟩ := inv.live t pool client.solid (solid_live live)
  have linked : chunkSlab i c.body ∈ s.shared.linkedBy t pool.alloc i :=
    Shared.mem_linkedBy.mpr (Or.inr ⟨c, member, user, bytes, rfl⟩)
  exact thread.classify_linked (tabled t _ _ free (solid_live live) thread) linked inside

variable {m : ByteMemory} {h : Heap Owner}

/-- In every interleaving of proper steps in which every linked chunk is recorded, masking
agrees with classification in every state. -/
theorem masking_agrees (power : Words.PowerOfTwo P.maxAlign)
    {trace : List (Transition Sys Event)} (run : Run (Step P) (initial m h) trace s)
    (meets : ∀ x ∈ trace, x.before.Proper P x.event ∧ x.before.Records P x.event x.after) :
    s.Masked ∧ ∀ x ∈ trace, x.before.Masked := by
  let inv : Sys → Prop := fun s =>
    SysInv s.solid ∧ Shared.Headed s.mem s.shared ∧ s.solid.Keeps Tabled
  have first : inv (initial m h) := by
    refine ⟨(SysInv.initial m h).congr rfl rfl rfl, ?_, Keeps.initial m h⟩
    intro c member
    cases member
  have keep : ∀ s e s', inv s → True →
      Step P s e s' ∧ s.Proper P e ∧ s.Records P e s' → inv s' := by
    rintro s e s' ⟨sys, headed, tabled⟩ _ ⟨taken, proper, records⟩
    refine ⟨sys.next_solid power proper.1 proper.2 taken, taken.headed sys proper.2 headed, ?_⟩
    exact tabled.step taken power sys proper records (fun _ external => .new external)
      (fun _ _ _ _ _ _ _ _ _ tabled move => tabled.move move)
  have masked : ∀ s, inv s → s.Masked :=
    fun s holds => masked_of_headed holds.1 holds.2.1 holds.2.2
  have runs : Run (fun s e s' => Step P s e s' ∧ s.Proper P e ∧ s.Records P e s')
      (initial m h) trace s := run.restrict meets
  exact ⟨masked s (runs.invariantWhere first keep (fun _ _ => trivial)),
    fun x member => masked _ (runs.invariantBefore first keep (fun _ _ => trivial) x member)⟩

/-- A refilled pool. -/
theorem masking_agrees_refilled : ∃ (trace : List (Transition Sys Event)) (s : Sys),
    Run (Step desktop) (initial (fun _ => 0) Heap.empty) trace s ∧
      s.shared.carved = [⟨134217728, some 0, 16⟩] ∧ s.Masked := by
  obtain ⟨trace, s, run, steps, carved⟩ := refilled_run
  refine ⟨trace, s, run, carved, (masking_agrees ⟨4, by decide, rfl⟩ run ?_).1⟩
  intro x member
  obtain ⟨supplied, proper, _⟩ := steps x member
  exact ⟨proper, supplied.serves⟩

/-- A block that wraps around the address space covers the header of another thread's chunk;
its client changes the header's first byte. -/
theorem masking_not_always_agrees : ∃ (trace : List (Transition Sys Event)) (s : Sys),
    Run (Step desktop) (initial (fun _ => 0) Heap.empty) trace s ∧
      (∀ x ∈ trace, x.before.Supplied desktop x.event x.after) ∧ ¬ s.Masked := by
  obtain ⟨trace, s, pool₀, pool₁, client₀, client₁, run, _, steps, live₀, _, bumped, carved⟩ :=
    wiped_refill
  have inside : (Span.mk 16779216 18446744073709550616).Holds 134217728 := by
    constructor
    · decide
    · decide
  have last : Step desktop s (.write 134217728 0) _ := .write (.arena live₀ bumped inside)
  refine ⟨_, _, run.snoc last, ?_, ?_⟩
  · intro x member
    rcases List.mem_append.mp member with old | new
    · exact (steps x old).1
    · obtain rfl := List.mem_singleton.mp new
      exact supplied_other (by simp)
  · intro masked
    have chunk : (⟨134217728, some 1, 16⟩ : Chunk) ∈ s.shared.carved := by
      rw [carved]
      exact List.mem_cons_self
    have block : 134217792 ∈ (chunkSlab 0 134217792).blocks (SizeClass.bytes 0) :=
      Slab.mem_blocks.mpr ⟨0, by decide, rfl⟩
    obtain ⟨base, header, _⟩ := masked _ chunk 1 0 rfl rfl 134217792 block 134217792
      ⟨Nat.le_refl _, by decide⟩
    have cleared := ByteMemory.readWord_mod (ByteMemory.writeByte s.mem 134217728 0) 134217728
    rw [base] at header
    rw [header, ByteMemory.writeByte, Function.update_self] at cleared
    revert cleared
    decide

end Sys

end MemAlloc
