import MemAlloc.Footprint
import MemAlloc.Lib.ObjectStore

set_option autoImplicit false

namespace MemAlloc

open Malloc (Heap Block)
open ByteMemory (SameInside SameOutside)
open Runs (Run Transition)
open SingleThreadAllocator (chunkBody FreeForm)

/-- On whose behalf a region is out. -/
inductive Holder where
  | thread (t : Nat)
  | chunk
  | outside (use : Use)
deriving DecidableEq, Repr

theorem Chunk.body_inside (c : Chunk) : (Span.mk c.body chunkBody).Inside c.span := by
  refine ⟨Nat.le_add_right _ _, ?_⟩
  change c.base + 64 + 65472 ≤ c.base + 65536
  omega

theorem flatMap_perm {α β : Type} {f g : α → List β} {l : List α} {i : α} {x : β}
    (distinct : l.Nodup) (member : i ∈ l) (own : (f i).Perm (x :: g i))
    (others : ∀ j, j ≠ i → f j = g j) : (l.flatMap f).Perm (x :: l.flatMap g) := by
  induction l with
  | nil => cases member
  | cons j rest ih =>
      obtain ⟨absent, tail⟩ := List.nodup_cons.mp distinct
      rw [List.flatMap_cons, List.flatMap_cons]
      by_cases same : j = i
      · subst same
        have away : rest.flatMap f = rest.flatMap g := by
          refine List.flatMap_congr (fun k later => others k ?_)
          rintro rfl
          exact absent later
        rw [away]
        exact own.append_right _
      · have later := (List.mem_cons.mp member).resolve_left (Ne.symm same)
        rw [others j same]
        exact ((ih tail later).append_left (g j)).trans List.perm_middle

namespace Client

theorem gainBlock_spans (c : Client) (i : SizeClass) (p : Nat) :
    (c.gainBlock i p).spans.Perm (⟨p, i.bytes⟩ :: c.spans) := by
  refine (flatMap_perm (List.nodup_finRange 7) (List.mem_finRange i) ?_ ?_).append_right c.bumped
  · rw [gainBlock_same, List.map_cons]
  · intro j different
    rw [gainBlock_other c p different]

theorem gainSpan_spans (c : Client) (r : Span) : (c.gainSpan r).spans.Perm (r :: c.spans) :=
  List.perm_middle

theorem gain_spans (c : Client) (n p : Nat) :
    (c.gain n (.ok (some p))).spans.Perm
      (⟨p, if n ≤ maxSmall then blockFor n else n⟩ :: c.spans) := by
  by_cases small : n ≤ maxSmall
  · simp only [gain, small, ↓reduceDIte, ↓reduceIte, blockFor_eq small]
    exact c.gainBlock_spans _ p
  · simp only [gain, small, ↓reduceDIte, ↓reduceIte]
    exact c.gainSpan_spans _

theorem release_spans {c : Client} {i : SizeClass} {x : Nat} (out : x ∈ c.held i) :
    c.spans.Perm (⟨x, i.bytes⟩ :: (c.release i x).spans) := by
  refine (flatMap_perm (List.nodup_finRange 7) (List.mem_finRange i) ?_ ?_).append_right c.bumped
  · rw [release_same]
    exact (List.perm_cons_erase out).map _
  · intro j different
    rw [release_other c x different]

theorem drop_spans {c : Client} {b : Span} (out : b ∈ c.bumped) :
    c.spans.Perm (b :: ({ c with bumped := c.bumped.erase b } : Client).spans) :=
  ((List.perm_cons_erase out).append_left _).trans List.perm_middle

end Client

namespace Sys

/-- The region is out: a block of a live thread, the body of a chunk that was asked for
directly, or a block of the C heap with some other use. -/
def Out (s : Sys) : Holder → Span → Prop
  | .thread t, r => r ∈ s.liveSpans t
  | .chunk, r => ∃ c ∈ s.shared.carved, c.user = none ∧ r = ⟨c.body, chunkBody⟩
  | .outside use, r => ∃ b ∈ s.shared.heap.blocks, b.owner = .outside use ∧ r = b.span

variable {P : Platform} {s s' : Sys} {k l : Holder} {q r : Span} {t : Nat}

section Disjoint

/-- Blocks of threads and chunks lie in memory that the program did not ask `malloc` for. -/
theorem managed_home (inv : SysInv s) (out : s.Out k r) (managed : ∀ use, k ≠ .outside use) :
    ∃ b ∈ s.shared.heap.blocks, r.Inside b.span ∧ ∀ use, b.owner ≠ .outside use := by
  cases k with
  | thread t =>
      obtain ⟨pool, client, live, listed⟩ := mem_liveSpans out
      obtain ⟨free, thread⟩ := inv.live t pool client live
      obtain ⟨region, own, inside⟩ := thread.spans_region listed
      obtain ⟨b, member, within, others⟩ := (thread.home own).block inv.shared
      exact ⟨b, member, inside.trans within, others⟩
  | chunk =>
      obtain ⟨c, member, unused, rfl⟩ := out
      obtain ⟨b, block, owner, within⟩ := inv.shared.homes c member
      refine ⟨b, block, (Chunk.body_inside c).trans within, fun use same => ?_⟩
      rw [owner] at same
      cases same
  | outside use => exact absurd rfl (managed use)

theorem out_home (inv : SysInv s) (out : s.Out k r) :
    ∃ b ∈ s.shared.heap.blocks, r.Inside b.span := by
  cases k with
  | outside use =>
      obtain ⟨b, member, owner, rfl⟩ := out
      exact ⟨b, member, Span.Inside.refl _⟩
  | thread t =>
      obtain ⟨b, member, inside, _⟩ := managed_home inv out (by simp)
      exact ⟨b, member, inside⟩
  | chunk =>
      obtain ⟨b, member, inside, _⟩ := managed_home inv out (by simp)
      exact ⟨b, member, inside⟩

theorem out_nonempty (inv : SysInv s) (out : s.Out k r) : 0 < r.size := by
  cases k with
  | thread t =>
      obtain ⟨pool, client, live, listed⟩ := mem_liveSpans out
      obtain ⟨free, thread⟩ := inv.live t pool client live
      rcases Client.mem_spans.mp listed with ⟨i, x, held, rfl⟩ | bumped
      · exact i.bytes_positive
      · exact thread.nonempty r bumped
  | chunk =>
      obtain ⟨c, member, unused, rfl⟩ := out
      change 0 < chunkBody
      decide
  | outside use =>
      obtain ⟨b, member, owner, rfl⟩ := out
      exact (s.shared.heap.bounded b member).2.1

theorem thread_chunk_apart (inv : SysInv s) (left : s.Out (.thread t) q) (right : s.Out .chunk r) :
    q.Apart r := by
  obtain ⟨pool, client, live, listed⟩ := mem_liveSpans left
  obtain ⟨free, thread⟩ := inv.live t pool client live
  obtain ⟨region, own, inside⟩ := thread.spans_region listed
  obtain ⟨c, member, unused, rfl⟩ := right
  cases thread.home own with
  | own block owner within =>
      obtain ⟨home, block', tag, outer⟩ := inv.shared.homes c member
      refine (Heap.apart_of_owner block block' ?_).mono (inside.trans within)
        ((Chunk.body_inside c).trans outer)
      intro same
      rw [same, tag] at owner
      cases owner
  | chunk carved user within =>
      refine (inv.shared.chunks_apart carved member ?_).mono (inside.trans within)
        (Chunk.body_inside c)
      rintro rfl
      rw [unused] at user
      cases user

theorem managed_apart (inv : SysInv s) (left : s.Out k q) (managed : ∀ use, k ≠ .outside use)
    {use : Use} (right : s.Out (.outside use) r) : q.Apart r := by
  obtain ⟨b, member, inside, others⟩ := managed_home inv left managed
  obtain ⟨c, block, owner, rfl⟩ := right
  refine (Heap.apart_of_owner member block ?_).mono inside (Span.Inside.refl _)
  rw [owner]
  exact others use

theorem out_disjoint (inv : SysInv s) : Regions.Disjoint s.Out := by
  have separated := inv.separated
  intro k q l r left right
  cases k with
  | thread t =>
      cases l with
      | thread u =>
          by_cases same : t = u
          · subst same
            by_cases equal : q = r
            · exact Or.inl ⟨rfl, equal⟩
            · exact Or.inr (Span.Apart.of_pairwise (separated.within t) left right equal)
          · exact Or.inr (separated.across t u same q left r right)
      | chunk => exact Or.inr (thread_chunk_apart inv left right)
      | outside use => exact Or.inr (managed_apart inv left (by simp) right)
  | chunk =>
      cases l with
      | thread u => exact Or.inr (thread_chunk_apart inv right left).symm
      | chunk =>
          obtain ⟨c, member, _, rfl⟩ := left
          obtain ⟨d, member', _, rfl⟩ := right
          by_cases same : c = d
          · exact Or.inl ⟨rfl, by rw [same]⟩
          · exact Or.inr ((inv.shared.chunks_apart member member' same).mono
              (Chunk.body_inside c) (Chunk.body_inside d))
      | outside use => exact Or.inr (managed_apart inv left (by simp) right)
  | outside use =>
      cases l with
      | thread u => exact Or.inr (managed_apart inv right (by simp) left).symm
      | chunk => exact Or.inr (managed_apart inv right (by simp) left).symm
      | outside use' =>
          obtain ⟨b, member, owner, rfl⟩ := left
          obtain ⟨c, member', owner', rfl⟩ := right
          by_cases same : b = c
          · subst same
            rw [owner] at owner'
            exact Or.inl ⟨by rw [Owner.outside.inj owner'], rfl⟩
          · exact Or.inr (Heap.apart_of_ne member member' same)

end Disjoint

section Steps

theorem liveSpans_congr (same : s'.threads t = s.threads t) : s'.liveSpans t = s.liveSpans t := by
  rw [liveSpans, liveSpans, same]

/-- Only thread `t` has changed what is out, and only its own. -/
theorem out_others (threads : ∀ u, u ≠ t → s'.threads u = s.threads u)
    (chunks : ∀ c, c.user = none → (c ∈ s'.shared.carved ↔ c ∈ s.shared.carved))
    (outside : ∀ b use, b.owner = .outside use →
      (b ∈ s'.shared.heap.blocks ↔ b ∈ s.shared.heap.blocks))
    (other : k ≠ .thread t) : s'.Out k r ↔ s.Out k r := by
  cases k with
  | thread u =>
      have different : u ≠ t := fun same => other (by rw [same])
      rw [Out, Out, liveSpans_congr (threads u different)]
  | chunk =>
      constructor
      · rintro ⟨c, member, unused, same⟩
        exact ⟨c, (chunks c unused).mp member, unused, same⟩
      · rintro ⟨c, member, unused, same⟩
        exact ⟨c, (chunks c unused).mpr member, unused, same⟩
  | outside use =>
      constructor
      · rintro ⟨b, member, owner, same⟩
        exact ⟨b, (outside b use owner).mp member, owner, same⟩
      · rintro ⟨b, member, owner, same⟩
        exact ⟨b, (outside b use owner).mpr member, owner, same⟩

theorem outside_iff (same : s'.shared.heap.share Owner.isOutside =
    s.shared.heap.share Owner.isOutside) (b : Block Owner) (use : Use)
    (owner : b.owner = .outside use) :
    b ∈ s'.shared.heap.blocks ↔ b ∈ s.shared.heap.blocks := by
  have mine : b.owner.isOutside = true := by rw [owner]; rfl
  constructor
  · intro member
    exact (Heap.mem_share.mp (same ▸ Heap.mem_share.mpr ⟨member, mine⟩)).1
  · intro member
    exact (Heap.mem_share.mp (same.symm ▸ Heap.mem_share.mpr ⟨member, mine⟩)).1

theorem same_of_fresh {chunk : Span} {m' : ByteMemory} (inv : SysInv s)
    (fresh : ∀ b ∈ s.shared.heap.blocks, chunk.Apart b.span) (frame : SameOutside s.mem m' [chunk])
    (out : s.Out k r) : SameInside s.mem m' [r] := by
  obtain ⟨b, member, inside⟩ := out_home inv out
  refine SameInside.ofOutside frame ?_
  intro c written q listed
  obtain rfl := List.mem_singleton.mp written
  obtain rfl := List.mem_singleton.mp listed
  exact (fresh b member).mono (Span.Inside.refl _) inside

/-- One region more is out, which was not out before. -/
theorem moves_gain (inv' : SysInv s') (absent : ¬ s.Out k r)
    (kept : ∀ l q, s'.Out l q ↔ s.Out l q ∨ (l = k ∧ q = r))
    (same : ∀ l q, s.Out l q → SameInside s.mem s'.mem [q]) :
    Regions.Moves s.Out s'.Out s.mem s'.mem (.gain k r) := by
  refine .gain kept ?_ same
  intro l q old
  have new : s'.Out k r := (kept k r).mpr (Or.inr ⟨rfl, rfl⟩)
  rcases out_disjoint inv' k r l q new ((kept l q).mpr (Or.inl old)) with ⟨rfl, rfl⟩ | apart
  · exact absurd old absent
  · exact apart

/-- A thread's client holds one region more. -/
theorem moves_client {pool pool' : ThreadPoolAlloc} {client client' : Client} (inv' : SysInv s')
    (live : s.threads t = .live pool client)
    (threads : s'.threads = Function.update s.threads t (.live pool' client'))
    (spans : client'.spans.Perm (r :: client.spans))
    (others : ∀ k, k ≠ .thread t → ∀ q, s'.Out k q ↔ s.Out k q)
    (same : ∀ l q, s.Out l q → SameInside s.mem s'.mem [q]) :
    Regions.Moves s.Out s'.Out s.mem s'.mem (.gain (.thread t) r) := by
  have live' : s'.threads t = .live pool' client' := by rw [threads, Function.update_self]
  have own : ∀ q, s'.Out (.thread t) q ↔ s.Out (.thread t) q ∨ q = r := by
    intro q
    rw [Out, Out, liveSpans_live live, liveSpans_live live', spans.mem_iff, List.mem_cons, or_comm]
  refine moves_gain inv' ?_ ?_ same
  · intro old
    rw [Out, liveSpans_live live] at old
    obtain ⟨free, thread⟩ := inv'.live t pool' client' live'
    have distinct := spans.pairwise thread.spans_apart Span.Apart.symm
    have apart := (List.pairwise_cons.mp distinct).1 r old
    have positive := out_nonempty inv' ((own r).mpr (Or.inr rfl))
    exact absurd rfl (apart.base_ne positive positive)
  · intro l q
    by_cases mine : l = .thread t
    · subst mine
      simp [own]
    · simp [others l mine q, mine]

/-- A thread's client holds one region less. -/
theorem moves_release {pool pool' : ThreadPoolAlloc} {client client' : Client} (inv : SysInv s)
    (live : s.threads t = .live pool client)
    (threads : s'.threads = Function.update s.threads t (.live pool' client'))
    (shared : s'.shared = s.shared) (spans : client.spans.Perm (r :: client'.spans))
    (frame : SameOutside s.mem s'.mem [r]) :
    Regions.Moves s.Out s'.Out s.mem s'.mem (.lose (.thread t) r) := by
  have live' : s'.threads t = .live pool' client' := by rw [threads, Function.update_self]
  have held : s.Out (.thread t) r := by
    rw [Out, liveSpans_live live, spans.mem_iff]
    exact List.mem_cons_self
  have others : ∀ k, k ≠ .thread t → ∀ q, s'.Out k q ↔ s.Out k q := fun k other q =>
    out_others (fun u different => by rw [threads, Function.update_of_ne different])
      (fun c _ => by rw [shared]) (fun b _ _ => by rw [shared]) other
  obtain ⟨free, thread⟩ := inv.live t pool client live
  have apart := (List.pairwise_cons.mp (spans.pairwise thread.spans_apart Span.Apart.symm)).1
  have positive := out_nonempty inv held
  refine .lose held ?_ ?_
  · intro l q
    by_cases mine : l = .thread t
    · subst mine
      rw [Out, Out, liveSpans_live live, liveSpans_live live', spans.mem_iff, List.mem_cons]
      constructor
      · intro still
        refine ⟨Or.inr still, fun equal => ?_⟩
        rw [equal.2] at still
        exact absurd rfl ((apart r still).base_ne positive positive)
      · rintro ⟨rfl | still, other⟩
        · exact absurd ⟨rfl, rfl⟩ other
        · exact still
    · simp [others l mine q, mine]
  · intro l q _ away
    refine SameInside.ofOutside frame ?_
    intro b written c listed
    obtain rfl := List.mem_singleton.mp written
    obtain rfl := List.mem_singleton.mp listed
    exact away

theorem absent_of_fresh {chunk : Span} (inv : SysInv s)
    (fresh : ∀ b ∈ s.shared.heap.blocks, chunk.Apart b.span) (inside : r.Inside chunk)
    (nonempty : 0 < r.size) : ¬ s.Out k r := by
  intro out
  obtain ⟨b, member, within⟩ := out_home inv out
  have first := Span.Holds.base nonempty
  exact (fresh b member).not_holds (inside.holds first) (within.holds first)

/-- Nothing has changed but the bytes of fresh memory. -/
theorem moves_stay (own : s'.liveSpans t = s.liveSpans t)
    (others : ∀ k, k ≠ .thread t → ∀ q, s'.Out k q ↔ s.Out k q)
    (same : ∀ l q, s.Out l q → SameInside s.mem s'.mem [q]) :
    Regions.Moves s.Out s'.Out s.mem s'.mem .stay := by
  refine .stay ?_ same
  intro k q
  by_cases mine : k = .thread t
  · rw [mine, Out, Out, own]
  · exact others k mine q

/-- Construction takes new blocks of the heap, and the new thread holds nothing yet. -/
theorem moves_start {reply : SizeClass → SlabReply} {arenaReply : Option Nat}
    {a : SingleThreadAllocator} {m' : ByteMemory} {h' : Heap Owner} (inv : SysInv s)
    (unborn : s.threads t = .unborn)
    (done : SingleThreadAllocator.new P (.slab t) (.arena t) reply arenaReply s.shared.heap
      s.mem = (.ok (a, m'), h')) {pool : ThreadPoolAlloc}
    (threads : s'.threads = Function.update s.threads t (.live pool Client.none))
    (shared : s'.shared = { s.shared with heap := h' }) (memory : s'.mem = m') :
    Regions.Moves s.Out s'.Out s.mem s'.mem .stay := by
  obtain ⟨_, _, _, kept⟩ := ThreadInv.new (inv.unborn t unborn) done
  have outside : s'.shared.heap.share Owner.isOutside =
      s.shared.heap.share Owner.isOutside := by
    rw [shared]
    refine Footprint.start_others done (fun o owned => ?_)
    cases o with
    | outside use => cases owned
    | _ => rfl
  refine moves_stay (t := t) ?_ ?_ ?_
  · have live' : s'.threads t = .live pool Client.none := by rw [threads, Function.update_self]
    rw [liveSpans_live live', liveSpans, unborn]
    rfl
  · intro k other q
    exact out_others (fun u different => by rw [threads, Function.update_of_ne different])
      (fun c _ => by rw [shared]) (outside_iff outside) other
  · intro l q out
    obtain ⟨b, member, inside⟩ := out_home inv out
    intro r listed x held
    obtain rfl := List.mem_singleton.mp listed
    rw [memory]
    exact kept b.span (mem_spansOf member) x (inside.holds held)

/-- With a thread goes what it holds, and nothing else. -/
theorem moves_exit {pool : ThreadPoolAlloc} {client : Client} (inv : SysInv s)
    (live : s.threads t = .live pool client)
    (threads : s'.threads = Function.update s.threads t .exited)
    (shared : s'.shared = { s.shared with heap := pool.alloc.destroy s.shared.heap })
    (memory : s'.mem = s.mem) :
    Regions.Moves s.Out s'.Out s.mem s'.mem (.expire (.thread t)) := by
  obtain ⟨free, thread⟩ := inv.live t pool client live
  have others : ∀ k, k ≠ .thread t → ∀ q, s'.Out k q ↔ s.Out k q := by
    intro k other q
    refine out_others (fun u different => by rw [threads, Function.update_of_ne different])
      (fun c _ => by rw [shared]) ?_ other
    intro b use owner
    rw [shared]
    constructor
    · intro member
      exact (SingleThreadAllocator.mem_destroy.mp member).1
    · intro member
      refine Owner.survives thread.homes member ?_
      rw [owner]
      simp [Owner.thread]
  refine .expire ?_ (fun l q _ _ => ?_)
  · intro l q
    by_cases mine : l = .thread t
    · subst mine
      have gone : s'.threads t = .exited := by rw [threads, Function.update_self]
      simp [Out, liveSpans, gone]
    · simp [others l mine q, mine]
  · rw [memory]
    exact SameInside.refl _ _

/-- Requests on behalf of a thread do not change what the others have out. -/
theorem allocate_others {throws : Prop} {n : Nat} {body : Option Nat} {thread : Thread}
    (threads : s'.threads = Function.update s.threads t thread)
    (draws : s.shared.Draws s'.shared throws) (obtained : s.shared.Obtained s'.shared t n body)
    (other : k ≠ .thread t) : s'.Out k q ↔ s.Out k q := by
  refine out_others (fun u different => by rw [threads, Function.update_of_ne different]) ?_
    (outside_iff (draws.others rfl)) other
  intro c unused
  rcases obtained.carved with same | ⟨d, added, user⟩
  · rw [same]
  · rw [added, List.mem_append, List.mem_singleton]
    constructor
    · rintro (old | rfl)
      · exact old
      · rw [unused] at user
        cases user
    · exact Or.inl

/-- A chunk that was asked for directly comes out of fresh memory. -/
theorem moves_acquire {bytes body : Nat} {reply : SlabReply} {recorded : Bool} {g' : Shared}
    {m' : ByteMemory} (inv : SysInv s) (inv' : SysInv s')
    (done : s.shared.acquireChunk P none reply recorded bytes s.mem = (.ok body, g', m'))
    (threads : s'.threads = s.threads) (shared : s'.shared = g') (memory : s'.mem = m') :
    Regions.Moves s.Out s'.Out s.mem s'.mem (.gain .chunk ⟨body, chunkBody⟩) := by
  obtain ⟨chunk, acquired⟩ := acquireChunk_acquired P none reply recorded bytes s.mem inv.shared
  have draws := Shared.acquireChunk_draws done
  rw [done] at acquired
  obtain ⟨c, rfl, _, unused, _, inside, added⟩ := acquired.success body rfl
  have positive : 0 < (Span.mk c.body chunkBody).size := by
    change 0 < chunkBody
    decide
  have kept : ∀ b use, b.owner = .outside use →
      (b ∈ s'.shared.heap.blocks ↔ b ∈ s.shared.heap.blocks) := by
    subst shared
    exact outside_iff (draws.others rfl)
  have carved : s'.shared.carved = s.shared.carved ++ [c] := by
    rw [shared]
    exact added
  refine moves_gain inv' (absent_of_fresh inv acquired.fresh inside positive) ?_ ?_
  · intro l q
    cases l with
    | thread u => simp [Out, liveSpans_congr (congrFun threads u)]
    | chunk =>
        simp only [Out, carved, List.mem_append, List.mem_singleton, true_and]
        constructor
        · rintro ⟨d, old | rfl, unused', rfl⟩
          · exact Or.inl ⟨d, old, unused', rfl⟩
          · exact Or.inr rfl
        · rintro (⟨d, old, unused', rfl⟩ | rfl)
          · exact ⟨d, Or.inl old, unused', rfl⟩
          · exact ⟨c, Or.inr rfl, unused, rfl⟩
    | outside use =>
        have same : s'.Out (.outside use) q ↔ s.Out (.outside use) q := by
          constructor
          · rintro ⟨b, member, owner, rfl⟩
            exact ⟨b, (kept b use owner).mp member, owner, rfl⟩
          · rintro ⟨b, member, owner, rfl⟩
            exact ⟨b, (kept b use owner).mpr member, owner, rfl⟩
        simp [same]
  · intro l q out
    rw [memory]
    exact same_of_fresh inv acquired.fresh acquired.frame out

/-- A request for a chunk that throws hands out nothing. -/
theorem moves_noChunk {bytes : Nat} {reply : SlabReply} {recorded : Bool} {y : Exn} {g' : Shared}
    {m' : ByteMemory} (inv : SysInv s)
    (done : s.shared.acquireChunk P none reply recorded bytes s.mem = (.error y, g', m')) :
    Regions.Moves s.Out ({ s with mem := m', shared := g' } : Sys).Out s.mem m' .stay := by
  obtain ⟨chunk, acquired⟩ := acquireChunk_acquired P none reply recorded bytes s.mem inv.shared
  have draws := Shared.acquireChunk_draws done
  rw [done] at acquired
  have carved : g'.carved = s.shared.carved := acquired.failure y rfl
  refine .stay ?_ (fun l q out => same_of_fresh inv acquired.fresh acquired.frame out)
  intro k q
  cases k with
  | thread u => exact Iff.rfl
  | chunk => simp only [Out, carved]
  | outside use =>
      exact out_others (t := 0) (fun _ _ => rfl) (fun c _ => by rw [carved])
        (outside_iff (draws.others rfl)) (by simp)

/-- A block of the C heap with some other use is one region more. -/
theorem moves_malloc {use : Use} {size p : Nat} {reply : Option Nat} {h' : Heap Owner}
    (inv : SysInv s) (inv' : SysInv (s.setHeap h'))
    (done : s.shared.heap.malloc (.outside use) P.mallocAlign size reply = (some p, h')) :
    Regions.Moves s.Out (s.setHeap h').Out s.mem s.mem
      (.gain (.outside use) (Heap.request p size)) := by
  obtain ⟨fresh, added⟩ := Heap.of_malloc_some done
  have nonempty : 0 < (Heap.request p size).size :=
    Nat.lt_of_lt_of_le Nat.zero_lt_one (Nat.le_max_right _ _)
  refine moves_gain inv' (absent_of_fresh inv fresh.2.2.2 (Span.Inside.refl _) nonempty) ?_
    (fun l q _ => SameInside.refl _ _)
  intro l q
  cases l with
  | thread u => simp [Out, liveSpans, setHeap]
  | chunk => simp [Out, setHeap]
  | outside other =>
      simp only [Out, setHeap, added, List.mem_cons, Holder.outside.injEq]
      constructor
      · rintro ⟨b, rfl | old, owner, rfl⟩
        · exact Or.inr ⟨(Owner.outside.inj owner).symm, rfl⟩
        · exact Or.inl ⟨b, old, owner, rfl⟩
      · rintro (⟨b, old, owner, rfl⟩ | ⟨rfl, rfl⟩)
        · exact ⟨b, Or.inr old, owner, rfl⟩
        · exact ⟨_, Or.inl rfl, rfl, rfl⟩

/-- And one region less when it is released. -/
theorem moves_mfree {b : Block Owner} {use : Use} (member : b ∈ s.shared.heap.blocks)
    (owner : b.owner = .outside use) :
    Regions.Moves s.Out (s.setHeap (s.shared.heap.free b.span.base)).Out s.mem s.mem
      (.lose (.outside use) b.span) := by
  refine .lose ⟨b, member, owner, rfl⟩ ?_ (fun l q _ _ => SameInside.refl _ _)
  intro l q
  cases l with
  | thread u => simp [Out, liveSpans, setHeap]
  | chunk => simp [Out, setHeap]
  | outside other =>
      simp only [Out, setHeap, Heap.mem_free, Holder.outside.injEq]
      constructor
      · rintro ⟨c, ⟨old, away⟩, owner', rfl⟩
        exact ⟨⟨c, old, owner', rfl⟩, fun same => away (congrArg Span.base same.2)⟩
      · rintro ⟨⟨c, old, owner', rfl⟩, different⟩
        refine ⟨c, ⟨old, fun base => different ?_⟩, owner', rfl⟩
        obtain rfl := Heap.eq_of_base old member base
        rw [owner] at owner'
        exact ⟨(Owner.outside.inj owner').symm, rfl⟩

end Steps

section Events

/-- The byte that the program writes in this step, if it writes one. -/
def Event.wrote : Event → Option (Nat × UInt8)
  | .write a b => some (a, b)
  | _ => none

/-- What a call does to the regions that are out, as far as its caller can see. -/
inductive Event.Does : Event → Regions.Move Holder → Prop
  | start {t : Nat} {x : Except Exn Unit} : Does (.start t x) .stay
  | exit {t : Nat} : Does (.exit t) (.expire (.thread t))
  | returned {e : Event} {t n : Nat} {r : Span} (returned : e.Returns t n r) :
      Does e (.gain (.thread t) r)
  | refused {t n : Nat} {x : Except Exn (Option Nat)} (nothing : ∀ p, x ≠ .ok (some p)) :
      Does (.allocate t n x) .stay
  | refusedAligned {t n alignment : Nat} : Does (.allocateAligned t n alignment none) .stay
  | free {t p n : Nat} {form : FreeForm} {r : Span} (names : form.Names r p) :
      Does (.free t form p n) (.lose (.thread t) r)
  | acquireChunk {bytes body : Nat} :
      Does (.acquireChunk bytes (.ok body)) (.gain .chunk ⟨body, chunkBody⟩)
  | noChunk {bytes : Nat} {x : Exn} : Does (.acquireChunk bytes (.error x)) .stay
  | write {a : Nat} {b : UInt8} : Does (.write a b) (.write a b)
  | malloc {use : Use} {size p : Nat} :
      Does (.malloc use size (some p)) (.gain (.outside use) (Heap.request p size))
  | noMemory {use : Use} {size : Nat} : Does (.malloc use size none) .stay
  | mfree {use : Use} {r : Span} : Does (.mfree r.base) (.lose (.outside use) r)

theorem Event.Does.wrote {e : Event} {move : Regions.Move Holder} (does : e.Does move) :
    move.wrote = e.wrote := by
  cases does with
  | returned returned => cases returned <;> rfl
  | _ => rfl

/-- `allocate` hands out one block of its thread, or nothing. -/
theorem allocate_moves {n : Nat} {pool pool' : ThreadPoolAlloc} {client : Client}
    {reply : SlabReply} {chunkRecorded slabRecorded : Bool} {x : Except Exn (Option Nat)}
    {g' : Shared} {m' : ByteMemory} (power : Words.PowerOfTwo P.maxAlign) (inv : SysInv s)
    (sums : s.NoWrap P (.allocate t n x)) (live : s.threads t = .live pool client)
    (word : n < Words.radix)
    (done : pool.allocate P (acquireChunkCb P t reply chunkRecorded) slabRecorded n s.shared
      s.mem = (x, pool', g', m')) :
    ∃ move, (Event.allocate t n x).Does move ∧ Regions.Moves s.Out
      ({ s.setThread t (.live pool' (client.gain n x)) with mem := m', shared := g' } : Sys).Out
        s.mem m' move := by
  have inv' := inv.next power sums trivial (.allocate live word done)
  obtain ⟨free, thread⟩ := inv.live _ _ _ live
  obtain ⟨free', chunk, _, _, _, fresh, frame, _, _, obtained⟩ :=
    thread.allocate inv.shared power word (fun large => sums large _ _ live) done
  have draws := Shared.allocate_draws done
  have others : ∀ k, k ≠ .thread t → ∀ q,
      Out { s.setThread t (.live pool' (client.gain n x)) with mem := m', shared := g' } k q ↔
        s.Out k q := fun k other q => allocate_others rfl draws obtained other
  have same := fun l q (out : s.Out l q) => same_of_fresh inv fresh frame out
  by_cases given : ∃ p, x = .ok (some p)
  · obtain ⟨p, rfl⟩ := given
    exact ⟨_, .returned .allocate, moves_client inv' live rfl (client.gain_spans n p) others same⟩
  · have nothing : ∀ p, x ≠ .ok (some p) := fun p equal => given ⟨p, equal⟩
    refine ⟨.stay, .refused nothing, moves_stay (t := t) ?_ others same⟩
    rw [liveSpans_live live, liveSpans_live (Function.update_self t _ _),
      client.gain_unanswered n nothing]

theorem allocateAligned_moves {n alignment : Nat} {pool pool' : ThreadPoolAlloc}
    {client : Client} {x : Option Nat}
    (inv' : SysInv (s.setThread t (.live pool' (client.gainAligned n x))))
    (live : s.threads t = .live pool client) :
    ∃ move, (Event.allocateAligned t n alignment x).Does move ∧ Regions.Moves s.Out
      (s.setThread t (.live pool' (client.gainAligned n x))).Out s.mem s.mem move := by
  have others : ∀ k, k ≠ .thread t → ∀ q,
      (s.setThread t (.live pool' (client.gainAligned n x))).Out k q ↔ s.Out k q :=
    fun k other q => out_others (fun u different => Function.update_of_ne different _ _)
      (fun _ _ => Iff.rfl) (fun _ _ _ => Iff.rfl) other
  have same := fun l q (_ : s.Out l q) => SameInside.refl s.mem [q]
  cases x with
  | none =>
      refine ⟨.stay, .refusedAligned, moves_stay (t := t) ?_ others same⟩
      rw [liveSpans_live live, liveSpans_live (Function.update_self t _ _)]
      rfl
  | some p =>
      exact ⟨_, .returned .allocateAligned,
        moves_client inv' live rfl (client.gainSpan_spans ⟨p, n⟩) others same⟩

/-- Every step does what its call says, and nothing else. -/
theorem Step.moves {e : Event} (power : Words.PowerOfTwo P.maxAlign) (inv : SysInv s)
    (sums : s.NoWrap P e) (nonempty : e.Nonempty) (taken : Step P s e s') :
    ∃ move, e.Does move ∧ Regions.Moves s.Out s'.Out s.mem s'.mem move := by
  have inv' := inv.next power sums nonempty taken
  cases taken with
  | start unborn done => exact ⟨.stay, .start, moves_start inv unborn done rfl rfl rfl⟩
  | @startFails t _ _ x h' unborn done =>
      have same := SingleThreadAllocator.new_undone done
      refine ⟨.stay, .start, .stay ?_ (fun k q _ => SameInside.refl _ _)⟩
      intro k q
      cases k <;> simp [Out, liveSpans, setHeap, same]
  | @exit t pool client live => exact ⟨_, .exit, moves_exit inv live rfl rfl rfl⟩
  | allocate live word done => exact allocate_moves power inv sums live word done
  | allocateAligned live word power' done => exact allocateAligned_moves inv' live
  | free live out names done =>
      obtain ⟨free, thread⟩ := inv.live _ _ _ live
      obtain ⟨free', _, frame⟩ := thread.free_block out names done
      exact ⟨_, .free names,
        moves_release inv live rfl rfl (Client.release_spans out) frame⟩
  | freeArena live out names done =>
      obtain ⟨free, thread⟩ := inv.live _ _ _ live
      obtain ⟨_, rfl⟩ := thread.free_arena out names done
      exact ⟨_, .free names,
        moves_release inv live rfl rfl (Client.drop_spans out) (SameOutside.refl _ _)⟩
  | @acquireChunk bytes reply recorded x g' m' done =>
      cases x with
      | ok body => exact ⟨_, .acquireChunk, moves_acquire inv inv' done rfl rfl rfl⟩
      | error y => exact ⟨.stay, .noChunk, moves_noChunk inv done⟩
  | write writable => exact ⟨_, .write, .write (fun _ _ => Iff.rfl) rfl⟩
  | @malloc use size reply x h' done =>
      cases x with
      | none =>
          obtain rfl := Heap.of_malloc_none done
          exact ⟨.stay, .noMemory, .stay (fun _ _ => Iff.rfl) (fun l q _ => SameInside.refl _ _)⟩
      | some p => exact ⟨_, .malloc, moves_malloc inv inv' done⟩
  | mfree member owner => exact ⟨_, .mfree, moves_mfree member owner⟩

end Events

section Runs

variable {m : ByteMemory} {h : Heap Owner} {past trace : List (Transition Sys Event)}

end Runs

end Sys

end MemAlloc
