import MemAlloc.Classification
import MemAlloc.Fragmentation
import MemAlloc.Lib.Totals

set_option autoImplicit false

namespace MemAlloc.SingleThreadAllocator

theorem bytes_of_classify {a : SingleThreadAllocator} {p n : Nat} (classified : a.classify p = n)
    (nonzero : n ≠ 0) (small : n ≤ maxSmall) : ∃ j : SizeClass, n = j.bytes := by
  have pointer : n ≠ kArenaPointer := by
    intro same
    rw [same] at small
    exact absurd small (by decide)
  rw [classify] at classified
  split at classified
  · exact absurd classified.symm nonzero
  · rw [classifyImpl] at classified
    rcases of_foldl_classes (fun j => (a.pools j).contains j.bytes blocksPerSlab p)
      (List.finRange 7) 0 with nothing | ⟨j, _, found⟩
    · simp only [nothing, ne_eq, not_true_eq_false, ↓reduceIte] at classified
      split at classified
      · exact absurd classified.symm pointer
      · exact absurd classified.symm nonzero
    · have positive : j.bytes ≠ 0 := Nat.ne_of_gt j.bytes_positive
      simp only [found, ne_eq, positive, not_false_eq_true, ↓reduceIte] at classified
      exact ⟨j, classified.symm⟩

end MemAlloc.SingleThreadAllocator

namespace MemAlloc.AllocatorRuns

open Runs (Run Transition)
open Totals (total)
open SingleThreadAllocator (Inv Granted FreeForm)

/-- The bytes that had originally been requested for the block that a transition records. -/
def requestedIn (x : Transition World Event) : Nat :=
  match x.event with
  | .allocate n _ _ (.ok (some _)) => n
  | .allocateAligned n _ (some _) => n
  | .free _ b _ _ => x.before.sizes b
  | _ => 0

/-- The bytes of the class of the pool block that a transition records. -/
def chargedIn (x : Transition World Event) : Nat :=
  match x.event with
  | .allocate n _ _ (.ok (some _)) => blockFor n
  | .free _ _ _ n => blockFor n
  | _ => 0

/-- By how much a recorded release exceeds the original request. -/
def overcount (x : Transition World Event) : Nat :=
  match x.event with
  | .free _ b _ n => n - x.before.sizes b
  | _ => 0

/-- Blocks are released with their original size, or the way the delete override does it: by
an address inside the block and the class that address is given. -/
def Disciplined (x : Transition World Event) : Prop :=
  match x.event with
  | .free form b p n =>
      (form = .start ∧ n = x.before.sizes b) ∨
        (form = .containing ∧ n = x.before.alloc.classify p ∧ n ≠ 0)
  | _ => True

/-- A block that is released through the override had been requested with exactly the size
of its class. -/
def ExactClass (x : Transition World Event) : Prop :=
  match x.event with
  | .free .containing b _ _ => x.before.sizes b = blockFor (x.before.sizes b)
  | _ => True

def requestOut (w : World) : Nat := ∑ i, total w.sizes (w.client.held i)

section Steps

variable {P : Platform} {w w' : World} {L : Ledger} {e : Event}

/-- Releases record at least what had been requested, and at most the class. -/
theorem release_between {form : FreeForm} {b p n : Nat} (consistent : Consistent w L)
    (taken : Step P w (.free form b p n) w')
    (disciplined : Disciplined ⟨w, .free form b p n, w'⟩) :
    w.sizes b ≤ n ∧ n ≤ blockFor n ∧ blockFor n = blockFor (w.sizes b) ∧
      (form = .containing → n = blockFor (w.sizes b)) := by
  cases taken with
  | @free _ i _ _ _ _ _ _ out names small cls done =>
      obtain ⟨small', cls'⟩ := consistent.sized i b out
      have class₁ : blockFor n = i.bytes := (blockFor_eq small).trans (by rw [cls])
      have class₂ : blockFor (w.sizes b) = i.bytes := (blockFor_eq small').trans (by rw [cls'])
      have below : w.sizes b ≤ i.bytes := cls' ▸ le_bytes_sizeClassOf small'
      have fits : n ≤ i.bytes := cls ▸ le_bytes_sizeClassOf small
      rw [class₁, class₂]
      rcases disciplined with ⟨rfl, same⟩ | ⟨rfl, classified, nonzero⟩
      · exact ⟨Nat.le_of_eq same.symm, fits, rfl, fun other => by cases other⟩
      · obtain ⟨j, rfl⟩ := SingleThreadAllocator.bytes_of_classify classified.symm nonzero small
        have whole : j.bytes = i.bytes := by rw [cls, sizeClassOf_bytes]
        exact ⟨whole ▸ below, fits, rfl, fun _ => whole⟩

theorem overcount_eq_zero (consistent : Consistent w L) (taken : Step P w e w')
    (disciplined : Disciplined ⟨w, e, w'⟩) :
    overcount ⟨w, e, w'⟩ = 0 ↔ ExactClass ⟨w, e, w'⟩ := by
  cases e with
  | free form b p n =>
      obtain ⟨more, _, _, exact_⟩ := release_between consistent taken disciplined
      change n - w.sizes b = 0 ↔ ExactClass ⟨w, .free form b p n, w'⟩
      cases form with
      | start =>
          rcases disciplined with ⟨_, same⟩ | ⟨other, _⟩
          · have same : n = w.sizes b := same
            exact ⟨fun _ => trivial, fun _ => by omega⟩
          · cases other
      | containing =>
          have whole := exact_ rfl
          change n - w.sizes b = 0 ↔ w.sizes b = blockFor (w.sizes b)
          omega
  | allocate _ _ _ _ => exact ⟨fun _ => trivial, fun _ => rfl⟩
  | allocateAligned _ _ _ => exact ⟨fun _ => trivial, fun _ => rfl⟩
  | freeArena _ _ _ => exact ⟨fun _ => trivial, fun _ => rfl⟩
  | write _ _ => exact ⟨fun _ => trivial, fun _ => rfl⟩

/-- What one transition adds to the counter of requested bytes. -/
theorem requested_step (consistent : Consistent w L) (power : Words.PowerOfTwo P.maxAlign)
    (noWrap : NoWrap P w e) (disciplined : Disciplined ⟨w, e, w'⟩) (taken : Step P w e w')
    (word : w.alloc.stats.requested < Words.radix) :
    w'.alloc.stats.requested = Words.add w.alloc.stats.requested
      (requestedIn ⟨w, e, w'⟩ + overcount ⟨w, e, w'⟩) := by
  have none : Words.add w.alloc.stats.requested (0 + 0) = w.alloc.stats.requested :=
    Words.add_of_lt word
  cases e with
  | allocate n body grown x =>
      obtain ⟨L', granted, _⟩ := consistent.granted power noWrap taken
      generalize w'.alloc = a' at granted ⊢
      cases granted with
      | pool _ _ _ => rfl
      | refused _ _ _ unanswered =>
          cases x with
          | error _ => exact none.symm
          | ok answer =>
              cases answer with
              | none => exact none.symm
              | some p => exact absurd rfl (unanswered p)
      | lost _ _ _ _ => exact none.symm
      | refilled _ _ _ _ _ => rfl
      | arena _ served => exact congrArg Stats.requested served.stats
      | arenaFull _ _ => exact none.symm
  | allocateAligned n alignment x =>
      cases taken with
      | @allocateAligned _ _ _ _ a' nonempty _ powerOfTwo done =>
          rw [SingleThreadAllocator.allocateAligned] at done
          by_cases fits : w.alloc.arena.demand n alignment ≤ w.alloc.arena.capacity
          · obtain ⟨p, served, run, effect⟩ := consistent.inv.arenaAllocate_fits powerOfTwo fits
            rw [run] at done
            cases done
            exact congrArg Stats.requested effect.stats
          · rw [consistent.inv.arenaAllocate_full ‹_› powerOfTwo noWrap
              (Nat.lt_of_not_le fits)] at done
            cases done
            exact none.symm
  | free form b p n =>
      have between := release_between consistent taken disciplined
      cases taken with
      | free out names small cls done =>
          obtain ⟨rfl, _⟩ := consistent.free out names small done
          change Words.add w.alloc.stats.requested n =
            Words.add w.alloc.stats.requested (w.sizes b + (n - w.sizes b))
          rw [Nat.add_sub_cancel' between.1]
  | freeArena form p n =>
      cases taken with
      | freeArena out names large done =>
          rw [form.call_large _ _ large] at done
          cases done
          exact none.symm
  | write a b =>
      cases taken with
      | write _ _ => exact none.symm
      | writeArena _ _ => exact none.symm

theorem requestOut_gain {i : SizeClass} {p n : Nat} (absent : ∀ j, p ∉ w.client.held j) :
    (∑ j, total (Function.update w.sizes p n) ((w.client.gainBlock i p).held j)) =
      requestOut w + n := by
  have others : ∀ j, total (Function.update w.sizes p n) (w.client.held j) =
      total w.sizes (w.client.held j) := by
    intro j
    refine Totals.total_congr (fun x listed => Function.update_of_ne ?_ _ _)
    rintro rfl
    exact absent j listed
  have sum := Client.sum_update (f := fun j => total w.sizes (w.client.held j))
    (g := fun j => total (Function.update w.sizes p n) ((w.client.gainBlock i p).held j)) i
    (fun j different => by rw [Client.gainBlock_other _ _ different]; exact others j)
  simp only [Client.gainBlock_same, Totals.total_cons, Function.update_self, others i] at sum
  simp only [requestOut]
  omega

theorem requestOut_release {i : SizeClass} {b : Nat} (out : b ∈ w.client.held i) :
    requestOut w = (∑ j, total w.sizes ((w.client.release i b).held j)) + w.sizes b := by
  have sum := Client.sum_update (f := fun j => total w.sizes (w.client.held j))
    (g := fun j => total w.sizes ((w.client.release i b).held j)) i
    (fun j different => by rw [Client.release_other _ _ different])
  have split := Totals.total_perm (f := w.sizes) (List.perm_cons_erase out)
  rw [Totals.total_cons] at split
  simp only [Client.release_same] at sum
  simp only [requestOut]
  omega

/-- What a small request that is answered does to the books. -/
theorem gain_books {i : SizeClass} {n p : Nat} (consistent : Consistent w' L)
    (small : n ≤ maxSmall) (cls : i = sizeClassOf n small)
    (client : w'.client = w.client.gain n (.ok (some p)))
    (sizes : w'.sizes = w.sizesAfter n (.ok (some p))) :
    w'.client.bytesOut = w.client.bytesOut + i.bytes ∧ requestOut w' = requestOut w + n := by
  have gained : w.client.gain n (.ok (some p)) = w.client.gainBlock i p :=
    (dif_pos small).trans (by rw [cls])
  have known : w.sizesAfter n (.ok (some p)) = Function.update w.sizes p n := if_pos small
  rw [gained] at client
  rw [known] at sizes
  constructor
  · rw [client, Client.bytesOut_gainBlock]
  · rw [requestOut, client, sizes]
    exact requestOut_gain (gained_new consistent.inv (consistent.held.trans (by rw [client])))

/-- What a small request does to the books. -/
theorem allocate_books {n : Nat} {body : Option Nat} {recorded : Bool}
    {x : Except Exn (Option Nat)} (consistent : Consistent w L)
    (power : Words.PowerOfTwo P.maxAlign) (small : n ≤ maxSmall)
    (taken : Step P w (.allocate n body recorded x) w')
    (word : w.alloc.stats.allocated < Words.radix) :
    w'.alloc.stats.allocated =
        Words.add w.alloc.stats.allocated (chargedIn ⟨w, .allocate n body recorded x, w'⟩) ∧
      w'.client.bytesOut =
        w.client.bytesOut + chargedIn ⟨w, .allocate n body recorded x, w'⟩ ∧
      requestOut w' = requestOut w + requestedIn ⟨w, .allocate n body recorded x, w'⟩ := by
  have none : Words.add w.alloc.stats.allocated 0 = w.alloc.stats.allocated :=
    Words.add_of_lt word
  obtain ⟨L', granted, after, client, sizes⟩ := consistent.granted power
    (fun large => absurd small (Nat.not_le.mpr large)) taken
  have unchanged : w.client.gain n x = w.client → w.sizesAfter n x = w.sizes →
      w'.client.bytesOut = w.client.bytesOut ∧ requestOut w' = requestOut w := by
    intro kept known
    rw [client, requestOut, client, sizes, kept, known]
    exact ⟨rfl, rfl⟩
  generalize w'.alloc = a' at granted ⊢
  cases granted with
  | @pool i p head rest _ cls stocked =>
      obtain ⟨bytes, requests⟩ := gain_books after small cls client sizes
      have charged : blockFor n = i.bytes := (blockFor_eq small).trans (by rw [cls])
      simp only [chargedIn, requestedIn, charged]
      exact ⟨rfl, bytes, requests⟩
  | refused _ _ _ unanswered =>
      cases x with
      | error _ => exact ⟨none.symm, unchanged rfl rfl⟩
      | ok answer =>
          cases answer with
          | none => exact ⟨none.symm, unchanged rfl rfl⟩
          | some p => exact absurd rfl (unanswered p)
  | lost _ _ _ _ => exact ⟨none.symm, unchanged rfl rfl⟩
  | @refilled i p head rest _ _ cls _ _ =>
      obtain ⟨bytes, requests⟩ := gain_books after small cls client sizes
      have charged : blockFor n = i.bytes := (blockFor_eq small).trans (by rw [cls])
      simp only [chargedIn, requestedIn, charged]
      exact ⟨rfl, bytes, requests⟩
  | arena large _ => exact absurd small (Nat.not_le.mpr large)
  | arenaFull large _ => exact absurd small (Nat.not_le.mpr large)

/-- What a release does to the books. -/
theorem free_books {form : FreeForm} {b p n : Nat} (consistent : Consistent w L)
    (taken : Step P w (.free form b p n) w') :
    w'.alloc.stats.allocated =
        Words.add w.alloc.stats.allocated (chargedIn ⟨w, .free form b p n, w'⟩) ∧
      w.client.bytesOut = w'.client.bytesOut + chargedIn ⟨w, .free form b p n, w'⟩ ∧
      requestOut w = requestOut w' + requestedIn ⟨w, .free form b p n, w'⟩ := by
  cases taken with
  | @free _ i _ _ _ _ a' m' out names small cls done =>
      obtain ⟨rfl, _⟩ := consistent.free out names small done
      have bytes : blockFor n = i.bytes := (blockFor_eq small).trans (by rw [cls])
      change Words.add w.alloc.stats.allocated i.bytes =
          Words.add w.alloc.stats.allocated (blockFor n) ∧
        w.client.bytesOut = (w.client.release i b).bytesOut + blockFor n ∧ _
      rw [bytes]
      exact ⟨rfl, Client.bytesOut_release out, requestOut_release out⟩

/-- A release records a size between the original request and the class. -/
theorem recorded_between {form : FreeForm} {b p n : Nat} (consistent : Consistent w L)
    (taken : Step P w (.free form b p n) w')
    (disciplined : Disciplined ⟨w, .free form b p n, w'⟩) :
    requestedIn ⟨w, .free form b p n, w'⟩ + overcount ⟨w, .free form b p n, w'⟩ ≤
      chargedIn ⟨w, .free form b p n, w'⟩ := by
  obtain ⟨more, fits, _⟩ := release_between consistent taken disciplined
  change w.sizes b + (n - w.sizes b) ≤ blockFor n
  omega

/-- A release records at most the largest class. -/
theorem overcount_step (taken : Step P w e w') : overcount ⟨w, e, w'⟩ ≤ maxSmall := by
  cases taken with
  | @free _ i _ b _ n _ _ out names small cls done =>
      change n - w.sizes b ≤ maxSmall
      exact Nat.le_trans (Nat.sub_le _ _) small
  | allocate _ _ _ => exact Nat.zero_le _
  | allocateAligned _ _ _ _ => exact Nat.zero_le _
  | freeArena _ _ _ _ => exact Nat.zero_le _
  | write _ _ => exact Nat.zero_le _
  | writeArena _ _ => exact Nat.zero_le _

end Steps

/-- The phase before the frees: requests that the pools serve. -/
def Fills : Event → Prop
  | .allocate n _ _ _ => n ≤ maxSmall
  | .write _ _ => True
  | _ => False

/-- The phase of the frees. -/
def Drains : Event → Prop
  | .free _ _ _ _ => True
  | .write _ _ => True
  | _ => False

section Runs

variable {P : Platform} {w₀ w : World} {L₀ : Ledger} {trace : List (Transition World Event)}

/-- After every run the counter of requested bytes is the total of the original requests and
of what releases have recorded beyond them, as a word. -/
theorem requested_run (power : Words.PowerOfTwo P.maxAlign) (start : Consistent w₀ L₀)
    (word : w₀.alloc.stats.requested < Words.radix) (run : Run (Step P) w₀ trace w)
    (noWrap : ∀ x ∈ trace, NoWrap P x.before x.event)
    (disciplined : ∀ x ∈ trace, Disciplined x) :
    w.alloc.stats.requested =
      Words.add w₀.alloc.stats.requested (total requestedIn trace + total overcount trace) := by
  induction run with
  | nil =>
      simp only [Totals.total_nil]
      exact (Words.add_zero word).symm
  | @snoc trace s t e run taken ih =>
      have earlier : ∀ x ∈ trace, NoWrap P x.before x.event :=
        fun x member => noWrap x (List.mem_append_left _ member)
      have before := ih earlier (fun x member => disciplined x (List.mem_append_left _ member))
      obtain ⟨_, consistent⟩ := (run_consistent power start run earlier).1
      have now := requested_step consistent power (noWrap ⟨s, e, t⟩ (by simp))
        (disciplined ⟨s, e, t⟩ (by simp)) taken (before ▸ Words.add_lt _ _)
      rw [now, before, Words.add_add, Totals.total_append, Totals.total_append]
      congr 1
      simp only [Totals.total_cons, Totals.total_nil]
      omega

/-- Nothing is recorded beyond the requests if and only if every block that was released by
an inner address had been requested with exactly the size of its class. -/
theorem overcount_run (power : Words.PowerOfTwo P.maxAlign) (start : Consistent w₀ L₀)
    (run : Run (Step P) w₀ trace w) (noWrap : ∀ x ∈ trace, NoWrap P x.before x.event)
    (disciplined : ∀ x ∈ trace, Disciplined x) :
    total overcount trace = 0 ↔ ∀ x ∈ trace, ExactClass x := by
  have each : ∀ x ∈ trace, overcount x = 0 ↔ ExactClass x := by
    intro x member
    obtain ⟨_, _, _, _, taken⟩ := run.reached x member
    obtain ⟨_, consistent⟩ := (run_consistent power start run noWrap).2 x member
    exact overcount_eq_zero consistent taken (disciplined x member)
  constructor
  · intro none x member
    exact (each x member).mp (Nat.le_zero.mp (none ▸ Totals.le_total overcount member))
  · intro exact_
    rw [Totals.total_congr (fun x member => (each x member).mpr (exact_ x member))]
    exact Totals.total_zero trace

/-- While blocks are only handed out, both counters are the sums over the blocks that are
out. -/
theorem fill_run (power : Words.PowerOfTwo P.maxAlign) (start : Consistent w₀ L₀)
    (allocated : w₀.alloc.stats.allocated = Words.add 0 w₀.client.bytesOut)
    (requested : w₀.alloc.stats.requested = Words.add 0 (requestOut w₀))
    (run : Run (Step P) w₀ trace w) (fills : ∀ x ∈ trace, Fills x.event) :
    (∃ L, Consistent w L) ∧ w.alloc.stats.allocated = Words.add 0 w.client.bytesOut ∧
      w.alloc.stats.requested = Words.add 0 (requestOut w) := by
  let inv : World → Prop := fun w => (∃ L, Consistent w L) ∧
    w.alloc.stats.allocated = Words.add 0 w.client.bytesOut ∧
      w.alloc.stats.requested = Words.add 0 (requestOut w)
  have first : inv w₀ := ⟨⟨L₀, start⟩, allocated, requested⟩
  let cond : World → Event → Prop := fun _ e => Fills e
  suffices keep : ∀ s e t, inv s → cond s e → Step P s e t → inv t from
    run.invariantWhere first keep fills
  rintro s e t ⟨⟨L, consistent⟩, allocated, requested⟩ fills taken
  cases e with
  | allocate n body recorded x =>
      have noWrap : NoWrap P s (.allocate n body recorded x) :=
        fun large => absurd fills (Nat.not_le.mpr large)
      have now := requested_step consistent power noWrap trivial taken
        (requested ▸ Words.add_lt _ _)
      obtain ⟨charged, bytes, requests⟩ :=
        allocate_books consistent power fills taken (allocated ▸ Words.add_lt _ _)
      refine ⟨consistent.step power noWrap taken, ?_, ?_⟩
      · rw [charged, allocated, bytes, Words.add_add]
      · rw [now, requested, requests, Words.add_add]
        rfl
  | allocateAligned _ _ _ => exact fills.elim
  | free _ _ _ _ => exact fills.elim
  | freeArena _ _ _ => exact fills.elim
  | write x b =>
      have noWrap : NoWrap P s (.write x b) := trivial
      refine ⟨consistent.step power noWrap taken, ?_⟩
      cases taken with
      | write _ _ => exact ⟨allocated, requested⟩
      | writeArena _ _ => exact ⟨allocated, requested⟩

/-- While blocks are only released, their sums move into the counters. -/
theorem drain_run (power : Words.PowerOfTwo P.maxAlign) (start : Consistent w₀ L₀)
    (word : w₀.alloc.stats.allocated < Words.radix) (run : Run (Step P) w₀ trace w)
    (drains : ∀ x ∈ trace, Drains x.event) (disciplined : ∀ x ∈ trace, Disciplined x) :
    w.alloc.stats.allocated = Words.add w₀.alloc.stats.allocated (total chargedIn trace) ∧
      w₀.client.bytesOut = w.client.bytesOut + total chargedIn trace ∧
      requestOut w₀ = requestOut w + total requestedIn trace ∧
      total requestedIn trace + total overcount trace ≤ total chargedIn trace := by
  induction run with
  | nil =>
      simp only [Totals.total_nil]
      exact ⟨(Words.add_zero word).symm, rfl, rfl, Nat.le_refl _⟩
  | @snoc trace s t e run taken ih =>
      have earlier : ∀ x ∈ trace, Drains x.event :=
        fun x member => drains x (List.mem_append_left _ member)
      obtain ⟨allocated, bytes, requests, between⟩ :=
        ih earlier (fun x member => disciplined x (List.mem_append_left _ member))
      have noWrap : ∀ x ∈ trace, NoWrap P x.before x.event := by
        intro x member
        have drain := earlier x member
        revert drain
        cases x.event <;> simp [Drains, NoWrap]
      obtain ⟨_, consistent⟩ := (run_consistent power start run noWrap).1
      have drain := drains ⟨s, e, t⟩ (by simp)
      have now := disciplined ⟨s, e, t⟩ (by simp)
      simp only [Totals.total_append, Totals.total_cons, Totals.total_nil, Nat.add_zero]
      cases e with
      | allocate _ _ _ _ => exact drain.elim
      | allocateAligned _ _ _ => exact drain.elim
      | free form b p n =>
          obtain ⟨charged, bytes', requests'⟩ := free_books consistent taken
          have between' := recorded_between consistent taken now
          refine ⟨?_, ?_, ?_, ?_⟩
          · rw [charged, allocated, Words.add_add]
          · rw [bytes, bytes', Nat.add_assoc, Nat.add_comm (chargedIn _)]
          · rw [requests, requests', Nat.add_assoc, Nat.add_comm (requestedIn _)]
          · omega
      | freeArena _ _ _ => exact drain.elim
      | write _ _ =>
          cases taken with
          | write _ _ => exact ⟨allocated, bytes, requests, between⟩
          | writeArena _ _ => exact ⟨allocated, bytes, requests, between⟩

theorem overcount_le (run : Run (Step P) w₀ trace w) :
    total overcount trace ≤ maxSmall * trace.length := by
  have each : ∀ x ∈ trace, overcount x ≤ maxSmall := by
    intro x member
    obtain ⟨_, _, _, _, taken⟩ := run.reached x member
    exact overcount_step taken
  have sum := Totals.total_mono each
  simpa [total, Nat.mul_comm] using sum

/-- When small blocks are handed out and then all released, the fraction is the same after as
before, if and only if each block that is released by an inner address had been requested with
exactly the size of its class. -/
theorem drained_iff {w₁ : World} {first second : List (Transition World Event)}
    (power : Words.PowerOfTwo P.maxAlign) (start : Consistent w₀ L₀)
    (zero : w₀.alloc.stats = Stats.zero) (nothing : w₀.client = Client.none)
    (filled : Run (Step P) w₀ first w₁) (drained : Run (Step P) w₁ second w)
    (fills : ∀ x ∈ first, Fills x.event) (drains : ∀ x ∈ second, Drains x.event)
    (disciplined : ∀ x ∈ second, Disciplined x) (empty : ∀ i, w.client.held i = [])
    (words : 2 * w₁.client.bytesOut < Words.radix) :
    (∀ R, w.alloc.stats.internalFragmentation R = w₁.alloc.stats.internalFragmentation R) ↔
      ∀ x ∈ second, ExactClass x := by
  have noWrap : ∀ x ∈ second, NoWrap P x.before x.event := by
    intro x member
    have drain := drains x member
    revert drain
    cases x.event <;> simp [Drains, NoWrap]
  have none : w₀.client.bytesOut = 0 ∧ requestOut w₀ = 0 := by
    simp [requestOut, nothing, Client.bytesOut, Client.none]
  obtain ⟨⟨L₁, full⟩, allocated, requested⟩ := fill_run power start
    (by rw [zero, none.1]; rfl) (by rw [zero, none.2]; rfl) filled fills
  have bytes : w₁.alloc.stats.allocated = w₁.client.bytesOut := by
    rw [allocated, Words.add_of_lt (by omega), Nat.zero_add]
  obtain ⟨charged, moved, requests, between⟩ :=
    drain_run power full (by omega) drained drains disciplined
  have gone : w.client.bytesOut = 0 ∧ requestOut w = 0 := by
    simp [requestOut, empty, Client.bytesOut]
  have totals : total chargedIn second = w₁.client.bytesOut ∧
      total requestedIn second = requestOut w₁ := by omega
  have out : w₁.alloc.stats.requested = requestOut w₁ := by
    rw [requested, Words.add_of_lt (by omega), Nat.zero_add]
  have twice : w.alloc.stats.allocated = 2 * w₁.alloc.stats.allocated := by
    rw [charged, bytes, totals.1, Words.add_of_lt (by omega)]
    omega
  have recorded : w.alloc.stats.requested =
      2 * w₁.alloc.stats.requested + total overcount second := by
    rw [requested_run power full (by omega) drained noWrap disciplined, totals.2, out,
      Words.add_of_lt (by omega)]
    omega
  rw [← overcount_run power full drained noWrap disciplined]
  constructor
  · intro same
    have proportional := Stats.requested_of_exact twice (by omega) (by omega) (by omega)
      (same Rounding.exact)
    omega
  · intro exact_ R
    exact Stats.internalFragmentation_double R twice (by omega) (by omega) (by omega)

end Runs

section Main

variable {τ : Type} {P : Platform} {owner : SizeClass → τ} {arenaOwner : τ}
  {reply : SizeClass → SlabReply} {arenaReply : Option Nat} {h h' : Malloc.Heap τ}
  {m₀ m : ByteMemory} {a : SingleThreadAllocator}

/-- The counter of requested bytes of a new allocator is the total of the original requests
of what has been allocated and released, if and only if that total is a word and the excess
of the releases by inner addresses vanishes as a word; below `2 ^ 54` steps that is if and
only if each block so released had been requested with exactly the size of its class. -/
theorem requested_iff (power : Words.PowerOfTwo P.maxAlign)
    (different : Function.Injective owner) (apart : ∀ i, owner i ≠ arenaOwner)
    (built : SingleThreadAllocator.new P owner arenaOwner reply arenaReply h m₀ =
      (.ok (a, m), h'))
    {trace : List (Transition World Event)} {w : World}
    (run : Run (Step P) (World.start m a) trace w)
    (noWrap : ∀ x ∈ trace, NoWrap P x.before x.event)
    (disciplined : ∀ x ∈ trace, Disciplined x) :
    (w.alloc.stats.requested = total requestedIn trace ↔
      total requestedIn trace < Words.radix ∧ total overcount trace % Words.radix = 0) ∧
    (trace.length < 2 ^ 54 →
      (w.alloc.stats.requested = total requestedIn trace ↔
        total requestedIn trace < Words.radix ∧ ∀ x ∈ trace, ExactClass x)) ∧
    ∀ first second w₁, trace = first ++ second → Run (Step P) (World.start m a) first w₁ →
      Run (Step P) w₁ second w → (∀ x ∈ first, Fills x.event) →
      (∀ x ∈ second, Drains x.event) → (∀ i, w.client.held i = []) →
      2 * w₁.client.bytesOut < Words.radix →
      ((∀ R, w.alloc.stats.internalFragmentation R = w₁.alloc.stats.internalFragmentation R) ↔
        ∀ x ∈ second, ExactClass x) := by
  obtain ⟨start, _, zero⟩ := Consistent.start different apart built
  have zero : (World.start m a).alloc.stats = Stats.zero := zero
  have counted := requested_run power start (by rw [zero]; decide) run noWrap disciplined
  have exact_ := overcount_run power start run noWrap disciplined
  have few := overcount_le run
  rw [zero] at counted
  change _ = Words.add 0 _ at counted
  have lifetime : w.alloc.stats.requested = total requestedIn trace ↔
      total requestedIn trace < Words.radix ∧ total overcount trace % Words.radix = 0 := by
    rw [counted, Words.add]
    simp only [Words.radix]
    omega
  refine ⟨lifetime, ?_, ?_⟩
  · intro short
    rw [lifetime, ← exact_]
    have below : total overcount trace < Words.radix := by
      simp only [Words.radix, maxSmall] at *
      omega
    rw [Nat.mod_eq_of_lt below]
  · intro first second w₁ split filled drained fills drains empty words
    exact drained_iff power start zero rfl filled drained fills drains
      (fun x member => disciplined x (by rw [split]; exact List.mem_append_right _ member))
      empty words

/-- A first request, and its release through the override. -/
theorem round_possible {n : Nat} (small : n ≤ maxSmall) : ∃ (a : SingleThreadAllocator)
    (m : ByteMemory) (trace : List (Transition World Event)) (w : World), FirstBuilt a m ∧
    Run (Step desktop) (World.start m a) trace w ∧
    (∀ x ∈ trace, NoWrap desktop x.before x.event) ∧ (∀ x ∈ trace, Disciplined x) ∧
    trace.length = 2 ∧ total requestedIn trace = 2 * n ∧
    total overcount trace = blockFor n - n ∧
    (n = blockFor n → ∀ x ∈ trace, ExactClass x) := by
  obtain ⟨a, m, h', built, _⟩ := SingleThreadAllocator.new_possible some none (fun _ => 0)
    Malloc.Heap.empty (Nat.dvd_zero _) (by decide) (fun b member => by cases member)
  have power : Words.PowerOfTwo desktop.maxAlign := ⟨4, by decide, rfl⟩
  have apart : ∀ i : SizeClass, some i ≠ none := fun i => Option.some_ne_none i
  obtain ⟨start, complete, _⟩ :=
    Consistent.start (P := desktop) (Option.some_injective _) apart built
  let i := sizeClassOf n small
  obtain ⟨b, rest, stocked⟩ : ∃ b rest, a.newLedger.free i = b :: rest := by
    refine List.exists_cons_of_ne_nil (List.ne_nil_of_length_pos ?_)
    simp [SingleThreadAllocator.newLedger, blocksPerSlab]
  obtain ⟨body, w₁, taken, consistent, _, _, client, sizes⟩ :=
    stocked_step power start small stocked
  have noWrap : NoWrap desktop (World.start m a) (.allocate n body true (.ok (some b))) :=
    fun large => absurd small (Nat.not_le.mpr large)
  have recorded := (step_grows start complete power noWrap (Or.inl rfl) taken).1
  have gained : w₁.client = Client.none.gainBlock i b := client.trans (dif_pos small)
  have requested : w₁.sizes b = n := by
    rw [sizes]
    simp [World.sizesAfter, small]
  have out : b ∈ w₁.client.held i := by
    rw [gained, Client.gainBlock_same]
    exact List.mem_cons_self
  have class_ : blockFor n = i.bytes := blockFor_eq small
  have inside : (Span.mk b (blockFor (w₁.sizes b))).Holds b := by
    rw [requested, class_]
    exact Span.Holds.base i.bytes_positive
  obtain ⟨classified, a₁, m₁, a₂, m₂, _, done, _⟩ :=
    (consistent.classified recorded).blocks i b out b inside
  rw [requested] at classified
  rw [classified, class_] at done
  rw [requested, class_] at inside
  have names : FreeForm.containing.Names ⟨b, i.bytes⟩ b := inside
  have freed : Step desktop w₁ (.free .containing b b i.bytes) _ :=
    .free out names i.bytes_le (sizeClassOf_bytes i).symm done
  refine ⟨a, m, _, _, ⟨h', built⟩, (Run.nil.snoc taken).snoc freed, ?_, ?_, rfl, ?_, ?_, ?_⟩
  · intro x member
    rcases List.mem_append.mp member with first | last
    · obtain rfl := List.mem_singleton.mp first
      exact noWrap
    · obtain rfl := List.mem_singleton.mp last
      trivial
  · intro x member
    rcases List.mem_append.mp member with first | last
    · obtain rfl := List.mem_singleton.mp first
      trivial
    · obtain rfl := List.mem_singleton.mp last
      exact Or.inr ⟨rfl, (classified.trans class_).symm, Nat.ne_of_gt i.bytes_positive⟩
  · simp [requestedIn, requested]
    omega
  · simp [overcount, requested, class_]
  · intro whole x member
    rcases List.mem_append.mp member with first | last
    · obtain rfl := List.mem_singleton.mp first
      trivial
    · obtain rfl := List.mem_singleton.mp last
      change w₁.sizes b = blockFor (w₁.sizes b)
      rw [requested]
      exact whole

/-- A request for 128 bytes, released through the override. -/
theorem requested_iff_first : ∃ (a : SingleThreadAllocator) (m : ByteMemory)
    (trace : List (Transition World Event)) (w : World), FirstBuilt a m ∧
    Run (Step desktop) (World.start m a) trace w ∧ trace.length = 2 ∧
    w.alloc.stats.requested = 256 := by
  obtain ⟨a, m, trace, w, ⟨h', built⟩, run, noWrap, disciplined, length, total, _, whole⟩ :=
    round_possible (n := 128) (by decide)
  have power : Words.PowerOfTwo desktop.maxAlign := ⟨4, by decide, rfl⟩
  have apart : ∀ i : SizeClass, some i ≠ none := fun i => Option.some_ne_none i
  refine ⟨a, m, trace, w, ⟨h', built⟩, run, length, ?_⟩
  rw [((requested_iff power (Option.some_injective _) apart built run noWrap disciplined).2.1
    (by rw [length]; decide)).mpr ⟨by rw [total]; decide, whole (by decide)⟩, total]

/-- A request for 100 bytes that is released through the override counts as 228. -/
theorem not_always_requested : ∃ (a : SingleThreadAllocator) (m : ByteMemory)
    (trace : List (Transition World Event)) (w : World), FirstBuilt a m ∧
    Run (Step desktop) (World.start m a) trace w ∧ (∀ x ∈ trace, Disciplined x) ∧
    w.alloc.stats.requested = 228 ∧ total requestedIn trace = 200 := by
  obtain ⟨a, m, trace, w, ⟨h', built⟩, run, noWrap, disciplined, _, requested, excess, _⟩ :=
    round_possible (n := 100) (by decide)
  have power : Words.PowerOfTwo desktop.maxAlign := ⟨4, by decide, rfl⟩
  have apart : ∀ i : SizeClass, some i ≠ none := fun i => Option.some_ne_none i
  obtain ⟨start, _, zero⟩ :=
    Consistent.start (P := desktop) (Option.some_injective _) apart built
  have zero : (World.start m a).alloc.stats = Stats.zero := zero
  have counted := requested_run power start (by rw [zero]; decide) run noWrap disciplined
  rw [zero, requested, excess] at counted
  exact ⟨a, m, trace, w, ⟨h', built⟩, run, disciplined, counted, requested⟩

end Main

end MemAlloc.AllocatorRuns
