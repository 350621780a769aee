import MemAlloc.GroundedRuns
import MemAlloc.OutRegions
import MemAlloc.UndisturbedRuns

set_option autoImplicit false

/- What the program relies on of the replaced operators: every pointer that is out names an
object of its own, which keeps its bytes until the pointer is deleted. -/
namespace MemAlloc.NewDelete

open Malloc (Heap Block)
open Runs (Run Transition)
open ByteMemory (SameInside)

/-- A pointer under the thread that asked for it and its origin. -/
structure Pointer where
  source : Nat × Origin
  address : Nat
deriving DecidableEq, Repr

namespace Pointer

/-- On whose behalf the memory behind the pointer is out. -/
def holder (p : Pointer) : Holder :=
  match p.source.2 with
  | .fallback => .outside .fallback
  | .overAligned _ => .outside .overAligned
  | _ => .thread p.source.1

def start (p : Pointer) : Nat := (p.source.2.raw p.address).getD p.address

theorem holder_allocator {p : Pointer} (allocator : p.source.2.raw 0 = none) :
    p.holder = .thread p.source.1 := by
  obtain ⟨⟨t, o⟩, address⟩ := p
  cases o with
  | pool n => rfl
  | arena => rfl
  | fallback => cases allocator
  | overAligned raw => cases allocator

theorem holder_thread {p : Pointer} {t : Nat} (held : p.holder = .thread t) :
    p.source.2.raw 0 = none ∧ p.source.1 = t := by
  obtain ⟨⟨u, o⟩, address⟩ := p
  cases o with
  | pool n => exact ⟨rfl, Holder.thread.inj held⟩
  | arena => exact ⟨rfl, Holder.thread.inj held⟩
  | fallback => cases held
  | overAligned raw => cases held

theorem holder_program (p : Pointer) : p.holder ≠ .outside .program := by
  obtain ⟨⟨u, o⟩, address⟩ := p
  cases o <;> simp [holder]

theorem start_allocator {p : Pointer} (allocator : p.source.2.raw 0 = none) :
    p.start = p.address := by
  obtain ⟨⟨t, o⟩, address⟩ := p
  cases o with
  | pool n => rfl
  | arena => rfl
  | fallback => cases allocator
  | overAligned raw => cases allocator

end Pointer

def pointersOf (objects : List (Object Pointer)) (source : Nat × Origin) : List Nat :=
  (objects.filter (fun x => decide (x.key.source = source))).map (fun x => x.key.address)

section Pointers

variable {objects : List (Object Pointer)} {x : Object Pointer} {source : Nat × Origin} {p : Nat}

theorem pointersOf_cons_same (same : x.key.source = source) :
    pointersOf (x :: objects) source = x.key.address :: pointersOf objects source := by
  simp [pointersOf, same]

theorem pointersOf_cons_other (different : x.key.source ≠ source) :
    pointersOf (x :: objects) source = pointersOf objects source := by
  simp [pointersOf, different]

theorem pointersOf_erase (listed : x ∈ objects) :
    (pointersOf objects source).Perm (pointersOf (x :: objects.erase x) source) :=
  ((List.perm_cons_erase listed).filter _).map _

theorem mem_pointersOf (out : p ∈ pointersOf objects source) :
    ∃ x ∈ objects, x.key = ⟨source, p⟩ := by
  obtain ⟨x, kept, rfl⟩ := List.mem_map.mp out
  obtain ⟨listed, same⟩ := List.mem_filter.mp kept
  refine ⟨x, listed, ?_⟩
  rw [← of_decide_eq_true same]

end Pointers

/-- The pointer was served by an allocator that is gone, and its memory with it. -/
def Lost (s : Sys) (source : Nat × Origin) : Prop :=
  source.2.raw 0 = none ∧ s.threads source.1 = .exited

/-- The objects are those of the pointers that are out, but for the lost ones, each in a region
of its own that starts where the pointer says. -/
structure Represents (s : Sys) (issued : Nat × Origin → List Nat)
    (store : ObjectStore Pointer) : Prop where
  follows : ObjectStore.Follows Pointer.holder s.Out s.mem store
  listed : ∀ source, ¬ Lost s source → (pointersOf store.objects source).Perm (issued source)
  start : ∀ x ∈ store.objects, x.span.base = x.key.start

namespace Represents

variable {s s' : Sys} {issued : Nat × Origin → List Nat} {store : ObjectStore Pointer}
  {x : Object Pointer} {source : Nat × Origin} {p : Nat}

theorem initial (m : ByteMemory) (h : Heap Owner) :
    Represents (Sys.initial m h) (fun _ => []) ⟨[], m⟩ :=
  ⟨⟨rfl, List.Pairwise.nil, fun x member => by cases member⟩, fun _ _ => List.Perm.nil,
    fun x member => by cases member⟩

theorem find (represents : Represents s issued store) (out : p ∈ issued source)
    (kept : ¬ Lost s source) : ∃ x ∈ store.objects, x.key = ⟨source, p⟩ :=
  mem_pointersOf ((represents.listed source kept).mem_iff.mpr out)

/-- The objects are the same. -/
theorem keep (represents : Represents s issued store)
    (follows : ObjectStore.Follows Pointer.holder s'.Out s'.mem ⟨store.objects, s'.mem⟩)
    (lost : ∀ u, s.threads u = .exited → s'.threads u = .exited) :
    Represents s' issued ⟨store.objects, s'.mem⟩ :=
  ⟨follows, fun source kept => represents.listed source fun gone => kept ⟨gone.1, lost _ gone.2⟩,
    represents.start⟩

/-- A pointer is returned. -/
theorem issue (represents : Represents s issued store)
    (follows : ObjectStore.Follows Pointer.holder s'.Out s'.mem ⟨x :: store.objects, s'.mem⟩)
    (begins : x.span.base = x.key.start)
    (lost : ∀ u, s.threads u = .exited → s'.threads u = .exited) :
    Represents s' (Function.update issued x.key.source (x.key.address :: issued x.key.source))
      ⟨x :: store.objects, s'.mem⟩ := by
  refine ⟨follows, ?_, List.forall_mem_cons.mpr ⟨begins, represents.start⟩⟩
  intro source kept
  have before := represents.listed source fun gone => kept ⟨gone.1, lost _ gone.2⟩
  by_cases same : x.key.source = source
  · subst same
    rw [Function.update_self, pointersOf_cons_same rfl]
    exact before.cons _
  · rw [Function.update_of_ne (Ne.symm same), pointersOf_cons_other same]
    exact before

/-- A pointer is deleted. -/
theorem retire (represents : Represents s issued store) (member : x ∈ store.objects)
    (follows : ObjectStore.Follows Pointer.holder s'.Out s'.mem
      ⟨store.objects.erase x, s'.mem⟩)
    (lost : ∀ u, s.threads u = .exited → s'.threads u = .exited) :
    Represents s' (Function.update issued x.key.source ((issued x.key.source).erase x.key.address))
      ⟨store.objects.erase x, s'.mem⟩ := by
  refine ⟨follows, ?_, fun y left => represents.start y (List.mem_of_mem_erase left)⟩
  intro source kept
  have before := represents.listed source fun gone => kept ⟨gone.1, lost _ gone.2⟩
  have split := (pointersOf_erase member).symm.trans before
  by_cases same : x.key.source = source
  · subst same
    rw [pointersOf_cons_same rfl] at split
    rw [Function.update_self]
    have rest := List.perm_cons_erase (split.mem_iff.mp List.mem_cons_self)
    exact (split.trans rest).cons_inv
  · rw [pointersOf_cons_other same] at split
    rw [Function.update_of_ne (Ne.symm same)]
    exact split

end Represents

section Steps

variable {P : Platform} {w w' : NewDelete} {store : ObjectStore Pointer} {t n p : Nat}
  {x : Except Exn (Option Nat)} {r : Replies}

/-- How a request ends: a new object of its thread that holds the bytes asked for, or none. -/
inductive Answered (store : ObjectStore Pointer) (t n : Nat) (w' : NewDelete) :
    Except Exn (Option Nat) → Prop
  | object {y : Object Pointer} (thread : y.key.source.1 = t)
      (covers : (Span.mk y.key.address n).Inside y.span)
      (taken : ObjectStore.Step store (.allocate y) ⟨y :: store.objects, w'.sys.mem⟩)
      (represents : Represents w'.sys w'.issued ⟨y :: store.objects, w'.sys.mem⟩) :
      Answered store t n w' (.ok (some y.key.address))
  | none {x : Except Exn (Option Nat)} (nothing : ∀ p, x ≠ .ok (some p))
      (taken : ObjectStore.Step store .other ⟨store.objects, w'.sys.mem⟩)
      (represents : Represents w'.sys w'.issued ⟨store.objects, w'.sys.mem⟩) :
      Answered store t n w' x

theorem Answered.shorter {k : Nat} (answered : Answered store t n w' x) (le : k ≤ n) :
    Answered store t k w' x := by
  cases answered with
  | object thread covers taken represents =>
      exact .object thread ((Span.Inside.shorter le _).trans covers) taken represents
  | none nothing taken represents => exact .none nothing taken represents

theorem malloc_moves {use : Use} {reply answer : Option Nat} (power : Words.PowerOfTwo P.maxAlign)
    (sys : SysInv w.sys) (done : w.malloc P use n reply = (answer, w')) :
    ∃ h, w' = { w with sys := w.sys.setHeap h } ∧ SysInv (w.sys.setHeap h) ∧
      ((answer = none ∧
        Regions.Moves w.sys.Out (w.sys.setHeap h).Out w.sys.mem w.sys.mem .stay) ∨
      ∃ p, answer = some p ∧ Regions.Moves w.sys.Out (w.sys.setHeap h).Out w.sys.mem w.sys.mem
        (.gain (.outside use) (Heap.request p n))) := by
  unfold malloc at done
  cases called : w.sys.shared.heap.malloc (.outside use) P.mallocAlign n reply with
  | mk given h =>
      rw [called] at done
      cases done
      have taken : Sys.Step P w.sys (.malloc use n given) (w.sys.setHeap h) := .malloc called
      have sums : w.sys.NoWrap P (.malloc use n given) := trivial
      obtain ⟨move, does, moves⟩ := taken.moves power sys sums trivial
      refine ⟨h, rfl, sys.next power sums trivial taken, ?_⟩
      cases does with
      | returned returned => cases returned
      | noMemory => exact Or.inl ⟨rfl, moves⟩
      | malloc => exact Or.inr ⟨_, rfl, moves⟩

/-- A node of the registry is no object. -/
theorem follows_record (power : Words.PowerOfTwo P.maxAlign) (sys : SysInv w.sys)
    (follows : ObjectStore.Follows Pointer.holder w.sys.Out w.sys.mem store)
    (reply : Option Nat) (p : Nat) :
    ∃ h recs, w.recordMallocPtr P reply p =
        { w with sys := w.sys.setHeap h, mallocRecs := recs } ∧
      ObjectStore.Follows Pointer.holder (w.sys.setHeap h).Out w.sys.mem
        ⟨store.objects, w.sys.mem⟩ := by
  rw [recordMallocPtr]
  cases answer : w.malloc P .node mallocRecBytes reply with
  | mk result w₁ =>
      obtain ⟨h, rfl, _, ⟨rfl, moves⟩ | ⟨q, rfl, moves⟩⟩ := malloc_moves power sys answer
      · exact ⟨h, w.mallocRecs, rfl, (follows.stay moves).2⟩
      · exact ⟨h, _, rfl, (follows.pass moves).2⟩

theorem Represents.fallbackNew (power : Words.PowerOfTwo P.maxAlign) (sys : SysInv w.sys)
    (represents : Represents w.sys w.issued store)
    (done : w.fallbackNew P r t n = (x, w')) : Answered store t n w' x := by
  rw [NewDelete.fallbackNew] at done
  cases granted : w.malloc P .fallback n r.block with
  | mk result w₁ =>
      rw [granted] at done
      obtain ⟨h, rfl, sys', ⟨rfl, moves⟩ | ⟨p, rfl, moves⟩⟩ := malloc_moves power sys granted
      · obtain ⟨taken, follows⟩ := represents.follows.stay moves
        obtain ⟨h', recs, same, follows'⟩ := follows_record
          (w := { w with sys := w.sys.setHeap h }) power sys' follows r.node 0
        simp only [same] at done
        cases done
        exact .none (fun p equal => by cases equal) taken
          (represents.keep follows' (fun _ gone => gone))
      · obtain ⟨taken, follows⟩ := represents.follows.gain moves ⟨(t, .fallback), p⟩ rfl
        obtain ⟨h', recs, same, follows'⟩ := follows_record
          (w := { w with sys := w.sys.setHeap h }) power sys' follows r.node p
        simp only [same] at done
        cases done
        have covers : (Span.mk p n).Inside (Heap.request p n) :=
          Span.Inside.shorter (Nat.le_max_left n 1) p
        exact .object (y := ⟨⟨(t, .fallback), p⟩, Heap.request p n⟩) rfl covers taken
          (represents.issue follows' rfl (fun _ gone => gone))

theorem Represents.bootstrapAlignedNew {alignment : Nat} (power : Words.PowerOfTwo P.maxAlign)
    (power' : Words.PowerOfTwo alignment) (sys : SysInv w.sys)
    (represents : Represents w.sys w.issued store) (word : n + alignment < Words.radix)
    (done : w.bootstrapAlignedNew P r t n alignment = (x, w')) : Answered store t n w' x := by
  rw [NewDelete.bootstrapAlignedNew, Words.add_of_lt word] at done
  cases granted : w.malloc P .overAligned (n + alignment) r.block with
  | mk result w₁ =>
      rw [granted] at done
      obtain ⟨h, rfl, _, ⟨rfl, moves⟩ | ⟨raw, rfl, moves⟩⟩ := malloc_moves power sys granted
      · obtain ⟨taken, follows⟩ := represents.follows.stay moves
        cases done
        exact .none (fun p equal => by cases equal) taken
          (represents.keep follows (fun _ gone => gone))
      · obtain ⟨h', _, fresh, _⟩ := of_malloc_some granted
        have room : raw + max (n + alignment) 1 ≤ 9223372036854775808 := fresh.2.2.1
        have align := Words.alignUp_spec (x := raw) power' (by
          simp only [Words.radix]
          omega)
        have covers : (Span.mk (Words.alignUp raw alignment) n).Inside
            (Heap.request raw (n + alignment)) := by
          refine ⟨align.1, ?_⟩
          change Words.alignUp raw alignment + n ≤ raw + max (n + alignment) 1
          omega
        obtain ⟨taken, follows⟩ := represents.follows.gain moves
          ⟨(t, .overAligned raw), Words.alignUp raw alignment⟩ rfl
        cases done
        exact .object
          (y := ⟨⟨(t, .overAligned raw), Words.alignUp raw alignment⟩,
            Heap.request raw (n + alignment)⟩) rfl covers taken
          (represents.issue follows rfl (fun _ gone => gone))

/-- What the allocator serves is a new object of the thread. -/
theorem Represents.issueServed {o : Origin} {sys' : Sys} {served : Except Exn (Option Nat)}
    (represents : Represents w.sys w.issued store) (allocator : o.raw 0 = none)
    (lost : ∀ u, w.sys.threads u = .exited → sys'.threads u = .exited)
    (gains : ∀ p, served = .ok (some p) → ∃ q : Span, q.base = p ∧ n ≤ q.size ∧
      Regions.Moves w.sys.Out sys'.Out w.sys.mem sys'.mem (.gain (.thread t) q))
    (stays : (∀ p, served ≠ .ok (some p)) →
      Regions.Moves w.sys.Out sys'.Out w.sys.mem sys'.mem .stay)
    (done : ({ w with sys := sys' } : NewDelete).issueServed (t, o) served = (x, w')) :
    Answered store t n w' x := by
  unfold NewDelete.issueServed at done
  split at done
  · rename_i p
    obtain ⟨q, rfl, size, moves⟩ := gains p rfl
    obtain ⟨taken, follows⟩ := represents.follows.gain moves ⟨(t, o), q.base⟩
      (Pointer.holder_allocator allocator)
    cases done
    exact .object (y := ⟨⟨(t, o), q.base⟩, q⟩) rfl (Span.Inside.shorter size q.base) taken
      (represents.issue follows (Pointer.start_allocator (p := ⟨(t, o), q.base⟩) allocator).symm
        lost)
  · rename_i nothing
    obtain ⟨taken, follows⟩ := represents.follows.stay (stays nothing)
    cases done
    refine .none (fun p equal => ?_) taken (represents.keep follows lost)
    unfold orBadAlloc at equal
    split at equal
    · cases equal
    · exact nothing p equal

theorem Origin.ofSize_allocator (n : Nat) : (Origin.ofSize n).raw 0 = none := by
  unfold Origin.ofSize
  split <;> rfl

theorem exited_update {s : Sys} {thread : Thread} (live : s.threads t ≠ .exited) (u : Nat)
    (gone : s.threads u = .exited) : Function.update s.threads t thread u = .exited := by
  have different : u ≠ t := by
    rintro rfl
    exact live gone
  rw [Function.update_of_ne different, gone]

theorem Represents.poolNew {pool : ThreadPoolAlloc} {client : Client}
    (power : Words.PowerOfTwo P.maxAlign) (sys : SysInv w.sys)
    (represents : Represents w.sys w.issued store) (word : n < Words.radix)
    (noWrap : maxSmall < n → pool.alloc.arena.NoWrap n P.maxAlign)
    (live : w.sys.threads t = .live pool client)
    (done : w.poolNew P r t n pool client = (x, w')) : Answered store t n w' x := by
  rw [NewDelete.poolNew] at done
  generalize called : pool.allocate P (acquireChunkCb P t r.chunk true) true n w.sys.shared
    w.sys.mem = answer at done
  obtain ⟨x₁, pool', g', m'⟩ := answer
  have sums : w.sys.NoWrap P (.allocate t n x₁) := by
    intro large pool₁ client₁ live₁
    rw [live] at live₁
    cases live₁
    exact noWrap large
  obtain ⟨move, does, moves⟩ :=
    (Sys.Step.allocate live word called).moves power sys sums trivial
  refine represents.issueServed (Origin.ofSize_allocator n)
    (exited_update (by rw [live]; simp)) ?_ ?_ done
  · rintro p rfl
    cases does with
    | returned returned =>
        cases returned
        have size := (Sys.Event.Returns.allocate (t := t) (n := n) (p := p)).size
        exact ⟨_, rfl, size, moves⟩
    | refused nothing => exact absurd rfl (nothing p)
  · intro nothing
    cases does with
    | returned returned =>
        cases returned
        exact absurd rfl (nothing _)
    | refused _ => exact moves

theorem Represents.poolAlignedNew {alignment : Nat} {pool : ThreadPoolAlloc} {client : Client}
    (power : Words.PowerOfTwo P.maxAlign) (power' : Words.PowerOfTwo alignment)
    (sys : SysInv w.sys) (represents : Represents w.sys w.issued store) (positive : 1 ≤ n)
    (word : n < Words.radix) (noWrap : pool.alloc.arena.NoWrap n alignment)
    (live : w.sys.threads t = .live pool client)
    (done : w.poolAlignedNew t n alignment pool client = (x, w')) : Answered store t n w' x := by
  rw [NewDelete.poolAlignedNew] at done
  generalize called : pool.allocateAligned n alignment = answer at done
  obtain ⟨y, pool'⟩ := answer
  have sums : w.sys.NoWrap P (.allocateAligned t n alignment y) := by
    intro pool₁ client₁ live₁
    rw [live] at live₁
    cases live₁
    exact noWrap
  obtain ⟨move, does, moves⟩ :=
    (Sys.Step.allocateAligned live word power' called).moves power sys sums positive
  refine represents.issueServed rfl (exited_update (by rw [live]; simp)) ?_ ?_ done
  · intro p same
    obtain rfl : y = some p := Except.ok.inj same
    cases does with
    | returned returned =>
        cases returned
        exact ⟨_, rfl, Nat.le_refl n, moves⟩
  · intro nothing
    cases does with
    | returned returned =>
        cases returned
        exact absurd rfl (nothing _)
    | refusedAligned => exact moves

theorem size_le (n : Nat) : n ≤ (if n = 0 then 1 else n) := by
  split <;> omega

theorem Represents.doNew {active : Bool} (power : Words.PowerOfTwo P.maxAlign)
    (sys : SysInv w.sys) (represents : Represents w.sys w.issued store) (word : n < Words.radix)
    (noWrap : w.NewNoWrap P active t n) (done : w.doNew P r active t n = some (x, w')) :
    Answered store t n w' x := by
  rw [NewDelete.doNew] at done
  have fits : (if n = 0 then 1 else n) < Words.radix ∧
      (maxSmall < (if n = 0 then 1 else n) → maxSmall < n ∧ (if n = 0 then 1 else n) = n) := by
    split
    · exact ⟨by decide, fun large => absurd large (by decide)⟩
    · exact ⟨word, fun large => ⟨large, rfl⟩⟩
  have covers := size_le n
  generalize (if n = 0 then 1 else n) = size at done fits covers
  split at done
  · exact (represents.fallbackNew power sys (Option.some.inj done)).shorter covers
  · rename_i serves
    split at done
    · rename_i pool client live
      refine (represents.poolNew power sys fits.1 ?_ live (Option.some.inj done)).shorter covers
      intro large
      obtain ⟨large', same⟩ := fits.2 large
      rw [same]
      exact noWrap large' (Bool.not_eq_true _ ▸ serves) _ _ live
    · cases done

theorem Represents.doAlignedNew {active : Bool} {alignment : Nat}
    (power : Words.PowerOfTwo P.maxAlign) (power' : Words.PowerOfTwo alignment)
    (sys : SysInv w.sys) (represents : Represents w.sys w.issued store) (word : n < Words.radix)
    (noWrap : w.NoWrap P (.alignedNew t n alignment active x))
    (done : w.doAlignedNew P r active t n alignment = some (x, w')) :
    Answered store t n w' x := by
  rw [NewDelete.doAlignedNew] at done
  rw [NoWrap] at noWrap
  have fits : 1 ≤ (if n = 0 then 1 else n) ∧ (if n = 0 then 1 else n) < Words.radix := by
    split
    · exact ⟨Nat.le_refl _, by decide⟩
    · exact ⟨by omega, word⟩
  have covers := size_le n
  generalize (if n = 0 then 1 else n) = k at done fits noWrap covers
  refine Answered.shorter ?_ covers
  split at done
  · rename_i plain
    exact represents.doNew power sys fits.2 (by simpa only [plain, ↓reduceIte] using noWrap) done
  · rename_i strict
    simp only [strict, ↓reduceIte] at noWrap
    split at done
    · rename_i falls
      exact represents.bootstrapAlignedNew power power' sys
        (by simpa only [falls, ↓reduceIte] using noWrap) (Option.some.inj done)
    · rename_i serves
      simp only [serves, Bool.false_eq_true, ↓reduceIte] at noWrap
      split at done
      · rename_i pool client live
        exact represents.poolAlignedNew power power' sys fits.1 fits.2 (noWrap _ _ live) live
          (Option.some.inj done)
      · cases done

end Steps

/-- The call returned a pointer to `n` bytes on thread `t`. -/
inductive Event.Serves : Event → Nat → Nat → Nat → Prop
  | new {t n p : Nat} {nested : Bool} : Serves (.new t n nested (.ok (some p))) t n p
  | alignedNew {t n alignment p : Nat} {nested : Bool} :
      Serves (.alignedNew t n alignment nested (.ok (some p))) t n p

/-- The call neither returns nor deletes a pointer, ends no thread and writes nothing. -/
def Event.Quiet : Event → Prop
  | .new _ _ _ x => ∀ p, x ≠ .ok (some p)
  | .alignedNew _ _ _ _ x => ∀ p, x ≠ .ok (some p)
  | .delete _ _ _ _ | .exit _ | .write _ _ => False
  | _ => True

def Event.wrote : Event → Option (Nat × UInt8)
  | .write a b => some (a, b)
  | _ => none

/-- What the program sees of a call. A pointer that is deleted once its memory is gone is no
object any more. -/
inductive Shows (w : NewDelete) : Event → ObjectStore.Event Pointer → Prop
  | served {e : Event} {t n : Nat} {y : Object Pointer} (serves : e.Serves t n y.key.address)
      (thread : y.key.source.1 = t) (covers : (Span.mk y.key.address n).Inside y.span) :
      Shows w e (.allocate y)
  | deleted {t p : Nat} {source : Nat × Origin} {freed : Option (List Nat)} {y : Object Pointer}
      (named : y.key = ⟨source, p⟩) : Shows w (.delete t p source freed) (.release y)
  | late {t p : Nat} {source : Nat × Origin} {freed : Option (List Nat)}
      (lost : Lost w.sys source) : Shows w (.delete t p source freed) .other
  | exit {t : Nat} :
      Shows w (.exit t) (.expire (fun key : Pointer => decide (key.holder = .thread t)))
  | write {a : Nat} {b : UInt8} : Shows w (.write a b) (.write a b)
  | quiet {e : Event} (quiet : e.Quiet) : Shows w e .other

theorem Shows.wrote {w : NewDelete} {e : Event} {d : ObjectStore.Event Pointer}
    (shows : Shows w e d) : d.wrote = e.wrote := by
  cases shows with
  | served serves thread covers => cases serves <;> rfl
  | quiet quiet =>
      cases e with
      | write a b => exact quiet.elim
      | _ => rfl
  | _ => rfl

section Deletes

variable {P : Platform} {w w' : NewDelete} {store : ObjectStore Pointer} {t p : Nat}
  {source : Nat × Origin} {freed : Option (List Nat)} {y : Object Pointer} {s' : Sys}

/-- How a deletion ends. -/
def Forgotten (w : NewDelete) (store : ObjectStore Pointer) (e : Event) (source : Nat × Origin)
    (p : Nat) (s' : Sys) : Prop :=
  ∃ d store', Shows w e d ∧ ObjectStore.Step store d store' ∧ Represents s'
    (Function.update w.issued source ((w.issued source).erase p)) store'

theorem Represents.drop (represents : Represents w.sys w.issued store)
    (out : p ∈ w.issued source) :
    Forgotten w store (.delete t p source freed) source p w.sys := by
  by_cases gone : Lost w.sys source
  · refine ⟨.other, store, .late gone, .other (SameInside.refl _ _), represents.follows, ?_,
      represents.start⟩
    intro other kept
    have different : other ≠ source := by
      rintro rfl
      exact kept gone
    rw [Function.update_of_ne different]
    exact represents.listed other kept
  · obtain ⟨y, listed, named⟩ := represents.find out gone
    obtain ⟨taken, follows⟩ := represents.follows.drop listed
    have after := represents.retire listed follows (fun _ gone => gone)
    rw [named] at after
    exact ⟨_, _, .deleted named, taken, after⟩

/-- The memory goes back. -/
theorem Represents.release {k : Holder} {q : Span} (represents : Represents w.sys w.issued store)
    (listed : y ∈ store.objects) (named : y.key = ⟨source, p⟩)
    (moves : Regions.Moves w.sys.Out s'.Out w.sys.mem s'.mem (.lose k q)) (region : y.span = q)
    (nonempty : 0 < q.size) (lost : ∀ u, w.sys.threads u = .exited → s'.threads u = .exited) :
    Forgotten w store (.delete t p source freed) source p s' := by
  obtain ⟨taken, follows⟩ := represents.follows.lose moves listed region nonempty
  have after := represents.retire listed follows lost
  rw [named] at after
  exact ⟨_, _, .deleted named, taken, after⟩

/-- A block of the C heap goes back, and with it the object that lies in it. -/
theorem Represents.mfree {use : Use} {b : Nat} (represents : Represents w.sys w.issued store)
    (block : Outstanding w.sys.shared.heap use b) (out : p ∈ w.issued source)
    (holder : (Pointer.mk source p).holder = .outside use)
    (begins : (Pointer.mk source p).start = b) :
    Forgotten w store (.delete t p source freed) source p
      (w.sys.setHeap (w.sys.shared.heap.free b)) := by
  have kept : ¬ Lost w.sys source := by
    rintro ⟨allocator, _⟩
    rw [Pointer.holder_allocator (p := ⟨source, p⟩) allocator] at holder
    cases holder
  obtain ⟨y, listed, named⟩ := represents.find out kept
  obtain ⟨c, member, owner, rfl⟩ := block
  have region := represents.follows.out y listed
  rw [named, holder] at region
  obtain ⟨d, member', owner', same⟩ := region
  have base := represents.start y listed
  rw [named, begins, same] at base
  obtain rfl := Heap.eq_of_base member' member base
  have nonempty := (w.sys.shared.heap.bounded d member).2.1
  exact represents.release listed named (Sys.moves_mfree member owner) same nonempty
    (fun _ gone => gone)

/-- A block of a live thread goes back to its pool. -/
theorem Represents.pooled {m : Nat} {pool pool' : ThreadPoolAlloc} {client : Client}
    {m' : ByteMemory} (power : Words.PowerOfTwo P.maxAlign) (sys : SysInv w.sys)
    (represents : Represents w.sys w.issued store) (live : w.sys.threads t = .live pool client)
    (small : m ≤ maxSmall) (held : p ∈ client.held (sizeClassOf m small))
    (out : p ∈ w.issued (t, .pool m))
    (done : pool.deallocateContaining w.sys.mem p (sizeClassOf m small).bytes =
      .ok (pool', m')) :
    Forgotten w store (.delete t p (t, .pool m) freed) (t, .pool m) p
      { w.sys.setThread t (.live pool' (client.release (sizeClassOf m small) p)) with
        mem := m' } := by
  have kept : ¬ Lost w.sys (t, .pool m) := by
    rintro ⟨_, gone⟩
    rw [live] at gone
    cases gone
  obtain ⟨y, listed, named⟩ := represents.find out kept
  have first : (Span.mk p (sizeClassOf m small).bytes).Holds p :=
    Span.Holds.base (SizeClass.bytes_positive _)
  have sums : w.sys.NoWrap P (.free t .containing p (sizeClassOf m small).bytes) := trivial
  have names : SingleThreadAllocator.FreeForm.containing.Names
      ⟨p, (sizeClassOf m small).bytes⟩ p := first
  have taken : Sys.Step P w.sys (.free t .containing p (sizeClassOf m small).bytes) _ :=
    .free live held names done
  obtain ⟨move, does, moves⟩ := taken.moves power sys sums trivial
  cases does with
  | returned returned => cases returned
  | @free _ _ _ _ q names =>
      have region := represents.follows.out y listed
      rw [named] at region
      have begins : y.span.base = p := by
        rw [represents.start y listed, named]
        rfl
      have nonempty := Sys.out_nonempty sys region
      have mine : y.span.Holds p := begins ▸ Span.Holds.base nonempty
      have given : q.Holds p := names
      have lost : w.sys.Out (.thread t) q := by
        cases moves with
        | lose lost _ _ => exact lost
      have same : y.span = q := by
        rcases Sys.out_disjoint sys _ _ _ _ region lost with ⟨_, same⟩ | apart
        · exact same
        · exact absurd given (apart.not_holds mine)
      exact represents.release listed named moves same (same ▸ nonempty)
        (exited_update (by rw [live]; simp))

theorem Deleted.issued {freed : List Nat} (deleted : Deleted w t p freed w') :
    w'.issued = w.issued := by
  cases deleted <;> rfl

/-- Every way in which `do_delete` ends forgets the pointer and no other one. -/
theorem Represents.deleted {freed : List Nat} (power : Words.PowerOfTwo P.maxAlign)
    (placed : Placed w) (represents : Represents w.sys w.issued store) (out : p ∈ w.issued source)
    (clear : w.Undisturbed (.delete t p source (some freed)))
    (deleted : Deleted w t p freed w') :
    Forgotten w store (.delete t p source (some freed)) source p w'.sys := by
  obtain ⟨u, o⟩ := source
  have right := placed.unambiguous out clear
  cases deleted with
  | null null => exact represents.drop out
  | ignored consults absent => exact represents.drop out
  | arena ready live unstashed classified => exact represents.drop out
  | registered consults member =>
      obtain rfl : o = .fallback := right.2 consults member
      exact represents.mfree (placed.inv.backed.plain u p out) out rfl rfl
  | @stashed e before after split payload =>
      have member : e ∈ w.alignedScratch t := by
        rw [split]
        exact List.mem_append_right _ List.mem_cons_self
      obtain rfl : o = .overAligned e.raw := right.1 e member payload
      exact represents.mfree (placed.inv.backed.raw t e member) out rfl rfl
  | @pool pool pool' client m' ready live unstashed known small done =>
      obtain ⟨rfl, n, rfl⟩ := placed.pooled live out clear unstashed known small
      obtain ⟨fits, held, classified⟩ := (placed.classified live out).1 n rfl
      obtain ⟨free, thread⟩ := placed.sound.sys.live t pool client live
      rw [classified] at done ⊢
      rw [releaseAt_held thread held]
      exact represents.pooled power placed.sound.sys live fits held out done

end Deletes

section Run

variable {P : Platform} {w w' : NewDelete} {store : ObjectStore Pointer} {e : Event} {t : Nat}

theorem Answered.shows {n : Nat} {x : Except Exn (Option Nat)}
    (answered : Answered store t n w' x)
    (serves : ∀ p, x = .ok (some p) → e.Serves t n p)
    (quiet : (∀ p, x ≠ .ok (some p)) → e.Quiet) :
    ∃ d store', Shows w e d ∧ ObjectStore.Step store d store' ∧
      Represents w'.sys w'.issued store' := by
  cases answered with
  | object thread covers taken represents =>
      exact ⟨_, _, .served (serves _ rfl) thread covers, taken, represents⟩
  | none nothing taken represents => exact ⟨_, _, .quiet (quiet nothing), taken, represents⟩

/-- The start of a thread, and its failure, concern no object. -/
theorem Represents.started {x : Except Exn Unit} {sys' : Sys} (power : Words.PowerOfTwo P.maxAlign)
    (sys : SysInv w.sys) (represents : Represents w.sys w.issued store)
    (taken : Sys.Step P w.sys (.start t x) sys') :
    ObjectStore.Step store .other ⟨store.objects, sys'.mem⟩ ∧
      Represents sys' w.issued ⟨store.objects, sys'.mem⟩ := by
  have sums : w.sys.NoWrap P (.start t x) := trivial
  obtain ⟨move, does, moves⟩ := taken.moves power sys sums trivial
  have lost : ∀ u, w.sys.threads u = .exited → sys'.threads u = .exited := by
    cases taken with
    | start unborn done => exact exited_update (by rw [unborn]; simp)
    | startFails unborn done => exact fun _ gone => gone
  cases does with
  | returned returned => cases returned
  | start =>
      obtain ⟨shown, follows⟩ := represents.follows.stay moves
      exact ⟨shown, represents.keep follows lost⟩

/-- With a thread go the objects that its allocator has served. -/
theorem Represents.exit {sys' : Sys} (power : Words.PowerOfTwo P.maxAlign) (sys : SysInv w.sys)
    (represents : Represents w.sys w.issued store) (taken : Sys.Step P w.sys (.exit t) sys') :
    ∃ d store', Shows w (.exit t) d ∧ ObjectStore.Step store d store' ∧
      Represents sys' w.issued store' := by
  have sums : w.sys.NoWrap P (.exit t) := trivial
  obtain ⟨move, does, moves⟩ := taken.moves power sys sums trivial
  have threads : sys'.threads = Function.update w.sys.threads t .exited := by
    cases taken with
    | exit live => rfl
  cases does with
  | returned returned => cases returned
  | exit =>
      obtain ⟨shown, follows⟩ := represents.follows.expire moves
      refine ⟨_, _, .exit, shown, follows, ?_, ?_⟩
      · intro source kept
        have stays : ¬ Lost w.sys source := by
          rintro ⟨allocator, gone⟩
          refine kept ⟨allocator, ?_⟩
          rw [threads]
          by_cases same : source.1 = t
          · rw [same, Function.update_self]
          · rw [Function.update_of_ne same, gone]
        -- no object of the source goes, since its thread is another one
        have others : ∀ x : Object Pointer, x.key.source = source →
            decide (x.key.holder = .thread t) = false := by
          rintro x rfl
          refine decide_eq_false (fun held => kept ?_)
          obtain ⟨allocator, same⟩ := Pointer.holder_thread held
          refine ⟨allocator, ?_⟩
          rw [threads, same, Function.update_self]
        have same : pointersOf (store.objects.filter
            (fun x => !decide (x.key.holder = .thread t))) source =
              pointersOf store.objects source := by
          rw [pointersOf, pointersOf, List.filter_filter]
          refine congrArg (List.map _) (List.filter_congr fun x _ => ?_)
          by_cases mine : x.key.source = source
          · simp [mine, others x mine]
          · simp [mine]
        rw [same]
        exact represents.listed source stays
      · exact fun x listed => represents.start x (List.mem_filter.mp listed).1

/-- What the program asks of the C heap itself is no object. -/
theorem Represents.malloc {n : Nat} {reply answer : Option Nat}
    (power : Words.PowerOfTwo P.maxAlign) (sys : SysInv w.sys)
    (represents : Represents w.sys w.issued store)
    (done : w.malloc P .program n reply = (answer, w')) :
    ObjectStore.Step store .other ⟨store.objects, w'.sys.mem⟩ ∧
      Represents w'.sys w'.issued ⟨store.objects, w'.sys.mem⟩ := by
  obtain ⟨h, rfl, _, ⟨rfl, moves⟩ | ⟨p, rfl, moves⟩⟩ := malloc_moves power sys done
  · obtain ⟨shown, follows⟩ := represents.follows.stay moves
    exact ⟨shown, represents.keep follows (fun _ gone => gone)⟩
  · obtain ⟨shown, follows⟩ := represents.follows.pass moves
    exact ⟨shown, represents.keep follows (fun _ gone => gone)⟩

theorem Represents.programFree {b : Block Owner} (sys : SysInv w.sys)
    (represents : Represents w.sys w.issued store) (member : b ∈ w.sys.shared.heap.blocks)
    (owner : b.owner = .outside .program) :
    ObjectStore.Step store .other ⟨store.objects, w.sys.mem⟩ ∧
      Represents (w.safeFree b.span.base).sys w.issued ⟨store.objects, w.sys.mem⟩ := by
  have nonempty := (w.sys.shared.heap.bounded b member).2.1
  have mine : w.sys.Out (.outside .program) b.span := ⟨b, member, owner, rfl⟩
  have away : ∀ x ∈ store.objects, b.span.Apart x.span := by
    intro x listed
    have region := represents.follows.out x listed
    rcases Sys.out_disjoint sys _ _ _ _ mine region with ⟨same, _⟩ | apart
    · exact absurd same.symm x.key.holder_program
    · exact apart
  obtain ⟨shown, follows⟩ :=
    represents.follows.lapse (Sys.moves_mfree member owner) away nonempty
  exact ⟨shown, represents.keep follows (fun _ gone => gone)⟩

/-- Every step of the override shows as a step of the object store. -/
theorem Represents.step (power : Words.PowerOfTwo P.maxAlign) (placed : Placed w)
    (represents : Represents w.sys w.issued store) (noWrap : w.NoWrap P e)
    (clear : w.Undisturbed e) (taken : Step P w e w') :
    ∃ d store', Shows w e d ∧ ObjectStore.Step store d store' ∧
      Represents w'.sys w'.issued store' := by
  have sys := placed.sound.sys
  have same : ObjectStore.Step store .other store := .other (SameInside.refl _ _)
  cases taken with
  | begin unborn first => exact ⟨.other, store, .quiet trivial, same, represents⟩
  | initAllocator live => exact ⟨.other, store, .quiet trivial, same, represents⟩
  | construct begun taken =>
      obtain ⟨shown, after⟩ := represents.started power sys taken
      exact ⟨.other, _, .quiet trivial, shown, after⟩
  | exit taken => exact represents.exit power sys taken
  | new word done =>
      refine (represents.doNew power sys word noWrap done).shows ?_ (fun nothing => nothing)
      rintro p rfl
      exact .new
  | alignedNew word power' done =>
      refine (represents.doAlignedNew power power' sys word noWrap done).shows ?_
        (fun nothing => nothing)
      rintro p rfl
      exact .alignedNew
  | delete out done =>
      have deleted := of_doDelete done
      obtain ⟨d, store', shown, forgotten, after⟩ :=
        represents.deleted power placed out clear deleted
      refine ⟨d, store', shown, forgotten, ?_⟩
      rw [NewDelete.retire, deleted.issued]
      exact after
  | reenter out begun stuck => exact represents.drop out
  | malloc done =>
      obtain ⟨shown, after⟩ := represents.malloc power sys done
      exact ⟨.other, _, .quiet trivial, shown, after⟩
  | mfree member owner =>
      obtain ⟨shown, after⟩ := represents.programFree sys member owner
      exact ⟨.other, _, .quiet trivial, shown, after⟩
  | @write a b sys' taken =>
      have sums : w.sys.NoWrap P (.write a b) := trivial
      obtain ⟨move, does, moves⟩ := taken.moves power sys sums trivial
      cases does with
      | returned returned => cases returned
      | write =>
          obtain ⟨shown, follows⟩ := represents.follows.write moves
          refine ⟨_, _, .write, shown, represents.keep follows ?_⟩
          cases taken with
          | write writable => exact fun _ gone => gone

section Runs

variable {m : ByteMemory} {h : Heap Owner} {past trace : List (Transition NewDelete Event)}

theorem Represents.run (power : Words.PowerOfTwo P.maxAlign) (placed : Placed w)
    (represents : Represents w.sys w.issued store) (run : Run (Step P) w trace w')
    (meets : ∀ x ∈ trace, x.before.NoWrap P x.event ∧ x.before.Undisturbed x.event) :
    ∃ shown store', Run ObjectStore.Step store shown store' ∧
      (Placed w' ∧ Represents w'.sys w'.issued store') ∧
      List.Forall₂ (fun x y => Shows x.before x.event y.event) trace shown := by
  have answer : ∀ (u : NewDelete) e u' (store : ObjectStore Pointer),
      (Placed u ∧ Represents u.sys u.issued store) → (u.NoWrap P e ∧ u.Undisturbed e) →
      Step P u e u' → ∃ d store', Shows u e d ∧ ObjectStore.Step store d store' ∧
        Placed u' ∧ Represents u'.sys u'.issued store' := by
    rintro u e u' store ⟨placed, represents⟩ ⟨noWrap, clear⟩ taken
    obtain ⟨d, store', shows, shown, after⟩ :=
      represents.step power placed noWrap clear taken
    exact ⟨d, store', shows, shown, placed.step power noWrap clear taken, after⟩
  exact run.follow ⟨placed, represents⟩ answer meets

/-- A program starts up, asks for 16 bytes and writes the first of them. -/
theorem first_possible : ∃ (past : List (Transition NewDelete Event)) (w w₁ w₂ : NewDelete),
    Run (Step desktop) (initial (fun _ => 0) Heap.empty) past w ∧
      Step desktop w (.new 0 16 false (.ok (some 1048576))) w₁ ∧
      Step desktop w₁ (.write 1048576 7) w₂ ∧ 1048576 ∈ w₂.issued (0, .pool 16) ∧
      (∃ pool client, w₂.sys.threads 0 = .live pool client) ∧
      ∀ x ∈ past ++ ⟨w, .new 0 16 false (.ok (some 1048576)), w₁⟩ ::
        [⟨w₁, .write 1048576 7, w₂⟩],
        x.before.NoWrap desktop x.event ∧ x.before.Undisturbed x.event := by
  have aligned : 1048576 ∣ 0 := Nat.dvd_zero _
  obtain ⟨w₁, w₂, pool, begun, built, threads, _, _, _, heads, _⟩ := construct_possible
    (w := initial (fun _ => 0) Heap.empty) (t := 0) rfl rfl aligned (by decide)
    (fun b member => by cases member)
  have live : w₂.sys.threads 0 = .live pool Client.none := by rw [threads, Function.update_self]
  have init : Step desktop w₂ (.initAllocator 0) { w₂ with ready := true } := .initAllocator live
  obtain ⟨pool', w₃, served, sys, _, _, _, _, issued⟩ :=
    pooled_possible (P := desktop) (w := { w₂ with ready := true }) (t := 0) (n := 16)
      (p := 1048576) rfl live (by decide) (by decide) (heads 0) (by decide)
  have small : 16 ≤ maxSmall := by decide
  have live₃ : w₃.sys.threads 0 = .live pool' (Client.none.gain 16 (.ok (some 1048576))) := by
    rw [sys]
    exact Sys.setThread_same _ _ _
  have held : 1048576 ∈ (Client.none.gain 16 (.ok (some 1048576))).held (sizeClassOf 16 small) := by
    rw [Client.gain, dif_pos small, Client.gainBlock_same]
    exact List.mem_cons_self
  have inside : (Span.mk 1048576 (sizeClassOf 16 small).bytes).Holds 1048576 :=
    Span.Holds.base (SizeClass.bytes_positive _)
  have written : Step desktop w₃ (.write 1048576 7) _ :=
    .write (.write (.block live₃ held inside))
  have out : 1048576 ∈ w₃.issued (0, .pool 16) := by
    rw [issued, Function.update_self]
    exact List.mem_cons_self
  refine ⟨_, _, w₃, _, ((Run.nil.snoc begun).snoc built).snoc init, served, written, out,
    ⟨pool', _, live₃⟩, ?_⟩
  intro x member
  have listed := List.mem_map_of_mem (f := Transition.event) member
  simp only [List.map_cons, List.map_nil, List.cons_append, List.nil_append, List.mem_cons,
    List.not_mem_nil, or_false] at listed
  generalize x.event = e at listed ⊢
  rcases listed with rfl | rfl | rfl | rfl | rfl
  · exact ⟨trivial, trivial⟩
  · exact ⟨trivial, trivial⟩
  · exact ⟨trivial, trivial⟩
  · exact ⟨fun large => absurd small (Nat.not_le.mpr large), trivial⟩
  · exact ⟨trivial, trivial⟩

/-- The replaced operators are an object store. Every call of a run is one step of it, as its
caller sees the call, and the pointers that are out name the objects. -/
theorem refines_objects (power : Words.PowerOfTwo P.maxAlign)
    (run : Run (Step P) (initial m h) trace w)
    (meets : ∀ x ∈ trace, x.before.NoWrap P x.event ∧ x.before.Undisturbed x.event) :
    ∃ shown store, Run ObjectStore.Step ⟨[], m⟩ shown store ∧
      List.Forall₂ (fun x y => Shows x.before x.event y.event) trace shown ∧
      Represents w.sys w.issued store ∧ store.Apart := by
  obtain ⟨shown, store, steps, ⟨_, after⟩, shows⟩ :=
    (Represents.initial m h).run power (Placed.initial m h) run meets
  exact ⟨shown, store, steps, shows, after, ObjectStore.run_apart steps List.Pairwise.nil⟩

/-- The program writes to its block and deletes it. -/
theorem refines_objects_first : ∃ (trace : List (Transition NewDelete Event)) (w : NewDelete)
    (shown : List (Transition (ObjectStore Pointer) (ObjectStore.Event Pointer)))
    (store : ObjectStore Pointer), Run (Step desktop) (initial (fun _ => 0) Heap.empty) trace w ∧
      (∃ x ∈ trace, x.event = .new 0 16 false (.ok (some 1048576))) ∧
      (∃ x ∈ trace, ∃ freed, x.event = .delete 0 1048576 (0, .pool 16) (some freed)) ∧
      Run ObjectStore.Step ⟨[], fun _ => 0⟩ shown store ∧ trace.length = shown.length ∧
      Represents w.sys w.issued store := by
  obtain ⟨past, w, w₁, w₂, earlier, served, written, out, ⟨pool, client, live⟩, meets⟩ :=
    first_possible
  have used := (earlier.snoc served).snoc written
  have power : Words.PowerOfTwo desktop.maxAlign := ⟨4, by decide, rfl⟩
  have grounded := grounded_run used 0 pool client live
  obtain ⟨freed, w₃, done⟩ := doDelete_grounded (p := 1048576) grounded live
  have present : w₂.allocatorGone 0 = false := by rw [allocatorGone, live]
  have deleted : Step desktop w₂ (.delete 0 1048576 (0, .pool 16) (some freed)) _ :=
    .delete out done
  have run := used.snoc deleted
  obtain ⟨shown, store, steps, shows, represents, _⟩ := refines_objects power run (by
    intro x member
    rcases List.mem_append.mp member with earlier | last
    · exact meets x (by simpa using earlier)
    · obtain rfl := List.mem_singleton.mp last
      exact ⟨trivial, Or.inl ⟨rfl, .inl present⟩⟩)
  exact ⟨_, _, shown, store, run, ⟨⟨w, _, w₁⟩, by simp, rfl⟩,
    ⟨_, List.mem_append_right _ List.mem_cons_self, freed, rfl⟩, steps, shows.length_eq,
    represents⟩

/-- Between the call that returns a pointer and its deletion, while the thread lives, the bytes
asked for are the last ones written, and no pointer returned meanwhile comes near them. -/
theorem pointer_keeps_contents (power : Words.PowerOfTwo P.maxAlign) {w₁ w₂ : NewDelete}
    {n p : Nat} (earlier : Run (Step P) (initial m h) past w) (taken : Step P w e w₁)
    (serves : e.Serves t n p) (later : Run (Step P) w₁ trace w₂)
    (meets : ∀ x ∈ past ++ ⟨w, e, w₁⟩ :: trace,
      x.before.NoWrap P x.event ∧ x.before.Undisturbed x.event)
    (lives : ∀ x ∈ trace, x.event ≠ .exit t)
    (kept : ∀ x ∈ trace, ∀ u source freed, x.event ≠ .delete u p source freed) :
    (∀ a, (Span.mk p n).Holds a → w₂.sys.mem a =
      lastWrite (trace.map (fun x => x.event.wrote)) a (w₁.sys.mem a)) ∧
    ∀ x ∈ trace, ∀ u k q, x.event.Serves u k q → (Span.mk q k).Apart (Span.mk p n) := by
  obtain ⟨_, store, _, ⟨placed, before⟩, _⟩ :=
    (Represents.initial m h).run power (Placed.initial m h) earlier
      (fun x listed => meets x (List.mem_append_left _ listed))
  obtain ⟨noWrap, clear⟩ := meets ⟨w, e, w₁⟩ (by simp)
  obtain ⟨d, store₁, shows, first, after⟩ := before.step power placed noWrap clear taken
  obtain ⟨shown, store₂, steps, ⟨_, last⟩, showing⟩ :=
    after.run power (placed.step power noWrap clear taken) later
      (fun x listed => meets x (by simp [listed]))
  -- the object that the call has made
  obtain ⟨y, listed, rfl, rfl, covers⟩ : ∃ y ∈ store₁.objects, y.key.source.1 = t ∧
      y.key.address = p ∧ (Span.mk p n).Inside y.span := by
    cases shows with
    | @served _ _ _ y serves' thread covers =>
        have same : y.key.source.1 = t ∧ y.key.address = p ∧
            (Span.mk p n).Inside y.span := by
          cases serves <;> cases serves' <;> exact ⟨thread, rfl, covers⟩
        cases first with
        | allocate apart kept => exact ⟨y, List.mem_cons_self, same⟩
    | quiet quiet =>
        cases serves with
        | new => exact absurd rfl (quiet _)
        | alignedNew => exact absurd rfl (quiet _)
    | _ => cases serves
  have stays : ∀ z ∈ shown, ¬ z.event.Ends y := by
    intro z step
    obtain ⟨x, member, shows⟩ := showing.flip.exists_of_mem step
    generalize called : x.event = f at shows
    generalize z.event = d at shows
    cases shows with
    | @deleted u _ source freed y' named =>
        rintro rfl
        exact kept x member u source freed (by rw [called, named])
    | exit =>
        intro ends
        obtain ⟨_, same⟩ := Pointer.holder_thread (of_decide_eq_true ends)
        exact lives x member (by rw [called, same])
    | _ => exact fun ends => ends
  have wrote : shown.map (fun z => z.event.wrote) = trace.map (fun x => x.event.wrote) := by
    rw [← List.forall₂_eq_eq_eq, List.forall₂_map_left_iff, List.forall₂_map_right_iff]
    exact showing.flip.imp (fun _ _ shows => shows.wrote)
  obtain ⟨_, bytes⟩ := ObjectStore.run_keeps steps listed stays
  refine ⟨fun a held => ?_, ?_⟩
  · rw [← after.follows.contents, ← last.follows.contents, bytes a (covers.holds held), wrote]
  · intro x member u k q serves
    obtain ⟨z, step, shows⟩ := showing.exists_of_mem member
    generalize same : x.event = e at serves shows
    generalize shape : z.event = d at shows
    cases shows with
    | @served _ _ _ y' serves' thread covers' =>
        have apart := ObjectStore.run_allocated (y := y') steps listed stays z step shape
        have inside : (Span.mk q k).Inside y'.span := by
          cases serves <;> cases serves' <;> exact covers'
        exact apart.mono inside covers
    | quiet quiet =>
        cases serves with
        | new => exact absurd rfl (quiet _)
        | alignedNew => exact absurd rfl (quiet _)
    | _ => cases serves

/-- The byte that the program has written is there. -/
theorem pointer_keeps_contents_first :
    ∃ (trace : List (Transition NewDelete Event)) (w : NewDelete),
      Run (Step desktop) (initial (fun _ => 0) Heap.empty) trace w ∧
        (∃ x ∈ trace, x.event = .new 0 16 false (.ok (some 1048576))) ∧ w.sys.mem 1048576 = 7 := by
  obtain ⟨past, w, w₁, w₂, earlier, served, written, _, _, meets⟩ := first_possible
  have later := Run.nil.snoc written
  have power : Words.PowerOfTwo desktop.maxAlign := ⟨4, by decide, rfl⟩
  refine ⟨_, w₂, (earlier.snoc served).append later,
    ⟨⟨w, _, w₁⟩, List.mem_append_left _ (List.mem_append_right _ List.mem_cons_self), rfl⟩, ?_⟩
  have bytes := (pointer_keeps_contents power earlier served .new later meets ?_ ?_).1 1048576
    (by decide)
  · rw [bytes]
    rfl
  · intro x member
    obtain rfl := List.mem_singleton.mp member
    simp
  · intro x member
    obtain rfl := List.mem_singleton.mp member
    simp

end Runs

end Run

end MemAlloc.NewDelete
