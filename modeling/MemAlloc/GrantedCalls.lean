import MemAlloc.SuppliedRuns
import MemAlloc.Tasks

set_option autoImplicit false

/- Calls in a C heap that has room for them. -/
namespace MemAlloc

open Malloc (Heap addressLimit)
open Programs (Program Crew)
open Runs (Run Transition)

/-- Above everything outstanding the C heap has room for so many more allocators. -/
def Sys.HasRoom (n : Nat) (s : Sys) : Prop :=
  ∃ base, 1048576 ∣ base ∧ Below s.shared.heap (base + 1048576) ∧
    base + n * 67108864 ≤ addressLimit

namespace Sys.HasRoom

variable {s s' : Sys} {n : Nat}

theorem initial (m : ByteMemory) (few : n * 67108864 ≤ addressLimit) :
    (Sys.initial m Heap.empty).HasRoom n := by
  refine ⟨0, Nat.dvd_zero _, fun b member => (by cases member), ?_⟩
  rwa [Nat.zero_add]

/-- What a call takes of the heap ends below the room for the next ones. -/
theorem next {base limit : Nat} (aligned : 1048576 ∣ base)
    (below : Below s'.shared.heap limit) (within : limit ≤ base + 67108864)
    (room : base + (n + 1) * 67108864 ≤ addressLimit) : s'.HasRoom n := by
  refine ⟨base + 67108864, Nat.dvd_add aligned (by decide), ?_, by omega⟩
  intro b member
  exact Nat.le_trans (below b member) (Nat.le_trans within (Nat.le_add_right _ _))

theorem kept (room : s.HasRoom (n + 1))
    (blocks : ∀ b ∈ s'.shared.heap.blocks, b ∈ s.shared.heap.blocks) : s'.HasRoom n := by
  obtain ⟨base, aligned, below, enough⟩ := room
  exact next aligned (fun b member => below b (blocks b member)) (by omega) enough

end Sys.HasRoom

theorem Sys.Step.free_shared {P : Platform} {s s' : Sys} {t p n : Nat}
    {form : SingleThreadAllocator.FreeForm} (taken : Sys.Step P s (.free t form p n) s') :
    s'.shared = s.shared := by
  cases taken <;> rfl

namespace AllocatorCall

variable {s : Sys} {t n : Nat} {c : AllocatorCall} {k : Knowledge}

/-- Storage that fits into the room for one call. -/
def Modest : AllocatorCall → Prop
  | .reserve bytes => bytes ≤ 1048576
  | _ => True

/-- The answer is not an exception. -/
def Served : (c : AllocatorCall) → c.Answer → Prop
  | .allocatorInstance, x => x = .ok ()
  | .allocate _, x => ∃ p, x = .ok p
  | .reserve _, x => ∃ p, x = .ok p
  | _, _ => True

/-- An exhausted pool is given a chunk. -/
theorem refill_granted {v : View} {n size : Nat} (sees : Sees desktop s t (.live v))
    (small : size ≤ maxSmall) (empty : v.ledger.free (sizeClassOf size small) = [])
    (room : s.HasRoom (n + 1)) :
    ∃ p s', Does desktop t (.allocate size) s (.ok p) s' ∧ s'.HasRoom n := by
  obtain ⟨base, aligned, below, enough⟩ := room
  have fits : base + 67108864 ≤ addressLimit := by omega
  have chunk : CentralHeap.chunkSize ∣ base + 1048576 :=
    Nat.dvd_add (Nat.dvd_trans (by decide) aligned) (by decide)
  have within : base + 1048576 + CentralHeap.chunkSize ≤ base + 67108864 := by
    rw [Nat.add_assoc]
    exact Nat.add_le_add_left (by decide) base
  cases sees with
  | live view =>
      have links := (view.thread.alloc.pools (sizeClassOf size small)).links
      change Links.Linked _ _ (v.ledger.free (sizeClassOf size small)) at links
      rw [empty] at links
      obtain ⟨s', _, taken, _, _, _, below'⟩ := Sys.refilled_possible view.live small links below
        (Nat.le_refl _) (Nat.add_pos_right base (by decide)) chunk (Nat.le_trans within fits)
      exact ⟨_, s', .allocate taken, .next aligned below' within enough⟩

theorem large_granted {P : Platform} {v : View} {size : Nat} (sees : Sees P s t (.live v))
    (large : maxSmall < size) (word : size < Words.radix) :
    ∃ p s', Does P t (.allocate size) s (.ok p) s' ∧ s'.shared = s.shared := by
  cases sees with
  | @live _ pool client view =>
      cases called : pool.alloc.arenaAllocate size P.maxAlign with
      | mk p a =>
          obtain ⟨s', _, taken, _, same, _⟩ := Sys.large_possible view.live large word called
          refine ⟨p, s', .allocate taken, ?_⟩
          rw [same]
          rfl

/-- A request is served, with a chunk if the pool is exhausted. -/
theorem allocate_granted {v : View} {n size : Nat} (sees : Sees desktop s t (.live v))
    (bounded : size + desktop.maxAlign ≤ addressLimit) (room : s.HasRoom (n + 1)) :
    ∃ p s', Does desktop t (.allocate size) s (.ok p) s' ∧ s'.HasRoom n := by
  by_cases small : size ≤ maxSmall
  · cases stocked : v.ledger.free (sizeClassOf size small) with
    | nil => exact refill_granted sees small stocked room
    | cons p rest =>
        cases sees with
        | live view =>
            have links := (view.thread.alloc.pools (sizeClassOf size small)).links
            change Links.Linked _ _ (v.ledger.free (sizeClassOf size small)) at links
            rw [stocked] at links
            obtain ⟨s', _, taken, _, same, _⟩ :=
              Sys.stocked_possible (P := desktop) view.live small links.1 links.2.1
            refine ⟨_, s', .allocate taken, room.kept ?_⟩
            rw [same]
            exact fun b member => member
  · have word : size < Words.radix := by
      have limit : size + 16 ≤ 9223372036854775808 := bounded
      simp only [Words.radix]
      omega
    obtain ⟨p, s', does, same⟩ := large_granted sees (Nat.lt_of_not_le small) word
    refine ⟨p, s', does, room.kept ?_⟩
    rw [same]
    exact fun b member => member

theorem construct_granted (unborn : s.threads t = .unborn) (room : s.HasRoom (n + 1)) :
    ∃ s', Does desktop t .allocatorInstance s (.ok ()) s' ∧ s'.HasRoom n := by
  obtain ⟨base, aligned, below, enough⟩ := room
  have within : base + 33554432 ≤ base + 67108864 := Nat.add_le_add_left (by decide) base
  have fits : base + 33554432 ≤ addressLimit := by omega
  obtain ⟨a, m, h, built, _, _, below', _⟩ := SingleThreadAllocator.new_possible (Owner.slab t)
    (.arena t) s.mem s.shared.heap aligned fits below
  exact ⟨_, .construct (.start unborn built), .next aligned below' within enough⟩

theorem reserve_granted {bytes : Nat} (few : bytes ≤ 1048576) (room : s.HasRoom (n + 1)) :
    ∃ p s', Does desktop t (.reserve bytes) s (.ok p) s' ∧ s'.HasRoom n := by
  obtain ⟨base, aligned, below, enough⟩ := room
  have within : base + 1048576 + max bytes 1 ≤ base + 67108864 := by
    rw [Nat.add_assoc]
    exact Nat.add_le_add_left (by omega) base
  have fits : base + 67108864 ≤ addressLimit := by omega
  have multiple : desktop.mallocAlign ∣ base + 1048576 :=
    Nat.dvd_add (Nat.dvd_trans (by decide) aligned) (by decide)
  have fresh := fresh_above (n := bytes) below (Nat.le_refl _)
    (Nat.add_pos_right base (by decide)) multiple (Nat.le_trans within fits)
  have granted := Heap.malloc_fresh (.outside .program) fresh
  refine ⟨_, _, .reserve (.malloc granted), .next aligned ?_ within enough⟩
  intro b member
  rcases List.mem_cons.mp member with rfl | old
  · exact Nat.le_refl _
  · exact Nat.le_trans (below b old) (Nat.le_add_right _ _)

/-- In a heap with room every call of a thread can be answered without an exception. -/
theorem granted (sees : Sees desktop s t k) (allowed : Allowed desktop c k) (modest : c.Modest)
    (room : s.HasRoom (n + 1)) :
    ∃ r s', Does desktop t c s r s' ∧ c.Served r ∧ s'.HasRoom n := by
  have stays : s.HasRoom n := room.kept fun b member => member
  cases allowed with
  | first =>
      cases sees with
      | unborn unborn =>
          obtain ⟨s', does, left⟩ := construct_granted unborn room
          exact ⟨_, s', does, rfl, left⟩
  | again =>
      cases sees with
      | live view => exact ⟨_, s, .built view.live, rfl, stays⟩
  | allocate bounded =>
      obtain ⟨p, s', does, left⟩ := allocate_granted sees bounded room
      exact ⟨_, s', does, ⟨p, rfl⟩, left⟩
  | free frees =>
      cases sees with
      | live view =>
          obtain ⟨s', taken⟩ := view.free_possible frees
          refine ⟨_, s', .free taken, trivial, room.kept ?_⟩
          rw [taken.free_shared]
          exact fun b member => member
  | classify =>
      cases sees with
      | live view => exact ⟨_, s, .classify view.live, trivial, stays⟩
  | stats =>
      cases sees with
      | live view => exact ⟨_, s, .stats view.live, trivial, stays⟩
  | write inside =>
      cases sees with
      | live view =>
          exact ⟨_, _, .write (.write (view.writable inside)), trivial,
            room.kept fun b member => member⟩
  | reserve =>
      obtain ⟨p, s', does, left⟩ := reserve_granted modest room
      exact ⟨_, s', does, ⟨p, rfl⟩, left⟩
  | release =>
      obtain ⟨r, s', does⟩ := possible sees .release
      refine ⟨r, s', does, trivial, room.kept ?_⟩
      cases does with
      | release taken =>
          cases taken with
          | mfree => exact fun b member => (Heap.mem_free.mp member).1
      | released => exact fun b member => member

end AllocatorCall

/-- A task that throws only what its calls throw, so many calls at most, can come to its return. -/
theorem TaskCrew.returns_within {α : Type} {task : Task α} {n : Nat} {post : α → Prop}
    {returns : α → Knowledge → Prop} {throws : Exn → Knowledge → Prop}
    (within : task.Within AllocatorCall.Modest AllocatorCall.Served post n)
    (few : n * 67108864 ≤ addressLimit)
    (meets : ((AllocatorCall.interface desktop).always fun _ => True).Meets returns throws task
      .unborn) :
    ∃ (trace : List (Transition (TaskCrew α) (Crew.Event AllocatorCall.Answer)))
      (y : TaskCrew α) (a : α), Run (TaskCrew.Step desktop) (TaskCrew.launch (fun _ => task) 1)
        trace y ∧ y.programs 0 = some (.ret a) ∧ post a := by
  have starts := TaskCrew.Starts.launch (P := desktop) (fun _ => task) 1
  have each (t : Nat) := meets
  obtain ⟨trace, y, a, run, _, ended, holds⟩ :=
    (starts.sound each).finishes_within Sys.HasRoom (AllocatorCall.truthful desktop_aligns)
      (fun _ _ _ _ sees allowed modest room => AllocatorCall.granted sees allowed modest room)
      within (t := 0) rfl (Sys.HasRoom.initial _ few)
  exact ⟨trace, y, a, run, ended, holds⟩

namespace Task

variable {n : Nat}

/-- The task makes so many calls at most, and throws only what they throw. -/
abbrev Within {α : Type} (task : Task α) (post : α → Prop) (n : Nat) : Prop :=
  Program.Within AllocatorCall.Modest AllocatorCall.Served post n task

theorem within_allocatorInstance : Within allocatorInstance (fun _ => True) 1 := by
  apply Program.Within.call trivial
  rintro _ rfl
  exact .ret trivial

theorem within_allocate : Within (allocate n) (fun _ => True) 1 := by
  apply Program.Within.call trivial
  rintro _ ⟨p, rfl⟩
  exact .ret trivial

theorem within_deallocate (p : Option Nat) : Within (deallocate p n) (fun _ => True) 1 := by
  cases p with
  | none => exact .ret trivial
  | some p => exact .call trivial fun _ _ => .ret trivial

theorem within_write (a : Nat) (b : UInt8) : Within (write a b) (fun _ => True) 1 :=
  .call trivial fun _ _ => .ret trivial

end Task

end MemAlloc
