import MemAlloc.Construction
import MemAlloc.LedgerSteps
import MemAlloc.ThreadHomes
import MemAlloc.ThreadRuns

set_option autoImplicit false

namespace MemAlloc

open Malloc (Heap Block addressLimit)
open ByteMemory (readWord)
open Runs (Run Transition)

namespace Sys

theorem Writable.mem {s : Sys} {a : Nat} (writable : Writable s a) (m : ByteMemory) :
    Writable { s with mem := m } a := by
  cases writable with
  | block live out inside => exact .block live out inside
  | arena live out inside => exact .arena live out inside
  | chunk member unused inside => exact .chunk member unused inside
  | outside member owner inside => exact .outside member owner inside

/-- The program clears some bytes that it may write. -/
theorem cleared_possible {P : Platform} {s : Sys} {a n : Nat}
    (writable : ∀ k < n, Writable s (a + k)) : ∃ trace m, Run (Step P) s trace { s with mem := m } ∧
      (∀ k < n, m (a + k) = 0) ∧
      (∀ x ∈ trace, ∃ b, x.event = .write b 0) ∧ trace.length = n := by
  induction n with
  | zero => exact ⟨[], s.mem, .nil, fun k none => absurd none (Nat.not_lt_zero k), by simp, rfl⟩
  | succ n ih =>
      obtain ⟨trace, m, run, zero, writes, size⟩ :=
        ih (fun k less => writable k (Nat.lt_succ_of_lt less))
      have last : Step P { s with mem := m } (.write (a + n) 0)
          { s with mem := ByteMemory.writeByte m (a + n) 0 } :=
        .write ((writable n (Nat.lt_succ_self n)).mem m)
      refine ⟨_, _, run.snoc last, ?_, ?_, ?_⟩
      · intro k less
        by_cases same : k = n
        · rw [same, ByteMemory.writeByte, Function.update_self]
        · rw [ByteMemory.writeByte, Function.update_of_ne (by omega)]
          exact zero k (by omega)
      · intro x member
        rcases List.mem_append.mp member with old | new
        · exact writes x old
        · obtain rfl := List.mem_singleton.mp new
          exact ⟨_, rfl⟩
      · rw [List.length_append, size]
        rfl

end Sys

/-- Above everything outstanding, the C heap can grant a chunk. -/
theorem Shared.acquireChunk_possible {g : Shared} {p limit : Nat} (user : Option Nat)
    (bytes : Nat) (m : ByteMemory) (below : Below g.heap limit) (above : limit ≤ p)
    (positive : 0 < p) (aligned : CentralHeap.chunkSize ∣ p)
    (room : p + CentralHeap.chunkSize ≤ addressLimit) :
    ∃ g', g.acquireChunk desktop user ⟨some p, none⟩ true bytes m =
        (.ok (p + CentralHeap.kHeaderOffset), g', CentralHeap.writeHeader m p bytes) ∧
      g'.carved = g.carved ++ [⟨p, user, bytes⟩] ∧
      Below g'.heap (p + CentralHeap.chunkSize) := by
  have fresh : g.heap.Fresh CentralHeap.chunkSize CentralHeap.chunkSize p :=
    fresh_above below above positive aligned room
  have granted := Heap.malloc_fresh Owner.chunk fresh
  simp only [acquireChunk, CentralHeap.acquireChunk, allocateSlab, tryAlignedAlloc, desktop,
    ↓reduceIte, granted, Nat.add_sub_cancel]
  refine ⟨_, rfl, rfl, ?_⟩
  intro b member
  rcases List.mem_cons.mp member with rfl | old
  · exact Nat.le_refl _
  · exact Nat.le_trans (below b old) (Nat.le_trans above (Nat.le_add_right p _))

namespace Sys

variable {P : Platform} {s : Sys} {t n : Nat} {pool pool' : ThreadPoolAlloc} {client : Client}

theorem supplied_other {s' : Sys} {e : Event} (other : ∀ t n x, e ≠ .allocate t n x) :
    s.Supplied P e s' := fun t n x same => absurd same (other t n x)

/-- A large request is a supplied step whatever the arena answers. -/
theorem large_possible {p : Option Nat} {a : SingleThreadAllocator}
    (live : s.threads t = .live pool client) (large : maxSmall < n) (word : n < Words.radix)
    (called : pool.alloc.arenaAllocate n P.maxAlign = (p, a)) :
    ∃ s' pool', Step P s (.allocate t n (.ok p)) s' ∧ s.Supplied P (.allocate t n (.ok p)) s' ∧
      s' = s.setThread t (.live pool' (client.gain n (.ok p))) ∧ pool'.alloc = a := by
  have done := pool.allocate_large (acquireChunkCb P t ⟨none, none⟩ true) true s.shared s.mem large
    called
  refine ⟨_, _, .allocate live word done, ?_, rfl, rfl⟩
  intro u k x same
  cases same
  exact ⟨⟨none, none⟩, .intro live done (Function.update_self t _ _),
    fun small => absurd large (Nat.not_lt.mpr small)⟩

/-- So is a request to a stocked pool. -/
theorem stocked_possible {p : Nat} (live : s.threads t = .live pool client) (small : n ≤ maxSmall)
    (head : (pool.alloc.pools (sizeClassOf n small)).head = p) (nonnull : p ≠ 0) :
    ∃ s' pool', Step P s (.allocate t n (.ok (some p))) s' ∧
      s.Supplied P (.allocate t n (.ok (some p))) s' ∧
      s' = s.setThread t (.live pool' (client.gain n (.ok (some p)))) ∧
      (pool'.alloc.pools (sizeClassOf n small)).head = readWord s.mem p := by
  have word : n < Words.radix :=
    Nat.lt_of_le_of_lt small (by simp only [maxSmall, Words.radix]; omega)
  have done := ThreadPoolAlloc.allocate_stocked (P := P) (m := s.mem)
    (acquireChunkCb P t ⟨none, none⟩ true) true s.shared small head nonnull
  refine ⟨_, _, .allocate live word done, ?_, rfl, ?_⟩
  · intro u k x same
    cases same
    refine ⟨⟨none, none⟩, .intro live done (Function.update_self t _ _), ?_⟩
    intro small' pool₁ client₁ live₁ empty
    obtain ⟨rfl, rfl⟩ := Thread.live.inj (live.symm.trans live₁)
    exact absurd (head.symm.trans empty) nonnull
  · simp [SingleThreadAllocator.recordAlloc, SingleThreadAllocator.setPool]

/-- And one to an exhausted pool that is given a chunk. -/
theorem refilled_possible {p : Nat} (live : s.threads t = .live pool client) (small : n ≤ maxSmall)
    (empty : (pool.alloc.pools (sizeClassOf n small)).head = 0) {limit : Nat}
    (below : Below s.shared.heap limit) (above : limit ≤ p) (positive : 0 < p)
    (aligned : CentralHeap.chunkSize ∣ p) (room : p + CentralHeap.chunkSize ≤ addressLimit) :
    ∃ s' pool', Step desktop s (.allocate t n (.ok (some (p + CentralHeap.kHeaderOffset)))) s' ∧
      s.Supplied desktop (.allocate t n (.ok (some (p + CentralHeap.kHeaderOffset)))) s' ∧
      s'.threads = Function.update s.threads t
        (.live pool' (client.gain n (.ok (some (p + CentralHeap.kHeaderOffset))))) ∧
      s'.shared.carved = s.shared.carved ++ [⟨p, some t, (sizeClassOf n small).bytes⟩] ∧
      Below s'.shared.heap (p + CentralHeap.chunkSize) := by
  have word : n < Words.radix :=
    Nat.lt_of_le_of_lt small (by simp only [maxSmall, Words.radix]; omega)
  obtain ⟨g', asked, carved, below'⟩ := Shared.acquireChunk_possible
    (some t) (sizeClassOf n small).bytes s.mem below above positive aligned room
  have answered : acquireChunkCb desktop t ⟨some p, none⟩ true (sizeClassOf n small).bytes
      s.shared s.mem = (.ok (some (p + CentralHeap.kHeaderOffset)), g',
        CentralHeap.writeHeader s.mem p (sizeClassOf n small).bytes) := by
    simp only [acquireChunkCb, asked]
    rfl
  obtain ⟨pool', m', done⟩ := ThreadPoolAlloc.allocate_refilled (P := desktop) small empty answered
    (Nat.lt_of_lt_of_le positive (Nat.le_add_right _ _))
  refine ⟨_, _, .allocate live word done, ?_, rfl, carved, below'⟩
  intro u k x same
  cases same
  refine ⟨⟨some p, none⟩, .intro live done (Function.update_self t _ _), ?_⟩
  intro _ _ _ _ _
  exact ⟨_, _, _, asked⟩

/-- A pool hands out its whole free list without touching memory. -/
theorem exhausted_possible (small : n ≤ maxSmall) (free : List Nat) :
    ∀ {s : Sys} {pool : ThreadPoolAlloc} {client : Client}, s.threads t = .live pool client →
      Links.Linked (readWord s.mem) (pool.alloc.pools (sizeClassOf n small)).head free →
      ∃ trace s' pool' client', Run (Step P) s trace s' ∧
        (∀ x ∈ trace, x.before.Supplied P x.event x.after ∧ ∃ r, x.event = .allocate t n r) ∧
        s'.threads t = .live pool' client' ∧
        (pool'.alloc.pools (sizeClassOf n small)).head = 0 ∧ s'.shared = s.shared := by
  induction free with
  | nil =>
      intro s pool client live links
      exact ⟨[], s, pool, client, .nil, List.forall_mem_nil _, live, links, rfl⟩
  | cons p free ih =>
      intro s pool client live links
      obtain ⟨head, nonnull, links⟩ := links
      obtain ⟨s₁, pool₁, first, supplied, sys, next⟩ :=
        stocked_possible (P := P) live small head nonnull
      have mem : s₁.mem = s.mem := by rw [sys]; rfl
      have shared : s₁.shared = s.shared := by rw [sys]; rfl
      have live₁ : s₁.threads t = .live pool₁ (client.gain n (.ok (some p))) := by
        rw [sys]
        exact s.setThread_same t _
      rw [← next, ← mem] at links
      obtain ⟨trace, s', pool', client', run, steps, live', empty, shared'⟩ := ih live₁ links
      refine ⟨_, s', pool', client', (Run.nil.snoc first).append run, ?_, live', empty,
        shared'.trans shared⟩
      intro x member
      rcases List.mem_append.mp member with front | rest
      · obtain rfl := List.mem_singleton.mp front
        exact ⟨supplied, _, rfl⟩
      · exact steps x rest

/-- A thread empties the constructor slab of its first pool and is given a chunk. -/
theorem refilled_run : ∃ (trace : List (Transition Sys Event)) (s : Sys),
    Run (Step desktop) (initial (fun _ => 0) Heap.empty) trace s ∧
      (∀ x ∈ trace, x.before.Supplied desktop x.event x.after ∧
        x.before.Proper desktop x.event ∧ ∀ t form p n, x.event ≠ .free t form p n) ∧
      s.shared.carved = [⟨134217728, some 0, 16⟩] := by
  obtain ⟨a, m, h, built, _, _, below, _⟩ := SingleThreadAllocator.new_possible
    (Owner.slab 0) (.arena 0) (fun _ => 0) Heap.empty (Nat.dvd_zero _) (by decide)
    (fun b member => by cases member)
  have first : Step desktop (initial (fun _ => 0) Heap.empty) (.start 0 (.ok ())) _ :=
    .start rfl built
  have different : Function.Injective (Owner.slab 0) := fun i j same => (Owner.slab.inj same).2
  have apart : ∀ i, Owner.slab 0 i ≠ .arena 0 := fun i same => by cases same
  have small : 16 ≤ maxSmall := by decide
  have links := ((SingleThreadAllocator.new_ok different apart built).1.pools
    (sizeClassOf 16 small)).links
  let s₀ : Sys := (initial (fun _ => 0) Heap.empty).setHeap h
  let thread : Thread := .live ⟨a, 0, 0, 0⟩ Client.none
  let s₁ : Sys := { s₀.setThread 0 thread with mem := m, nextThreadId := 1 }
  have live : s₁.threads 0 = thread := s₀.setThread_same 0 thread
  obtain ⟨emptying, s₂, pool, client, run, steps, live₂, empty, shared⟩ :=
    exhausted_possible (P := desktop) small _ live links
  have below₂ : Below s₂.shared.heap 33554432 := by
    rw [shared]
    exact below
  obtain ⟨s₃, _, last, supplied, _, carved, _⟩ := refilled_possible (p := 134217728) live₂ small
    empty below₂ (by decide) (by decide) (by decide) (by decide)
  refine ⟨_, s₃, ((Run.nil.snoc first).append run).snoc last, ?_, ?_⟩
  · intro x member
    simp only [List.mem_append, List.mem_singleton, List.nil_append] at member
    rcases member with ((rfl | member) | rfl)
    · exact ⟨supplied_other (by simp), proper_start, by simp⟩
    · obtain ⟨served, r, event⟩ := steps x member
      rw [event]
      exact ⟨event ▸ served, proper_small small, by simp⟩
    · exact ⟨supplied, proper_small small, by simp⟩
  · rw [carved, shared]
    rfl

/-- Two threads start, one above the other. -/
theorem two_started : ∃ (trace : List (Transition Sys Event)) (s : Sys)
    (pool₀ pool₁ : ThreadPoolAlloc),
    Run (Step desktop) (initial (fun _ => 0) Heap.empty) trace s ∧ trace.length = 2 ∧
      (∀ x ∈ trace, ∃ t, x.event = .start t (.ok ())) ∧
      s.threads 0 = .live pool₀ Client.none ∧ s.threads 1 = .live pool₁ Client.none ∧
      pool₀.alloc.arena = Arena.ofRegion 16777216 kArenaCapacity ∧
      (pool₁.alloc.pools 0).head = 68157440 ∧ Below s.shared.heap 100663296 ∧
      s.shared.carved = [] := by
  obtain ⟨a₀, m₀, h₀, built₀, _, arena, below₀, _⟩ := SingleThreadAllocator.new_possible
    (Owner.slab 0) (.arena 0) (fun _ => 0) Heap.empty (Nat.dvd_zero _) (by decide)
    (fun b member => by cases member)
  have first : Step desktop (initial (fun _ => 0) Heap.empty) (.start 0 (.ok ())) _ :=
    .start rfl built₀
  have higher : Below h₀ (67108864 + 1048576) :=
    fun b member => Nat.le_trans (below₀ b member) (by decide)
  obtain ⟨a₁, m₁, h₁, built₁, slabs, _, below₁, _⟩ := SingleThreadAllocator.new_possible
    (Owner.slab 1) (.arena 1) m₀ h₀ (by decide) (by decide) higher
  have different : Function.Injective (Owner.slab 1) := fun i j same => (Owner.slab.inj same).2
  have head := SingleThreadAllocator.new_heads different (fun i same => by cases same) built₁ 0
  let s₀ : Sys := (initial (fun _ => 0) Heap.empty).setHeap h₀
  let thread : Thread := .live ⟨a₀, 0, 0, 0⟩ Client.none
  let thread₁ : Thread := .live ⟨a₁, 0, 0, 1⟩ Client.none
  let s₁ : Sys := { s₀.setThread 0 thread with mem := m₀, nextThreadId := 1 }
  have other : (1 : Nat) ≠ 0 := by decide
  have unborn : s₁.threads 1 = .unborn := s₀.setThread_other thread other
  have second : Step desktop s₁ (.start 1 (.ok ())) _ := .start unborn built₁
  refine ⟨_, _, ⟨a₀, 0, 0, 0⟩, ⟨a₁, 0, 0, 1⟩, (Run.nil.snoc first).snoc second, rfl, ?_, ?_, ?_,
    arena, ?_, below₁, rfl⟩
  · intro x member
    rcases List.mem_append.mp member with old | new
    · obtain rfl := List.mem_singleton.mp old
      exact ⟨_, rfl⟩
    · obtain rfl := List.mem_singleton.mp new
      exact ⟨_, rfl⟩
  · exact ((s₁.setHeap h₁).setThread_other thread₁ other.symm).trans (s₀.setThread_same 0 thread)
  · exact (s₁.setHeap h₁).setThread_same 1 thread₁
  · rw [head.1, slabs]
    decide

/-- The first of two threads is given a block that wraps around the address space, and may write
into the slab of the second. -/
theorem wrapped_block : ∃ (trace : List (Transition Sys Event)) (s : Sys)
    (pool₀ pool₁ : ThreadPoolAlloc) (client : Client),
    Run (Step desktop) (initial (fun _ => 0) Heap.empty) trace s ∧ trace.length = 4 ∧
      (∀ x ∈ trace, x.before.Supplied desktop x.event x.after ∧
        ∀ t form p n, x.event ≠ .free t form p n) ∧
      s.threads 0 = .live pool₀ client ∧ s.threads 1 = .live pool₁ Client.none ∧
      ⟨16779216, 18446744073709550616⟩ ∈ client.bumped ∧
      (pool₁.alloc.pools (sizeClassOf 16 (by decide))).head = 68157440 ∧
      Below s.shared.heap 100663296 ∧ s.shared.carved = [] ∧
      ∀ k < 8, Writable s (68157440 + k) := by
  obtain ⟨past, s₂, pool₀, pool₁, begun, size, starts, live₀, live₁, arena, head, below, none⟩ :=
    two_started
  have other : (1 : Nat) ≠ 0 := by decide
  -- The sum for the second large block wraps around to 1000.
  have fits : (Arena.ofRegion 16777216 kArenaCapacity).allocate 2000 16 =
      (some 16777216, ⟨16777216, kArenaCapacity, 2000, 2000, 2000⟩) := by decide
  have wraps : (Arena.allocate ⟨16777216, kArenaCapacity, 2000, 2000, 2000⟩
      18446744073709550616 16).1 = some 16779216 := by decide
  obtain ⟨a₃, called, arena₃⟩ : ∃ a, pool₀.alloc.arenaAllocate 2000 16 = (some 16777216, a) ∧
      a.arena = ⟨16777216, kArenaCapacity, 2000, 2000, 2000⟩ := by
    rw [SingleThreadAllocator.arenaAllocate, arena, fits]
    exact ⟨_, rfl, rfl⟩
  obtain ⟨s₃, pool₃, third, supplied₃, sys₃, alloc₃⟩ :=
    large_possible (P := desktop) live₀ (by decide) (by decide) called
  obtain ⟨a₄, called₃⟩ : ∃ a, pool₃.alloc.arenaAllocate 18446744073709550616 16 =
      (some 16779216, a) := by
    rw [alloc₃, SingleThreadAllocator.arenaAllocate, arena₃]
    generalize Arena.allocate ⟨16777216, kArenaCapacity, 2000, 2000, 2000⟩
      18446744073709550616 16 = answer at wraps
    obtain ⟨p, arena₄⟩ := answer
    rw [show p = some 16779216 from wraps]
    exact ⟨_, rfl⟩
  let client₃ := Client.none.gain 2000 (.ok (some 16777216))
  let client₄ := client₃.gain 18446744073709550616 (.ok (some 16779216))
  have live₃ : s₃.threads 0 = .live pool₃ client₃ := by
    rw [sys₃]
    exact s₂.setThread_same 0 _
  obtain ⟨s₄, pool₄, fourth, supplied₄, sys₄, _⟩ :=
    large_possible (P := desktop) live₃ (by decide) (by decide) called₃
  have live₄ : s₄.threads 0 = .live pool₄ client₄ := by
    rw [sys₄]
    exact s₃.setThread_same 0 _
  have second₄ : s₄.threads 1 = .live pool₁ Client.none := by
    rw [sys₄, s₃.setThread_other _ other, sys₃, s₂.setThread_other _ other]
    exact live₁
  have shared₄ : s₄.shared = s₂.shared := by
    rw [sys₄, sys₃]
    rfl
  have bumped : (⟨16779216, 18446744073709550616⟩ : Span) ∈ client₄.bumped := by
    have large : ¬ 18446744073709550616 ≤ maxSmall := by decide
    simp only [client₄, Client.gain, large, ↓reduceDIte]
    exact List.mem_cons_self
  refine ⟨_, s₄, pool₄, pool₁, client₄, (begun.snoc third).snoc fourth, ?_, ?_, live₄, second₄,
    bumped, head, ?_, ?_, ?_⟩
  · simp [size]
  · intro x member
    simp only [List.mem_append, List.mem_singleton] at member
    rcases member with (begin | rfl) | rfl
    · obtain ⟨t, event⟩ := starts x begin
      rw [event]
      exact ⟨supplied_other (by simp), by simp⟩
    · exact ⟨supplied₃, by simp⟩
    · exact ⟨supplied₄, by simp⟩
  · rw [shared₄]
    exact below
  · rw [shared₄]
    exact none
  · intro k less
    refine .arena live₄ bumped ⟨?_, ?_⟩
    · exact Nat.le_trans (by decide) (Nat.le_add_right 68157440 k)
    · simp only [Span.stop]
      omega

/-- The first thread clears the link in the first block of the second thread's slab, whose pool is
then exhausted after one block. -/
theorem wiped_refill : ∃ (trace : List (Transition Sys Event)) (s : Sys)
    (pool₀ pool₁ : ThreadPoolAlloc) (client₀ client₁ : Client),
    Run (Step desktop) (initial (fun _ => 0) Heap.empty) trace s ∧ trace.length = 14 ∧
      (∀ x ∈ trace, x.before.Supplied desktop x.event x.after ∧
        ∀ t form p n, x.event ≠ .free t form p n) ∧
      s.threads 0 = .live pool₀ client₀ ∧ s.threads 1 = .live pool₁ client₁ ∧
      ⟨16779216, 18446744073709550616⟩ ∈ client₀.bumped ∧
      s.shared.carved = [⟨134217728, some 1, 16⟩] := by
  obtain ⟨past, s₄, pool₄, pool₁, client₄, begun, size, tame, live₄, second₄, bumped, head, below,
    none, writable⟩ := wrapped_block
  have other : (1 : Nat) ≠ 0 := by decide
  obtain ⟨wiping, m, cleared, zero, writes, eight⟩ :=
    cleared_possible (P := desktop) writable
  let s₅ : Sys := { s₄ with mem := m }
  have small : 16 ≤ maxSmall := by decide
  obtain ⟨s₆, pool₂, sixth, supplied₆, sys₆, head₂⟩ :=
    stocked_possible (P := desktop) (s := s₅) second₄ small head (by decide)
  have second₆ : s₆.threads 1 = .live pool₂ (Client.none.gain 16 (.ok (some 68157440))) := by
    rw [sys₆]
    exact s₅.setThread_same 1 _
  have empty : (pool₂.alloc.pools (sizeClassOf 16 small)).head = 0 :=
    head₂.trans (ByteMemory.readWord_zero zero)
  have shared₆ : s₆.shared = s₄.shared := by
    rw [sys₆]
    rfl
  have below₆ : Below s₆.shared.heap 100663296 := by
    rw [shared₆]
    exact below
  obtain ⟨s₇, pool₅, seventh, supplied₇, threads₇, carved₇, _⟩ :=
    refilled_possible (p := 134217728) second₆ small empty below₆ (by decide) (by decide)
      (by decide) (by decide)
  have live₇ : s₇.threads 0 = .live pool₄ client₄ := by
    rw [threads₇, Function.update_of_ne other.symm, sys₆, s₅.setThread_other _ other.symm]
    exact live₄
  let client₂ := Client.none.gain 16 (.ok (some 68157440))
  let client₇ := client₂.gain 16 (.ok (some (134217728 + CentralHeap.kHeaderOffset)))
  have second₇ : s₇.threads 1 = .live pool₅ client₇ := by
    rw [threads₇]
    exact Function.update_self _ _ _
  have run := ((begun.append cleared).snoc sixth).snoc seventh
  refine ⟨_, s₇, pool₄, pool₅, client₄, client₇, run, ?_, ?_, live₇, second₇, bumped, ?_⟩
  · simp [size, eight]
  · intro x member
    have wiped : ∀ y ∈ wiping, y.before.Supplied desktop y.event y.after ∧
        ∀ t form p n, y.event ≠ .free t form p n := by
      intro y earlier
      obtain ⟨a, event⟩ := writes y earlier
      rw [event]
      exact ⟨supplied_other (by simp), by simp⟩
    simp only [List.mem_append, List.mem_singleton] at member
    rcases member with ((begin | wipe) | rfl) | rfl
    · exact tame x begin
    · exact wiped x wipe
    · exact ⟨supplied₆, by simp⟩
    · exact ⟨supplied₇, by simp⟩
  · rw [carved₇, shared₆, none]
    rfl

end Sys

end MemAlloc
