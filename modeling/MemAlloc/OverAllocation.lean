import MemAlloc.NewDelete

set_option autoImplicit false

namespace MemAlloc

open Malloc (Heap addressLimit)

/-- `addr` is a multiple of `alignment`, and its `size` bytes lie inside the `requested`
bytes at `raw`. -/
def Contained (raw requested size alignment addr : Nat) : Prop :=
  alignment ∣ addr ∧ (Span.mk addr size).Inside ⟨raw, requested⟩

section Rounding

variable {size alignment raw : Nat}

/-- The sum `size + alignment` is a word: the rounded-up address leaves `size` bytes. -/
theorem contained_of_fits (power : Words.PowerOfTwo alignment)
    (fits : size + alignment < Words.radix) (region : raw + (size + alignment) ≤ Words.radix) :
    Contained raw (Words.add size alignment) size alignment (Words.alignUp raw alignment) := by
  have positive := power.positive
  obtain ⟨low, high, multiple⟩ := Words.alignUp_spec (x := raw) power (by omega)
  rw [Words.add_of_lt fits]
  refine ⟨multiple, low, ?_⟩
  show Words.alignUp raw alignment + size ≤ raw + (size + alignment)
  omega

/-- The sum wraps around: fewer than `size` bytes were requested. -/
theorem not_contained_of_wraps (word : size < Words.radix) (power : Words.PowerOfTwo alignment)
    (wraps : Words.radix ≤ size + alignment) (addr : Nat) :
    ¬ Contained raw (Words.add size alignment) size alignment addr := by
  have bound := power.le
  rintro ⟨_, low, high⟩
  have requested : Words.add size alignment = size + alignment - Words.radix :=
    Words.add_of_wrap wraps (by simp only [Words.radix] at word ⊢; omega)
  rw [requested] at high
  change addr + size ≤ raw + (size + alignment - Words.radix) at high
  change raw ≤ addr at low
  simp only [Words.radix] at wraps high
  omega

/-- A region that `malloc` has granted lies in the user half of the address space. -/
theorem contained_iff {τ : Type} {h : Heap τ} {align : Nat} (word : size < Words.radix)
    (power : Words.PowerOfTwo alignment)
    (granted : h.Fresh align (Words.add size alignment) raw) :
    Contained raw (Words.add size alignment) size alignment (Words.alignUp raw alignment) ↔
      size + alignment < Words.radix := by
  constructor
  · intro contained
    apply Nat.lt_of_not_le
    intro wraps
    exact not_contained_of_wraps word power wraps _ contained
  · intro fits
    apply contained_of_fits power fits
    have region : raw + max (Words.add size alignment) 1 ≤ 9223372036854775808 := granted.2.2.1
    rw [Words.add_of_lt fits] at region
    simp only [Words.radix]
    omega

end Rounding

/-- The request that `allocateSlab` makes once `aligned_alloc` has given nothing. -/
def overAllocate {τ : Type} (P : Platform) (h : Heap τ) (owner : τ) (size alignment : Nat)
    (reply : SlabReply) : Option Nat :=
  (h.malloc owner P.mallocAlign (Words.add size alignment) reply.malloc).1

/-- A null `SlabAlloc`, or a region inside the bytes that were requested. -/
def SlabContained {τ : Type} (P : Platform) (h : Heap τ) (owner : τ) (size alignment : Nat)
    (reply : SlabReply) : Prop :=
  (allocateSlab P h owner size alignment reply).1 = none ∨
    ∃ s, (allocateSlab P h owner size alignment reply).1 = some s ∧ s.aligned ≠ 0 ∧
      overAllocate P h owner size alignment reply = some s.raw ∧
      Contained s.raw (Words.add size alignment) size alignment s.aligned

namespace NewDelete

/-- `std::bad_alloc`, or a region inside the bytes that were requested. -/
def BootstrapContained (P : Platform) (r : Replies) (t size alignment : Nat) (w : NewDelete) :
    Prop :=
  (w.bootstrapAlignedNew P r t size alignment).1 = .error .badAlloc ∨
    ∃ raw addr, (w.malloc P .overAligned (Words.add size alignment) r.block).1 = some raw ∧
      (w.bootstrapAlignedNew P r t size alignment).1 = .ok (some addr) ∧ addr ≠ 0 ∧
      Contained raw (Words.add size alignment) size alignment addr

end NewDelete

section Calls

variable {size alignment : Nat}

theorem alignUp_ne_zero {τ : Type} {h : Heap τ} {align raw : Nat}
    (power : Words.PowerOfTwo alignment)
    (granted : h.Fresh align (Words.add size alignment) raw) : Words.alignUp raw alignment ≠ 0 := by
  have bound := power.le
  have region : raw + max (Words.add size alignment) 1 ≤ 9223372036854775808 := granted.2.2.1
  have nonnull := granted.1
  have rounded := Words.alignUp_spec (x := raw) power (by simp only [Words.radix]; omega)
  omega

theorem slab_contained_iff {τ : Type} {P : Platform} {h : Heap τ} {owner : τ} {reply : SlabReply}
    (word : size < Words.radix) (power : Words.PowerOfTwo alignment)
    (missed : (tryAlignedAlloc P h owner size alignment reply).1 = none) :
    SlabContained P h owner size alignment reply ↔
      overAllocate P h owner size alignment reply = none ∨ size + alignment < Words.radix := by
  obtain ⟨h', direct⟩ : ∃ h', tryAlignedAlloc P h owner size alignment reply = (none, h') :=
    ⟨_, Prod.ext missed rfl⟩
  obtain rfl := tryAlignedAlloc_none direct
  simp only [SlabContained, allocateSlab, direct, overAllocate]
  cases answer : h'.malloc owner P.mallocAlign (Words.add size alignment) reply.malloc with
  | mk block grown =>
      cases block with
      | none => simp
      | some raw =>
          obtain ⟨fresh, _⟩ := Heap.of_malloc_some answer
          have nonnull := alignUp_ne_zero power fresh
          simpa [nonnull] using contained_iff word power fresh

theorem bootstrap_contained_iff {P : Platform} {r : Replies} {t : Nat} {w : NewDelete}
    (word : size < Words.radix) (power : Words.PowerOfTwo alignment) :
    w.BootstrapContained P r t size alignment ↔
      (w.malloc P .overAligned (Words.add size alignment) r.block).1 = none ∨
        size + alignment < Words.radix := by
  cases answer : w.malloc P .overAligned (Words.add size alignment) r.block with
  | mk block w' =>
      simp only [NewDelete.BootstrapContained, NewDelete.bootstrapAlignedNew, answer]
      cases block with
      | none => simp
      | some raw =>
          have granted : (w.malloc P .overAligned (Words.add size alignment) r.block).1 =
              some raw := by rw [answer]
          obtain ⟨fresh, _⟩ := Heap.malloc_some (h := w.sys.shared.heap) granted
          have nonnull := alignUp_ne_zero power fresh
          simpa [NewDelete.issue, nonnull] using contained_iff word power fresh

/-- Both over-allocating functions keep to what they requested exactly when `malloc` refuses,
or the padded size is still a word. -/
theorem overAllocation_contained_iff (word : size < Words.radix)
    (power : Words.PowerOfTwo alignment) :
    (∀ (P : Platform) (r : Replies) (t : Nat) (w : NewDelete),
      w.BootstrapContained P r t size alignment ↔
        (w.malloc P .overAligned (Words.add size alignment) r.block).1 = none ∨
          size + alignment < Words.radix) ∧
    (∀ (τ : Type) (P : Platform) (h : Heap τ) (owner : τ) (reply : SlabReply),
      (tryAlignedAlloc P h owner size alignment reply).1 = none →
        (SlabContained P h owner size alignment reply ↔
          overAllocate P h owner size alignment reply = none ∨
            size + alignment < Words.radix)) :=
  ⟨fun _ _ _ _ => bootstrap_contained_iff word power,
    fun _ _ _ _ _ missed => slab_contained_iff word power missed⟩

/-- 100 bytes on a cache line. -/
theorem overAllocation_contained_line :
    (∀ (P : Platform) (r : Replies) (t : Nat) (w : NewDelete),
      w.BootstrapContained P r t 100 64 ↔
        (w.malloc P .overAligned (Words.add 100 64) r.block).1 = none ∨
          100 + 64 < Words.radix) ∧
    (∀ (τ : Type) (P : Platform) (h : Heap τ) (owner : τ) (reply : SlabReply),
      (tryAlignedAlloc P h owner 100 64 reply).1 = none →
        (SlabContained P h owner 100 64 reply ↔
          overAllocate P h owner 100 64 reply = none ∨ 100 + 64 < Words.radix)) :=
  overAllocation_contained_iff (by decide) ⟨6, by decide, rfl⟩

/-- 32 bytes short of the whole address space, on a cache line: 32 bytes are requested. -/
theorem overAllocation_not_always_contained : ∃ (r : Replies) (w : NewDelete) (h : Heap Owner)
    (reply : SlabReply), ¬ w.BootstrapContained desktop r 0 (Words.radix - 32) 64 ∧
      ¬ SlabContained ⟨8, 16, false⟩ h .chunk (Words.radix - 32) 64 reply := by
  have fresh : (Heap.empty : Heap Owner).Fresh 16 32 4096 := by
    refine ⟨by decide, by decide, by decide, fun b member => ?_⟩
    cases member
  have size : Words.add (Words.radix - 32) 64 = 32 := by decide
  have power : Words.PowerOfTwo 64 := ⟨6, by decide, rfl⟩
  refine ⟨⟨some 4096, none, ⟨none, none⟩⟩, NewDelete.initial (fun _ => 0) Heap.empty,
    Heap.empty, ⟨none, some 4096⟩, ?_, ?_⟩
  · rw [bootstrap_contained_iff (by decide) power, size]
    have granted := Heap.malloc_fresh (Owner.outside .overAligned) fresh
    rintro (refused | fits)
    · simp only [NewDelete.malloc, NewDelete.initial, Sys.initial, desktop, granted] at refused
      cases refused
    · simp [Words.radix] at fits
  · rw [slab_contained_iff (by decide) power rfl]
    have granted := Heap.malloc_fresh Owner.chunk fresh
    rintro (refused | fits)
    · simp only [overAllocate, size, granted] at refused
      cases refused
    · simp [Words.radix] at fits

end Calls

end MemAlloc
