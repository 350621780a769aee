import MemAlloc.GroundedRuns

set_option autoImplicit false

namespace MemAlloc

open Malloc (Heap)
open Runs (Run Transition)

namespace SingleThreadAllocator

/-- The arena hands out its cursor, padded to the alignment. -/
theorem arenaAllocate_pointer {a : SingleThreadAllocator} {n alignment p : Nat}
    (arena : a.arena.Inv) (power : Words.PowerOfTwo alignment)
    (served : (a.arenaAllocate n alignment).1 = some p) :
    p = a.arena.base + a.arena.used + Words.padding (a.arena.base + a.arena.used) alignment := by
  rw [arenaAllocate, Arena.allocate_eq arena power] at served
  split at served
  · cases served
  · cases served
    rfl

end SingleThreadAllocator

/-- Without `::aligned_alloc` a slab lies in a larger block that `malloc` returns. -/
theorem BlockPool.new_rounded {τ : Type} {P : Platform} {h : Heap τ} {B N p : Nat} (owner : τ)
    (m : ByteMemory) (without : P.hasAlignedAlloc = false)
    (requested : Words.add (N * B) B = N * B + B) (rounded : Words.alignUp p B = p)
    (fresh : h.Fresh P.mallocAlign (N * B + B) p) :
    ∃ pool m' h', BlockPool.new P B N h owner m ⟨none, some p⟩ = (.ok (pool, m'), h') ∧
      pool.slab = p ∧ h'.blocks = ⟨Heap.request p (N * B + B), owner⟩ :: h.blocks := by
  have granted := Heap.malloc_fresh owner fresh
  let built := BlockPool.ofSlab B N m ⟨p, p⟩
  refine ⟨built.1, built.2, h.add owner P.mallocAlign (N * B + B) p fresh, ?_, rfl, rfl⟩
  simp only [BlockPool.new, allocateSlab, tryAlignedAlloc, without, requested,
    Bool.false_eq_true, ↓reduceIte, granted, rounded, built]

/-- `__STDCPP_DEFAULT_NEW_ALIGNMENT__`. -/
def defaultNewAlignment : Nat := 16

/-- The residues that rounding up to a multiple of 8 takes to a multiple of 16. -/
def Residue (cursor : Nat) : Prop := cursor % 16 = 0 ∨ 8 < cursor % 16

theorem padded_eight_iff (cursor : Nat) :
    defaultNewAlignment ∣ cursor + Words.padding cursor 8 ↔ Residue cursor := by
  simp only [defaultNewAlignment, Residue, Words.padding]
  omega

namespace NewDelete

variable {P : Platform} {w w' : NewDelete} {r : Replies} {active : Bool} {t size p : Nat}

/-- A plain `operator new` is served by the fallback, or the arena's cursor is right. -/
def WellPlaced (P : Platform) (w : NewDelete) (active : Bool) (t : Nat) : Prop :=
  takesFallback w.ready active (w.allocatorGone t) = true ∨ P.maxAlign = 16 ∨
    ∀ pool client, w.sys.threads t = .live pool client →
      Residue (pool.alloc.arena.base + pool.alloc.arena.used)

theorem fallbackNew_pointer (done : w.fallbackNew P r t size = (.ok (some p), w')) :
    P.mallocAlign ∣ p := by
  rw [fallbackNew] at done
  split at done
  · cases done
  · rename_i q w₁ granted
    cases done
    obtain ⟨_, _, fresh, _⟩ := of_malloc_some granted
    exact fresh.2.1

theorem poolNew_large {pool : ThreadPoolAlloc} {client : Client} (large : maxSmall < size)
    (done : w.poolNew P r t size pool client = (.ok (some p), w')) :
    (pool.alloc.arenaAllocate size P.maxAlign).1 = some p := by
  obtain ⟨served, called⟩ : ∃ served, pool.alloc.arenaAllocate size P.maxAlign = served :=
    ⟨_, rfl⟩
  obtain ⟨q, a'⟩ := served
  rw [poolNew, ThreadPoolAlloc.allocate_large _ _ _ _ _ large called] at done
  rw [called]
  cases q with
  | none => cases done
  | some q =>
      cases done
      rfl

theorem maxAlign_power (maxAlign : P.maxAlign = 16 ∨ P.maxAlign = 8) :
    Words.PowerOfTwo P.maxAlign := by
  rcases maxAlign with sixteen | eight
  · exact ⟨4, by decide, sixteen⟩
  · exact ⟨3, by decide, eight⟩

theorem poolNew_aligned_iff {pool : ThreadPoolAlloc} {client : Client}
    (maxAlign : P.maxAlign = 16 ∨ P.maxAlign = 8) (grounded : w.sys.Grounded)
    (live : w.sys.threads t = .live pool client) (large : maxSmall < size)
    (done : w.poolNew P r t size pool client = (.ok (some p), w')) :
    defaultNewAlignment ∣ p ↔
      P.maxAlign = 16 ∨ Residue (pool.alloc.arena.base + pool.alloc.arena.used) := by
  have place := SingleThreadAllocator.arenaAllocate_pointer (grounded t pool client live).arena
    (maxAlign_power maxAlign) (poolNew_large large done)
  rcases maxAlign with sixteen | eight
  · rw [sixteen] at place
    rw [place]
    exact iff_of_true (Words.padding_dvd (by decide)) (Or.inl sixteen)
  · rw [eight] at place
    rw [place, padded_eight_iff]
    constructor
    · exact Or.inr
    · intro right
      apply right.resolve_left
      omega

theorem doNew_aligned_iff (maxAlign : P.maxAlign = 16 ∨ P.maxAlign = 8)
    (malloc : defaultNewAlignment ∣ P.mallocAlign) (grounded : w.sys.Grounded)
    (large : maxSmall < size) (done : w.doNew P r active t size = some (.ok (some p), w')) :
    defaultNewAlignment ∣ p ↔ w.WellPlaced P active t := by
  have positive : size ≠ 0 := by omega
  rw [doNew, if_neg positive] at done
  split at done
  · rename_i falls
    have multiple := fallbackNew_pointer (Option.some.inj done)
    exact iff_of_true (malloc.trans multiple) (Or.inl falls)
  · rename_i serves
    split at done
    · rename_i pool client live
      rw [poolNew_aligned_iff maxAlign grounded live large (Option.some.inj done)]
      constructor
      · intro right
        rcases right with sixteen | residue
        · exact Or.inr (Or.inl sixteen)
        · right
          right
          intro pool₁ client₁ live₁
          rw [live] at live₁
          cases live₁
          exact residue
      · intro right
        rcases right with falls | sixteen | residue
        · exact absurd falls serves
        · exact Or.inl sixteen
        · exact Or.inr (residue pool client live)
    · cases done

section Run

variable {trace : List (Transition NewDelete Event)} {m : ByteMemory} {h : Heap Owner}

/-- A large block of the plain `operator new` is a multiple of the default new alignment
exactly when it comes from the fallback, `std::max_align_t` has that alignment already, or
rounding the arena's cursor up to a multiple of 8 happens to give a multiple of 16. -/
theorem large_new_aligned_iff (maxAlign : P.maxAlign = 16 ∨ P.maxAlign = 8)
    (malloc : defaultNewAlignment ∣ P.mallocAlign)
    (run : Run (Step P) (initial m h) trace w) (large : maxSmall < size)
    (done : w.doNew P r active t size = some (.ok (some p), w')) :
    defaultNewAlignment ∣ p ↔ w.WellPlaced P active t :=
  doNew_aligned_iff maxAlign malloc (grounded_run run) large done

end Run

/-- A platform with `alignof(std::max_align_t)` 8 and without `::aligned_alloc`. -/
def msvc : Platform := ⟨8, 16, false⟩

/-- Every slab is a multiple of its alignment as `malloc` returns it. -/
def msvcReply (base : Nat) (i : SizeClass) : SlabReply := ⟨none, some (spreadAddress base i)⟩

theorem spreadGranted_msvc {τ : Type} {base : Nat} (owner : SizeClass → τ)
    (aligned : 1048576 ∣ base) (room : base + 33554432 ≤ Malloc.addressLimit) :
    SingleThreadAllocator.SpreadGranted msvc owner (msvcReply base) base := by
  intro i h m below
  have limit : base + 33554432 ≤ 9223372036854775808 := room
  have small : i.bytes ≤ 1024 := i.bytes_le
  have index := i.isLt
  have multiple : 16 ∣ spreadAddress base i := by
    obtain ⟨k, rfl⟩ := aligned
    simp only [spreadAddress]
    omega
  have requested : Words.add (blocksPerSlab * i.bytes) i.bytes =
      blocksPerSlab * i.bytes + i.bytes := by
    apply Words.add_of_lt
    simp only [blocksPerSlab, Words.radix]
    omega
  have stop : spreadAddress base i + max (blocksPerSlab * i.bytes + i.bytes) 1 ≤
      spreadAddress base i + 1048576 := by
    simp only [blocksPerSlab]
    omega
  have fresh : h.Fresh msvc.mallocAlign (blocksPerSlab * i.bytes + i.bytes)
      (spreadAddress base i) := by
    apply fresh_above below (Nat.le_refl _)
      (SingleThreadAllocator.spreadAddress_positive base i) multiple
    apply Nat.le_trans stop
    simp only [spreadAddress, Malloc.addressLimit]
    omega
  have rounded : Words.alignUp (spreadAddress base i) i.bytes = spreadAddress base i := by
    have whole := Nat.mod_eq_zero_of_dvd (SingleThreadAllocator.spreadAddress_multiple aligned i)
    rw [Words.alignUp_padding (SingleThreadAllocator.bytes_power i) (by
      simp only [spreadAddress, Words.radix]
      omega), Words.padding, whole, Nat.sub_zero, Nat.mod_self, Nat.add_zero]
  have without : msvc.hasAlignedAlloc = false := rfl
  obtain ⟨pool, m', h', built, slab, added⟩ :=
    BlockPool.new_rounded (owner i) m without requested rounded fresh
  exact ⟨pool, m', h', _, built, slab, added, Nat.le_add_right _ _, stop⟩

/-- Thread 0 of such a platform, ready, with an empty arena at 17 MiB. -/
theorem msvc_ready : ∃ (trace : List (Transition NewDelete Event)) (w : NewDelete)
    (pool : ThreadPoolAlloc), Run (Step msvc) (initial (fun _ => 0) Heap.empty) trace w ∧
      w.ready = true ∧ w.sys.threads 0 = .live pool Client.none ∧
      pool.alloc.arena = Arena.ofRegion 17825792 kArenaCapacity := by
  let w : NewDelete := initial (fun _ => 0) Heap.empty
  have room : 1048576 + 33554432 ≤ Malloc.addressLimit := by decide
  have nothing : Below w.sys.shared.heap (1048576 + 1048576) := by
    intro b member
    cases member
  obtain ⟨a, m', h', built, _, arena, _⟩ := SingleThreadAllocator.new_granted
    (spreadGranted_msvc (Owner.slab 0) (Nat.dvd_refl _) room) (.arena 0) w.sys.mem
    w.sys.shared.heap (by decide) room nothing
  let w₁ : NewDelete := { w with constructing := Function.update w.constructing 0 true }
  have begun : Step msvc w (.begin 0) w₁ := .begin rfl rfl
  have marked : Function.update w.constructing 0 true 0 = true := Function.update_self _ _ _
  obtain ⟨w₂, constructed, live⟩ : ∃ w₂, Step msvc w₁ (.construct 0 (.ok ())) w₂ ∧
      w₂.sys.threads 0 = .live ⟨a, 0, 0, w.sys.nextThreadId⟩ Client.none :=
    ⟨_, .construct marked (.start rfl built), Sys.setThread_same (w₁.sys.setHeap h') 0 _⟩
  exact ⟨_, _, _, ((Run.nil.snoc begun).snoc constructed).snoc (.initAllocator live), rfl, live,
    arena⟩

/-- A large request that fits the arena is served at the padded cursor. -/
theorem large_possible {pool : ThreadPoolAlloc} {client : Client} (ready : w.ready = true)
    (live : w.sys.threads t = .live pool client) (arena : pool.alloc.arena.Inv)
    (power : Words.PowerOfTwo P.maxAlign) (large : maxSmall < size)
    (fits : pool.alloc.arena.demand size P.maxAlign ≤ pool.alloc.arena.capacity) :
    ∃ pool' client' w', w.doNew P ⟨none, none, ⟨none, none⟩⟩ false t size =
        some (.ok (some (pool.alloc.arena.base + pool.alloc.arena.used +
          pool.alloc.arena.padding P.maxAlign)), w') ∧
      w'.ready = w.ready ∧ w'.sys.threads t = .live pool' client' ∧
      pool'.alloc.arena.base = pool.alloc.arena.base ∧
      pool'.alloc.arena.capacity = pool.alloc.arena.capacity ∧
      pool'.alloc.arena.used = pool.alloc.arena.demand size P.maxAlign := by
  have positive : size ≠ 0 := by omega
  have serves : takesFallback w.ready false (w.allocatorGone t) = false := by
    rw [takesFallback, ready, allocatorGone, live]
    rfl
  obtain ⟨a', called, base, capacity, used⟩ : ∃ a',
      pool.alloc.arenaAllocate size P.maxAlign = (some (pool.alloc.arena.base +
        pool.alloc.arena.used + pool.alloc.arena.padding P.maxAlign), a') ∧
      a'.arena.base = pool.alloc.arena.base ∧ a'.arena.capacity = pool.alloc.arena.capacity ∧
      a'.arena.used = pool.alloc.arena.demand size P.maxAlign := by
    rw [SingleThreadAllocator.arenaAllocate, Arena.allocate_fits arena power fits]
    exact ⟨_, rfl, rfl, rfl, rfl⟩
  rw [doNew, if_neg positive, serves]
  simp only [Bool.false_eq_true, ↓reduceIte, live]
  rw [poolNew, ThreadPoolAlloc.allocate_large _ _ _ _ _ large called]
  exact ⟨_, _, _, rfl, rfl, Function.update_self _ _ _, base, capacity, used⟩

/-- The first large block lies at the start of the arena. -/
theorem large_new_aligned_first : ∃ (trace : List (Transition NewDelete Event))
    (w w' : NewDelete) (r : Replies) (p : Nat),
    Run (Step msvc) (initial (fun _ => 0) Heap.empty) trace w ∧
      w.doNew msvc r false 0 1025 = some (.ok (some p), w') ∧ defaultNewAlignment ∣ p := by
  obtain ⟨trace, w, pool, run, ready, live, arena⟩ := msvc_ready
  have start : pool.alloc.arena.Inv := by
    rw [arena]
    exact .ofRegion (by decide) (by decide)
  have fits : pool.alloc.arena.demand 1025 msvc.maxAlign ≤ pool.alloc.arena.capacity := by
    rw [arena]
    decide
  obtain ⟨_, _, w', done, _⟩ := large_possible ready live start ⟨3, by decide, rfl⟩
    (by decide) fits
  refine ⟨trace, w, w', _, _, run, done, ?_⟩
  apply (large_new_aligned_iff (Or.inr rfl) (by decide) run (by decide) done).mpr
  right
  right
  intro pool₁ client₁ live₁
  rw [live] at live₁
  cases live₁
  rw [arena]
  left
  decide

/-- The second block of 1025 bytes does not. -/
theorem large_new_not_always_aligned : ∃ (trace : List (Transition NewDelete Event))
    (w w' : NewDelete) (r : Replies) (p : Nat),
    Run (Step msvc) (initial (fun _ => 0) Heap.empty) trace w ∧ w.ready = true ∧
      w.doNew msvc r false 0 1025 = some (.ok (some p), w') ∧ ¬ defaultNewAlignment ∣ p := by
  obtain ⟨trace, w, pool, run, ready, live, arena⟩ := msvc_ready
  have power : Words.PowerOfTwo msvc.maxAlign := ⟨3, by decide, rfl⟩
  have start : pool.alloc.arena.Inv := by
    rw [arena]
    exact .ofRegion (by decide) (by decide)
  have fits : pool.alloc.arena.demand 1025 msvc.maxAlign ≤ pool.alloc.arena.capacity := by
    rw [arena]
    decide
  obtain ⟨pool₁, client₁, w₁, first, ready₁, live₁, base, capacity, used⟩ :=
    large_possible ready live start power (by decide) fits
  rw [arena] at base capacity used
  have later : pool₁.alloc.arena.base = 17825792 ∧ pool₁.alloc.arena.capacity = 4194304 ∧
      pool₁.alloc.arena.used = 1025 := ⟨base, capacity, used.trans (by decide)⟩
  obtain ⟨base, capacity, used⟩ := later
  have next : pool₁.alloc.arena.Inv := by
    refine ⟨?_, ?_, ?_⟩
    · omega
    · rw [base, capacity]
      decide
    · omega
  have padding : pool₁.alloc.arena.padding msvc.maxAlign = 7 := by
    rw [Arena.padding, base, used]
    decide
  have room : pool₁.alloc.arena.demand 1025 msvc.maxAlign ≤ pool₁.alloc.arena.capacity := by
    rw [Arena.demand, padding]
    omega
  obtain ⟨_, _, w₂, second, _⟩ :=
    large_possible (ready₁.trans ready) live₁ next power (by decide) room
  refine ⟨_, w₁, w₂, _, _, run.snoc (.new (by decide) first), ready₁.trans ready, second, ?_⟩
  rw [base, used, padding]
  decide

end NewDelete

end MemAlloc
