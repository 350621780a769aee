import Mathlib.Algebra.BigOperators.Fin
import MemAlloc.AllocatorOperations

set_option autoImplicit false

namespace MemAlloc

/-- What the client of an allocator holds: blocks by class, and arena blocks. -/
structure Client where
  held : SizeClass → List Nat
  bumped : List Span

namespace Client

def none : Client := ⟨fun _ => [], []⟩

def gainBlock (c : Client) (i : SizeClass) (p : Nat) : Client :=
  { c with held := Function.update c.held i (p :: c.held i) }

def gainSpan (c : Client) (s : Span) : Client := { c with bumped := s :: c.bumped }

/-- The result of `allocate(n)` joins what the client holds. -/
def gain (c : Client) (n : Nat) : Except Exn (Option Nat) → Client
  | .ok (some p) =>
      if small : n ≤ maxSmall then c.gainBlock (sizeClassOf n small) p else c.gainSpan ⟨p, n⟩
  | _ => c

def gainAligned (c : Client) (n : Nat) : Option Nat → Client
  | some p => c.gainSpan ⟨p, n⟩
  | Option.none => c

def release (c : Client) (i : SizeClass) (x : Nat) : Client :=
  { c with held := Function.update c.held i ((c.held i).erase x) }

theorem gainBlock_same (c : Client) (i : SizeClass) (p : Nat) :
    (c.gainBlock i p).held i = p :: c.held i := Function.update_self _ _ _

theorem gainBlock_other (c : Client) {i j : SizeClass} (p : Nat) (different : j ≠ i) :
    (c.gainBlock i p).held j = c.held j := Function.update_of_ne different _ _

theorem release_same (c : Client) (i : SizeClass) (x : Nat) :
    (c.release i x).held i = (c.held i).erase x := Function.update_self _ _ _

theorem release_other (c : Client) {i j : SizeClass} (x : Nat) (different : j ≠ i) :
    (c.release i x).held j = c.held j := Function.update_of_ne different _ _

/-- The ledger of an allocator whose client is `c`. -/
def ledger (c : Client) (free : SizeClass → List Nat) (linked : SizeClass → List Slab) : Ledger :=
  ⟨free, c.held, linked, c.bumped⟩

theorem ledger_eq {c : Client} {L : Ledger} {linked : SizeClass → List Slab}
    (held : L.held = c.held) (same : L.linked = linked) (bumped : L.bumped = c.bumped) :
    c.ledger L.free linked = L := by
  obtain ⟨free, held', linked', bumped'⟩ := L
  simp only [ledger] at *
  rw [held, same, bumped]

theorem gain_unanswered (c : Client) (n : Nat) {x : Except Exn (Option Nat)}
    (unanswered : ∀ p, x ≠ .ok (some p)) : c.gain n x = c := by
  cases x with
  | error _ => rfl
  | ok answer =>
      cases answer with
      | none => rfl
      | some p => exact absurd rfl (unanswered p)

/-- The result of a request is what the ledger gained. -/
theorem gain_granted {P : Platform} {recorded : Bool} {a a' : SingleThreadAllocator}
    {L L' : Ledger} {n : Nat} {body : Option Nat} {x : Except Exn (Option Nat)} {c : Client}
    (granted : SingleThreadAllocator.Granted P recorded a L n body x a' L')
    (held : L.held = c.held) (bumped : L.bumped = c.bumped) :
    L'.held = (c.gain n x).held ∧ L'.bumped = (c.gain n x).bumped := by
  cases granted with
  | pool small cls stocked =>
      subst cls
      simp [gain, small, gainBlock, Ledger.take, Ledger.setPool, held, bumped]
  | refused small cls empty unanswered =>
      rw [gain_unanswered c n unanswered]
      exact ⟨held, bumped⟩
  | lost unrecorded small cls empty =>
      simp [gain, Ledger.link, Ledger.setPool, held, bumped]
  | refilled grown small cls empty blocks =>
      subst cls
      simp [gain, small, gainBlock, Ledger.take, Ledger.link, Ledger.setPool, held, bumped]
  | arena large served =>
      simp [gain, Nat.not_le.mpr large, gainSpan, Ledger.bump, held, bumped]
  | arenaFull large full => exact ⟨held, bumped⟩

theorem length_gain (c : Client) (n : Nat) (x : Except Exn (Option Nat)) (i : SizeClass) :
    ((c.gain n x).held i).length ≤ (c.held i).length + 1 := by
  cases x with
  | error _ => exact Nat.le_succ _
  | ok answer =>
      cases answer with
      | none => exact Nat.le_succ _
      | some p =>
          simp only [gain]
          split
          · rename_i small
            by_cases same : i = sizeClassOf n small
            · rw [same, gainBlock_same, List.length_cons]
            · rw [gainBlock_other c p same]
              exact Nat.le_succ _
          · exact Nat.le_succ _

theorem held_gainAligned (c : Client) (n : Nat) (x : Option Nat) :
    (c.gainAligned n x).held = c.held := by
  cases x with
  | none => rfl
  | some p => rfl

theorem length_release (c : Client) (j : SizeClass) (x : Nat) (i : SizeClass) :
    ((c.release j x).held i).length ≤ (c.held i).length := by
  by_cases same : i = j
  · rw [same, release_same]
    exact List.length_erase_le
  · rw [release_other c x same]

def blocksOut (c : Client) : Nat := ∑ i, (c.held i).length

def bytesOut (c : Client) : Nat := ∑ i, (c.held i).length * i.bytes

theorem sum_update {f g : SizeClass → Nat} (i : SizeClass) (same : ∀ j, j ≠ i → g j = f j) :
    ∑ j, g j + f i = ∑ j, f j + g i := by
  rw [← Finset.add_sum_erase _ f (Finset.mem_univ i), ← Finset.add_sum_erase _ g
    (Finset.mem_univ i)]
  have rest : ∑ j ∈ Finset.univ.erase i, g j = ∑ j ∈ Finset.univ.erase i, f j :=
    Finset.sum_congr rfl (fun j member => same j (Finset.ne_of_mem_erase member))
  omega

@[simp] theorem blocksOut_gainBlock (c : Client) (i : SizeClass) (p : Nat) :
    (c.gainBlock i p).blocksOut = c.blocksOut + 1 := by
  have sum := sum_update (f := fun j => (c.held j).length)
    (g := fun j => ((c.gainBlock i p).held j).length) i
    (fun j different => by simp [gainBlock, different])
  simp only [gainBlock, Function.update_self, List.length_cons] at sum
  simp only [blocksOut, gainBlock]
  omega

@[simp] theorem bytesOut_gainBlock (c : Client) (i : SizeClass) (p : Nat) :
    (c.gainBlock i p).bytesOut = c.bytesOut + i.bytes := by
  have sum := sum_update (f := fun j => (c.held j).length * j.bytes)
    (g := fun j => ((c.gainBlock i p).held j).length * j.bytes) i
    (fun j different => by simp [gainBlock, different])
  simp only [gainBlock, Function.update_self, List.length_cons, Nat.succ_mul] at sum
  simp only [bytesOut, gainBlock]
  omega

theorem blocksOut_release {c : Client} {i : SizeClass} {x : Nat} (out : x ∈ c.held i) :
    c.blocksOut = (c.release i x).blocksOut + 1 := by
  have sum := sum_update (f := fun j => (c.held j).length)
    (g := fun j => ((c.release i x).held j).length) i
    (fun j different => by simp [release, different])
  have positive := List.length_pos_of_mem out
  simp only [release, Function.update_self, List.length_erase_of_mem out] at sum
  simp only [blocksOut, release]
  omega

theorem bytesOut_release {c : Client} {i : SizeClass} {x : Nat} (out : x ∈ c.held i) :
    c.bytesOut = (c.release i x).bytesOut + i.bytes := by
  have sum := sum_update (f := fun j => (c.held j).length * j.bytes)
    (g := fun j => ((c.release i x).held j).length * j.bytes) i
    (fun j different => by simp [release, different])
  have positive := List.length_pos_of_mem out
  have split : (c.held i).length * i.bytes = ((c.held i).length - 1) * i.bytes + i.bytes := by
    rw [← Nat.succ_mul]
    congr 1
    omega
  simp only [release, Function.update_self, List.length_erase_of_mem out] at sum
  simp only [bytesOut, release]
  omega

end Client

end MemAlloc
