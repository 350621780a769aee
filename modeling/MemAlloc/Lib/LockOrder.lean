import Mathlib.Logic.Relation
import Mathlib.Order.WellFounded

set_option autoImplicit false

/- Threads that hold locks and wait for locks. When every thread takes its locks in one order, no
threads wait for each other in a circle. -/
namespace LockOrder

variable {τ : Type*} {ℓ : Type*} {ρ : Type*} (waits holds : τ → ℓ → Prop)

def WaitsFor (t u : τ) : Prop := ∃ l, waits t l ∧ holds u l

def Free (t : τ) : Prop := (∀ u, ¬ WaitsFor waits holds t u) ∨ ∃ l, waits t l ∧ holds t l

/-- A thread waits for a lock only while those it holds are lower, or to take one again. -/
def Ordered [LT ρ] (rank : ℓ → ρ) : Prop :=
  ∀ t l h, waits t l → holds t h → rank h < rank l ∨ holds t l

variable {waits holds} [Preorder ρ] [WellFoundedGT ρ] {rank : ℓ → ρ}

/-- The chain behind the holder of a lock goes up in rank until it ends. -/
theorem Ordered.holder_free (ordered : Ordered waits holds rank) {u : τ} {l : ℓ}
    (holding : holds u l) :
    ∃ v, Relation.ReflTransGen (WaitsFor waits holds) u v ∧ Free waits holds v := by
  induction above : rank l using WellFoundedGT.induction generalizing u l with
  | ind r ih =>
      by_cases waiting : ∃ w, WaitsFor waits holds u w
      · obtain ⟨w, next, waited, has⟩ := waiting
        rcases ordered u next l waited holding with higher | own
        · obtain ⟨v, path, free⟩ := ih (rank next) (above ▸ higher) has rfl
          exact ⟨v, .head ⟨next, waited, has⟩ path, free⟩
        · exact ⟨u, .refl, .inr ⟨next, waited, own⟩⟩
      · exact ⟨u, .refl, .inl (fun w waited => waiting ⟨w, waited⟩)⟩

/-- At the end of the chain of those a thread waits for stands a free one. -/
theorem Ordered.exists_free (ordered : Ordered waits holds rank) (t : τ) :
    ∃ v, Relation.ReflTransGen (WaitsFor waits holds) t v ∧ Free waits holds v := by
  by_cases waiting : ∃ u, WaitsFor waits holds t u
  · obtain ⟨u, l, waited, has⟩ := waiting
    obtain ⟨v, path, free⟩ := ordered.holder_free has
    exact ⟨v, .head ⟨l, waited, has⟩ path, free⟩
  · exact ⟨t, .refl, .inl (fun u waited => waiting ⟨u, waited⟩)⟩

theorem waited_of_path {t v : τ}
    (path : Relation.ReflTransGen (WaitsFor waits holds) t v) : v = t ∨ ∃ l, holds v l := by
  cases path with
  | refl => exact .inl rfl
  | tail _ last =>
      obtain ⟨l, _, has⟩ := last
      exact .inr ⟨l, has⟩

end LockOrder
