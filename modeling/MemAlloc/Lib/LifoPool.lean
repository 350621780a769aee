import Mathlib.Data.List.Perm.Basic

set_option autoImplicit false

/-- A supply of tokens: those in stock, most recently returned first, and those out. -/
structure LifoPool (α : Type) where
  stock : List α
  out : List α

namespace LifoPool

variable {α : Type}

def all (s : LifoPool α) : List α := s.stock ++ s.out

def take (s : LifoPool α) : Option α × LifoPool α :=
  match s.stock with
  | [] => (none, s)
  | x :: rest => (some x, ⟨rest, x :: s.out⟩)

def giveBack [DecidableEq α] (s : LifoPool α) (x : α) : LifoPool α :=
  ⟨x :: s.stock, s.out.erase x⟩

def supply (s : LifoPool α) (xs : List α) : LifoPool α := ⟨xs ++ s.stock, s.out⟩

theorem take_fst (s : LifoPool α) : s.take.1 = s.stock.head? := by
  obtain ⟨stock, out⟩ := s
  cases stock <;> rfl

theorem take_all (s : LifoPool α) : s.take.2.all.Perm s.all := by
  obtain ⟨stock, out⟩ := s
  cases stock with
  | nil => exact List.Perm.refl _
  | cons x rest => exact List.perm_middle

theorem giveBack_all [DecidableEq α] (s : LifoPool α) {x : α} (member : x ∈ s.out) :
    (s.giveBack x).all.Perm s.all := by
  simp only [giveBack, all, List.cons_append]
  have moved : (x :: (s.stock ++ s.out.erase x)).Perm (s.stock ++ x :: s.out.erase x) :=
    List.perm_middle.symm
  exact moved.trans ((List.perm_cons_erase member).symm.append_left s.stock)

theorem supply_all (s : LifoPool α) (xs : List α) : (s.supply xs).all = xs ++ s.all := by
  simp [supply, all]

end LifoPool
