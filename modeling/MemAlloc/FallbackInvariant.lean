import MemAlloc.NewDelete
import MemAlloc.ThreadHomes

set_option autoImplicit false

namespace MemAlloc.NewDelete

open Malloc (Heap Block)

/-- `p` is the start of an outstanding block of the given use. -/
def Outstanding (h : Heap Owner) (use : Use) (p : Nat) : Prop :=
  ∃ b ∈ h.blocks, b.owner = .outside use ∧ b.span.base = p

namespace Outstanding

variable {h h' : Heap Owner} {use : Use} {p q : Nat}

theorem mono (out : Outstanding h use p)
    (kept : ∀ b ∈ h.blocks, b.owner.thread = none → b ∈ h'.blocks) : Outstanding h' use p := by
  obtain ⟨b, member, owner, base⟩ := out
  exact ⟨b, kept b member (by rw [owner]; rfl), owner, base⟩

theorem free (out : Outstanding h use p) (different : p ≠ q) : Outstanding (h.free q) use p := by
  obtain ⟨b, member, owner, base⟩ := out
  exact ⟨b, Heap.mem_free.mpr ⟨member, by rw [base]; exact different⟩, owner, base⟩

/-- A start belongs to one block, and so to one use. -/
theorem use_unique {other : Use} (left : Outstanding h use p) (right : Outstanding h other p) :
    use = other := by
  obtain ⟨b, member, owner, base⟩ := left
  obtain ⟨c, member', owner', base'⟩ := right
  obtain rfl := Heap.eq_of_base member member' (base.trans base'.symm)
  rw [owner] at owner'
  exact Owner.outside.inj owner'

theorem fresh {align n : Nat} {other : Use} (fresh : h.Fresh align n p)
    (out : Outstanding h other q) : q ≠ p := by
  obtain ⟨b, member, _, rfl⟩ := out
  have apart := fresh.2.2.2 b member
  have size : 0 < (Heap.request p n).size :=
    Nat.lt_of_lt_of_le Nat.zero_lt_one (Nat.le_max_right _ _)
  exact (apart.base_ne size (h.bounded b member).2.1).symm

theorem free_others (out : Outstanding h use p) {b : Block Owner} (member : b ∈ h.blocks)
    (other : b.owner ≠ .outside use) : b ∈ (h.free p).blocks := by
  obtain ⟨c, block, owner, base⟩ := out
  refine Heap.mem_free.mpr ⟨member, fun same => ?_⟩
  obtain rfl := Heap.eq_of_base member block (same.trans base.symm)
  exact other owner

end Outstanding

/-- Retiring a pointer only takes from one list. -/
theorem retire_sublist (issued : Nat × Origin → List Nat) (source s : Nat × Origin) (p : Nat) :
    (Function.update issued source ((issued source).erase p) s).Sublist (issued s) := by
  by_cases same : s = source
  · rw [same, Function.update_self]
    exact List.erase_sublist
  · rw [Function.update_of_ne same]

/-- Every fallback pointer that is out, and every stashed raw pointer, is the start of an
outstanding block of its kind, and is kept once. -/
structure Backed (h : Heap Owner) (scratch : Nat → List Scratch)
    (issued : Nat × Origin → List Nat) : Prop where
  plain : ∀ t, ∀ p ∈ issued (t, .fallback), Outstanding h .fallback p
  plainOnce : ∀ t, (issued (t, .fallback)).Nodup
  plainOwner : ∀ t u, ∀ p ∈ issued (t, .fallback), p ∈ issued (u, .fallback) → t = u
  raw : ∀ t, ∀ e ∈ scratch t, Outstanding h .overAligned e.raw
  rawOnce : ∀ t, ((scratch t).map Scratch.raw).Nodup
  rawOwner : ∀ t u, ∀ e ∈ scratch t, ∀ f ∈ scratch u, e.raw = f.raw → t = u

namespace Backed

variable {h h' : Heap Owner} {scratch : Nat → List Scratch}
  {issued issued' : Nat × Origin → List Nat} {t p : Nat}

theorem fewer (backed : Backed h scratch issued)
    (sublist : ∀ t, (issued' (t, .fallback)).Sublist (issued (t, .fallback))) :
    Backed h scratch issued' := by
  refine ⟨fun t p out => backed.plain t p ((sublist t).subset out),
    fun t => (backed.plainOnce t).sublist (sublist t), ?_, backed.raw, backed.rawOnce,
    backed.rawOwner⟩
  intro t u p left right
  exact backed.plainOwner t u p ((sublist t).subset left) ((sublist u).subset right)

theorem retire (backed : Backed h scratch issued) (source : Nat × Origin) (p : Nat) :
    Backed h scratch (Function.update issued source ((issued source).erase p)) :=
  backed.fewer fun _ => retire_sublist issued source _ p

theorem issueOther (backed : Backed h scratch issued) {source : Nat × Origin}
    (other : source.2 ≠ .fallback) (p : Nat) :
    Backed h scratch (Function.update issued source (p :: issued source)) := by
  apply backed.fewer
  intro t
  have different : (t, Origin.fallback) ≠ source := fun same => other (by rw [← same])
  rw [Function.update_of_ne different]

theorem heap (backed : Backed h scratch issued)
    (kept : ∀ b ∈ h.blocks, b.owner.thread = none → b ∈ h'.blocks) :
    Backed h' scratch issued :=
  ⟨fun t p out => (backed.plain t p out).mono kept, backed.plainOnce, backed.plainOwner,
    fun t e stashed => (backed.raw t e stashed).mono kept, backed.rawOnce, backed.rawOwner⟩

theorem issue (backed : Backed h scratch issued) (t : Nat) (out : Outstanding h .fallback p)
    (new : ∀ u, p ∉ issued (u, .fallback)) :
    Backed h scratch (Function.update issued (t, .fallback) (p :: issued (t, .fallback))) := by
  have split : ∀ u q, q ∈ Function.update issued (t, .fallback) (p :: issued (t, .fallback))
      (u, .fallback) → (q = p ∧ u = t) ∨ q ∈ issued (u, .fallback) := by
    intro u q member
    by_cases same : u = t
    · subst same
      rw [Function.update_self] at member
      rcases List.mem_cons.mp member with rfl | old
      · exact Or.inl ⟨rfl, rfl⟩
      · exact Or.inr old
    · have different : (u, Origin.fallback) ≠ (t, .fallback) :=
        fun equal => same (congrArg Prod.fst equal)
      rw [Function.update_of_ne different] at member
      exact Or.inr member
  refine ⟨?_, ?_, ?_, backed.raw, backed.rawOnce, backed.rawOwner⟩
  · intro u q member
    rcases split u q member with ⟨rfl, _⟩ | old
    · exact out
    · exact backed.plain u q old
  · intro u
    by_cases same : u = t
    · subst same
      rw [Function.update_self]
      exact List.nodup_cons.mpr ⟨new u, backed.plainOnce u⟩
    · have different : (u, Origin.fallback) ≠ (t, .fallback) :=
        fun equal => same (congrArg Prod.fst equal)
      rw [Function.update_of_ne different]
      exact backed.plainOnce u
  · intro u v q left right
    rcases split u q left with ⟨rfl, rfl⟩ | old
    · rcases split v q right with ⟨_, rfl⟩ | older
      · rfl
      · exact absurd older (new v)
    · rcases split v q right with ⟨rfl, _⟩ | older
      · exact absurd old (new u)
      · exact backed.plainOwner u v q old older

theorem stash (backed : Backed h scratch issued) (t payload : Nat)
    (out : Outstanding h .overAligned p) (new : ∀ u, ∀ e ∈ scratch u, e.raw ≠ p) :
    Backed h (Function.update scratch t (scratch t ++ [⟨p, payload⟩])) issued := by
  have split : ∀ u e, e ∈ Function.update scratch t (scratch t ++ [⟨p, payload⟩]) u →
      (e = ⟨p, payload⟩ ∧ u = t) ∨ e ∈ scratch u := by
    intro u e member
    by_cases same : u = t
    · subst same
      rw [Function.update_self] at member
      rcases List.mem_append.mp member with old | last
      · exact Or.inr old
      · exact Or.inl ⟨List.mem_singleton.mp last, rfl⟩
    · rw [Function.update_of_ne same] at member
      exact Or.inr member
  refine ⟨backed.plain, backed.plainOnce, backed.plainOwner, ?_, ?_, ?_⟩
  · intro u e member
    rcases split u e member with ⟨rfl, _⟩ | old
    · exact out
    · exact backed.raw u e old
  · intro u
    by_cases same : u = t
    · subst same
      rw [Function.update_self, List.map_append]
      refine List.nodup_append'.mpr ⟨backed.rawOnce u, List.nodup_singleton _, ?_⟩
      intro q left right
      obtain ⟨e, old, rfl⟩ := List.mem_map.mp left
      exact new u e old (List.mem_singleton.mp right)
    · rw [Function.update_of_ne same]
      exact backed.rawOnce u
  · intro u v e left f right equal
    rcases split u e left with ⟨rfl, rfl⟩ | old
    · rcases split v f right with ⟨_, rfl⟩ | older
      · rfl
      · exact absurd equal.symm (new v f older)
    · rcases split v f right with ⟨rfl, _⟩ | older
      · exact absurd equal (new u e old)
      · exact backed.rawOwner u v e old f older equal

theorem freePlain (backed : Backed h scratch issued) (out : p ∈ issued (t, .fallback)) :
    Backed (h.free p) scratch
      (Function.update issued (t, .fallback) ((issued (t, .fallback)).erase p)) := by
  have block := backed.plain t p out
  have left := backed.retire (t, .fallback) p
  refine ⟨?_, left.plainOnce, left.plainOwner, ?_, backed.rawOnce, backed.rawOwner⟩
  · intro u q member
    refine (left.plain u q member).free ?_
    rintro rfl
    by_cases same : u = t
    · subst same
      rw [Function.update_self] at member
      exact (backed.plainOnce u).not_mem_erase member
    · have different : (u, Origin.fallback) ≠ (t, .fallback) :=
        fun equal => same (congrArg Prod.fst equal)
      rw [Function.update_of_ne different] at member
      exact same (backed.plainOwner u t q member out)
  · intro u e member
    have stashed := backed.raw u e member
    refine stashed.free ?_
    rintro rfl
    cases stashed.use_unique block

/-- A stashed raw pointer is released and its entry removed. -/
theorem freeStashed (backed : Backed h scratch issued) {e : Scratch} (member : e ∈ scratch t)
    {rest : List Scratch} (split : (scratch t).Perm (e :: rest))
    (sublist : rest.Sublist (scratch t)) :
    Backed (h.free e.raw) (Function.update scratch t rest) issued := by
  have block := backed.raw t e member
  have distinct : ((e :: rest).map Scratch.raw).Nodup :=
    (split.map Scratch.raw).nodup_iff.mp (backed.rawOnce t)
  have still : ∀ u f, f ∈ Function.update scratch t rest u → f ∈ scratch u ∧ f.raw ≠ e.raw := by
    intro u f listed
    by_cases same : u = t
    · subst same
      rw [Function.update_self] at listed
      refine ⟨sublist.subset listed, fun equal => ?_⟩
      exact (List.nodup_cons.mp distinct).1 (List.mem_map.mpr ⟨f, listed, equal⟩)
    · rw [Function.update_of_ne same] at listed
      exact ⟨listed, fun equal => same (backed.rawOwner u t f listed e member equal)⟩
  refine ⟨?_, backed.plainOnce, backed.plainOwner, ?_, ?_, ?_⟩
  · intro u q out
    have plain := backed.plain u q out
    refine plain.free ?_
    rintro rfl
    cases plain.use_unique block
  · intro u f listed
    obtain ⟨old, different⟩ := still u f listed
    exact (backed.raw u f old).free different
  · intro u
    by_cases same : u = t
    · subst same
      rw [Function.update_self]
      exact (List.nodup_cons.mp distinct).2
    · rw [Function.update_of_ne same]
      exact backed.rawOnce u
  · intro u v f left g right equal
    exact backed.rawOwner u v f (still u f left).1 g (still v g right).1 equal

end Backed

end MemAlloc.NewDelete
