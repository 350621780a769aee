import MemAlloc.Lib.Links
import MemAlloc.Lib.Runs

set_option autoImplicit false

namespace MemAlloc

open Links (Linked)
open Runs (Run)

/-- A node of the fallback registry; `next` is zero in the last one. -/
structure MallocRec where
  ptr : Nat
  next : Nat
deriving DecidableEq, Repr

namespace MallocRegistry

/-- How far a thread is with a `record_malloc_ptr` call: its node is filled in, and later
linked to the head it has loaded. -/
inductive Phase where
  | idle
  | filled (n : Nat)
  | linked (n : Nat)
deriving DecidableEq, Repr

/-- `nodes` are all nodes ever allocated and `completed` the pointers of the calls that have
returned; the program keeps neither. -/
structure State where
  mallocRecs : Nat
  record : Nat → MallocRec
  phase : Nat → Phase
  nodes : List Nat
  completed : List Nat

def initial : State := ⟨0, fun _ => ⟨0, 0⟩, fun _ => .idle, [], []⟩

/-- The loop of `is_registered_malloc_ptr` from the node `n` on. -/
def isRegisteredFrom (record : Nat → MallocRec) (p : Nat) : Nat → Nat → Option Bool
  | 0, _ => none
  | fuel + 1, n =>
      if n = 0 then some false
      else if (record n).ptr = p then some true
      else isRegisteredFrom record p fuel (record n).next

def isRegistered (fuel : Nat) (s : State) (p : Nat) : Option Bool :=
  isRegisteredFrom s.record p fuel s.mallocRecs

/-- `n = malloc(sizeof(MallocRec)); n->ptr = p`. -/
def State.fillNode (s : State) (t p n : Nat) : State :=
  { s with record := Function.update s.record n ⟨p, (s.record n).next⟩
           phase := Function.update s.phase t (.filled n)
           nodes := n :: s.nodes }

/-- `n->next = g_malloc_recs.load()`. -/
def State.loadHead (s : State) (t n : Nat) : State :=
  { s with record := Function.update s.record n ⟨(s.record n).ptr, s.mallocRecs⟩
           phase := Function.update s.phase t (.linked n) }

/-- `g_malloc_recs.store(n)`, after which the call returns. -/
def State.storeHead (s : State) (t n : Nat) : State :=
  { s with mallocRecs := n
           phase := Function.update s.phase t .idle
           completed := (s.record n).ptr :: s.completed }

inductive Event where
  | malloc (t p n : Nat)
  | load (t : Nat)
  | store (t : Nat)
deriving DecidableEq, Repr

/-- The atomic steps of `record_malloc_ptr(p)` on thread `t`, whose node `n` is a fresh
block: nodes are never freed. -/
inductive Step : State → Event → State → Prop
  | malloc {s : State} {t p n : Nat} (idle : s.phase t = .idle) (nonnull : n ≠ 0)
      (fresh : n ∉ s.nodes) :
      Step s (.malloc t p n) (s.fillNode t p n)
  | load {s : State} {t n : Nat} (filled : s.phase t = .filled n) :
      Step s (.load t) (s.loadHead t n)
  | store {s : State} {t n : Nat} (linked : s.phase t = .linked n) :
      Step s (.store t) (s.storeHead t n)

/-- The node of the call in flight. -/
def Phase.node : Phase → Option Nat
  | .idle => none
  | .filled n => some n
  | .linked n => some n

/-- No store happened since the same call loaded the head. -/
def Undisturbed (s : State) : Event → Prop
  | .store t => ∀ n, s.phase t = .linked n → s.mallocRecs = (s.record n).next
  | _ => True

/-- Every pointer of a completed call is found. -/
def Recognised (s : State) : Prop := ∀ p ∈ s.completed, ∃ fuel, isRegistered fuel s p = some true

/-- The list spells `listed`, which holds every completed pointer and no node that a call
in flight may still write to. -/
structure Inv (s : State) (listed : List Nat) : Prop where
  chain : Linked (fun n => (s.record n).next) s.mallocRecs listed
  known : ∀ n ∈ listed, n ∈ s.nodes
  flying : ∀ t n, (s.phase t).node = some n → n ∈ s.nodes ∧ n ≠ 0 ∧ n ∉ listed
  distinct : ∀ t u n, (s.phase t).node = some n → (s.phase u).node = some n → t = u
  found : ∀ p ∈ s.completed, ∃ n ∈ listed, (s.record n).ptr = p

theorem Inv.initial : Inv initial [] := by
  refine ⟨rfl, ?_, ?_, ?_, ?_⟩
  · intro n member; cases member
  · intro t n flying; cases flying
  · intro t u n flying; cases flying
  · intro p member; cases member

/-- A linked list is searched to the first node with the pointer. -/
theorem isRegisteredFrom_linked {record : Nat → MallocRec} {p n x : Nat} {listed : List Nat}
    (chain : Linked (fun n => (record n).next) n listed) (member : x ∈ listed)
    (holds : (record x).ptr = p) :
    isRegisteredFrom record p (listed.length + 1) n = some true := by
  induction listed generalizing n with
  | nil => cases member
  | cons y listed ih =>
      obtain ⟨rfl, nonnull, rest⟩ := chain
      rw [List.length_cons, isRegisteredFrom, if_neg nonnull]
      split
      · rfl
      · rename_i other
        rcases List.mem_cons.mp member with rfl | later
        · exact absurd holds other
        · exact ih rest later

theorem Inv.recognised {s : State} {listed : List Nat} (inv : Inv s listed) : Recognised s := by
  intro p completed
  obtain ⟨n, member, holds⟩ := inv.found p completed
  exact ⟨_, isRegisteredFrom_linked inv.chain member holds⟩

section Preservation

variable {s : State} {listed : List Nat}

theorem Inv.unlisted (inv : Inv s listed) {n : Nat} (absent : n ∉ listed) (r : MallocRec) :
    Linked (fun x => (Function.update s.record n r x).next) s.mallocRecs listed ∧
      ∀ p ∈ s.completed, ∃ x ∈ listed, (Function.update s.record n r x).ptr = p := by
  have other : ∀ x ∈ listed, Function.update s.record n r x = s.record x := by
    intro x member
    have different : x ≠ n := fun same => absent (by rw [← same]; exact member)
    exact Function.update_of_ne different _ _
  constructor
  · exact inv.chain.congr (fun x member => by rw [other x member])
  · intro p completed
    obtain ⟨x, member, holds⟩ := inv.found p completed
    exact ⟨x, member, by rw [other x member]; exact holds⟩

/-- The nodes in flight once thread `t` has moved to another phase. -/
theorem flying_update {phase : Nat → Phase} {t u n : Nat} {next : Phase}
    (flying : (Function.update phase t next u).node = some n) :
    (u = t ∧ next.node = some n) ∨ (u ≠ t ∧ (phase u).node = some n) := by
  by_cases same : u = t
  · subst same
    rw [Function.update_self] at flying
    exact Or.inl ⟨rfl, flying⟩
  · rw [Function.update_of_ne same] at flying
    exact Or.inr ⟨same, flying⟩

theorem Inv.malloc (inv : Inv s listed) {t p n : Nat} (nonnull : n ≠ 0)
    (fresh : n ∉ s.nodes) :
    Inv (s.fillNode t p n) listed := by
  have absent : n ∉ listed := fun member => fresh (inv.known n member)
  obtain ⟨chain, found⟩ := inv.unlisted absent ⟨p, (s.record n).next⟩
  refine ⟨chain, fun x member => List.mem_cons_of_mem _ (inv.known x member), ?_, ?_, found⟩
  · intro u x flying
    rcases flying_update flying with ⟨_, here⟩ | ⟨_, there⟩
    · cases here
      exact ⟨List.mem_cons_self, nonnull, absent⟩
    · obtain ⟨member, positive, outside⟩ := inv.flying u x there
      exact ⟨List.mem_cons_of_mem _ member, positive, outside⟩
  · intro u v x left right
    rcases flying_update left with ⟨rfl, here⟩ | ⟨_, there⟩
    · cases here
      rcases flying_update right with ⟨rfl, _⟩ | ⟨_, other⟩
      · rfl
      · exact absurd (inv.flying v n other).1 fresh
    · rcases flying_update right with ⟨rfl, here⟩ | ⟨_, other⟩
      · cases here
        exact absurd (inv.flying u n there).1 fresh
      · exact inv.distinct u v x there other

theorem Inv.load (inv : Inv s listed) {t n : Nat} (filled : s.phase t = .filled n) :
    Inv (s.loadHead t n) listed := by
  have mine : (s.phase t).node = some n := by rw [filled]; rfl
  obtain ⟨chain, found⟩ := inv.unlisted (inv.flying t n mine).2.2 ⟨(s.record n).ptr, s.mallocRecs⟩
  have kept : ∀ u x, (Function.update s.phase t (.linked n) u).node = some x →
      (s.phase u).node = some x := by
    intro u x flying
    rcases flying_update flying with ⟨rfl, here⟩ | ⟨_, there⟩
    · cases here
      exact mine
    · exact there
  exact ⟨chain, inv.known, fun u x flying => inv.flying u x (kept u x flying),
    fun u v x left right => inv.distinct u v x (kept u x left) (kept v x right), found⟩

theorem Inv.store (inv : Inv s listed) {t n : Nat} (linked : s.phase t = .linked n)
    (undisturbed : s.mallocRecs = (s.record n).next) :
    Inv (s.storeHead t n) (n :: listed) := by
  have mine : (s.phase t).node = some n := by rw [linked]; rfl
  obtain ⟨known, nonnull, absent⟩ := inv.flying t n mine
  have kept : ∀ u x, (Function.update s.phase t .idle u).node = some x →
      u ≠ t ∧ (s.phase u).node = some x := by
    intro u x flying
    rcases flying_update flying with ⟨_, here⟩ | there
    · cases here
    · exact there
  refine ⟨⟨rfl, nonnull, ?_⟩, ?_, ?_, ?_, ?_⟩
  · change Linked (fun x => (s.record x).next) (s.record n).next listed
    rw [← undisturbed]
    exact inv.chain
  · intro x member
    rcases List.mem_cons.mp member with rfl | member
    · exact known
    · exact inv.known x member
  · intro u x flying
    obtain ⟨other, there⟩ := kept u x flying
    obtain ⟨member, positive, outside⟩ := inv.flying u x there
    refine ⟨member, positive, ?_⟩
    intro within
    rcases List.mem_cons.mp within with rfl | within
    · exact other (inv.distinct u t x there mine)
    · exact outside within
  · intro u v x left right
    exact inv.distinct u v x (kept u x left).2 (kept v x right).2
  · intro p completed
    rcases List.mem_cons.mp completed with rfl | completed
    · exact ⟨n, List.mem_cons_self, rfl⟩
    · obtain ⟨x, member, holds⟩ := inv.found p completed
      exact ⟨x, List.mem_cons_of_mem _ member, holds⟩

/-- Each step keeps the registry, a store only when the head is still the one the call
loaded. -/
theorem Inv.step {s' : State} {e : Event} (inv : Inv s listed) (undisturbed : Undisturbed s e)
    (step : Step s e s') : ∃ listed', Inv s' listed' := by
  cases step with
  | malloc idle nonnull fresh => exact ⟨_, inv.malloc nonnull fresh⟩
  | load filled => exact ⟨_, inv.load filled⟩
  | store linked => exact ⟨_, inv.store linked (undisturbed _ linked)⟩

end Preservation

/-- When no store comes between the load and the store of a call, every completed
registration is found in every state that follows. -/
theorem completed_recognised {trace : List (Runs.Transition State Event)} {s : State}
    (run : Run Step initial trace s)
    (undisturbed : ∀ x ∈ trace, Undisturbed x.before x.event) :
    Recognised s ∧ ∀ x ∈ trace, Recognised x.before := by
  let Listed : State → Prop := fun s => ∃ listed, Inv s listed
  have start : Listed initial := ⟨[], Inv.initial⟩
  have keep : ∀ s e t, Listed s → Undisturbed s e → Step s e t → Listed t := by
    rintro s e t ⟨_, inv⟩ undisturbed step
    exact inv.step undisturbed step
  have recognised : ∀ s, Listed s → Recognised s := by
    rintro s ⟨_, inv⟩
    exact inv.recognised
  exact ⟨recognised s (run.invariantWhere start keep undisturbed), fun x member =>
    recognised x.before (run.invariantBefore start keep undisturbed x member)⟩

/-- One call after the other is undisturbed. -/
theorem completed_recognised_one : ∃ trace s, Run Step initial trace s ∧ s.completed = [48] ∧
    Recognised s := by
  let s₁ := initial.fillNode 0 48 16
  let s₂ := s₁.loadHead 0 16
  have run : Run Step initial [⟨initial, .malloc 0 48 16, s₁⟩, ⟨s₁, .load 0, s₂⟩,
      ⟨s₂, .store 0, s₂.storeHead 0 16⟩] (s₂.storeHead 0 16) :=
    ((Run.nil.snoc (.malloc rfl (by decide) (by decide))).snoc (.load rfl)).snoc (.store rfl)
  refine ⟨_, _, run, rfl, (completed_recognised run ?_).1⟩
  intro x member
  simp only [List.mem_cons, List.not_mem_nil, or_false] at member
  rcases member with rfl | rfl | rfl
  · trivial
  · trivial
  · intro n linked
    cases linked
    rfl

/-- Two calls that load the same head: the second store drops the node of the first. -/
theorem not_always_recognised : ∃ trace s, Run Step initial trace s ∧ ¬ Recognised s := by
  let s₁ := initial.fillNode 0 48 16
  let s₂ := s₁.fillNode 1 96 32
  let s₃ := s₂.loadHead 0 16
  let s₄ := s₃.loadHead 1 32
  let s₅ := s₄.storeHead 0 16
  have run : Run Step initial [⟨initial, .malloc 0 48 16, s₁⟩, ⟨s₁, .malloc 1 96 32, s₂⟩,
      ⟨s₂, .load 0, s₃⟩, ⟨s₃, .load 1, s₄⟩, ⟨s₄, .store 0, s₅⟩,
      ⟨s₅, .store 1, s₅.storeHead 1 32⟩] (s₅.storeHead 1 32) :=
    (((((Run.nil.snoc (.malloc rfl (by decide) (by decide))).snoc
      (.malloc rfl (by decide) (by decide))).snoc (.load rfl)).snoc (.load rfl)).snoc
      (.store rfl)).snoc (.store rfl)
  refine ⟨_, _, run, ?_⟩
  intro recognised
  obtain ⟨fuel, found⟩ := recognised 48 (by decide)
  -- the list is the node 32 alone, so the walk ends after it
  cases fuel with
  | zero => cases found
  | succ fuel =>
      cases fuel with
      | zero => cases found
      | succ fuel => cases found

end MallocRegistry

end MemAlloc
