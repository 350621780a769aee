import MemAlloc.AllocatorOperations

set_option autoImplicit false

namespace MemAlloc

open SingleThreadAllocator (FreeForm maxBlocks)

/- What calls do to an allocator, up to where its slabs, chunks and arena lie. -/

/-- A block by its region: a slab of its class, counted in the order of linking, or the arena. -/
inductive Place where
  | block (i : SizeClass) (slab index : Nat)
  | arena (offset : Nat)
deriving DecidableEq, Repr

/-- Where the regions of an allocator start. -/
structure Layout where
  slab : SizeClass → Nat → Nat
  arena : Nat

namespace Place

def address (layout : Layout) : Place → Nat
  | .block i slab index => layout.slab i slab + index * i.bytes
  | .arena offset => layout.arena + offset

/-- The place suits a request for `n` bytes. -/
def Serves (n : Nat) : Place → Prop
  | .block i _ _ => ∃ small : n ≤ maxSmall, i = sizeClassOf n small
  | .arena _ => maxSmall < n

end Place

/-- One call of a program. A block is named by the number of the request that returned it. -/
inductive ProgramCall where
  | allocate (n : Nat)
  | free (form : FreeForm) (request n : Nat)
deriving DecidableEq, Repr

/-- An allocator without its addresses: the free blocks of each class by slab and index, how
many slabs have been linked, the arena's cursor and the counters. -/
structure RelativeAllocator where
  free : SizeClass → List (Nat × Nat)
  slabs : SizeClass → Nat
  used : Nat
  stats : Stats

namespace RelativeAllocator

def new : RelativeAllocator where
  free := fun _ => (List.range blocksPerSlab).map (fun index => (0, index))
  slabs := fun _ => 1
  used := 0
  stats := Stats.zero

def setFree (r : RelativeAllocator) (i : SizeClass) (free : List (Nat × Nat)) :
    RelativeAllocator :=
  { r with free := Function.update r.free i free }

def refill (r : RelativeAllocator) (i : SizeClass) : RelativeAllocator :=
  { r.setFree i ((List.range (maxBlocks i)).tail.map (fun index => (r.slabs i, index))) with
    slabs := Function.update r.slabs i (r.slabs i + 1) }

def recordAlloc (r : RelativeAllocator) (req got : Nat) : RelativeAllocator :=
  { r with stats := r.stats.recordAlloc req got }

def recordFree (r : RelativeAllocator) (req got : Nat) : RelativeAllocator :=
  { r with stats := r.stats.recordFree req got }

def poolAllocate (r : RelativeAllocator) (n : Nat) (i : SizeClass) : Place × RelativeAllocator :=
  match r.free i with
  | [] => (.block i (r.slabs i) 0, (r.refill i).recordAlloc n i.bytes)
  | b :: rest => (.block i b.1 b.2, (r.setFree i rest).recordAlloc n i.bytes)

def arenaAllocate (P : Platform) (r : RelativeAllocator) (n : Nat) :
    Option Place × RelativeAllocator :=
  let padding := Words.padding r.used P.maxAlign
  if r.used + (padding + n) ≤ kArenaCapacity then
    (some (.arena (r.used + padding)),
      { r with used := r.used + (padding + n) }.recordAlloc n (padding + n))
  else (none, r)

/-- A request when every chunk that is asked for is granted. -/
def allocate (P : Platform) (r : RelativeAllocator) (n : Nat) : Option Place × RelativeAllocator :=
  if small : n ≤ maxSmall then
    let served := r.poolAllocate n (sizeClassOf n small)
    (some served.1, served.2)
  else r.arenaAllocate P n

def giveBack (r : RelativeAllocator) (n : Nat) : Place → RelativeAllocator
  | .block i slab index => (r.setFree i ((slab, index) :: r.free i)).recordFree n i.bytes
  | .arena _ => r

def deallocate (r : RelativeAllocator) (n : Nat) (place : Place) : RelativeAllocator :=
  if n ≤ maxSmall then r.giveBack n place else r

/-- The slab of the place has been linked. -/
def Known (r : RelativeAllocator) : Place → Prop
  | .block i slab _ => slab < r.slabs i
  | .arena _ => True

/-- Only blocks of linked slabs are free. -/
def Closed (r : RelativeAllocator) : Prop := ∀ i, ∀ b ∈ r.free i, b.1 < r.slabs i

theorem closed_new : new.Closed := by
  intro i b member
  obtain ⟨index, _, rfl⟩ := List.mem_map.mp member
  exact Nat.zero_lt_one

theorem Closed.setFree {r : RelativeAllocator} {i : SizeClass} {free : List (Nat × Nat)}
    (closed : r.Closed) (listed : ∀ b ∈ free, b.1 < r.slabs i) : (r.setFree i free).Closed := by
  intro j b member
  by_cases same : j = i
  · subst same
    simp only [RelativeAllocator.setFree, Function.update_self] at member
    exact listed b member
  · simp only [RelativeAllocator.setFree, Function.update_of_ne same] at member
    exact closed j b member

theorem refill_grows (r : RelativeAllocator) (i j : SizeClass) :
    r.slabs j ≤ (r.refill i).slabs j := by
  by_cases same : j = i
  · subst same
    simp [refill, setFree]
  · simp [refill, setFree, same]

theorem Closed.refill {r : RelativeAllocator} (closed : r.Closed) (i : SizeClass) :
    (r.refill i).Closed := by
  intro j b member
  by_cases same : j = i
  · subst same
    simp only [RelativeAllocator.refill, RelativeAllocator.setFree, Function.update_self,
      List.mem_map] at member ⊢
    obtain ⟨index, _, rfl⟩ := member
    exact Nat.lt_succ_self _
  · simp only [RelativeAllocator.refill, RelativeAllocator.setFree,
      Function.update_of_ne same] at member ⊢
    exact closed j b member

section Allocate

variable {P : Platform} {r : RelativeAllocator} {n : Nat}

theorem allocate_small (P : Platform) (r : RelativeAllocator) (small : n ≤ maxSmall) :
    r.allocate P n = (some (r.poolAllocate n (sizeClassOf n small)).1,
      (r.poolAllocate n (sizeClassOf n small)).2) := dif_pos small

theorem allocate_large (P : Platform) (r : RelativeAllocator) (large : maxSmall < n) :
    r.allocate P n = r.arenaAllocate P n := dif_neg (Nat.not_le.mpr large)

theorem poolAllocate_stocked {i : SizeClass} {b : Nat × Nat} {rest : List (Nat × Nat)} (n : Nat)
    (stocked : r.free i = b :: rest) :
    r.poolAllocate n i = (.block i b.1 b.2, (r.setFree i rest).recordAlloc n i.bytes) := by
  rw [poolAllocate, stocked]

theorem poolAllocate_exhausted {i : SizeClass} (n : Nat) (empty : r.free i = []) :
    r.poolAllocate n i = (.block i (r.slabs i) 0, (r.refill i).recordAlloc n i.bytes) := by
  rw [poolAllocate, empty]

theorem arenaAllocate_fits
    (fits : r.used + (Words.padding r.used P.maxAlign + n) ≤ kArenaCapacity) :
    r.arenaAllocate P n =
      (some (.arena (r.used + Words.padding r.used P.maxAlign)),
        { r with used := r.used + (Words.padding r.used P.maxAlign + n) }.recordAlloc n
          (Words.padding r.used P.maxAlign + n)) := if_pos fits

theorem arenaAllocate_full
    (full : kArenaCapacity < r.used + (Words.padding r.used P.maxAlign + n)) :
    r.arenaAllocate P n = (none, r) := if_neg (Nat.not_le.mpr full)

theorem arenaAllocate_slabs (P : Platform) (r : RelativeAllocator) (n : Nat) :
    (r.arenaAllocate P n).2.slabs = r.slabs ∧ (r.arenaAllocate P n).2.free = r.free := by
  rw [arenaAllocate]
  split
  · exact ⟨rfl, rfl⟩
  · exact ⟨rfl, rfl⟩

theorem poolAllocate_grows (r : RelativeAllocator) (n : Nat) (i j : SizeClass) :
    r.slabs j ≤ (r.poolAllocate n i).2.slabs j := by
  rw [poolAllocate]
  split
  · exact r.refill_grows i j
  · exact Nat.le_refl _

/-- No slab is ever given up. -/
theorem allocate_grows (P : Platform) (r : RelativeAllocator) (n : Nat) (i : SizeClass) :
    r.slabs i ≤ (r.allocate P n).2.slabs i := by
  by_cases small : n ≤ maxSmall
  · rw [allocate_small P r small]
    exact r.poolAllocate_grows n _ i
  · rw [allocate_large P r (Nat.lt_of_not_le small), (arenaAllocate_slabs P r n).1]

theorem Closed.poolAllocate (closed : r.Closed) (n : Nat) (i : SizeClass) :
    (r.poolAllocate n i).2.Closed ∧ (r.poolAllocate n i).2.Known (r.poolAllocate n i).1 := by
  cases stock : r.free i with
  | nil =>
      rw [poolAllocate_exhausted n stock]
      refine ⟨closed.refill i, ?_⟩
      simp [Known, RelativeAllocator.recordAlloc, RelativeAllocator.refill]
  | cons b rest =>
      have listed : ∀ c ∈ b :: rest, c.1 < r.slabs i := by
        rw [← stock]
        exact closed i
      rw [poolAllocate_stocked n stock]
      refine ⟨closed.setFree (fun c member => listed c (List.mem_cons_of_mem _ member)), ?_⟩
      exact listed b List.mem_cons_self

theorem Closed.arenaAllocate (closed : r.Closed) (P : Platform) (n : Nat) :
    (r.arenaAllocate P n).2.Closed := by
  obtain ⟨slabs, free⟩ := arenaAllocate_slabs P r n
  rw [Closed, slabs, free]
  exact closed

theorem Closed.allocate (closed : r.Closed) (P : Platform) (n : Nat) :
    (r.allocate P n).2.Closed ∧ ∀ place, (r.allocate P n).1 = some place →
      place.Serves n ∧ (r.allocate P n).2.Known place := by
  by_cases small : n ≤ maxSmall
  · obtain ⟨after, known⟩ := closed.poolAllocate n (sizeClassOf n small)
    rw [allocate_small P r small]
    refine ⟨after, ?_⟩
    intro place same
    obtain rfl := Option.some.inj same
    refine ⟨?_, known⟩
    cases stock : r.free (sizeClassOf n small) with
    | nil =>
        rw [poolAllocate_exhausted n stock]
        exact ⟨small, rfl⟩
    | cons b rest =>
        rw [poolAllocate_stocked n stock]
        exact ⟨small, rfl⟩
  · have large := Nat.lt_of_not_le small
    rw [allocate_large P r large]
    refine ⟨closed.arenaAllocate P n, ?_⟩
    intro place same
    rw [RelativeAllocator.arenaAllocate] at same
    split at same
    · obtain rfl := Option.some.inj same
      exact ⟨large, trivial⟩
    · cases same

theorem deallocate_slabs (r : RelativeAllocator) (n : Nat) (place : Place) :
    (r.deallocate n place).slabs = r.slabs := by
  rw [deallocate]
  split
  · cases place with
    | block i slab index => rfl
    | arena offset => rfl
  · rfl

theorem Closed.deallocate {place : Place} (closed : r.Closed) (known : r.Known place) (n : Nat) :
    (r.deallocate n place).Closed := by
  rw [RelativeAllocator.deallocate]
  split
  · cases place with
    | block i slab index =>
        apply Closed.setFree closed
        intro b member
        rcases List.mem_cons.mp member with rfl | old
        · exact known
        · exact closed i b old
    | arena offset => exact closed
  · exact closed

end Allocate

end RelativeAllocator

/-- What a program has got so far: its allocator, and each request with the place of the block
it returned. -/
structure Progress where
  alloc : RelativeAllocator
  requests : List (Nat × Option Place)

namespace Progress

def start : Progress := ⟨RelativeAllocator.new, []⟩

def place (p : Progress) (request : Nat) : Option Place := p.requests[request]?.bind Prod.snd

def call (P : Platform) (p : Progress) : ProgramCall → Progress
  | .allocate n =>
      let served := p.alloc.allocate P n
      ⟨served.2, p.requests ++ [(n, served.1)]⟩
  | .free _ request n =>
      { p with alloc := ((p.place request).map (p.alloc.deallocate n)).getD p.alloc }

def after (P : Platform) (calls : List ProgramCall) : Progress := calls.foldl (call P) start

theorem after_snoc (P : Platform) (calls : List ProgramCall) (c : ProgramCall) :
    after P (calls ++ [c]) = (after P calls).call P c := by
  rw [after, after, List.foldl_append]
  rfl

/-- All places are in slabs that have been linked, and in the region for the size. -/
structure Sound (p : Progress) : Prop where
  closed : p.alloc.Closed
  places : ∀ n place, (n, some place) ∈ p.requests → place.Serves n ∧ p.alloc.Known place

theorem of_place {p : Progress} {request : Nat} {place : Place}
    (found : p.place request = some place) :
    ∃ n, p.requests[request]? = some (n, some place) := by
  obtain ⟨q, listed, same⟩ := Option.bind_eq_some_iff.mp found
  exact ⟨q.1, by rw [listed, ← same]⟩

theorem Sound.known {p : Progress} {request : Nat} {place : Place} (sound : p.Sound)
    (found : p.place request = some place) : p.alloc.Known place := by
  obtain ⟨n, listed⟩ := of_place found
  exact (sound.places n place (List.mem_of_getElem? listed)).2

theorem known_grows {r r' : RelativeAllocator} (grows : ∀ i, r.slabs i ≤ r'.slabs i) {place : Place}
    (known : r.Known place) : r'.Known place := by
  cases place with
  | block i slab index => exact Nat.lt_of_lt_of_le known (grows i)
  | arena offset => trivial

theorem Sound.call {p : Progress} (sound : p.Sound) (P : Platform) (c : ProgramCall) :
    (p.call P c).Sound := by
  cases c with
  | allocate n =>
      obtain ⟨closed, served⟩ := sound.closed.allocate P n
      refine ⟨closed, ?_⟩
      intro k place member
      rcases List.mem_append.mp member with old | new
      · obtain ⟨serves, known⟩ := sound.places k place old
        exact ⟨serves, known_grows (p.alloc.allocate_grows P n) known⟩
      · obtain ⟨rfl, same⟩ := Prod.mk.inj (List.mem_singleton.mp new)
        exact served place same.symm
  | free form request n =>
      cases found : p.place request with
      | none =>
          rw [Progress.call, found]
          exact sound
      | some place =>
          rw [Progress.call, found]
          refine ⟨sound.closed.deallocate (sound.known found) n, ?_⟩
          intro k other member
          obtain ⟨serves, known⟩ := sound.places k other member
          have slabs := p.alloc.deallocate_slabs n place
          exact ⟨serves, known_grows (fun i => Nat.le_of_eq (congrFun slabs i).symm) known⟩

theorem sound_after (P : Platform) (calls : List ProgramCall) : (after P calls).Sound := by
  induction calls using List.reverseRecOn with
  | nil => exact ⟨RelativeAllocator.closed_new, fun n place member => by cases member⟩
  | append_singleton calls c ih =>
      rw [after_snoc]
      exact ih.call P c

end Progress

end MemAlloc
