import MemAlloc.Tasks

set_option autoImplicit false

/- Blocks on loan: what a program's own requests and frees leave of its allocator. Batches of one
class that go back in the order they came are followed block by block. -/
namespace MemAlloc

open Programs (Program Interface)
open SingleThreadAllocator (chunkSlab maxBlocks maxBlocks_positive)

def class64 : SizeClass := sizeClassOf 64 (by decide)

/-- The blocks of the chunks with the given bodies, in the order the pool hands them out. -/
def chunkBlocks (i : SizeClass) (bodies : List Nat) : List Nat :=
  bodies.flatMap fun body => (chunkSlab i body).blocks i.bytes

theorem length_chunkBlocks (i : SizeClass) (bodies : List Nat) :
    (chunkBlocks i bodies).length = bodies.length * maxBlocks i := by
  induction bodies with
  | nil => simp [chunkBlocks]
  | cons body rest ih =>
      have tail : (chunkBlocks i (body :: rest)).length =
          maxBlocks i + (chunkBlocks i rest).length := by
        simp [chunkBlocks, chunkSlab]
      rw [tail, ih, List.length_cons, Nat.succ_mul]
      omega

theorem chunkBlocks_snoc (i : SizeClass) (bodies : List Nat) (body : Nat) :
    chunkBlocks i (bodies ++ [body]) =
      chunkBlocks i bodies ++ (chunkSlab i body).blocks i.bytes := by
  simp [chunkBlocks]

namespace View

/-- What requests for one class leave as it was. -/
structure Beside (i : SizeClass) (v₀ v : View) : Prop where
  free : ∀ j, j ≠ i → v.ledger.free j = v₀.ledger.free j
  held : ∀ j, j ≠ i → v.ledger.held j = v₀.ledger.held j
  linked : ∀ j, j ≠ i → v.ledger.linked j = v₀.ledger.linked j
  bumped : v.ledger.bumped = v₀.ledger.bumped
  arenaUsed : v.arenaUsed = v₀.arenaUsed

namespace Beside

variable {i : SizeClass} {v₀ v w : View}

theorem refl (i : SizeClass) (v : View) : v.Beside i v :=
  ⟨fun _ _ => rfl, fun _ _ => rfl, fun _ _ => rfl, rfl, rfl⟩

theorem trans (first : v₀.Beside i v) (second : v.Beside i w) : v₀.Beside i w :=
  ⟨fun j other => (second.free j other).trans (first.free j other),
    fun j other => (second.held j other).trans (first.held j other),
    fun j other => (second.linked j other).trans (first.linked j other),
    second.bumped.trans first.bumped, second.arenaUsed.trans first.arenaUsed⟩

theorem take (v : View) (i : SizeClass) (n p : Nat) (rest : List Nat) :
    v.Beside i (v.take i n p rest) := by
  refine ⟨?_, ?_, ?_, rfl, rfl⟩ <;> intro j other <;>
    simp [View.take, Ledger.take, Ledger.setPool, other]

theorem link (v : View) (i : SizeClass) (body : Nat) : v.Beside i (v.link i body) := by
  refine ⟨?_, ?_, ?_, rfl, rfl⟩ <;> intro j other <;>
    simp [View.link, Ledger.link, Ledger.setPool, other]

theorem giveBack (v : View) (i : SizeClass) (n p : Nat) : v.Beside i (v.giveBack i n p) := by
  refine ⟨?_, ?_, ?_, rfl, rfl⟩ <;> intro j other <;>
    simp [View.giveBack, Ledger.giveBack, Ledger.setPool, other]

end Beside

/-- The blocks `ptrs` have been drawn from the pool one after the other, first from its free blocks
and then from the chunks it had to link. -/
structure Drawn (i : SizeClass) (v₀ : View) (bodies ptrs : List Nat) (v : View) : Prop where
  deck : v₀.ledger.free i ++ chunkBlocks i bodies = ptrs ++ v.ledger.free i
  held : v.ledger.held i = ptrs.reverse ++ v₀.ledger.held i
  linked : v.ledger.linked i = v₀.ledger.linked i ++ bodies.map (chunkSlab i)
  needed : bodies = [] ∨
    (v₀.ledger.free i).length + (bodies.length - 1) * maxBlocks i < ptrs.length
  beside : v₀.Beside i v

namespace Drawn

variable {i : SizeClass} {v₀ v : View} {bodies ptrs : List Nat} {n p : Nat}

theorem refl (i : SizeClass) (v : View) : v.Drawn i [] [] v :=
  ⟨by simp [chunkBlocks], by simp, by simp, Or.inl rfl, .refl i v⟩

theorem take {rest : List Nat} (drawn : v₀.Drawn i bodies ptrs v)
    (stocked : v.ledger.free i = p :: rest) :
    v₀.Drawn i bodies (ptrs ++ [p]) (v.take i n p rest) := by
  refine ⟨?_, ?_, ?_, ?_, drawn.beside.trans (.take v i n p rest)⟩
  · rw [drawn.deck, stocked]
    simp [View.take, Ledger.take, Ledger.setPool]
  · simp [View.take, Ledger.take, Ledger.setPool, drawn.held]
  · rw [← drawn.linked]
    simp [View.take, Ledger.take, Ledger.setPool]
  · rcases drawn.needed with none | more
    · exact Or.inl none
    · right
      rw [List.length_append]
      exact Nat.lt_of_lt_of_le more (Nat.le_add_right _ _)

/-- A chunk is linked when all blocks so far have been drawn. -/
theorem refill {body : Nat} {rest : List Nat} (drawn : v₀.Drawn i bodies ptrs v)
    (empty : v.ledger.free i = []) (blocks : (chunkSlab i body).blocks i.bytes = body :: rest) :
    v₀.Drawn i (bodies ++ [body]) (ptrs ++ [body]) ((v.link i body).take i n body rest) := by
  have all := congrArg List.length drawn.deck
  rw [List.length_append, length_chunkBlocks, empty, List.append_nil] at all
  refine ⟨?_, ?_, ?_, ?_, drawn.beside.trans ((Beside.link v i body).trans (.take _ i n body rest))⟩
  · rw [chunkBlocks_snoc, ← List.append_assoc, drawn.deck, empty, blocks]
    simp [View.take, Ledger.take, Ledger.setPool]
  · simp [View.take, View.link, Ledger.take, Ledger.link, Ledger.setPool, drawn.held]
  · simp [View.take, View.link, Ledger.take, Ledger.link, Ledger.setPool, drawn.linked]
  · right
    simp only [List.length_append, List.length_singleton, Nat.add_sub_cancel]
    omega

theorem chunks (drawn : v₀.Drawn i bodies ptrs v) :
    bodies.length =
      (ptrs.length - (v₀.ledger.free i).length + (maxBlocks i - 1)) / maxBlocks i := by
  have positive := maxBlocks_positive i
  have all := congrArg List.length drawn.deck
  rw [List.length_append, List.length_append, length_chunkBlocks] at all
  symm
  rcases drawn.needed with none | more
  · subst none
    have enough : ptrs.length - (v₀.ledger.free i).length = 0 := by
      simp only [List.length_nil, Nat.zero_mul, Nat.add_zero] at all
      omega
    rw [enough, Nat.zero_add]
    exact Nat.div_eq_of_lt (by omega)
  · have some : 0 < bodies.length := by
      cases bodies with
      | nil =>
          simp only [List.length_nil, Nat.zero_mul, Nat.add_zero] at all more
          omega
      | cons body rest => exact Nat.succ_pos _
    have split : bodies.length * maxBlocks i =
        (bodies.length - 1) * maxBlocks i + maxBlocks i := by
      rw [← Nat.succ_mul]
      congr 1
      omega
    apply Nat.div_eq_of_lt_le
    · omega
    · rw [Nat.succ_mul]
      omega

end Drawn

/-- A batch has been drawn and given back in order: its blocks are on top of the free list, the
last one first, and above the blocks that were left of the last chunk. -/
structure Batched (i : SizeClass) (v₀ : View) (bodies ptrs left : List Nat) (v : View) : Prop where
  deck : v₀.ledger.free i ++ chunkBlocks i bodies = ptrs ++ left
  free : v.ledger.free i = ptrs.reverse ++ left
  held : (v.ledger.held i).Perm (v₀.ledger.held i)
  linked : v.ledger.linked i = v₀.ledger.linked i ++ bodies.map (chunkSlab i)
  chunks : bodies.length =
    (ptrs.length - (v₀.ledger.free i).length + (maxBlocks i - 1)) / maxBlocks i
  beside : v₀.Beside i v

/-- A batch of which the blocks `rest` are still to be given back. -/
structure Returning (i : SizeClass) (v₀ : View) (bodies ptrs left rest : List Nat) (v : View) :
    Prop where
  deck : v₀.ledger.free i ++ chunkBlocks i bodies = ptrs ++ left
  free : ∃ back, ptrs = back ++ rest ∧ v.ledger.free i = back.reverse ++ left
  held : (v.ledger.held i).Perm (rest ++ v₀.ledger.held i)
  linked : v.ledger.linked i = v₀.ledger.linked i ++ bodies.map (chunkSlab i)
  chunks : bodies.length =
    (ptrs.length - (v₀.ledger.free i).length + (maxBlocks i - 1)) / maxBlocks i
  beside : v₀.Beside i v

namespace Returning

variable {i : SizeClass} {v₀ v : View} {bodies ptrs left rest : List Nat} {n p : Nat}

theorem start (drawn : v₀.Drawn i bodies ptrs v) :
    v₀.Returning i bodies ptrs (v.ledger.free i) ptrs v := by
  refine ⟨drawn.deck, ⟨[], rfl, rfl⟩, ?_, drawn.linked, drawn.chunks, drawn.beside⟩
  rw [drawn.held]
  exact (List.reverse_perm ptrs).append_right _

theorem out (returning : v₀.Returning i bodies ptrs left (p :: rest) v) :
    p ∈ v.ledger.held i := returning.held.symm.subset (by simp)

theorem giveBack (returning : v₀.Returning i bodies ptrs left (p :: rest) v) :
    v₀.Returning i bodies ptrs left rest (v.giveBack i n p) := by
  obtain ⟨back, split, free⟩ := returning.free
  refine ⟨returning.deck, ⟨back ++ [p], by simp [split], ?_⟩, ?_, ?_, returning.chunks,
    returning.beside.trans (.giveBack v i n p)⟩
  · simp [View.giveBack, Ledger.giveBack, Ledger.setPool, free]
  · have erased := returning.held.erase p
    simpa [View.giveBack, Ledger.giveBack, Ledger.setPool] using erased
  · rw [← returning.linked]
    simp [View.giveBack, Ledger.giveBack, Ledger.setPool]

theorem done (returning : v₀.Returning i bodies ptrs left [] v) :
    v₀.Batched i bodies ptrs left v := by
  obtain ⟨back, split, free⟩ := returning.free
  rw [List.append_nil] at split
  subst split
  exact ⟨returning.deck, free, returning.held, returning.linked, returning.chunks,
    returning.beside⟩

end Returning

/-- A second batch of the same length draws the blocks of the first one in the opposite order and
needs no chunk. -/
theorem Batched.again {i : SizeClass} {v w : View} {ptrs left bodies' ptrs' left' : List Nat}
    (first : v.ledger.free i = ptrs.reverse ++ left) (second : v.Batched i bodies' ptrs' left' w)
    (same : ptrs'.length = ptrs.length) :
    bodies' = [] ∧ ptrs' = ptrs.reverse ∧ left' = left := by
  have size : ptrs'.length ≤ (v.ledger.free i).length := by
    rw [first, List.length_append, List.length_reverse]
    omega
  have positive := maxBlocks_positive i
  have none : bodies' = [] := by
    apply List.length_eq_zero_iff.mp
    rw [second.chunks, Nat.sub_eq_zero_of_le size, Nat.zero_add]
    exact Nat.div_eq_of_lt (by omega)
  have deck := second.deck
  rw [none, first] at deck
  simp only [chunkBlocks, List.flatMap_nil, List.append_nil] at deck
  obtain ⟨reversed, rest⟩ := List.append_inj deck (by simp [same])
  exact ⟨none, reversed.symm, rest.symm⟩

/-- The blocks of class `i` among blocks that are out, each with its class. -/
def loansOf (i : SizeClass) (loans : List (Nat × SizeClass)) : List Nat :=
  (loans.filter fun loan => loan.2 = i).map Prod.fst

@[simp] theorem loansOf_nil (i : SizeClass) : loansOf i [] = [] := rfl

theorem loansOf_cons (i j : SizeClass) (p : Nat) (loans : List (Nat × SizeClass)) :
    loansOf i ((p, j) :: loans) = if j = i then p :: loansOf i loans else loansOf i loans := by
  by_cases same : j = i <;> simp [loansOf, same]

theorem loansOf_append (i : SizeClass) (loans more : List (Nat × SizeClass)) :
    loansOf i (loans ++ more) = loansOf i loans ++ loansOf i more := by
  simp [loansOf]

theorem loansOf_perm {loans loans' : List (Nat × SizeClass)} (perm : loans.Perm loans')
    (i : SizeClass) : (loansOf i loans).Perm (loansOf i loans') :=
  (perm.filter _).map _

theorem length_loansOf_le (i : SizeClass) (loans : List (Nat × SizeClass)) :
    (loansOf i loans).length ≤ loans.length := by
  rw [loansOf, List.length_map]
  exact List.length_filter_le _ _

/-- Since `v₀` the blocks `loans` have gone out, and chunks with the given bodies have been
linked. -/
structure Lent (v₀ : View) (bodies : SizeClass → List Nat) (loans : List (Nat × SizeClass))
    (v : View) : Prop where
  free : ∀ i, (v.ledger.free i ++ loansOf i loans).Perm
    (v₀.ledger.free i ++ chunkBlocks i (bodies i))
  held : ∀ i, (v.ledger.held i).Perm (loansOf i loans ++ v₀.ledger.held i)
  linked : ∀ i, v.ledger.linked i = v₀.ledger.linked i ++ (bodies i).map (chunkSlab i)

namespace Lent

variable {v₀ v : View} {bodies : SizeClass → List Nat} {loans loans' : List (Nat × SizeClass)}
  {i : SizeClass} {n p : Nat}

theorem refl (v : View) : v.Lent (fun _ => []) [] v :=
  ⟨fun i => by simp [chunkBlocks], fun i => by simp, fun i => by simp⟩

theorem perm (lent : v₀.Lent bodies loans v) (perm : loans.Perm loans') :
    v₀.Lent bodies loans' v :=
  ⟨fun i => ((loansOf_perm perm i).symm.append_left _).trans (lent.free i),
    fun i => (lent.held i).trans ((loansOf_perm perm i).append_right _), lent.linked⟩

theorem congr {w : View} (lent : v₀.Lent bodies loans v) (free : w.ledger.free = v.ledger.free)
    (held : w.ledger.held = v.ledger.held) (linked : w.ledger.linked = v.ledger.linked) :
    v₀.Lent bodies loans w := by
  refine ⟨?_, ?_, ?_⟩
  · rw [free]
    exact lent.free
  · rw [held]
    exact lent.held
  · rw [linked]
    exact lent.linked

theorem take {rest : List Nat} (lent : v₀.Lent bodies loans v)
    (stocked : v.ledger.free i = p :: rest) :
    v₀.Lent bodies ((p, i) :: loans) (v.take i n p rest) := by
  refine ⟨?_, ?_, ?_⟩ <;> intro j <;> by_cases same : i = j
  · subst same
    have before := lent.free i
    rw [stocked] at before
    simpa [loansOf_cons, View.take, Ledger.take, Ledger.setPool] using
      List.perm_middle.trans before
  · have before := lent.free j
    simpa [loansOf_cons, same, View.take, Ledger.take, Ledger.setPool,
      Function.update_of_ne (Ne.symm same)] using before
  · subst same
    simpa [loansOf_cons, View.take, Ledger.take, Ledger.setPool] using (lent.held i).cons p
  · have before := lent.held j
    simpa [loansOf_cons, same, View.take, Ledger.take, Ledger.setPool,
      Function.update_of_ne (Ne.symm same)] using before
  · subst same
    simpa [View.take, Ledger.take, Ledger.setPool] using lent.linked i
  · have before := lent.linked j
    simpa [View.take, Ledger.take, Ledger.setPool, Function.update_of_ne (Ne.symm same)]
      using before

theorem link (lent : v₀.Lent bodies loans v) (i : SizeClass) (body : Nat) :
    v₀.Lent (Function.update bodies i (bodies i ++ [body])) loans (v.link i body) := by
  refine ⟨?_, ?_, ?_⟩ <;> intro j <;> by_cases same : j = i
  · subst same
    have before := (lent.free j).append_left ((chunkSlab j body).blocks j.bytes)
    simp only [Function.update_self, chunkBlocks_snoc, View.link, Ledger.link, Ledger.setPool,
      List.append_assoc] at before ⊢
    refine before.trans ?_
    rw [← List.append_assoc, ← List.append_assoc]
    exact (List.perm_append_comm.append_right _).trans
      (by rw [List.append_assoc, List.append_assoc]; exact List.perm_append_comm.append_left _)
  · have before := lent.free j
    simpa [same, View.link, Ledger.link, Ledger.setPool] using before
  · subst same
    simpa [View.link, Ledger.link, Ledger.setPool] using lent.held j
  · have before := lent.held j
    simpa [same, View.link, Ledger.link, Ledger.setPool] using before
  · subst same
    simp [View.link, Ledger.link, Ledger.setPool, lent.linked j]
  · have before := lent.linked j
    simpa [same, View.link, Ledger.link, Ledger.setPool] using before

theorem out (lent : v₀.Lent bodies ((p, i) :: loans) v) : p ∈ v.ledger.held i := by
  apply (lent.held i).symm.subset
  simp [loansOf_cons]

theorem giveBack (lent : v₀.Lent bodies ((p, i) :: loans) v) :
    v₀.Lent bodies loans (v.giveBack i n p) := by
  refine ⟨?_, ?_, ?_⟩ <;> intro j <;> by_cases same : i = j
  · subst same
    have before := lent.free i
    rw [loansOf_cons, if_pos rfl] at before
    simpa [View.giveBack, Ledger.giveBack, Ledger.setPool] using List.perm_middle.symm.trans before
  · have before := lent.free j
    simpa [loansOf_cons, same, View.giveBack, Ledger.giveBack, Ledger.setPool,
      Function.update_of_ne (Ne.symm same)] using before
  · subst same
    have before := (lent.held i).erase p
    rw [loansOf_cons, if_pos rfl] at before
    simpa [View.giveBack, Ledger.giveBack, Ledger.setPool] using before
  · have before := lent.held j
    simpa [loansOf_cons, same, View.giveBack, Ledger.giveBack, Ledger.setPool,
      Function.update_of_ne (Ne.symm same)] using before
  · subst same
    simpa [View.giveBack, Ledger.giveBack, Ledger.setPool] using lent.linked i
  · have before := lent.linked j
    simpa [View.giveBack, Ledger.giveBack, Ledger.setPool, Function.update_of_ne (Ne.symm same)]
      using before

theorem count (lent : v₀.Lent bodies loans v) (i : SizeClass) :
    (v.ledger.free i).length + (loansOf i loans).length =
      (v₀.ledger.free i).length + (bodies i).length * maxBlocks i := by
  have sizes := (lent.free i).length_eq
  rwa [List.length_append, List.length_append, length_chunkBlocks] at sizes

/-- While few enough blocks are on loan, the class has a free block. -/
theorem stocked (lent : v₀.Lent bodies loans v)
    (few : (loansOf i loans).length <
      (v₀.ledger.free i).length + (bodies i).length * maxBlocks i) :
    ∃ p rest, v.ledger.free i = p :: rest := by
  apply List.exists_cons_of_ne_nil
  intro empty
  have count := lent.count i
  rw [empty, List.length_nil] at count
  omega

/-- When everything is back, the free blocks are the old ones and those of the chunks. -/
theorem settled (lent : v₀.Lent bodies [] v) (i : SizeClass) :
    (v.ledger.free i).Perm (v₀.ledger.free i ++ chunkBlocks i (bodies i)) ∧
      (v.ledger.held i).Perm (v₀.ledger.held i) := by
  have free := lent.free i
  have held := lent.held i
  rw [loansOf_nil] at free held
  exact ⟨by simpa using free, by simpa using held⟩

end Lent

theorem arenaBytes_congr {P : Platform} {n : Nat} {v w : View} (same : v.arenaUsed = w.arenaUsed) :
    v.arenaBytes P n = w.arenaBytes P n := by
  rw [arenaBytes, arenaBytes, same]

/-- Blocks of `n` bytes have been cut off the arena since `v₀`, and nothing else has changed. -/
structure Cut (P : Platform) (n : Nat) (v₀ : View) (blocks : List Nat) (v : View) : Prop where
  free : v.ledger.free = v₀.ledger.free
  held : v.ledger.held = v₀.ledger.held
  linked : v.ledger.linked = v₀.ledger.linked
  bumped : v.ledger.bumped = (blocks.map fun p => ⟨p, n⟩).reverse ++ v₀.ledger.bumped
  most : v.arenaUsed ≤ v₀.arenaUsed + blocks.length * (n + P.maxAlign)
  least : v₀.arenaUsed + blocks.length * n ≤ v.arenaUsed
  adds : v₀.stats.Adds (blocks.length * n) (v.arenaUsed - v₀.arenaUsed) blocks.length 0 v.stats

namespace Cut

variable {P : Platform} {n : Nat} {v₀ v : View} {blocks : List Nat}

theorem refl (P : Platform) (n : Nat) (v : View) : v.Cut P n [] v :=
  ⟨rfl, rfl, rfl, rfl, by simp, by simp, by simpa using Stats.Adds.refl v.stats⟩

theorem bump (aligns : P.Aligns) (cut : v₀.Cut P n blocks v) (p : Nat) :
    v₀.Cut P n (blocks ++ [p]) (v.bump P n p) := by
  have gap : Words.padding v.arenaUsed P.maxAlign < P.maxAlign :=
    Words.padding_lt aligns.power.positive
  have most := cut.most
  have least := cut.least
  have amount : v.arenaBytes P n = Words.padding v.arenaUsed P.maxAlign + n := rfl
  refine ⟨cut.free, cut.held, cut.linked, ?_, ?_, ?_, ?_⟩
  · simp [View.bump, Ledger.bump, cut.bumped]
  · rw [List.length_append, List.length_singleton, Nat.succ_mul]
    simp only [View.bump, amount]
    omega
  · rw [List.length_append, List.length_singleton, Nat.succ_mul]
    simp only [View.bump, amount]
    omega
  · have adds := cut.adds.trans (.recordAlloc v.stats n (v.arenaBytes P n))
    have moved : (v.bump P n p).arenaUsed - v₀.arenaUsed =
        v.arenaUsed - v₀.arenaUsed + v.arenaBytes P n := by
      simp only [View.bump, amount]
      omega
    rw [moved, List.length_append, List.length_singleton, Nat.succ_mul]
    exact adds

end Cut

end View

namespace Task

section Batches

variable {P : Platform} {fact : Knowledge → Prop} {throws : Exn → Knowledge → Prop} {v₀ v : View}
  {i : SizeClass} {bodies ptrs left rest : List Nat} {p : Nat}

/-- The next block of a batch is drawn. -/
theorem allocate_drawn {returns : Option Nat → Knowledge → Prop} (aligns : P.Aligns)
    (now : fact (.live v)) (drawn : v₀.Drawn i bodies ptrs v)
    (next : ∀ p bodies' v', v₀.Drawn i bodies' (ptrs ++ [p]) v' →
      v'.stats = v.stats.recordAlloc i.bytes i.bytes → p ∈ v'.ledger.held i →
      returns (some p) (.live v'))
    (refused : (v₀.ledger.free i).length ≤ ptrs.length → ∀ x, throws x (.live v))
    (lost : (v₀.ledger.free i).length ≤ ptrs.length → throws .badAlloc .broken) :
    ((AllocatorCall.interface P).always fact).Meets returns throws (allocate i.bytes)
      (.live v) := by
  have bounded := aligns.bounded (Nat.le_trans i.bytes_le (by decide))
  have cls := sizeClassOf_bytes i
  by_cases empty : v.ledger.free i = []
  · have all := congrArg List.length drawn.deck
    rw [List.length_append, empty, List.append_nil] at all
    have short : (v₀.ledger.free i).length ≤ ptrs.length := by omega
    apply allocate_empty bounded now i.bytes_le (cls.symm ▸ empty)
    · rw [cls]
      intro body rest blocks
      apply next body _ _ (drawn.refill empty blocks) rfl
      simp [View.take, Ledger.take, Ledger.setPool]
    · exact refused short
    · exact lost short
  · obtain ⟨p, rest, head⟩ := List.exists_cons_of_ne_nil empty
    apply allocate_stocked bounded now i.bytes_le (cls.symm ▸ head)
    rw [cls]
    apply next p _ _ (drawn.take head) rfl
    simp [View.take, Ledger.take, Ledger.setPool]

/-- The next block of a batch is given back. -/
theorem deallocate_returning {returns : Unit → Knowledge → Prop} (now : fact (.live v))
    (returning : v₀.Returning i bodies ptrs left (p :: rest) v)
    (next : ∀ v', v₀.Returning i bodies ptrs left rest v' →
      v'.stats = v.stats.recordFree i.bytes i.bytes → returns () (.live v')) :
    ((AllocatorCall.interface P).always fact).Meets returns throws
      (deallocate (some p) i.bytes) (.live v) := by
  have cls := sizeClassOf_bytes i
  apply deallocate_pool now i.bytes_le (cls.symm ▸ returning.out)
  rw [cls]
  exact next _ returning.giveBack rfl

end Batches

end Task

end MemAlloc
