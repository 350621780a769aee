import MemAlloc.NewCalls

set_option autoImplicit false

namespace MemAlloc.CallState


/-- The state in which the thread's allocator, its client, the shared part and memory are as
given. -/
def settle (s : CallState) (t : Nat) (pool : ThreadPoolAlloc) (client : Client) (g : Shared)
    (m : ByteMemory) : CallState :=
  { s with w := { s.w with sys := { s.w.sys.setThread t (.live pool client) with
    shared := g
    mem := m } } }

/-- The call ends as `x` says, and leaves `s` behind but for the storage of the vectors. -/
def Ends (s : CallState) (c : CallEnd (Option Nat × CallState)) : Except Exn (Option Nat) → Prop
  | .ok p => ∃ vectors, c = .returns (p, { s with vectors := vectors })
  | .error e => c = .throws e s.w

/-- No vector is full. -/
def Roomy (s : CallState) : Prop := ∀ v, (s.vectors v).size < (s.vectors v).capacity

section Settled

variable {P : Platform} {growth : Nat → Nat} {mutexBytes : Nat} {c : CallReplies} {s : CallState}
  {t n : Nat} {pool : ThreadPoolAlloc} {client : Client} {g : Shared} {m : ByteMemory}

theorem settle_self (live : s.w.sys.threads t = .live pool client) :
    s.settle t pool client s.w.sys.shared s.w.sys.mem = s := by
  have same : Function.update s.w.sys.threads t (.live pool client) = s.w.sys.threads := by
    rw [← live]
    exact Function.update_eq_self _ _
  unfold settle Sys.setThread
  rw [same]

@[simp] theorem settle_thread : (s.settle t pool client g m).w.sys.threads t = .live pool client :=
  Function.update_self _ _ _

@[simp] theorem settle_shared : (s.settle t pool client g m).w.sys.shared = g := rfl

@[simp] theorem settle_mem : (s.settle t pool client g m).w.sys.mem = m := rfl

@[simp] theorem settle_onPool {α : Type} (f : ThreadPoolAlloc → Client → CallEnd α) :
    (s.settle t pool client g m).onPool t f = f pool client := by
  unfold onPool
  rw [settle_thread]

@[simp] theorem settle_setPool (pool' : ThreadPoolAlloc) (client' : Client) :
    (s.settle t pool client g m).setPool t pool' client' = s.settle t pool' client' g m := by
  simp [settle, setPool, Sys.setThread]

theorem record_quiet (quiet : s.enabled = false) (r : Replies) (happened : Bool) :
    s.record P mutexBytes r t happened = .returns s := by
  unfold record
  rw [quiet]
  rfl

theorem push_roomy {v : OverrideCalls.Vector} (r : Replies) (active : Bool)
    (room : (s.vectors v).size < (s.vectors v).capacity) :
    s.push P growth mutexBytes c r active t v =
      .returns (s.setVector v { s.vectors v with size := (s.vectors v).size + 1 }) := by
  unfold push pushBack
  rw [if_pos room]
  rfl

theorem poolAllocate_settled (i : SizeClass) :
    (s.settle t pool client g m).poolAllocate t i n =
      match pool.alloc.poolAllocate i m with
      | (some p, a) => .returns (some p, s.settle t { pool with alloc := a.recordAlloc n i.bytes }
          (client.gainBlock i p) g m)
      | (none, a) => .returns (none, s.settle t { pool with alloc := a } client g m) := by
  unfold poolAllocate
  rw [settle_onPool, settle_mem]
  rcases pool.alloc.poolAllocate i m with ⟨p, a⟩
  cases p with
  | none => simp
  | some p => simp

theorem arenaAllocate_settled (alignment : Nat) :
    (s.settle t pool client g m).arenaAllocate t n alignment =
      .returns ((pool.alloc.arenaAllocate n alignment).1,
        s.settle t { pool with alloc := (pool.alloc.arenaAllocate n alignment).2 }
          (client.gainAligned n (pool.alloc.arenaAllocate n alignment).1) g m) := by
  unfold arenaAllocate
  rw [settle_onPool]
  simp

/-- The vector of chunks takes the chunk without growing. -/
theorem acquireChunk_settled (bytes : Nat) (quiet : s.enabled = false)
    (room : (s.vectors .chunks).size < (s.vectors .chunks).capacity) :
    (s.settle t pool client g m).acquireChunk P growth mutexBytes c t bytes =
      match g.acquireChunk P (some t) c.own.chunk true bytes m with
      | (.ok body, g', m') => .returns (body, (s.setVector .chunks { s.vectors .chunks with
          size := (s.vectors .chunks).size + 1 }).settle t pool client g' m')
      | (.error e, g', m') => .throws e (s.settle t pool client g' m').w := by
  unfold acquireChunk Shared.acquireChunk CentralHeap.acquireChunk
  rw [settle_shared]
  rcases allocateSlab P g.heap .chunk CentralHeap.chunkSize CentralHeap.chunkSize c.own.chunk
    with ⟨answer, h'⟩
  cases answer with
  | none => rfl
  | some slab =>
      have pushed : push P growth mutexBytes c c.chunks true t .chunks
          ((s.settle t pool client g m).withChunk bytes slab h') = _ :=
        push_roomy c.chunks true room
      simp only [pushed, CallEnd.returns_bind, CallEnd.pure_eq, ↓reduceIte, Nat.add_sub_cancel]
      rw [record_quiet (by exact quiet)]
      rfl

theorem linkSlab_settled {i : SizeClass} {body : Nat} (accepted : body ≠ 0 ∧
    0 < SingleThreadAllocator.maxBlocks i ∧ SingleThreadAllocator.maxBlocks i ≤ blocksPerSlab) :
    (s.settle t pool client g m).linkSlab t i body = .returns (s.settle t
      { pool with alloc := pool.alloc.setPool i { pool.alloc.pools i with head := body } } client g
      (linkBlocks i.bytes m body (pool.alloc.pools i).head
        (SingleThreadAllocator.maxBlocks i))) := by
  have linked : pool.alloc.poolAddExternalSlab i m body false = (.error .badAlloc,
      pool.alloc.setPool i { pool.alloc.pools i with head := body },
      linkBlocks i.bytes m body (pool.alloc.pools i).head
        (SingleThreadAllocator.maxBlocks i)) := by
    unfold SingleThreadAllocator.poolAddExternalSlab BlockPool.addExternalSlab
    rw [if_pos accepted]
    rfl
  unfold linkSlab
  rw [settle_onPool, settle_mem, linked]
  simp only [settle_setPool]
  rfl

theorem recordSlab_settled (i : SizeClass) (body : Nat) :
    (s.settle t pool client g m).recordSlab t i body = .returns (s.settle t
      { pool with alloc := pool.alloc.setPool i { pool.alloc.pools i with
        externalSlabs := (pool.alloc.pools i).externalSlabs ++
          [⟨body, SingleThreadAllocator.maxBlocks i⟩] } } client g m) := by
  unfold recordSlab
  rw [settle_onPool]
  simp only [settle_setPool]
  rfl

/-- The vector of external slabs takes the slab without growing. -/
theorem addExternalSlab_settled (i : SizeClass) (body : Nat)
    (room : (s.vectors (.externalSlabs t i)).size < (s.vectors (.externalSlabs t i)).capacity) :
    (s.settle t pool client g m).addExternalSlab P growth mutexBytes c t i body =
      match pool.alloc.poolAddExternalSlab i m body true with
      | (.ok _, a, m') => .returns ((s.setVector (.externalSlabs t i)
          { s.vectors (.externalSlabs t i) with
            size := (s.vectors (.externalSlabs t i)).size + 1 }).settle t
              { pool with alloc := a } client g m')
      | (.error e, a, m') => .throws e (s.settle t { pool with alloc := a } client g m').w := by
  unfold addExternalSlab
  by_cases accepted : body ≠ 0 ∧ 0 < SingleThreadAllocator.maxBlocks i ∧
      SingleThreadAllocator.maxBlocks i ≤ blocksPerSlab
  · have added : pool.alloc.poolAddExternalSlab i m body true = (.ok (),
        pool.alloc.setPool i { pool.alloc.pools i with
          head := body
          externalSlabs := (pool.alloc.pools i).externalSlabs ++
            [⟨body, SingleThreadAllocator.maxBlocks i⟩] },
        linkBlocks i.bytes m body (pool.alloc.pools i).head
          (SingleThreadAllocator.maxBlocks i)) := by
      unfold SingleThreadAllocator.poolAddExternalSlab BlockPool.addExternalSlab
      rw [if_pos accepted]
      rfl
    rw [linkSlab_settled accepted, CallEnd.returns_bind, push_roomy _ _ (by exact room),
      CallEnd.returns_bind, added]
    refine (recordSlab_settled (s := s.setVector (.externalSlabs t i) _) i body).trans ?_
    simp only [SingleThreadAllocator.setPool, Function.update_self, Function.update_idem]
    rfl
  · have refused : ∀ recorded, pool.alloc.poolAddExternalSlab i m body recorded =
        (.error .assertion, pool.alloc, m) := by
      intro recorded
      unfold SingleThreadAllocator.poolAddExternalSlab BlockPool.addExternalSlab
      rw [if_neg accepted]
      simp only [SingleThreadAllocator.setPool, Function.update_eq_self]
    unfold linkSlab
    rw [settle_onPool, settle_mem, refused, refused]
    rfl

theorem refill_settled {x : Except Exn (Option Nat)} {a : SingleThreadAllocator} {g' : Shared}
    {m' : ByteMemory} (quiet : s.enabled = false) (roomy : s.Roomy) (small : n ≤ maxSmall)
    (done : pool.alloc.refill (acquireChunkCb P t c.own.chunk true) true n (sizeClassOf n small)
      g m = (x, a, g', m')) :
    (s.settle t { pool with alloc := a } (client.gain n x) g' m').Ends
      ((s.settle t pool client g m).refill P growth mutexBytes c t (sizeClassOf n small) n) x := by
  generalize cls : sizeClassOf n small = i at done ⊢
  have acquired : acquireChunk P growth mutexBytes c t i.bytes (s.settle t pool client g m) = _ :=
    acquireChunk_settled i.bytes quiet (roomy .chunks)
  unfold SingleThreadAllocator.refill acquireChunkCb at done
  unfold refill
  rw [acquired]
  rcases called : g.acquireChunk P (some t) c.own.chunk true i.bytes m with ⟨answer, g₁, m₁⟩
  simp only [called] at done
  cases answer with
  | error e =>
      cases done
      rfl
  | ok body =>
      have room : ((s.setVector .chunks { s.vectors .chunks with
          size := (s.vectors .chunks).size + 1 }).vectors (.externalSlabs t i)).size <
          ((s.setVector .chunks { s.vectors .chunks with
            size := (s.vectors .chunks).size + 1 }).vectors (.externalSlabs t i)).capacity := by
        unfold setVector
        dsimp only
        rw [Function.update_of_ne (by simp)]
        exact roomy (.externalSlabs t i)
      simp only [Except.map] at done
      simp only [CallEnd.returns_bind, addExternalSlab_settled i body room]
      rcases added : pool.alloc.poolAddExternalSlab i m₁ body true with ⟨result, a₂, m₂⟩
      simp only [added] at done
      cases result with
      | error e =>
          cases done
          rfl
      | ok _ =>
          simp only [CallEnd.returns_bind, poolAllocate_settled]
          rcases popped : a₂.poolAllocate i m₂ with ⟨p, a₃⟩
          simp only [popped] at done
          cases p with
          | none =>
              cases done
              exact ⟨_, rfl⟩
          | some q =>
              cases done
              have gained : client.gain n (.ok (some q)) = client.gainBlock i q := by
                rw [← cls, Client.gain, dif_pos small]
              rw [gained]
              exact ⟨_, rfl⟩

theorem singleAllocate_settled {x : Except Exn (Option Nat)} {a : SingleThreadAllocator}
    {g' : Shared} {m' : ByteMemory} (quiet : s.enabled = false) (roomy : s.Roomy)
    (done : pool.alloc.allocate P (acquireChunkCb P t c.own.chunk true) true n g m =
      (x, a, g', m')) :
    (s.settle t { pool with alloc := a } (client.gain n x) g' m').Ends
      ((s.settle t pool client g m).singleAllocate P growth mutexBytes c t n) x := by
  unfold singleAllocate
  by_cases small : n ≤ maxSmall
  · simp only [SingleThreadAllocator.allocate, small, ↓reduceDIte] at done ⊢
    rw [poolAllocate_settled]
    rcases popped : pool.alloc.poolAllocate (sizeClassOf n small) m with ⟨p, a₁⟩
    simp only [popped] at done
    cases p with
    | none =>
        let pool₁ : ThreadPoolAlloc := { pool with alloc := a₁ }
        have refilled : pool₁.alloc.refill _ true n (sizeClassOf n small) g m = _ := done
        exact refill_settled quiet roomy small refilled
    | some p =>
        cases done
        have gained : client.gain n (.ok (some p)) = client.gainBlock (sizeClassOf n small) p := by
          rw [Client.gain, dif_pos small]
        rw [gained]
        exact ⟨_, rfl⟩
  · simp only [SingleThreadAllocator.allocate, small, ↓reduceDIte] at done ⊢
    rw [arenaAllocate_settled]
    rcases served : pool.alloc.arenaAllocate n P.maxAlign with ⟨p, a₁⟩
    rw [served] at done
    cases done
    have gained : client.gain n (.ok p) = client.gainAligned n p := by
      cases p with
      | none => rfl
      | some p => rw [Client.gain, dif_neg small, Client.gainAligned]
    rw [gained]
    exact ⟨_, rfl⟩

theorem allocate_settled {x : Except Exn (Option Nat)} {pool' : ThreadPoolAlloc} {g' : Shared}
    {m' : ByteMemory} (quiet : s.enabled = false) (roomy : s.Roomy)
    (done : pool.allocate P (acquireChunkCb P t c.own.chunk true) true n g m =
      (x, pool', g', m')) :
    (s.settle t pool' (client.gain n x) g' m').Ends
      ((s.settle t pool client g m).allocate P growth mutexBytes c t n) x := by
  unfold ThreadPoolAlloc.allocate at done
  rcases served : pool.alloc.allocate P (acquireChunkCb P t c.own.chunk true) true n g m
    with ⟨x₁, a, g₁, m₁⟩
  rw [served] at done
  cases done
  have counted : (s.settle t pool client g m).countAlloc t = .returns
      (s.settle t { pool with allocCount := Words.add pool.allocCount 1 } client g m) := by
    unfold countAlloc
    rw [settle_onPool, settle_setPool]
    rfl
  have ends : Ends _ ((s.settle t { pool with allocCount := Words.add pool.allocCount 1 } client g
      m).singleAllocate P growth mutexBytes c t n) x₁ :=
    singleAllocate_settled quiet roomy served
  unfold allocate
  rw [counted, CallEnd.returns_bind]
  cases x₁ with
  | error e =>
      have thrown : singleAllocate P growth mutexBytes c t n _ = .throws e _ := ends
      rw [thrown]
      rfl
  | ok p =>
      obtain ⟨vectors, returned⟩ := ends
      simp only [returned, CallEnd.returns_bind]
      rw [record_quiet (by exact quiet)]
      exact ⟨vectors, rfl⟩

theorem allocatorInstance_settled (live : s.w.sys.threads t = .live pool client) :
    s.allocatorInstance P growth mutexBytes c t = .returns s := by
  unfold allocatorInstance
  rw [live]
  rfl

theorem issueServed_settled {x : Except Exn (Option Nat)} {w' : NewDelete} {source : Nat × Origin}
    {call : CallEnd (Option Nat × CallState)} {served : Except Exn (Option Nat)}
    (ends : s.Ends call served) (done : s.w.issueServed source served = (x, w')) :
    { s with w := w' }.Ends (do
      let (p, s) ← call
      s.issueServed source p) x := by
  cases served with
  | error e =>
      have thrown : call = .throws e s.w := ends
      cases done
      rw [thrown]
      rfl
  | ok p =>
      obtain ⟨vectors, rfl⟩ := ends
      cases p with
      | none =>
          cases done
          rfl
      | some p =>
          cases done
          exact ⟨vectors, rfl⟩

/-- With room in all vectors and recording off, every call for which `doNew` has an outcome ends
with that outcome. -/
theorem newCall_settled {active : Bool} {x : Except Exn (Option Nat)} {w' : NewDelete}
    (quiet : s.enabled = false) (roomy : s.Roomy)
    (done : s.w.doNew P c.own active t n = some (x, w')) :
    { s with w := w' }.Ends (s.newCall P growth mutexBytes c active t n) x := by
  unfold NewDelete.doNew at done
  unfold newCall
  generalize (if n = 0 then 1 else n) = size at done ⊢
  dsimp only at done ⊢
  split at done
  · rename_i falls
    rw [if_pos falls]
    unfold fallbackNew
    have called := Option.some.inj done
    rw [called]
    cases x with
    | error e => rfl
    | ok p => exact ⟨s.vectors, rfl⟩
  · rename_i served
    rw [if_neg served]
    split at done
    · rename_i pool client live
      have called := Option.some.inj done
      unfold NewDelete.poolNew at called
      rcases answered : pool.allocate P (acquireChunkCb P t c.own.chunk true) true size
        s.w.sys.shared s.w.sys.mem with ⟨x₁, pool', g', m'⟩
      simp only [answered] at called
      have ends : Ends _ ((s.settle t pool client s.w.sys.shared s.w.sys.mem).allocate P growth
          mutexBytes c t size) x₁ := allocate_settled quiet roomy answered
      rw [settle_self live] at ends
      have issued := issueServed_settled ends called
      rw [allocatorInstance_settled live, CallEnd.returns_bind]
      exact issued
    · cases done

theorem bootstrapAlignedNew_settled {alignment : Nat} {active : Bool}
    {x : Except Exn (Option Nat)} {w' : NewDelete} (roomy : s.Roomy)
    (done : s.w.bootstrapAlignedNew P c.own t n alignment = (x, w')) :
    { s with w := w' }.Ends (s.bootstrapAlignedNew P growth mutexBytes c active t n alignment)
      x := by
  unfold NewDelete.bootstrapAlignedNew at done
  unfold bootstrapAlignedNew
  generalize s.w.malloc P .overAligned (Words.add n alignment) c.own.block = answer at done ⊢
  obtain ⟨raw, w₁⟩ := answer
  cases raw with
  | none =>
      cases done
      rfl
  | some raw =>
      dsimp only at done ⊢
      generalize Words.alignUp raw alignment = payload at done ⊢
      rw [push_roomy _ _ (by exact roomy (.alignedScratch t)), CallEnd.returns_bind]
      cases done
      exact ⟨_, rfl⟩

theorem poolAlignedNew_settled {alignment : Nat} {x : Except Exn (Option Nat)} {w' : NewDelete}
    (live : s.w.sys.threads t = .live pool client)
    (done : s.w.poolAlignedNew t n alignment pool client = (x, w')) :
    { s with w := w' }.Ends (do
      let s ← s.allocatorInstance P growth mutexBytes c t
      let (p, s) ← s.arenaAllocate t n alignment
      s.issueServed (t, .arena) p) x := by
  have called : (s.settle t pool client s.w.sys.shared s.w.sys.mem).arenaAllocate t n alignment =
      _ := arenaAllocate_settled alignment
  rw [settle_self live] at called
  unfold NewDelete.poolAlignedNew ThreadPoolAlloc.allocateAligned
    SingleThreadAllocator.allocateAligned at done
  generalize pool.alloc.arenaAllocate n alignment = served at called done
  obtain ⟨p, a⟩ := served
  have ends : (s.settle t { pool with alloc := a } (client.gainAligned n p) s.w.sys.shared
      s.w.sys.mem).Ends (s.arenaAllocate t n alignment) (.ok p) := ⟨_, called⟩
  have issued := issueServed_settled ends done
  rw [allocatorInstance_settled live, CallEnd.returns_bind]
  exact issued

/-- The same for the aligned form. -/
theorem alignedNewCall_settled {alignment : Nat} {active : Bool} {x : Except Exn (Option Nat)}
    {w' : NewDelete} (quiet : s.enabled = false) (roomy : s.Roomy)
    (done : s.w.doAlignedNew P c.own active t n alignment = some (x, w')) :
    { s with w := w' }.Ends (s.alignedNewCall P growth mutexBytes c active t n alignment) x := by
  unfold NewDelete.doAlignedNew at done
  unfold alignedNewCall
  dsimp only at done ⊢
  generalize (if n = 0 then 1 else n) = size at done ⊢
  split at done
  · rename_i plain
    rw [if_pos plain]
    exact newCall_settled quiet roomy done
  · rename_i wide
    rw [if_neg wide]
    split at done
    · rename_i falls
      rw [if_pos falls]
      exact bootstrapAlignedNew_settled roomy (Option.some.inj done)
    · rename_i served
      rw [if_neg served]
      split at done
      · rename_i pool client live
        exact poolAlignedNew_settled live (Option.some.inj done)
      · cases done

/-- A deletion needs no room. -/
theorem deleteCall_settled {p : Nat} {freed : List Nat} {w' : NewDelete}
    (quiet : s.enabled = false) (done : s.w.doDelete t p = some (freed, w')) :
    s.deleteCall P growth mutexBytes c t p = .returns (freed, { s with w := w' }) := by
  have reached : s.reachAllocator P growth mutexBytes c t p = .returns s := by
    unfold reachAllocator allocatorInstance
    split
    · rename_i consults
      cases phase : s.w.sys.threads t with
      | unborn =>
          rw [NewDelete.doDelete_unborn consults phase] at done
          cases done
      | live pool client => rfl
      | exited => rfl
    · rfl
  unfold deleteCall
  rw [reached, CallEnd.returns_bind]
  simp only [done]
  rw [record_quiet (by exact quiet)]
  rfl

end Settled

end MemAlloc.CallState
