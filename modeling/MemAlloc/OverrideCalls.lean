import MemAlloc.OverrideActions
import MemAlloc.Lib.Calls

set_option autoImplicit false

/- The override as functions that call each other: every `operator new` and `operator delete` that
a container or a static makes is a call of its own. -/
namespace MemAlloc.OverrideCalls

open Calls (Code)
open SingleThreadAllocator (FreeForm kArenaPointer)

inductive Function where
  | doNew (size : Nat)
  | doAlignedNew (size alignment : Nat)
  | bootstrapAlignedNew (size alignment : Nat)
  | doDelete (p : Nat)
  | allocatorInstance
  | construct
  | destroy
  | initAllocator
  | registerStats
  | retireStats
  | pushBack (v : Vector)
  | staticPointer (x : Static)
  | record (kind size ptr threadId : Nat)
  | allocate (n : Nat)
  | allocateAligned (n alignment : Nat)
  | singleAllocate (n : Nat)
  | addExternalSlab (i : SizeClass) (body : Nat)
  | deallocate (form : FreeForm) (p n : Nat)
  | acquireChunk (sizeClassBytes threadId : Nat) (user : Option Nat)

/-- Functions that return nothing return 0, and so does the null pointer. -/
abbrev Body : Type := Code Function Action.Reply Nat

/-- An `AllocatorGuard` around the rest of a block. -/
def guarded (inner : Body) (k : Nat → Body) : Body :=
  .scope .enterGuard (fun previous => .leaveGuard previous)
    (fun previous => .leaveGuard previous) inner k

def locked (m : Mutex) (inner : Body) : Body :=
  .scope (.lock m) (fun _ => .unlock m) (fun _ => .unlock m) inner .ret

/-- An exception that leaves the block ends the program. -/
def noexcept (inner : Body) : Body :=
  .scope .proceed (fun _ => .proceed) (fun _ => .terminate) inner .ret

def doNew (size : Nat) : Body :=
  let size := if size = 0 then 1 else size
  .act .testFallback fun fallback =>
    if fallback then .act (.primitive (.mallocFallback size)) .ret
    else
      guarded (.call .allocatorInstance fun _ => .call (.allocate size) fun p =>
        if p = 0 then .throw else .ret p) .ret

def bootstrapAlignedNew (t size alignment : Nat) : Body :=
  .act (.primitive (.mallocOverAligned size alignment)) fun raw =>
    if raw = 0 then .throw
    else
      .call (.pushBack (.alignedScratch t)) fun _ =>
        let payload := Words.alignUp raw alignment
        .act (.primitive (.stash raw payload)) fun _ => .ret payload

def doAlignedNew (P : Platform) (size alignment : Nat) : Body :=
  let size := if size = 0 then 1 else size
  if alignment ≤ P.maxAlign then .call (.doNew size) .ret
  else
    .act .testFallback fun fallback =>
      if fallback then .call (.bootstrapAlignedNew size alignment) .ret
      else
        guarded (.call .allocatorInstance fun _ => .call (.allocateAligned size alignment) fun p =>
          if p = 0 then .throw else .ret p) .ret

def freeRegistered (p : Nat) : Body := .act (.primitive (.freeRegistered p)) fun _ => .ret 0

def doDelete (p : Nat) : Body :=
  noexcept <|
    if p = 0 then .ret 0
    else
      .act (.primitive (.unstash p)) fun found =>
        if found then .ret 0
        else
          .act .testReady fun ready =>
            if !ready then freeRegistered p
            else
              .act .testGone fun gone =>
                if gone then freeRegistered p
                else
                  guarded (.call .allocatorInstance fun _ => .act .testDying fun dying =>
                    if dying then freeRegistered p
                    else
                      .act (.primitive (.classify p)) fun cls =>
                        if cls = 0 then freeRegistered p
                        else if cls = kArenaPointer then .ret 0
                        else .call (.deallocate .containing p cls) .ret) .ret

/-- `ThreadPoolAlloc::instance()`. The `thread_local` is constructed with the guard set. -/
def allocatorInstance : Body :=
  guarded (.act (.primitive .isConstructed) fun constructed =>
    if constructed then .ret 0 else .call .construct .ret) .ret

/-- `next_thread_id()`, the members, and the registration. -/
def construct : Body :=
  .call (.staticPointer .threadIds) fun _ => .act (.primitive .takeThreadId) fun threadId =>
    .act (.primitive .buildMembers) fun built =>
      match built with
      | none => .throw
      | some a => .call .registerStats fun _ => .act (.primitive (.becomeLive a threadId)) fun _ =>
          .ret 0

/-- The buffers of the members' vectors are deleted. -/
def dropVectors : List Vector → Body
  | [] => .ret 0
  | v :: rest => .act (.release v) fun buffer =>
      if buffer = 0 then dropVectors rest
      else .call (.doDelete buffer) fun _ => dropVectors rest

def destroy (t : Nat) : Body :=
  .act (.primitive .markGone) fun a =>
    guarded (.call .retireStats .ret) fun _ =>
      .act (.primitive (.destroyMembers a)) fun _ =>
        dropVectors ((List.finRange 7).map (Vector.externalSlabs t))

def initAllocator : Body :=
  .call .allocatorInstance fun _ => .act (.primitive .setReady) fun _ => .ret 0

def registerStats : Body :=
  locked .statsRegistry (.call (.pushBack .live) fun _ => .call (.pushBack .liveAllocators) .ret)

def retireStats : Body :=
  locked .statsRegistry (.call (.pushBack .retired) fun _ =>
    .act (.erase .live) fun _ => .act (.erase .liveAllocators) fun _ => .ret 0)

/-- `push_back`: a full vector requests a buffer, moves its elements there and deletes the one
it had. -/
def pushBack (v : Vector) : Body :=
  .act (.room v) fun room =>
    if room then .act (.append v) fun _ => .ret 0
    else
      .act (.newBytes v) fun bytes => .call (.doNew bytes) fun buffer =>
        .act (.moveTo v buffer) fun old =>
          if old = 0 then .act (.install v buffer) fun _ => .ret 0
          else .call (.doDelete old) fun _ => .act (.install v buffer) fun _ => .ret 0

/-- `static T* x = new T()`. An exception leaves it uninitialised. -/
def staticPointer (mutexBytes : Nat) (x : Static) : Body :=
  .act (.enterStatic x) fun stored =>
    match stored with
    | some p => .ret p
    | none =>
        .scope .proceed (fun _ => .proceed) (fun _ => .abandonStatic x)
          (.call (.doNew (x.bytes mutexBytes)) fun p => .act (.storeStatic x p) fun _ => .ret p)
          .ret

/-- `ring().push(..)`. -/
def record (kind size ptr threadId : Nat) : Body :=
  .call (.staticPointer .ring) fun _ =>
    locked .ring (.act (.pushEvent kind size ptr threadId) fun _ => .ret 0)

def allocate (n : Nat) : Body :=
  .act (.primitive .countAlloc) fun _ =>
    guarded (.call (.singleAllocate n) fun p => .act .testEnabled fun enabled =>
      if enabled ∧ p ≠ 0 then
        .act (.primitive .threadId) fun threadId =>
          .call (.record kEventAlloc n p threadId) fun _ => .ret p
      else .ret p) .ret

def allocateAligned (n alignment : Nat) : Body :=
  guarded (.act (.primitive (.arenaAllocateAligned n alignment)) .ret) .ret

/-- `SingleThreadAllocator::allocate`, with `acquire_chunk_cb` as its chunk source. -/
def singleAllocate (t n : Nat) : Body :=
  if small : n ≤ maxSmall then
    let i := sizeClassOf n small
    .act (.primitive (.poolAllocate i n)) fun p =>
      if p ≠ 0 then .ret p
      else
        .act (.primitive .threadId) fun threadId =>
          .call (.acquireChunk i.bytes threadId (some t)) fun chunk =>
            if chunk ≠ 0 then
              .call (.addExternalSlab i chunk) fun _ => .act (.primitive (.poolAllocate i n)) .ret
            else .ret 0
  else .act (.primitive (.arenaAllocate n)) .ret

def addExternalSlab (t : Nat) (i : SizeClass) (body : Nat) : Body :=
  .act (.primitive (.linkSlab i body)) fun _ =>
    .call (.pushBack (.externalSlabs t i)) fun _ =>
      .act (.primitive (.recordSlab i body)) fun _ => .ret 0

/-- Both forms of free. -/
def deallocate (form : FreeForm) (p n : Nat) : Body :=
  .act (.primitive (.free form p n)) fun _ => .act .testEnabled fun enabled =>
    if enabled ∧ p ≠ 0 then
      .act (.primitive .threadId) fun threadId => .call (.record kEventFree n p threadId) .ret
    else .ret 0

/-- The critical section of `acquire_chunk`. -/
def acquireLocked (sizeClassBytes threadId : Nat) (user : Option Nat) : Body :=
  .act (.primitive (.allocateChunk sizeClassBytes)) fun s =>
    match s with
    | none => .throw
    | some s => .call (.pushBack .chunks) fun _ =>
        .act (.primitive (.recordChunk s sizeClassBytes user)) fun _ =>
          let body := s.aligned + CentralHeap.kHeaderOffset
          .act .testEnabled fun enabled =>
            if enabled then
              .call (.record kEventChunk CentralHeap.chunkSize body threadId) fun _ => .ret body
            else .ret body

def acquireChunk (sizeClassBytes threadId : Nat) (user : Option Nat) : Body :=
  guarded (locked .centralHeap (acquireLocked sizeClassBytes threadId user)) .ret

/-- What the functions do on thread `t`. -/
def body (P : Platform) (mutexBytes t : Nat) : Function → Body
  | .doNew size => doNew size
  | .doAlignedNew size alignment => doAlignedNew P size alignment
  | .bootstrapAlignedNew size alignment => bootstrapAlignedNew t size alignment
  | .doDelete p => doDelete p
  | .allocatorInstance => allocatorInstance
  | .construct => construct
  | .destroy => destroy t
  | .initAllocator => initAllocator
  | .registerStats => registerStats
  | .retireStats => retireStats
  | .pushBack v => pushBack v
  | .staticPointer x => staticPointer mutexBytes x
  | .record kind size ptr threadId => record kind size ptr threadId
  | .allocate n => allocate n
  | .allocateAligned n alignment => allocateAligned n alignment
  | .singleAllocate n => singleAllocate t n
  | .addExternalSlab i body => addExternalSlab t i body
  | .deallocate form p n => deallocate form p n
  | .acquireChunk sizeClassBytes threadId user => acquireChunk sizeClassBytes threadId user

end MemAlloc.OverrideCalls
