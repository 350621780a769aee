import MemAlloc.StatsRegistry
import MemAlloc.ThreadSystem

set_option autoImplicit false

namespace MemAlloc

open Malloc (Heap)

namespace SingleThreadAllocator

/-- What the arena's cursor moves by in a request, as the code measures it. -/
def cursorMove (a : SingleThreadAllocator) (n alignment : Nat) : Nat :=
  Words.sub (a.arena.allocate n alignment).2.used a.arena.used

/-- What `allocate(n)` records as consumed when it succeeds. -/
def charge (P : Platform) (a : SingleThreadAllocator) (n : Nat) : Nat :=
  if n ≤ maxSmall then blockFor n else a.cursorMove n P.maxAlign

end SingleThreadAllocator

/-- Where a thread's allocator object is, from construction to destruction. -/
inductive Phase where
  | absent
  | built (object : Nat)
  | registered (object : Nat)
  | retired (object : Nat)
  | gone
deriving DecidableEq, Repr

def Phase.object : Phase → Option Nat
  | .built p => some p
  | .registered p => some p
  | .retired p => some p
  | _ => none

/-- The threads, their `thread_local` objects and the registry. `storage` tells which
thread's object occupies an address. `final` keeps the counters a destroyed object ended
with, and `seen` the threads in the order they registered; the program keeps neither. -/
structure Process where
  sys : Sys
  registry : StatsRegistry
  storage : Nat → Option Nat
  phase : Nat → Phase
  final : Nat → Stats
  seen : List Nat

namespace Sys.Event

/-- The thread that makes an allocator call. -/
def caller : Sys.Event → Option Nat
  | .allocate t _ _ => some t
  | .allocateAligned t _ _ _ => some t
  | .free t _ _ _ => some t
  | _ => none

/-- The thread whose allocator starts or ends. -/
def lifetime : Sys.Event → Option Nat
  | .start t _ => some t
  | .exit t => some t
  | _ => none

/-- What a call adds to the counters of the allocator it is made on. -/
def adds (P : Platform) (a : SingleThreadAllocator) (c : Counter) : Sys.Event → Nat
  | .allocate _ n (.ok (some _)) => c.entry n (a.charge P n) 1 0
  | .allocateAligned _ n alignment (some _) => c.entry n (a.cursorMove n alignment) 1 0
  | .free _ _ _ n => if n ≤ maxSmall then c.entry n (blockFor n) 0 1 else 0
  | _ => 0

end Sys.Event

namespace Process

def initial (m : ByteMemory) (h : Heap Owner) : Process :=
  ⟨Sys.initial m h, StatsRegistry.empty, fun _ => none, fun _ => .absent, fun _ => Stats.zero, []⟩

/-- A thread's own counters: those of its allocator, or what they were in the end. -/
def counters (s : Process) (t : Nat) : Stats :=
  match s.sys.threads t with
  | .live pool _ => pool.alloc.stats
  | _ => s.final t

/-- Follows a pointer to the `Stats` member of the object `offset` bytes below it. -/
def read (offset : Nat) (s : Process) (p : Nat) : Stats :=
  match s.storage (p - offset) with
  | some t => s.counters t
  | none => Stats.zero

def total (s : Process) (c : Counter) : Nat := Totals.total (fun t => c.of (s.counters t)) s.seen

def highestPeak (s : Process) : Nat :=
  Totals.highest (fun t => (s.counters t).peakAllocated) s.seen

inductive Event where
  | construct (t : Nat) (outcome : Except Exn Unit)
  | register (t : Nat)
  | operate (e : Sys.Event)
  | around (e : Sys.Event)
  | retire (t : Nat)
  | destroy (t : Nat)
  | globalStats (result : Stats)

/-- One registry operation, one allocator call, or one step around them. A thread's object
is constructed at an unused address and then registered, and retired before it is
destroyed. -/
inductive Step (P : Platform) (offset : Nat) : Process → Event → Process → Prop
  | construct {s : Process} {t object : Nat} {sys' : Sys} (absent : s.phase t = .absent)
      (unused : s.storage object = none)
      (started : Sys.Step P s.sys (.start t (.ok ())) sys') :
      Step P offset s (.construct t (.ok ()))
        { s with sys := sys'
                 storage := Function.update s.storage object (some t)
                 phase := Function.update s.phase t (.built object) }
  | constructFails {s : Process} {t : Nat} {x : Exn} {sys' : Sys} (absent : s.phase t = .absent)
      (failed : Sys.Step P s.sys (.start t (.error x)) sys') :
      Step P offset s (.construct t (.error x)) { s with sys := sys' }
  | register {s : Process} {t object : Nat} (built : s.phase t = .built object) :
      Step P offset s (.register t)
        { s with registry := s.registry.registerStats (object + offset) object
                 phase := Function.update s.phase t (.registered object)
                 seen := s.seen ++ [t] }
  | operate {s : Process} {t object : Nat} {e : Sys.Event} {sys' : Sys}
      (caller : e.caller = some t) (registered : s.phase t = .registered object)
      (taken : Sys.Step P s.sys e sys') : Step P offset s (.operate e) { s with sys := sys' }
  | around {s : Process} {e : Sys.Event} {sys' : Sys} (noCall : e.caller = none)
      (noLife : e.lifetime = none) (taken : Sys.Step P s.sys e sys') :
      Step P offset s (.around e) { s with sys := sys' }
  | retire {s : Process} {t object : Nat} {pool : ThreadPoolAlloc} {client : Client}
      (registered : s.phase t = .registered object) (live : s.sys.threads t = .live pool client) :
      Step P offset s (.retire t)
        { s with registry := s.registry.retireStats (object + offset) pool.alloc.stats
                 phase := Function.update s.phase t (.retired object) }
  | destroy {s : Process} {t object : Nat} {pool : ThreadPoolAlloc} {client : Client} {sys' : Sys}
      (retired : s.phase t = .retired object) (live : s.sys.threads t = .live pool client)
      (taken : Sys.Step P s.sys (.exit t) sys') :
      Step P offset s (.destroy t)
        { s with sys := sys'
                 storage := Function.update s.storage object none
                 phase := Function.update s.phase t .gone
                 final := Function.update s.final t pool.alloc.stats }
  | globalStats {s : Process} :
      Step P offset s (.globalStats (s.registry.globalStats (s.read offset))) s

/-- The bytes and calls that a call records still fit into the process-wide totals. -/
def Fits (P : Platform) (s : Process) : Event → Prop
  | .operate e => ∀ t pool client, e.caller = some t → s.sys.threads t = .live pool client →
      ∀ c : Counter, s.total c + e.adds P pool.alloc c < Words.radix
  | _ => True

end Process

end MemAlloc
