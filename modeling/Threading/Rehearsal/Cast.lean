import Threading.ThreadGroup

/-!
# The cast of a rehearsal

A rehearsal runs the threads of a process one action at a time. Its cast are the
initial thread, host threads, which the runtime did not create and does not
register, and runtime threads. Actors go by names; the latest actor of a name is
meant. The kernel of a rehearsal never runs out of ids and addresses.
-/
namespace Threading

inductive Role where
  | initial
  /-- A thread the runtime knows nothing about. -/
  | host
  | runtime
  deriving DecidableEq, Repr

/-- A thread in a rehearsal. -/
structure Actor where
  name : String
  role : Role
  caller : Caller
  /-- The control block; a host thread has none. -/
  block : Option BlockId := none
  alive : Bool := true
  /-- The mutex the thread sleeps on. -/
  awaits : Option UInt64 := none
  deriving Repr

structure Rehearsal where
  group : ThreadGroup
  /-- All actors, latest first. -/
  cast : List Actor
  /-- Threads whose end someone outside the cast waits for. -/
  awaited : List BlockId := []
  nextTid : Tid
  nextAddress : UInt64 := 0x100000000000

namespace Rehearsal

/-- The control block of the initial thread. -/
def initialBlock : BlockId := 0

/-- The initial thread alone. -/
def start (pid : Tid) (settings : Settings) : Rehearsal where
  group := .initial pid settings
  cast := [⟨"main", .initial, ⟨pid, 0⟩, some initialBlock, true, none⟩]
  nextTid := pid + 1

variable (r : Rehearsal)

/-! ## Actors -/

def actor? (name : String) : Option Actor := r.cast.find? (·.name = name)

/-- The handle a name stands for. -/
def handle? (name : String) : Option BlockId := (r.actor? name).bind (·.block)

/-- Changes the actor with the given kernel id. -/
def modifyActor (t : Tid) (f : Actor → Actor) : Rehearsal :=
  { r with cast := r.cast.map fun a => if a.caller.tid = t then f a else a }

/-- The name of the thread with a kernel id, also after its end. -/
def nameOf? (t : Tid) : Option String := (r.cast.find? (·.caller.tid = t)).map (·.name)

/-- The actor that sleeps on a mutex. -/
def sleeper? (m : UInt64) : Option Actor := r.cast.find? (·.awaits = some m)

/-- The control block behind a name. -/
def control (name : String) : Except Error Control :=
  match r.handle? name with
  | none => .error .noSuchThread
  | some i => r.group.control i

/-- A kernel id for a new thread. -/
def freshTid : Tid × Rehearsal := (r.nextTid, { r with nextTid := r.nextTid + 1 })

/-- The greatest number of bytes that are handed out at once. -/
def maxMapping : UInt64 := 0x800000000000

/-- The address of `size` bytes nobody else uses, pages apart from all others. -/
def freshAddress (size : UInt64) : UInt64 × Rehearsal :=
  let taken := if size < maxMapping then size else 0
  (r.nextAddress,
    { r with nextAddress := Word.alignDown (r.nextAddress + taken + 2 * pageSize) pageSize })

/-- A thread that the runtime did not create joins the cast. -/
def addHost (name : String) : Rehearsal :=
  let (tid, r) := r.freshTid
  { r with cast := ⟨name, .host, ⟨tid, 0⟩, none, true, none⟩ :: r.cast }

/-! ## Asking -/

/-- The names of the registered threads, newest first; none for one that ended. -/
def registered : List (Option String) :=
  r.group.registry.tids.map fun t => if t = 0 then none else r.nameOf? t

/-- Whether the registry finds a running thread by its kernel id; none if there is
nothing to find. -/
def foundByTid? (name : String) : Option Bool :=
  match r.actor? name with
  | some a =>
    match a.block with
    | some i => if a.alive then some (r.group.registry.findByTid? a.caller.tid = some i) else none
    | none => none
  | none => none

/-- The number of registered threads beside the initial one. -/
def registeredCount : Nat := r.group.registry.length - 1

/-- The lines logged by threads that share the host's log. -/
def hostLines : List Log.Line :=
  let hosts := (r.cast.filter (·.role ≠ .runtime)).map (·.caller.tid)
  r.group.lines.toList.filter (·.tid ∈ hosts)

/-- A new page of the log. -/
def clearLines : Rehearsal := { r with group := { r.group with lines := #[] } }

/-! ## Changing settings and tables -/

def modifySettings (f : Settings → Settings) : Rehearsal :=
  { r with group := { r.group with settings := f r.group.settings } }

def modifyLocks (f : Locks → Locks) : Rehearsal :=
  { r with group := { r.group with locks := f r.group.locks } }

/-- Puts a fresh mutex of the given kind at an address. -/
def addMutex (m : UInt64) (kind : MutexKind) : Rehearsal :=
  r.modifyLocks fun l => { l with mutexes := l.mutexes.set m { kind } }

/-- Overwrites the recursion depth of a mutex. -/
def setDepth (m : UInt64) (depth : UInt32) : Rehearsal :=
  r.modifyLocks fun l =>
    { l with mutexes := l.mutexes.set m { l.mutexes.get m with depth } }

/-- The observer starts over; its announcement is not repeated. -/
def resetObserver : Rehearsal :=
  r.modifyLocks fun l => { l with observer := { l.observer with graph := .empty } }

/-- Sets whether the observer has announced its level. -/
def setAnnounced (announced : Bool) : Rehearsal :=
  r.modifyLocks fun l => { l with observer := { l.observer with announced } }

/-- The observer announces its level again when it works next. -/
def forgetAnnouncement : Rehearsal := r.setAnnounced false

/-- The observer announces nothing any more. -/
def silenceAnnouncement : Rehearsal := r.setAnnounced true

end Rehearsal
end Threading
