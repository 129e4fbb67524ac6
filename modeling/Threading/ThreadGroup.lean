import Threading.Futex.Handshake
import Threading.Locks
import Threading.Procfs.Stack
import Threading.Region
import Threading.Registry
import Threading.Thread.Cleanup
import Threading.Thread.JoinState
import Threading.Thread.LocalStorage

/-!
# A process and its threads

A thread is created in a region of its own or on a stack its creator lends, is
registered and released, runs, and ends by returning or exiting. It departs first,
and then the kernel clears its id. Exactly one party reclaims it: the thread that
joins it, the thread that detaches it after its departure, both of which wait for
the kernel, or the departing thread itself if it was detached before. Reclaiming
takes its control block out of the registry and unmaps a region the runtime owns.

If the kernel refuses the scheduling asked for after the task exists and the
policy is to fail, the thread is detached before it is released, runs nothing and
ends at once.
-/
namespace Threading

open LockOrder (CallStack Notice Symbols)

/-- What a thread runs. -/
inductive Routine where
  /-- What its creator gave it. -/
  | given
  /-- Nothing: it returns 0 at once. -/
  | nothing
  deriving DecidableEq, Repr

/-- What a thread may return. -/
def Routine.Returns : Routine → UInt64 → Prop
  | given, _ => True
  | nothing, v => v = 0

instance (r : Routine) (v : UInt64) : Decidable (r.Returns v) :=
  match r with
  | .given => isTrue trivial
  | .nothing => inferInstanceAs (Decidable (v = 0))

/-- The control block of a thread. -/
structure Control where
  /-- The kernel id while the thread runs, 0 after its end. -/
  tid : Tid
  joinState : JoinState
  attributes : Attributes
  region : Region
  stackTop : UInt64 := 0
  /-- The address of the control block itself. -/
  address : UInt64 := 0
  /-- The address of the thread's local storage; the initial thread has none. -/
  tls : UInt64 := 0
  localStorage : Option LocalStorage := none
  routine : Routine := .given
  /-- Where the thread waits for its creator. -/
  handshake : Futex.Handshake := .locked
  /-- What the thread ended with. -/
  result : UInt64 := 0
  /-- The handler that would run first. -/
  cleanupTop : Option HandlerId := none
  isMain : Bool := false
  deriving Repr

/-- Whether the thread runs under the kernel id `t`. -/
def Control.runsAs (c : Control) (t : Tid) : Bool := c.tid != 0 && c.tid == t

/-- Whether the thread gets to run: its creator has released it. -/
def Control.starts (c : Control) : Bool := c.handshake.acquire?.isSome

instance : ControlBlock Control where
  tid := Control.tid
  tls := Control.tls

/-- A thread that calls: its kernel id and what its thread pointer points at. -/
structure Caller where
  tid : Tid
  tls : UInt64 := 0
  deriving DecidableEq, Repr

/-- What the kernel answers while a thread is created. -/
structure Launch where
  /-- The address of a mapping of the given size, or an error number. -/
  map : UInt64 → Except Int32 UInt64
  /-- The error number of the request to make a guard inaccessible, if it fails. -/
  protect : Option Int32 := none
  /-- The id of the new task. -/
  tid : Tid
  /-- The error number of the request for a task, if it fails. -/
  clone : Option Int32 := none
  /-- The error number of the request for policy and priority, if it fails. -/
  scheduler : Option Int32 := none
  /-- The error number of the request for an affinity, if it fails. -/
  affinity : Option Int32 := none

/-- A process, as the threads in it share it. -/
structure ThreadGroup where
  pid : Tid
  settings : Settings := {}
  locks : Locks := {}
  registry : Registry Control := {}
  handlers : HandlerTable := #[]
  /-- The regions that are mapped for threads. -/
  mapped : List Region := []
  /-- What was unmapped, the latest first. -/
  unmapped : List Region := []
  /-- What the dynamic linker knows of the program. -/
  symbols : Symbols := .none
  /-- The lines logged so far. -/
  lines : Array Log.Line := #[]

namespace ThreadGroup

/-- The value all threads of a process carry in their stack guard slot. -/
def guardValue : UInt64 := 0x5bd1e995a7c4f300

/-- The tag of lines about threads. -/
def logTag : String := "strand"

/-- The control block of the initial thread. -/
def mainControl (pid : Tid) : Control where
  tid := pid
  joinState := .joinable
  attributes := { guardSize := 0 }
  region := .borrowed 0 0
  routine := .nothing
  isMain := true

/-- A process whose initial thread is registered. -/
def initial (pid : Tid) (settings : Settings) : ThreadGroup :=
  let (i, registry) := (Registry.empty : Registry Control).allocate (mainControl pid)
  { pid, settings, registry := (registry.insert i).2 }

variable (p : ThreadGroup)

/-! ## Logging -/

/-- Logs a line, if its priority passes. -/
def log (t : Tid) (priority : LogPriority) (message : String) : ThreadGroup :=
  { p with lines := p.lines ++ Log.delivered p.settings.priority [⟨priority, logTag, t, message⟩] }

/-- Whether a thread with this kernel id was created by the runtime. -/
def isRuntime (t : Tid) : Bool :=
  ((p.registry.findByTid? t).bind p.registry.get?).any fun c => !c.isMain

/-- What the thread `t` can look up: the dynamic linker must not be asked by threads that
the runtime created. -/
def symbolsOn (t : Tid) : Symbols := if p.isRuntime t then .none else p.symbols

/-- Logs what the observer has to say. -/
def logNotices (t : Tid) (here : CallStack) (notices : List Notice) : ThreadGroup :=
  let lines := notices.flatMap (·.lines p.pid t here (p.symbolsOn t))
  { p with lines := p.lines ++ Log.delivered p.settings.priority lines }

/-! ## Locks -/

/-- The result of a call to lock together with its effect. -/
def afterLocking (t : Tid) (here : CallStack) :
    Locks × Locks.Answer × List Notice → ThreadGroup × Locks.Answer
  | (locks, answer, notices) => ({ p with locks }.logNotices t here notices, answer)

/-- The thread `t` locks a mutex. -/
def lock (id : UInt64) (t : Tid) (here : CallStack) : Option (ThreadGroup × Locks.Answer) :=
  (p.locks.lock p.settings.level id t here).map (p.afterLocking t here)

/-- The thread `t` locks a mutex without waiting. -/
def tryLock (id : UInt64) (t : Tid) (here : CallStack) : Option (ThreadGroup × Locks.Answer) :=
  (p.locks.tryLock p.settings.level id t here).map (p.afterLocking t here)

/-- The thread `t` acquires a mutex it has been waiting for. -/
def handTo (id : UInt64) (t : Tid) (here : CallStack) : Option ThreadGroup :=
  (p.locks.handTo p.settings.level id t here).map fun (locks, notices) =>
    { p with locks }.logNotices t here notices

/-- The thread `t` unlocks a mutex. -/
def unlock (id : UInt64) (t : Tid) : Option (ThreadGroup × Except Error Unit) :=
  (p.locks.unlock p.settings.level id t).map fun (locks, result) => ({ p with locks }, result)

/-- The thread `t` tells the observer that it holds `id`. -/
def observe (id : UInt64) (t : Tid) (here : CallStack) :
    Option (ThreadGroup × Option LockOrder.Outcome) :=
  (p.locks.observer.onLock p.settings.level id t here).map fun (observer, outcome, notices) =>
    ({ p with locks := { p.locks with observer } }.logNotices t here notices, outcome)

/-- The thread `t` tells the observer that it is about to release `id`. -/
def unobserve (id : UInt64) (t : Tid) : Option ThreadGroup :=
  (p.locks.observer.onUnlock p.settings.level id t).map fun observer =>
    { p with locks := { p.locks with observer } }

/-- The observer forgets what the thread `t` holds. -/
def forgetLocks (t : Tid) : ThreadGroup :=
  { p with
    locks := { p.locks with observer := p.locks.observer.forget p.settings.level t } }

/-! ## Creating threads -/

/-- Unmaps the memory of a region. -/
def unmap (region : Region) : ThreadGroup :=
  { p with mapped := p.mapped.erase region, unmapped := region :: p.unmapped }

/-- Finds memory for a thread. -/
def provideRegion (t : Tid) (a : Attributes) (launch : Launch) :
    Except Error Region × ThreadGroup :=
  if a.usesBorrowedStack then (.ok (.borrowed a.stackBase a.stackSize), p)
  else
    match Region.allocate a.stackSize a.guardSize launch.map launch.protect with
    | .ok region => (.ok region, { p with mapped := region :: p.mapped })
    | .error failure =>
      let p := (failure.warning?.map (p.log t .warn)).getD p
      (.error failure.error, (failure.unmapped?.map fun region =>
        { p with mapped := region :: p.mapped }.unmap region).getD p)

/-- Gives a region back; only owned ones are unmapped. -/
def releaseRegion (region : Region) : ThreadGroup :=
  if region.owned then p.unmap region else p

/-- The attributes a thread reports: its stack without what lies above it. -/
def effectiveAttributes (a : Attributes) (region : Region) (layout : Layout) : Attributes :=
  { a with
    guardSize := region.guardSize
    stackBase := if region.owned then 0 else a.stackBase
    stackSize := layout.usableStack }

/-- The control block of a new thread. -/
def newControl (a : Attributes) (region : Region) (layout : Layout) (tid : Tid) : Control where
  tid
  joinState := .initial a.detachState
  attributes := effectiveAttributes a region layout
  region
  stackTop := layout.stackTop
  address := layout.control
  tls := layout.tls
  localStorage := some (.initAt layout.tls layout.control guardValue)

/-- Applies one scheduling request. A failure is logged; under the policy to fail
it is the result. -/
def applyRequest (t : Tid) (call : String) (asked : Bool) (verdict : Option Int32) :
    Option Error × ThreadGroup :=
  match asked, verdict with
  | true, some errno =>
    let p := p.log t .warn ("create_thread " ++ call ++ " call failed: errno " ++
      Text.signedDecimal errno.toInt)
    (if p.settings.policy = .fail then some (.ofErrno errno) else none, p)
  | _, _ => (none, p)

/-- Applies policy and priority, then the affinity. -/
def applyScheduling (t : Tid) (a : Attributes) (launch : Launch) : Option Error × ThreadGroup :=
  match p.applyRequest t "sched_setscheduler" a.explicitSched launch.scheduler with
  | (some e, p) => (some e, p)
  | (none, p) => p.applyRequest t "sched_setaffinity" a.affinity.isSome launch.affinity

/-- A thread is detached and gets nothing to run. -/
def degrade (i : BlockId) : ThreadGroup :=
  { p with registry := p.registry.modify i ({ · with joinState := .detached, routine := .nothing }) }

/-- The creator of a thread lets it run. -/
def release (i : BlockId) : ThreadGroup :=
  { p with registry := p.registry.modify i fun c => { c with handshake := c.handshake.release } }

/-- What came of a request for a thread. -/
structure Creation where
  result : Except Error BlockId
  /-- The thread that was launched, even if the request failed. -/
  launched : Option BlockId := none
  group : ThreadGroup

/-- The thread `t` creates a thread. -/
def launch (t : Tid) (here : CallStack) (request : Option Attributes) (launch : Launch) :
    Creation :=
  let (observer, notices) := p.locks.observer.prepare p.settings.level
  let p := { p with locks := { p.locks with observer } }.logNotices t here notices
  let a := request.getD {}
  match a.validate with
  | .error e => { result := .error e, group := p }
  | .ok () =>
    match p.provideRegion t a launch with
    | (.error e, p) => { result := .error e, group := p }
    | (.ok region, p) =>
      match region.layout with
      | .error e => { result := .error e, group := p.releaseRegion region }
      | .ok layout =>
        match launch.clone with
        | some errno =>
          { result := .error (.os errno)
            group := (p.releaseRegion region).log t .warn
              ("create_thread failed: clone failed: errno " ++ Text.signedDecimal errno.toInt) }
        | none =>
          let (failure, p) := p.applyScheduling t a launch
          let (i, registry) := p.registry.allocate (newControl a region layout launch.tid)
          let p := { p with registry := (registry.insert i).2 }
          match failure with
          | some e =>
            { result := .error e, launched := some i, group := (p.degrade i).release i }
          | none =>
            { result := .ok i
              launched := some i
              group := (p.release i).log t .debug ("created thread " ++
                Text.signedDecimal launch.tid.toInt ++ " at " ++
                Text.hexadecimal layout.control.toNat) }

/-! ## Ending and reclaiming threads -/

/-- Takes a thread out of the registry and gives its region back. -/
def reclaim (i : BlockId) (c : Control) : ThreadGroup :=
  { p with registry := (p.registry.remove i).2 }.releaseRegion c.region

/-- A thread departs with a value: the observer forgets its locks, and it reclaims
itself or leaves that to whoever joins or detaches it. -/
def depart (i : BlockId) (value : UInt64) : ThreadGroup :=
  match p.registry.get? i with
  | none => p
  | some c =>
    let p := p.forgetLocks c.tid
    let left (s : JoinState) : ThreadGroup :=
      { p with registry := p.registry.modify i ({ · with result := value, joinState := s }) }
    match c.joinState with
    | .joinable => left .exitedNotJoined
    | .joined => left .joined
    | .exitedNotJoined | .detached => p.reclaim i c

/-- The task of a thread is gone: the kernel clears the id in its control block. -/
def expire (i : BlockId) : ThreadGroup :=
  { p with registry := p.registry.modify i ({ · with tid := 0 }) }

/-- A thread that runs leaves: its cleanup handlers run before it departs. The result names
them in the order they ran; there is none if they never end. -/
def leave (i : BlockId) (value : UInt64) : Option (List Nat × ThreadGroup) :=
  match p.registry.get? i with
  | none => some ([], p)
  | some c => (p.handlers.runAll? c.cleanupTop).map fun ran => (ran, p.depart i value)

/-- What a thread runs returns, which it does not do before the creator has released it. -/
def returnWith (i : BlockId) (value : UInt64) : Option (List Nat × ThreadGroup) :=
  if (p.registry.get? i).all Control.starts then p.leave i value else none

/-- A thread leaves, and its task goes. One that has reclaimed itself has told the
kernel not to clear anything. -/
def finish (i : BlockId) (value : UInt64) : Option (List Nat × ThreadGroup) :=
  (p.leave i value).map fun (ran, p) => (ran, if p.registry.contains i then p.expire i else p)

/-- A new thread is let go. One that has nothing to run returns at once. -/
def letGo (i : BlockId) : ThreadGroup :=
  match p.registry.get? i with
  | none => p
  | some c =>
    match c.routine with
    | .given => p
    | .nothing => ((p.returnWith i 0).map (·.2)).getD p

/-- A thread creates a thread and lets it go. -/
def create (t : Tid) (here : CallStack) (request : Option Attributes) (launch : Launch) :
    Except Error BlockId × ThreadGroup :=
  let c := p.launch t here request launch
  (c.result, (c.launched.map c.group.letGo).getD c.group)

/-- Takes the value of a claimed thread that has ended and reclaims it. -/
def reap (i : BlockId) (c : Control) : UInt64 × ThreadGroup := (c.result, p.reclaim i c)

/-- How a join goes. -/
inductive Join where
  | value (v : UInt64)
  /-- The thread is claimed and its end is awaited. -/
  | waits
  deriving DecidableEq, Repr

/-- Marks a thread as claimed. -/
def claim (i : BlockId) : ThreadGroup :=
  { p with registry := p.registry.modify i ({ · with joinState := .joined }) }

/-- The thread `me` joins a thread. -/
def join (me : Tid) (i : BlockId) : Except Error (Join × ThreadGroup) :=
  match p.registry.get? i with
  | none => .error .noSuchThread
  | some c =>
    if c.isMain then .error (.invalidArgument "initial thread cannot be joined")
    else if c.runsAs me then .error .deadlock
    else
      match c.joinState with
      | .detached | .joined => .error (.invalidArgument "thread is not joinable")
      | .joinable | .exitedNotJoined =>
        let p := p.claim i
        if c.tid = 0 then
          let (v, p) := p.reap i c
          .ok (.value v, p)
        else .ok (.waits, p)

/-- Completes a join or a detachment that waits, once the task of the thread is gone. -/
def completeJoin? (i : BlockId) : Option (UInt64 × ThreadGroup) :=
  match p.registry.get? i with
  | none => none
  | some c => if c.joinState = .joined ∧ c.tid = 0 then some (p.reap i c) else none

/-- How a detachment goes. -/
inductive Detachment where
  | done
  /-- The thread has departed and is claimed; the end of its task is awaited. -/
  | waits
  deriving DecidableEq, Repr

/-- Lets a thread reclaim itself, or reclaims it if it has departed. -/
def detach (i : BlockId) : Except Error (Detachment × ThreadGroup) :=
  match p.registry.get? i with
  | none => .error .noSuchThread
  | some c =>
    if c.isMain then .error (.invalidArgument "initial thread cannot be detached")
    else
      match c.joinState with
      | .detached | .joined => .error (.invalidArgument "thread is not joinable")
      | .joinable =>
        .ok (.done, { p with registry := p.registry.modify i ({ · with joinState := .detached }) })
      | .exitedNotJoined =>
        let p := p.claim i
        .ok (if c.tid = 0 then (.done, (p.reap i c).2) else (.waits, p))

/-! ## The calling thread -/

/-- The control block of the caller. -/
def current? (c : Caller) : Option BlockId :=
  (p.registry.findByTls? c.tls).or (p.registry.findByTid? c.tid)

/-- The refusal of a call that only registered threads can make. -/
def notRuntimeThread : Error := .invalidArgument "not a runtime thread"

/-- The caller's block, which must be registered. -/
def currentControl (c : Caller) : Except Error (BlockId × Control) :=
  match p.current? c with
  | none => .error notRuntimeThread
  | some i =>
    match p.registry.get? i with
    | none => .error notRuntimeThread
    | some control => .ok (i, control)

/-- The thread that the caller ends by exiting; only created threads can. -/
def exiting (c : Caller) : Except Error BlockId := do
  let (i, control) ← p.currentControl c
  if control.isMain then .error notRuntimeThread else .ok i

/-- The caller pushes a handler record. -/
def pushCleanup (c : Caller) (h : HandlerId) : Except Error ThreadGroup := do
  let (i, control) ← p.currentControl c
  .ok { p with
    handlers := p.handlers.push control.cleanupTop h
    registry := p.registry.modify i ({ · with cleanupTop := some h }) }

/-- The caller pops its most recent handler; the result is the one that runs. -/
def popCleanup (c : Caller) (execute : Bool) : Except Error (Option Nat × ThreadGroup) := do
  let (i, control) ← p.currentControl c
  match control.cleanupTop with
  | none => .ok (none, p)
  | some h =>
    let (top, handlers) := p.handlers.pop h
    .ok (if execute then handlers.routine? h else none,
      { p with handlers, registry := p.registry.modify i ({ · with cleanupTop := top }) })

/-! ## Handles -/

/-- The handle of a registered thread: the address of its control block. -/
def handle (i : BlockId) : UInt64 := ((p.registry.get? i).map (·.address)).getD 0

/-- The registered control block behind a handle. -/
def blockAt? (handle : UInt64) : Option BlockId := p.registry.find? (·.address = handle)

/-- Whether a handle belongs to a registered thread. -/
def knows (handle : UInt64) : Bool := (p.blockAt? handle).isSome

/-- The thread `me` joins the thread with a handle; the result names the thread. -/
def joinHandle (me : Tid) (handle : UInt64) : Except Error (BlockId × Join × ThreadGroup) :=
  match p.blockAt? handle with
  | none => .error .noSuchThread
  | some i => (p.join me i).map fun (answer, p) => (i, answer, p)

/-! ## Asking about threads -/

/-- The control block behind a handle. -/
def control (i : BlockId) : Except Error Control :=
  match p.registry.get? i with
  | none => .error .noSuchThread
  | some c => .ok c

/-- The attributes of a thread. Its detach state follows its join state; the stack
of the initial thread is looked up. -/
def attributes (i : BlockId) (mainStack : Except Error (UInt64 × UInt64)) :
    Except Error Attributes := do
  let c ← p.control i
  let a := if c.joinState = .detached then { c.attributes with detachState := .detached }
    else c.attributes
  let a := if c.region.owned then
      { a with
        stackBase := c.region.stackBase
        stackSize := c.stackTop - c.region.stackBase }
    else a
  if c.isMain then
    let (base, size) ← mainStack
    .ok { a with stackBase := base, stackSize := size }
  else .ok a

end ThreadGroup
end Threading
