import Threading.Rehearsal.Cast

/-!
# Acting

An actor that is awake carries out one action at a time. A lock that has to wait
puts the actor to sleep until the mutex is free; at most one actor sleeps on a
mutex, and the initial thread never sleeps. The unlock that frees a mutex hands it
to the sleeper within the same action.
-/
namespace Threading.Rehearsal

/-- What an actor can do. -/
inductive Action where
  | lock (m : UInt64)
  | tryLock (m : UInt64)
  | unlock (m : UInt64)
  /-- The observer alone is told of an acquisition. -/
  | observe (m : UInt64)
  | unobserve (m : UInt64)
  | pushCleanup (routine : Nat)
  | popCleanup (execute : Bool)
  /-- The actor asks for its own handle. -/
  | whoAmI
  /-- The actor looks at its thread pointer. -/
  | threadPointer
  | join (of : String)
  | detach (of : String)
  | exit (value : UInt64)
  /-- The actor's routine returns. -/
  | leave (value : UInt64)
  deriving DecidableEq, Repr

/-- What an action or a request leads to. -/
inductive Answer where
  | noSuchActor
  | asleep
  | done
  | failed (e : Error)
  | value (v : UInt64)
  /-- What the observer made of an acquisition; none while it is off. -/
  | observed (outcome : Option LockOrder.Outcome)
  | nothing
  /-- The handle of the caller, if it has one. -/
  | handle (i : Option BlockId)
  /-- Whether the thread pointer leads to the caller's registered block. -/
  | pointer (registered : Bool)
  /-- The actor sleeps on a mutex now. -/
  | parked
  /-- The actor would have to sleep and must not. -/
  | wouldPark
  | wouldWait
  | waiting
  | left
  /-- The call never returns. -/
  | endless
  deriving DecidableEq, Repr

/-- An answer and what else happened. -/
structure Report where
  answer : Answer
  /-- The cleanup handlers that ran, in order. -/
  cleanups : List Nat := []
  /-- The sleeper that got the mutex. -/
  woken : Option String := none
  /-- The value that a wait from outside the cast ended with. -/
  joined : Option UInt64 := none
  deriving Repr

/-- The report of an action without side effects on others. -/
def Report.of (answer : Answer) : Report := { answer }

variable (r : Rehearsal)

/-- The answer to a call that only succeeds or fails. -/
def Answer.ofResult : Except Error Unit → Answer
  | .ok () => .done
  | .error e => .failed e

/-! ## Mutexes -/

/-- Carries a locking call through. -/
def lockWith (a : Actor) (m : UInt64) (call : Option (ThreadGroup × Locks.Answer)) :
    Answer × Rehearsal :=
  match call with
  | none => (.endless, r)
  | some (group, .done result) => (.ofResult result, { r with group })
  | some (group, .waits) =>
    if a.role = .initial ∨ (r.sleeper? m).isSome then (.wouldPark, r)
    else
      (.parked, { r with group }.modifyActor a.caller.tid ({ · with awaits := some m }))

/-- Hands a mutex that has become free to the actor that sleeps on it. -/
def handOver (m : UInt64) : Option (Option String × Rehearsal) :=
  if (r.group.locks.mutexes.get m).isLocked then some (none, r)
  else
    match r.sleeper? m with
    | none => some (none, r)
    | some a => (r.group.handTo m a.caller.tid .empty).map fun group =>
      (some a.name, { r with group }.modifyActor a.caller.tid ({ · with awaits := none }))

def unlock (a : Actor) (m : UInt64) : Report × Rehearsal :=
  match r.group.unlock m a.caller.tid with
  | none => (.of .endless, r)
  | some (group, .error e) => (.of (.failed e), { r with group })
  | some (group, .ok ()) =>
    match { r with group }.handOver m with
    | none => (.of .endless, r)
    | some (woken, r) => ({ answer := .done, woken }, r)

/-! ## Joining -/

/-- Whether a join by `a` would have to wait: the thread runs, may be joined, and is
another one. -/
def joinWaits (a : Actor) (i : BlockId) : Bool :=
  match r.group.registry.get? i with
  | none => false
  | some c => !c.isMain && c.tid != 0 && c.tid != a.caller.tid && c.joinState == .joinable

/-- The handle of an actor, or the refusal of a name without one. -/
def handleOf (name : String) : Except Error BlockId :=
  match r.handle? name with
  | none => .error .noSuchThread
  | some i => .ok i

/-- An actor joins a thread, if that needs no waiting. -/
def joinBy (a : Actor) (name : String) : Answer × Rehearsal :=
  match r.handleOf name with
  | .error e => (.failed e, r)
  | .ok i =>
    if r.joinWaits a i then (.wouldWait, r)
    else
      match r.group.join a.caller.tid i with
      | .error e => (.failed e, r)
      | .ok (.value v, group) => (.value v, { r with group })
      | .ok (.waits, _) => (.wouldWait, r)

/-- A thread is detached, by an actor or from outside. -/
def detach (name : String) : Answer × Rehearsal :=
  match (do r.group.detach (← r.handleOf name)) with
  | .error e => (.failed e, r)
  | .ok (_, group) => (.done, { r with group })

/-- Someone outside the cast joins a thread and waits if need be. -/
def joinOutside (name : String) : Answer × Rehearsal :=
  match (do let i ← r.handleOf name; .ok (i, ← r.group.join 0 i)) with
  | .error e => (.failed e, r)
  | .ok (_, .value v, group) => (.value v, { r with group })
  | .ok (i, .waits, group) => (.waiting, { r with group, awaited := i :: r.awaited })

/-- Ends a wait for a thread that has ended. -/
def completeWait (i : BlockId) : Option UInt64 × Rehearsal :=
  if i ∈ r.awaited then
    match r.group.completeJoin? i with
    | none => (none, r)
    | some (v, group) => (some v, { r with group, awaited := r.awaited.erase i })
  else (none, r)

/-! ## Leaving -/

/-- Marks an actor as gone. -/
def dismiss (a : Actor) : Rehearsal := r.modifyActor a.caller.tid ({ · with alive := false })

/-- A thread with a control block ends. -/
def finish (a : Actor) (i : BlockId) (value : UInt64) : Report × Rehearsal :=
  match r.group.finish i value with
  | none => (.of .endless, r)
  | some (cleanups, group) =>
    let (joined, r) := ({ r with group }.dismiss a).completeWait i
    ({ answer := .left, cleanups, joined }, r)

/-- An actor's routine returns. A thread that the runtime did not create only has
its locks forgotten. -/
def leave (a : Actor) (value : UInt64) : Report × Rehearsal :=
  match a.role, a.block with
  | .runtime, some i => r.finish a i value
  | _, _ => (.of .left, { r with group := r.group.forgetLocks a.caller.tid }.dismiss a)

/-! ## Actions -/

/-- Applies a call on the caller's own control block. -/
def withResult (result : Except Error ThreadGroup) : Report × Rehearsal :=
  match result with
  | .error e => (.of (.failed e), r)
  | .ok group => (.of .done, { r with group })

def perform (a : Actor) : Action → Report × Rehearsal
  | .lock m =>
    let (answer, r) := r.lockWith a m (r.group.lock m a.caller.tid .empty)
    (.of answer, r)
  | .tryLock m =>
    let (answer, r) := r.lockWith a m (r.group.tryLock m a.caller.tid .empty)
    (.of answer, r)
  | .unlock m => r.unlock a m
  | .observe m =>
    match r.group.observe m a.caller.tid .empty with
    | none => (.of .endless, r)
    | some (group, outcome) => (.of (.observed outcome), { r with group })
  | .unobserve m =>
    match r.group.unobserve m a.caller.tid with
    | none => (.of .endless, r)
    | some group => (.of .nothing, { r with group })
  | .pushCleanup routine =>
    let (h, handlers) := r.group.handlers.allocate routine
    r.withResult ({ r.group with handlers }.pushCleanup a.caller h)
  | .popCleanup execute =>
    match r.group.popCleanup a.caller execute with
    | .error e => (.of (.failed e), r)
    | .ok (ran, group) =>
      ({ answer := .done, cleanups := ran.toList }, { r with group })
  | .whoAmI => (.of (.handle (r.group.current? a.caller)), r)
  | .threadPointer =>
    (.of (.pointer ((r.group.registry.findByTls? a.caller.tls) == a.block && a.block.isSome)), r)
  | .join name =>
    let (answer, r) := r.joinBy a name
    (.of answer, r)
  | .detach name =>
    let (answer, r) := r.detach name
    (.of answer, r)
  | .exit value =>
    match r.group.exiting a.caller with
    | .error e => (.of (.failed e), r)
    | .ok i => r.finish a i value
  | .leave value => r.leave a value

/-- The actor of the given name acts, if it is there and awake. -/
def act (name : String) (action : Action) : Report × Rehearsal :=
  match r.actor? name with
  | none => (.of .noSuchActor, r)
  | some a =>
    if !a.alive then (.of .noSuchActor, r)
    else if a.awaits.isSome then (.of .asleep, r)
    else r.perform a action

end Threading.Rehearsal
