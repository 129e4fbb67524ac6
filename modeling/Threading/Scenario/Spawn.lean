import Threading.Scenario.Stage

/-!
# The spawn scenario

Several host threads create threads, which wait at a gate and then return the
number they were given. The registry is looked at while the threads wait and after
all of them are joined.
-/
namespace Threading.Scenario

structure Spawn where
  /-- The host threads that create threads. -/
  creators : Nat := 4
  threadsPerCreator : Nat := 8
  /-- The size of the stacks, if it is not the usual one. -/
  stackSize : Option UInt64 := none
  deriving DecidableEq, Repr

namespace Spawn

/-- How many threads are asked for. -/
def expected (c : Spawn) : Nat := c.creators * c.threadsPerCreator

/-- The attributes every thread gets. -/
def attributes (c : Spawn) : Except Error Attributes :=
  match c.stackSize with
  | none => .ok {}
  | some size =>
    let (answer, a) := ({} : Attributes).setStackSize size
    answer.map fun _ => a

/-! ## Creating -/

/-- The conductor locks the gate. -/
def closeGate (k : Kernel) : Performance Unit := do
  Performance.turn k
  let (had, gate) := Gate.enter (← get).gate
  modify ({ · with gate })
  if !had then
    Performance.awaitTurn k fun stage => !Gate.isClosed stage.gate
    modify fun stage => { stage with gate := Gate.wake stage.gate }

/-- The conductor unlocks the gate. -/
def openGate (k : Kernel) : Performance Unit := do
  Performance.turn k
  modify fun stage => { stage with gate := Futex.Mutex.unlock stage.gate }

/-- The creator with a number, before its first request. -/
def creator (c : Spawn) (a : Attributes) (i : Nat) : Creator where
  index := i
  attributes := a
  next := List.range' (i * c.threadsPerCreator) c.threadsPerCreator

/-- Starts the creators with the given numbers. -/
def startCreators (c : Spawn) (k : Kernel) (a : Attributes) : List Nat → Performance Unit
  | [] => pure ()
  | i :: rest => do
    Performance.turn k
    modify fun stage => { stage with crew := stage.crew ++ [Player.creator (c.creator a i)] }
    startCreators c k a rest

/-- What came of the requests of a creator, if that has made all of them. -/
def resultsOf? (i : Nat) (crew : List Player) : Option (List (Except Error Parked)) :=
  crew.findSome? fun
    | .creator c => if c.index = i ∧ c.next = [] then some c.results else none
    | _ => none

/-- The conductor joins a creator. -/
def joinCreator (k : Kernel) (i : Nat) : Performance (List (Except Error Parked)) := do
  Performance.awaitTurn k fun stage => (resultsOf? i stage.crew).isSome
  return (resultsOf? i (← get).crew).getD []

/-- The threads that were created. -/
def created (results : List (Except Error Parked)) : List Parked :=
  results.filterMap Except.toOption

/-- The records of the failed creations, one by one. -/
def reportFailed (k : Kernel) :
    List (Except Error Parked) → Summary → Performance Summary
  | [], s => pure s
  | .ok _ :: rest, s => reportFailed k rest s
  | .error e :: rest, s => do
    Performance.emit k .error "create_failed" fun entry =>
      { entry with stream := some .scenario, errno := some e.errno, outcome := some .fail }
    reportFailed k rest (s.fail ("create_thread: " ++ e.message))

/-- Joins the creators with the given numbers and reports what failed. -/
def gather (k : Kernel) :
    List Nat → Summary → Performance (List (Except Error Parked) × Summary)
  | [], s => pure ([], s)
  | i :: rest, s => do
    let results ← joinCreator k i
    let s ← reportFailed k results s
    let (more, s) ← gather k rest s
    pure (results ++ more, s)

/-! ## Checks -/

/-- How many of the threads the registry knows, asked one by one. -/
def countKnown (k : Kernel) : List Parked → Performance Nat
  | [] => pure 0
  | t :: rest => do
    Performance.turn k
    let known := (← get).group.knows t.handle
    return (← countKnown k rest) + known.toNat

/-- The latency in the middle and the greatest one, of the sorted ones; 0 if there is none. -/
def latencies (threads : List Parked) : UInt64 × UInt64 :=
  let sorted := (threads.map (·.latency)).mergeSort
  (sorted[sorted.length / 2]?.getD 0, sorted.getLast?.getD 0)

/-- Compares what the threads returned with what they were given. -/
def judgeJoins : List (Parked × Except Error UInt64) → Summary → Summary
  | [], s => s
  | (t, .ok v) :: rest, s =>
    judgeJoins rest <| s.failIf (v ≠ t.number)
      ("thread " ++ Text.decimal t.number.toNat ++ " returned " ++ Text.decimal v.toNat)
  | (t, .error e) :: rest, s =>
    judgeJoins rest <|
      s.fail ("join thread " ++ Text.decimal t.number.toNat ++ ": " ++ e.message)

/-- A count in the details of a record. -/
def count (n : Nat) : Json := .int n

/-! ## The run -/

/-- The first part of a run: all creations, with the created threads parked. -/
def park (c : Spawn) (k : Kernel) : Performance (List (Except Error Parked) × Summary) := do
  let a ← match c.attributes with
    | .ok a => pure a
    | .error e => throw (.thread e)
  Performance.emit k .info "scenario_start" fun e =>
    { e with
      stream := some .scenario
      threadCount := some (UInt64.ofNat c.expected)
      details := some (.object
        [("creators", count c.creators),
          ("stack_size", (c.stackSize.map Record.Entry.word).getD .null),
          ("threads_per_creator", count c.threadsPerCreator)]) }
  closeGate k
  c.startCreators k a (List.range c.creators)
  Performance.onFailure (gather k (List.range c.creators) { scenario := "spawn" }) (openGate k)

/-- Checks the parked threads. -/
def checkParked (k : Kernel) (threads : List Parked) (s : Summary) : Performance Summary := do
  let distinct := (threads.map (·.handle)).eraseDups
  let s := s.failIf (distinct.length != threads.length) "duplicate thread handles"
  let missing := threads.length - (← countKnown k threads)
  let s := s.failIf (missing != 0)
    (Text.decimal missing ++ " live thread(s) missing from registry")
  let (middle, greatest) := latencies threads
  Performance.turn k
  let known := (← get).group.registry.length
  Performance.emit k .info "threads_parked" fun e =>
    { e with
      stream := some .perf
      threadCount := some (UInt64.ofNat threads.length)
      latencyNs := some middle
      details := some (.object
        [("create_latency_max_ns", Record.Entry.word greatest), ("registry_len", count known)]) }
  pure s

/-- Checks that the joined threads are gone. -/
def checkJoined (k : Kernel) (threads : List Parked) (s : Summary) : Performance Summary := do
  let lingering ← countKnown k threads
  let s := s.failIf (lingering != 0)
    (Text.decimal lingering ++ " joined thread(s) still registered")
  let s := { s with threads := UInt64.ofNat threads.length }
  Performance.turn k
  let known := (← get).group.registry.length
  Performance.emit k .info "threads_joined" fun e =>
    { e with
      stream := some .scenario
      threadCount := some s.threads
      details := some (.object [("registry_len", count known)]) }
  pure s

/-- Runs the scenario. -/
def run (c : Spawn) (k : Kernel) : Performance Summary := do
  let (results, s) ← c.park k
  let threads := created results
  let s ← Performance.onFailure (checkParked k threads s) (openGate k)
  openGate k
  let answers ← Performance.joinAll k (threads.map (·.handle))
  let s ← checkJoined k threads (judgeJoins (threads.zip answers) s)
  Performance.close k s
  pure s

end Spawn
end Threading.Scenario
