import Threading.Scenario.Stage

/-!
# The lock-order scenario

Worker threads take two locks in one order, again and again. Then the locks are
taken once in the opposite order, and the observer must predict exactly that
deadlock and log a report on it.
-/
namespace Threading.Scenario

structure Inversion where
  workers : Nat := 4
  /-- How often each worker takes the locks. -/
  iterations : Nat := 1000
  /-- Whether the opposite order is tried. -/
  inversion : Bool := true
  captureStacks : Bool := false
  deriving DecidableEq, Repr

namespace Inversion

def level (c : Inversion) : LockDebugLevel :=
  if c.captureStacks then .captureCallStacks else .enabled

/-! ## The established order -/

/-- A request for a worker, which is at work if it gets created. -/
def ask (c : Inversion) (k : Kernel) (n : Nat) (stage : Stage) : Except Error UInt64 × Stage :=
  let launch := k.launch n stage.group
  let (result, group) := stage.group.create k.conductor (k.here stage.point) none launch
  let worker (i : BlockId) : Worker := { block := i, tid := launch.tid, rounds := c.iterations }
  (result.map group.handle,
    { stage with
      group
      crew := stage.crew ++ (result.toOption.map fun i => Player.worker (worker i)).toList })

/-- Asks for a worker at each position. The results keep their order. -/
def hire (c : Inversion) (k : Kernel) : List Nat → Performance (List (Except Error UInt64))
  | [] => pure []
  | n :: rest => do
    Performance.turn k
    let (handle, stage) := c.ask k n (← get)
    set stage
    return handle :: (← hire c k rest)

/-- The handles of the workers that were created. -/
def hired (results : List (Except Error UInt64)) : List UInt64 :=
  results.filterMap Except.toOption

/-- Notes the creations that failed. -/
def judgeHiring (results : List (Except Error UInt64)) (s : Summary) : Summary :=
  results.foldl (fun s result =>
    match result with
    | .ok _ => s
    | .error e => s.fail ("create_thread: " ++ e.message)) s

/-- Counts the workers that saw no failure. -/
def judgeWorkers (answers : List (Except Error UInt64)) (s : Summary) : Summary :=
  answers.foldl (fun s answer =>
    match answer with
    | .ok v =>
      if v = 0 then { s with threads := s.threads + 1 }
      else s.fail ("worker saw " ++ Text.decimal v.toNat ++ " lock failure(s)")
    | .error e => s.fail ("join: " ++ e.message)) s

/-! ## The opposite order -/

/-- Takes the locks in the opposite order, once. -/
def invert (k : Kernel) : Performance (Except Error Unit) := do
  match ← Performance.lock k k.locks.inner with
  | .error e => pure (.error e)
  | .ok () =>
    match ← Performance.lock k k.locks.outer with
    | .error e =>
      let last ← Performance.unlock k k.locks.inner
      pure (last.bind fun _ => .error e)
    | .ok () =>
      match ← Performance.unlock k k.locks.outer with
      | .error e => pure (.error e)
      | .ok () => Performance.unlock k k.locks.inner

/-- Collects what a part of a run logs instead of logging it. -/
def capturing {α : Type} (x : Performance α) : Performance (α × List Log.Line) := do
  let logged := (← get).group.lines
  Performance.modifyGroup ({ · with lines := #[] })
  let a ← x
  let captured := (← get).group.lines.toList
  Performance.modifyGroup ({ · with lines := logged })
  pure (a, captured)

/-- The observer's view of the process. -/
def graph (p : ThreadGroup) : LockOrder.Graph := p.locks.observer.graph

/-- Empties the observer and switches it to a level. -/
def startSession (level : LockDebugLevel) (p : ThreadGroup) : ThreadGroup :=
  { p with
    settings := { p.settings with level }
    locks := { p.locks with observer := { p.locks.observer with graph := .empty } } }

def endSession (p : ThreadGroup) : ThreadGroup :=
  { p with settings := { p.settings with level := .disabled } }

/-- Emits the records of several diagnostic lines. -/
def emitLines (k : Kernel) : List Log.Line → Performance Unit
  | [] => pure ()
  | line :: rest => do
    Performance.emitLine k line
    emitLines k rest

/-- The text that shows that a report was logged. -/
def reportMark : String := "Illegal lock attempt:"

/-- Whether one of the lines holds the mark of a report. -/
def hasReport (lines : List Log.Line) : Bool :=
  lines.any fun line => (Text.splitFirst? reportMark.toList line.text.toList).isSome

/-- Runs the opposite order and judges what the observer makes of it. -/
def runInversion (k : Kernel) (s : Summary) : Performance Summary := do
  let (inverted, lines) ← capturing (invert k)
  let s := match inverted with
    | .ok () => s
    | .error e => s.fail ("inverted locking failed: " ++ (Failure.thread e).message)
  emitLines k lines
  let g := graph (← get).group
  let predicted := g.stats.predicted
  let s := s.failIf (predicted != 1)
    ("expected one predicted deadlock, saw " ++ Text.decimal predicted)
  let s := s.failIf (!hasReport lines) "no report was logged for the inversion"
  let s := s.failIf (g.hasEdge k.locks.inner k.locks.outer) "cycle-closing edge was kept"
  Performance.emit k .warn "inversion" fun e =>
    { e with
      stream := some .scenario
      predictedDeadlocks := some (UInt64.ofNat predicted)
      details := some (.object [("report_lines", .int lines.length)]) }
  pure s

/-- The part of a run that is watched. -/
def perform (c : Inversion) (k : Kernel) : Performance Summary := do
  let results ← c.hire k (List.range c.workers)
  let answers ← Performance.joinAll k (hired results)
  let s := judgeWorkers answers (judgeHiring results { scenario := "lock-order" })
  let g := graph (← get).group
  let stats := g.stats
  let s := s.failIf (stats.predicted != 0)
    (Text.decimal stats.predicted ++ " false positive(s) under a consistent order")
  let s := s.failIf (0 < s.threads && !g.hasEdge k.locks.outer k.locks.inner)
    "established order was not recorded"
  Performance.emit k .info "consistent_order" fun e =>
    { e with
      stream := some .scenario
      threadCount := some s.threads
      predictedDeadlocks := some (UInt64.ofNat stats.predicted)
      durationMs := some 0
      details := some (.object
        [("edges", .int stats.edges), ("nodes", .int stats.nodes),
          ("threads_seen", .int stats.threads)]) }
  let s ← if c.inversion then runInversion k s else pure s
  pure { s with predictedDeadlocks := UInt64.ofNat (graph (← get).group).stats.predicted }

/-- Runs the scenario. -/
def run (c : Inversion) (k : Kernel) : Performance Summary := do
  Performance.emit k .info "scenario_start" fun e =>
    { e with
      stream := some .scenario
      threadCount := some (UInt64.ofNat c.workers)
      details := some (.object
        [("inversion", .bool c.inversion), ("iterations", .int c.iterations),
          ("level", .string c.level.name)]) }
  Performance.modifyGroup (startSession c.level)
  let s ← Performance.onFailure (c.perform k) (Performance.modifyGroup endSession)
  Performance.modifyGroup endSession
  Performance.close k s
  pure s

end Inversion
end Threading.Scenario
