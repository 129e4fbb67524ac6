import Threading.CommandLine.Command
import Threading.Record.Schema
import Threading.Settings.Cache

/-!
# Running commands

A command is run against its surroundings: the environment variables, the files it
reads and the files it may create. What it leaves behind is an exit code, lines for
the user and the records of the run.
-/
namespace Threading.CommandLine

/-- Why a file cannot be used. -/
inductive FileError where
  | notFound
  /-- The content is no valid text. -/
  | invalidData
  | other
  deriving DecidableEq, Repr

/-- The kind of the failure. -/
def FileError.name : FileError → String
  | notFound => "NotFound"
  | invalidData => "InvalidData"
  | other => "Other"

structure Surroundings where
  environment : Settings.Environment
  /-- The time stamp of the run. -/
  now : String
  pid : Tid
  /-- The content of a file. -/
  read : String → Except FileError String
  /-- Why a file cannot be created, if so. -/
  createFailure : String → Option FileError

/-- What a command leaves behind. -/
structure Ending where
  code : UInt32 := 0
  /-- Lines for the user. -/
  messages : List String := []
  /-- The text of all records. -/
  records : String := ""
  /-- The file that gets the records; it is created even if there are none. -/
  output : Option String := none
  deriving DecidableEq, Repr

namespace Ending

/-- An ending in an error. -/
def failed (description : String) (e : Ending) : Ending :=
  { e with code := 1, messages := e.messages ++ ["Error: " ++ description] }

/-- The ending of a line that is not carried out. -/
def ofStop : Stop → Ending
  | .help => {}
  | .usage => { code := 2 }

end Ending

variable (s : Surroundings)

/-- The process a command runs in: the initial thread is not registered, and the
observer has announced nothing. -/
def freshGroup : ThreadGroup := { pid := s.pid, settings := .ofEnvironment s.environment }

/-- Runs a scenario with a log of its own. `verdict` is the line about its summary. -/
def runScenario (scenario : String) (output : Option String) (runId : String)
    (run : Scenario.Kernel → Scenario.Performance Scenario.Summary)
    (verdict : Scenario.Summary → String) : Ending :=
  match output.bind s.createFailure with
  | some e => Ending.failed e.name {}
  | none =>
    let stage : Scenario.Stage := { group := freshGroup s, emitter := { scenario, runId } }
    let (result, stage) := (run (.plain s.now s.pid)).run.run stage
    let ending : Ending :=
      { messages := stage.group.lines.toList.map (·.text)
        records := stage.emitter.written
        output }
    match result with
    | .error e => ending.failed e.message
    | .ok summary =>
      let ending := { ending with messages := ending.messages ++ [verdict summary] }
      match summary.toResult with
      | .error e => ending.failed e.message
      | .ok _ => ending

def spawnVerdict (summary : Scenario.Summary) : String :=
  "spawn: " ++ summary.outcome.label ++ " (" ++ Text.decimal summary.threads.toNat ++ " threads)"

def lockOrderVerdict (summary : Scenario.Summary) : String :=
  "lock-order: " ++ summary.outcome.label ++ " (" ++
    Text.decimal summary.predictedDeadlocks.toNat ++ " predicted deadlock(s))"

/-- Checks a log and lists its faults. -/
def checkLog (path : String) : Ending :=
  match s.read path with
  | .error e => Ending.failed e.name {}
  | .ok content =>
    let check := Record.checkText content
    if check.faults.isEmpty then
      { messages := [path ++ ": " ++ Text.decimal check.checked ++ " valid record(s)"] }
    else
      Ending.failed
        (Scenario.Failure.invalidLog path check.checked check.faults.length).message
        { messages := check.faults.map fun (line, fault) => fault.display line }

/-- Runs a command. -/
def Command.run : Command → Ending
  | .spawn config output runId => runScenario s "spawn" output runId config.run spawnVerdict
  | .lockOrder config output runId =>
    runScenario s "lock-order" output runId config.run lockOrderVerdict
  | .validateLog path => checkLog s path

/-- Runs a command line. -/
def run (arguments : List String) : Ending :=
  match Command.ofArguments arguments with
  | .error stop => .ofStop stop
  | .ok command => command.run s

end Threading.CommandLine
