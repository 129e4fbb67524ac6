import Threading.CommandLine.Options
import Threading.Scenario.Inversion
import Threading.Scenario.Spawn

/-!
# Commands

The first argument names a command, and the others are its options. Options that
are not given have the values the scenarios have by default.
-/
namespace Threading.CommandLine

inductive Command where
  | spawn (config : Scenario.Spawn) (output : Option String) (runId : String)
  | lockOrder (config : Scenario.Inversion) (output : Option String) (runId : String)
  | validateLog (path : String)
  deriving Repr

namespace Command

/-- The run id when none is given. -/
def defaultRunId : String := "run"

/-- The options of every scenario. -/
def scenarioParameters : List Parameter := [⟨"output", .path⟩, ⟨"run-id", .text⟩]

def spawnParameters : List Parameter :=
  [⟨"creators", .number⟩, ⟨"threads", .number⟩, ⟨"stack-kib", .number⟩] ++ scenarioParameters

def lockOrderParameters : List Parameter :=
  [⟨"workers", .number⟩, ⟨"iterations", .number⟩, ⟨"no-inversion", .switch⟩,
    ⟨"capture-stacks", .switch⟩] ++ scenarioParameters

def validateParameters : List Parameter := [⟨"log", .path⟩]

def runIdOf (found : Found) : String := (found.text? "run-id").getD defaultRunId

/-- A number of kibibytes in bytes, as a word. -/
def kibibytes (n : Nat) : UInt64 := UInt64.ofNat n * 1024

def spawnOf (found : Found) : Command :=
  let usual : Scenario.Spawn := {}
  .spawn
    { creators := (found.number? "creators").getD usual.creators
      threadsPerCreator := (found.number? "threads").getD usual.threadsPerCreator
      stackSize := (found.number? "stack-kib").map kibibytes }
    (found.text? "output") (runIdOf found)

def lockOrderOf (found : Found) : Command :=
  let usual : Scenario.Inversion := {}
  .lockOrder
    { workers := (found.number? "workers").getD usual.workers
      iterations := (found.number? "iterations").getD usual.iterations
      inversion := !found.isOn "no-inversion"
      captureStacks := found.isOn "capture-stacks" }
    (found.text? "output") (runIdOf found)

def validateOf (found : Found) : Except Stop Command :=
  match found.text? "log" with
  | none => .error .usage
  | some path => .ok (.validateLog path)

/-- The names that help can be asked on. -/
def names : List String := ["spawn", "lock-order", "validate-log", helpName]

/-- Reads a command line. -/
def ofArguments : List String → Except Stop Command
  | [] => .error .usage
  | first :: rest =>
    if first = "spawn" then (readOptions spawnParameters [] none rest).map spawnOf
    else if first = "lock-order" then
      (readOptions lockOrderParameters [] none rest).map lockOrderOf
    else if first = "validate-log" then
      (readOptions validateParameters [] none rest).bind validateOf
    else if first = helpName then
      match rest with
      | [] => .error .help
      | [name] => .error (if name ∈ names then .help else .usage)
      | _ => .error .usage
    else
      match Argument.ofText first with
      | .short letters => .error (stopAtShort letters)
      | .long name value => .error (stopAtLong name value)
      | _ => .error .usage

end Command
end Threading.CommandLine
