import Threading.CommandLine.Clock
import Threading.CommandLine.Run
import Threading.CommandLine.Usage

/-!
# The command line program

Reads the command line, the environment and the files a command needs, runs it and
writes what it leaves behind.
-/
namespace Threading.CommandLine

/-- The failure that a failed access to a file amounts to. -/
def FileError.ofIOError : IO.Error → FileError
  | .noFileOrDirectory .. => .notFound
  | _ => .other

/-- The content of a file. -/
def readText (path : String) : IO (Except FileError String) := do
  try
    match String.fromUTF8? (← IO.FS.readBinFile path) with
    | some text => pure (.ok text)
    | none => pure (.error .invalidData)
  catch e => pure (.error (.ofIOError e))

/-- Creates an empty file; the result says why that failed. -/
def createFile (path : String) : IO (Option FileError) := do
  try
    IO.FS.writeFile path ""
    pure none
  catch e => pure (some (.ofIOError e))

/-- The time stamp of now, or of the epoch if there is no clock. -/
def timeStamp : IO String := do
  let read (path : String) : IO String := do
    pure (match ← readText path with
      | .ok text => text
      | .error _ => "")
  let now := (instant? (← read "/proc/stat") (← read "/proc/uptime")).getD ⟨0, 0⟩
  pure now.text

/-- The id of this process. -/
def processId : IO Tid := do
  match ← readText "/proc/self/stat" with
  | .error _ => pure 1
  | .ok text =>
    let first := (Text.fields text.toList).head?.getD []
    pure (Int32.ofNat ((Text.digits? 10 first).getD 1))

/-- The values of the variables that settings are read from. -/
def readEnvironment : IO Settings.Environment := do
  pure
    { level := ← IO.getEnv Settings.Environment.levelVariable
      policy := ← IO.getEnv Settings.Environment.policyVariable
      priority := ← IO.getEnv Settings.Environment.priorityVariable }

/-- The files a command reads and creates. -/
def Command.input? : Command → Option String
  | .validateLog path => some path
  | _ => none

def Command.output? : Command → Option String
  | .spawn _ output _ => output
  | .lockOrder _ output _ => output
  | .validateLog _ => none

/-- Carries a command out. -/
def execute (command : Command) : IO UInt32 := do
  let content ← match command.input? with
    | none => pure (.error .notFound)
    | some path => readText path
  let failure ← match command.output? with
    | none => pure none
    | some path => createFile path
  let ending := command.run
    { environment := ← readEnvironment
      now := ← timeStamp
      pid := ← processId
      read := fun _ => content
      createFailure := fun _ => failure }
  for message in ending.messages do
    IO.eprintln message
  match ending.output with
  | none => IO.print ending.records
  | some path => IO.FS.writeFile path ending.records
  pure ending.code

end Threading.CommandLine

open Threading.CommandLine in
/-- The program. -/
def main (arguments : List String) : IO UInt32 := do
  match Command.ofArguments arguments with
  | .ok command => execute command
  | .error stop =>
    match stop with
    | .help => IO.print usage
    | .usage => IO.eprint usage
    pure (Ending.ofStop stop).code
