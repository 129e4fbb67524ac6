import Threading.Error
import Threading.Record.Entry

/-!
# Summaries of scenario runs

A run that comes to its end is summed up: it passed, or it lists what was wrong.
Anything else than having passed counts as a failure of the run.
-/
namespace Threading.Scenario

/-- Why a run has no summary, or why its summary is not accepted. -/
inductive Failure where
  /-- A record could not be written. -/
  | notWritten
  | thread (e : Error)
  /-- The run ended without having passed. -/
  | notPassed (scenario reason : String)
  | invalidLog (path : String) (lines errors : Nat)
  /-- A call never returned, and so did the run. -/
  | endless
  deriving DecidableEq, Repr

/-- The kind of a failure. -/
def Failure.name : Failure → String
  | notWritten => "Io"
  | thread _ => "Thread"
  | notPassed .. => "ScenarioFailed"
  | invalidLog .. => "InvalidLog"
  | endless => "Endless"

/-- The text of a failure. -/
def Failure.message : Failure → String
  | notWritten => "i/o error: the log cannot be written"
  | thread e => "thread runtime error: " ++ e.message
  | notPassed scenario reason => "scenario '" ++ scenario ++ "' failed: " ++ reason
  | invalidLog path lines errors =>
    path ++ ": " ++ Text.decimal errors ++ " invalid record(s) out of " ++ Text.decimal lines
  | endless => "the scenario does not end"

structure Summary where
  scenario : String
  outcome : Record.Outcome := .pass
  threads : UInt64 := 0
  predictedDeadlocks : UInt64 := 0
  failures : List String := []
  deriving DecidableEq, Repr

namespace Summary

/-- Notes something that is wrong. -/
def fail (s : Summary) (reason : String) : Summary :=
  { s with outcome := .fail, failures := s.failures ++ [reason] }

/-- Notes something wrong if there is any. -/
def failIf (s : Summary) (wrong : Bool) (reason : String) : Summary :=
  if wrong then s.fail reason else s

/-- Accepts a summary only if the run passed. -/
def toResult (s : Summary) : Except Failure Summary :=
  if s.outcome = .pass then .ok s
  else .error (.notPassed s.scenario (String.intercalate "; " s.failures))

end Summary
end Threading.Scenario
