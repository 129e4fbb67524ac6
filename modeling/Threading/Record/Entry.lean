import Threading.Json.Basic
import Threading.Json.Writer
import Threading.Log.Line
import Threading.Text.Names

/-!
# Log records

A record is one line of a structured log: a JSON object whose first four fields
are always present and whose other fields are left out when there is nothing to
say. Fields come in a fixed order.
-/
namespace Threading.Record

/-- The severity of a record. -/
inductive Level where
  | trace
  | debug
  | info
  | warn
  | error
  | fatal
  deriving DecidableEq, Repr

/-- How a scenario or a check ended. -/
inductive Outcome where
  | pass
  | fail
  | skip
  | error
  | timeout
  deriving DecidableEq, Repr

/-- Where a record comes from. -/
inductive Stream where
  /-- The scenario itself. -/
  | scenario
  /-- A diagnostic line of the runtime. -/
  | core
  /-- A measurement. -/
  | perf
  deriving DecidableEq, Repr

namespace Level

def name : Level → String
  | trace => "trace"
  | debug => "debug"
  | info => "info"
  | warn => "warn"
  | error => "error"
  | fatal => "fatal"

def all : List Level := [trace, debug, info, warn, error, fatal]

instance : Named Level := ⟨name, all⟩

def ofPriority : LogPriority → Level
  | .debug => debug
  | .info => info
  | .warn => warn
  | .error => error

end Level

namespace Outcome

def name : Outcome → String
  | pass => "pass"
  | fail => "fail"
  | skip => "skip"
  | error => "error"
  | timeout => "timeout"

/-- The name that is shown to a user. -/
def label : Outcome → String
  | pass => "Pass"
  | fail => "Fail"
  | skip => "Skip"
  | error => "Error"
  | timeout => "Timeout"

def all : List Outcome := [pass, fail, skip, error, timeout]

instance : Named Outcome := ⟨name, all⟩

end Outcome

namespace Stream

def name : Stream → String
  | scenario => "scenario"
  | core => "core"
  | perf => "perf"

def all : List Stream := [scenario, core, perf]

instance : Named Stream := ⟨name, all⟩

end Stream

structure Entry where
  timestamp : String
  traceId : String
  level : Level
  event : String
  scenario : Option String := none
  stream : Option Stream := none
  /-- The thread the record is about. -/
  tid : Option Tid := none
  threadCount : Option UInt64 := none
  predictedDeadlocks : Option UInt64 := none
  outcome : Option Outcome := none
  errno : Option Int32 := none
  latencyNs : Option UInt64 := none
  durationMs : Option UInt64 := none
  details : Option Json := none
  deriving Repr

namespace Entry

/-- A field that is left out when it has no value. -/
def optional {α : Type} (key : String) (toJson : α → Json) (value : Option α) :
    List (String × Json) :=
  (value.map fun v => (key, toJson v)).toList

def word (n : UInt64) : Json := .int n.toNat

def signed (n : Int32) : Json := .int n.toInt

/-- The fields of a record in their order. -/
def fields (e : Entry) : List (String × Json) :=
  [("timestamp", .string e.timestamp), ("trace_id", .string e.traceId),
    ("level", .string e.level.name), ("event", .string e.event)] ++
  optional "scenario" .string e.scenario ++
  optional "stream" (fun s => .string s.name) e.stream ++
  optional "tid" signed e.tid ++
  optional "thread_count" word e.threadCount ++
  optional "predicted_deadlocks" word e.predictedDeadlocks ++
  optional "outcome" (fun o => .string o.name) e.outcome ++
  optional "errno" signed e.errno ++
  optional "latency_ns" word e.latencyNs ++
  optional "duration_ms" word e.durationMs ++
  optional "details" id e.details

/-- A record as one line, without a newline. -/
def text (e : Entry) : String := (Json.object e.fields).text

end Entry
end Threading.Record
