import Threading.Json.Reader
import Threading.Record.Entry
import Threading.Text.Blank
import Threading.Text.Split

/-!
# Checking records

A line is checked in three stages: it must be a JSON object, its fields must obey
the rules of the log, and every field must have the type of its place in a
record. The first stage that finds fault ends the check; within the second one
all faults are reported. The rules look only at values of the type they expect;
a value of another type is left to the last stage, which also takes an object
with one name as its only key for that name.
-/
namespace Threading.Record

/-- A fault of a line. -/
inductive Violation where
  | notJson
  | notObject
  | missing (field : String)
  /-- A word that is none of those the field allows. -/
  | unknownWord (field word : String)
  /-- A diagnostic line that does not say which thread logged it. -/
  | coreWithoutTid
  | errnoNotPositive (errno : Int)
  /-- A trace id that has not exactly three parts. -/
  | malformedTraceId (traceId : String)
  /-- Some field has the wrong type. -/
  | undecodable
  deriving DecidableEq, Repr

namespace Violation

/-- The field a fault is reported on. -/
def field : Violation → String
  | notJson => "<json>"
  | notObject => "<root>"
  | missing field => field
  | unknownWord field _ => field
  | coreWithoutTid => "tid"
  | errnoNotPositive _ => "errno"
  | malformedTraceId _ => "trace_id"
  | undecodable => "<deserialization>"

def message : Violation → String
  | notJson => "invalid JSON"
  | notObject => "expected JSON object"
  | missing _ => "required field missing"
  | unknownWord field word => "invalid " ++ field ++ ": '" ++ word ++ "'"
  | coreWithoutTid => "core records must carry the logging tid"
  | errnoNotPositive errno => "errno must be positive, got " ++ Text.signedDecimal errno
  | malformedTraceId traceId => "expected <scenario>::<run_id>::<seq>, got '" ++ traceId ++ "'"
  | undecodable => "failed to deserialize"

/-- The fault as it is shown for a line. -/
def display (v : Violation) (line : Nat) : String :=
  "line " ++ Text.decimal line ++ ": field '" ++ v.field ++ "': " ++ v.message

end Violation

/-! ## Rules -/

/-- The parts of a trace id. -/
def traceParts (traceId : String) : List (List Char) :=
  Text.splitPairs ':' ':' traceId.toList

/-- A trace id has three parts. -/
def IsTraceId (traceId : String) : Prop := (traceParts traceId).length = 3

instance (traceId : String) : Decidable (IsTraceId traceId) :=
  inferInstanceAs (Decidable (_ = _))

/-- What every checked record has beyond the types of its fields. -/
structure Entry.Conforms (e : Entry) : Prop where
  traceId : IsTraceId e.traceId
  errno : ∀ n ∈ e.errno, 0 < n
  tid : e.stream = some .core → e.tid.isSome

variable (fields : List (String × Json))

def missingFields : List Violation :=
  (["timestamp", "trace_id", "level", "event"].filter
    fun key => (Json.lookup? fields key).isNone).map .missing

/-- The fault of a string that is none of the allowed words. -/
def unknownWords (field : String) (allowed : List String) : List Violation :=
  match (Json.lookup? fields field).bind Json.asString? with
  | none => []
  | some word => if word ∈ allowed then [] else [.unknownWord field word]

def coreTidViolations : List Violation :=
  if (Json.lookup? fields "stream").bind Json.asString? = some "core" ∧
      ((Json.lookup? fields "tid").bind Json.asSigned?).isNone then [.coreWithoutTid]
  else []

def errnoViolations : List Violation :=
  match (Json.lookup? fields "errno").bind Json.asSigned? with
  | none => []
  | some n => if n ≤ 0 then [.errnoNotPositive n] else []

def traceIdViolations : List Violation :=
  match (Json.lookup? fields "trace_id").bind Json.asString? with
  | none => []
  | some id => if IsTraceId id then [] else [.malformedTraceId id]

/-- All faults that the rules find, in the order of the rules. -/
def violations : List Violation :=
  missingFields fields ++
  unknownWords fields "level" (Level.all.map (·.name)) ++
  unknownWords fields "outcome" (Outcome.all.map (·.name)) ++
  unknownWords fields "stream" (Stream.all.map (·.name)) ++
  coreTidViolations fields ++ errnoViolations fields ++ traceIdViolations fields

/-! ## Types -/

/-- A name, bare or as the only key of an object whose value is null. -/
def decodeName? {α : Type} [Named α] : Json → Option α
  | .string word => named? word
  | .object [(word, .null)] => named? word
  | _ => none

def decodeTid? : Json → Option Int32
  | .int n => if -0x8000_0000 ≤ n ∧ n < 0x8000_0000 then some (Int32.ofInt n) else none
  | _ => none

def decodeWord? : Json → Option UInt64
  | .int n => if 0 ≤ n ∧ n < UInt64.size then some (UInt64.ofNat n.toNat) else none
  | _ => none

/-- The value of a field that may be absent; null counts as absent. The outer
option is none if a value is there but has the wrong type. -/
def decodeOptional? {α : Type} (decode? : Json → Option α) (key : String) : Option (Option α) :=
  match Json.lookup? fields key with
  | none => some none
  | some .null => some none
  | some v => (decode? v).map some

/-- The value of a field that must be there. -/
def decodeRequired? {α : Type} (decode? : Json → Option α) (key : String) : Option α :=
  (Json.lookup? fields key).bind decode?

/-- The record that an object's fields make up; other fields are ignored. -/
def Entry.ofFields? : Option Entry := do
  let timestamp ← decodeRequired? fields Json.asString? "timestamp"
  let traceId ← decodeRequired? fields Json.asString? "trace_id"
  let level ← decodeRequired? fields decodeName? "level"
  let event ← decodeRequired? fields Json.asString? "event"
  let scenario ← decodeOptional? fields Json.asString? "scenario"
  let stream ← decodeOptional? fields decodeName? "stream"
  let tid ← decodeOptional? fields decodeTid? "tid"
  let threadCount ← decodeOptional? fields decodeWord? "thread_count"
  let predictedDeadlocks ← decodeOptional? fields decodeWord? "predicted_deadlocks"
  let outcome ← decodeOptional? fields decodeName? "outcome"
  let errno ← decodeOptional? fields decodeTid? "errno"
  let latencyNs ← decodeOptional? fields decodeWord? "latency_ns"
  let durationMs ← decodeOptional? fields decodeWord? "duration_ms"
  let details ← decodeOptional? fields some "details"
  some
    { timestamp, traceId, level, event, scenario, stream, tid, threadCount, predictedDeadlocks,
      outcome, errno, latencyNs, durationMs, details }

/-! ## Lines and files -/

/-- Checks and decodes the fields of an object. -/
def checkFields : Except (List Violation) Entry :=
  match violations fields with
  | [] =>
    match Entry.ofFields? fields with
    | none => .error [.undecodable]
    | some e => .ok e
  | found => .error found

/-- Checks and decodes one line. -/
def checkLine (line : String) : Except (List Violation) Entry :=
  match Json.ofText? line with
  | none => .error [.notJson]
  | some (.object fields) => checkFields fields
  | some _ => .error [.notObject]

/-- Checks and decodes the line with the number `n`, which is put to its faults. -/
def checkNumbered (n : Nat) (line : String) : Except (List (Nat × Violation)) Entry :=
  (checkLine line).mapError fun found => found.map (n, ·)

/-- The lines of a text. A carriage return right before a newline belongs to it, and a
newline at the end of the text begins no further line. -/
def splitLines : List Char → List (List Char)
  | [] => []
  | '\n' :: cs => [] :: splitLines cs
  | '\r' :: '\n' :: cs => [] :: splitLines cs
  | c :: cs =>
    match splitLines cs with
    | [] => [[c]]
    | line :: lines => (c :: line) :: lines

/-- What the check of a file found: the number of records and the faults with
their line numbers. -/
structure FileCheck where
  checked : Nat := 0
  faults : List (Nat × Violation) := []
  deriving DecidableEq, Repr

/-- Checks every line of a text that is not blank. Lines are numbered from 1,
blank ones included. -/
def checkText (content : String) : FileCheck :=
  let lines := (splitLines content.toList).zipIdx 1
  let records := (lines.map fun (line, n) => (Text.trimBlank line, n)).filter (!·.1.isEmpty)
  { checked := records.length
    faults := records.flatMap fun (line, n) =>
      match checkNumbered n (String.ofList line) with
      | .ok _ => []
      | .error found => found }

end Threading.Record
