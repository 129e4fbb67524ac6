import Threading.Record.Schema

/-!
# Comparing logs

Two runs of a scenario write the same records except for times, ids and addresses.
The comparable form of a log leaves these out: time stamps are dropped, times and
thread ids say no more than that they are there, and mutexes are numbered in the
order they appear. Diagnostic lines come in no fixed number, so from the first of
their records on trace ids are dropped too.
-/
namespace Threading.Record.Comparable

/-- The fields whose values differ between runs. -/
def varying : List String :=
  ["tid", "duration_ms", "latency_ns", "create_latency_max_ns", "report_lines"]

/-- What such a value becomes. -/
def anything : Json := .string "ANY"

/-- A message with the mutex it names numbered. `seen` are the mutexes before. -/
def numberMutex (seen : List String) (message : String) : String × List String :=
  match Text.strip? "--- mutex at ".toList message.toList with
  | none => (message, seen)
  | some address =>
    let address := String.ofList address
    let seen := if address ∈ seen then seen else seen ++ [address]
    ("--- mutex at M" ++ Text.decimal (seen.idxOf address), seen)

/-- The fields of the details of a record. `mask` is applied to messages. -/
def details (mask : String → String) (seen : List String) :
    List (String × Json) → List (String × Json) × List String
  | [] => ([], seen)
  | (key, value) :: rest =>
    let (value, seen) := match key, value with
      | "message", .string message =>
        let (message, seen) := numberMutex seen (mask message)
        (.string message, seen)
      | key, value => (if key ∈ varying then anything else value, seen)
    let (rest, seen) := details mask seen rest
    ((key, value) :: rest, seen)

/-- A field of a record. -/
def field (mask : String → String) (seen : List String) :
    String × Json → (String × Json) × List String
  | ("details", .object fields) =>
    let (fields, seen) := details mask seen fields
    (("details", .object fields), seen)
  | (key, value) => ((key, if key ∈ varying then anything else value), seen)

/-- The fields of a record. -/
def fieldsOf (mask : String → String) (seen : List String) :
    List (String × Json) → List (String × Json) × List String
  | [] => ([], seen)
  | f :: rest =>
    let (f, seen) := field mask seen f
    let (rest, seen) := fieldsOf mask seen rest
    (f :: rest, seen)

/-- Whether a field is left out. `core` says that diagnostic lines have come up. -/
def isDropped (core : Bool) (key : String) : Bool :=
  key == "timestamp" || (core && key == "trace_id")

/-- The comparable form of a list of lines, each with its number. A line that is no
record is left to `faulty`. -/
def records (mask : String → String) (faulty : Nat → List Violation → Json)
    (core : Bool) (seen : List String) : List (String × Nat) → List Json
  | [] => []
  | (line, n) :: rest =>
    match checkLine line, Json.ofText? line with
    | .ok e, some (.object fields) =>
      let core := core || e.stream == some .core
      let (fields, seen) := fieldsOf mask seen (fields.filter fun f => !isDropped core f.1)
      .object fields :: records mask faulty core seen rest
    | .error found, _ => faulty n found :: records mask faulty core seen rest
    | _, _ => records mask faulty core seen rest

/-- The comparable form of a log. -/
def ofText (mask : String → String) (faulty : Nat → List Violation → Json) (text : String) :
    List Json :=
  records mask faulty false [] (((splitLines text.toList).map String.ofList).zipIdx 1)

end Threading.Record.Comparable
