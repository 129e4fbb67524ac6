import Threading.Record.CoreLine

/-!
# Emitting records

An emitter writes the records of one scenario run. It hands out trace ids with
ascending numbers; a number that has been drawn is not used again, whether or not
the record it was drawn for could be written. A record reaches the log as a whole
line or not at all.
-/
namespace Threading.Record

/-- Why a record was not written. -/
inductive WriteError where
  /-- The log cannot be written. -/
  | refused
  deriving DecidableEq, Repr

structure Emitter where
  scenario : String
  runId : String
  /-- How many trace ids have been handed out: a natural number, since no run exhausts a
  word. -/
  drawn : Nat := 0
  /-- Whether the log refuses to be written. -/
  failing : Bool := false
  /-- The text of the log. -/
  written : String := ""
  deriving DecidableEq, Repr

namespace Emitter

/-- The trace id with a number of at least three digits. -/
def traceId (e : Emitter) (n : Nat) : String :=
  e.scenario ++ "::" ++ e.runId ++ "::" ++ Text.paddedDecimal 3 n

/-- Hands out the next trace id. -/
def draw (e : Emitter) : String × Emitter :=
  (e.traceId (e.drawn + 1), { e with drawn := e.drawn + 1 })

/-- Writes a record as one line. -/
def write (e : Emitter) (entry : Entry) : Except WriteError Unit × Emitter :=
  if e.failing then (.error .refused, e)
  else (.ok (), { e with written := e.written ++ entry.text ++ "\n" })

/-- A fresh record with the next trace id. -/
def entry (e : Emitter) (now : String) (level : Level) (event : String) : Entry × Emitter :=
  let (traceId, e) := e.draw
  ({ timestamp := now, traceId, level, event, scenario := some e.scenario }, e)

/-- Emits a record that says no more than what happened. -/
def emit (e : Emitter) (now : String) (level : Level) (event : String) :
    Except WriteError Entry × Emitter :=
  let (entry, e) := e.entry now level event
  let (result, e) := e.write entry
  (result.map fun _ => entry, e)

/-- Fills in what a given record lacks: a record without trace id draws one, and one
without scenario gets the emitter's. -/
def complete (e : Emitter) (entry : Entry) : Entry × Emitter :=
  let (entry, e) :=
    if entry.traceId.isEmpty then
      let (traceId, e) := e.draw
      ({ entry with traceId }, e)
    else (entry, e)
  let scenario := if entry.scenario.isNone then some e.scenario else entry.scenario
  ({ entry with scenario }, e)

/-- Emits a given record. -/
def emitEntry (e : Emitter) (entry : Entry) : Except WriteError Unit × Emitter :=
  let (entry, e) := e.complete entry
  e.write entry

/-- Pushes written records through. -/
def flush (e : Emitter) : Except WriteError Unit :=
  if e.failing then .error .refused else .ok ()

/-- Emits `count` bare records; the result is that of the last one. -/
def emitMany (now : String) (level : Level) (event : String) :
    (count : Nat) → Emitter → Option (Except WriteError Entry) × Emitter
  | 0, e => (none, e)
  | n + 1, e =>
    let (result, e) := e.emit now level event
    match emitMany now level event n e with
    | (none, e) => (some result, e)
    | (later, e) => (later, e)

end Emitter
end Threading.Record
