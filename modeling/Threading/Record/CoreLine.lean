import Threading.Record.Entry
import Threading.Text.Split

/-!
# Reading diagnostic lines

A diagnostic line is split at the first `": "` into a head and a message, the
head at its first slash into a letter and the rest, and the rest, which must end
in a closing parenthesis, at its last opening one into a tag and a thread id.
-/
namespace Threading.Record

/-- A diagnostic line, taken apart. -/
structure CoreLine where
  level : Level
  tag : String
  tid : Tid
  message : String
  deriving DecidableEq, Repr

/-- The level that a line's letter stands for. -/
def Level.ofLetter? : List Char → Option Level
  | ['D'] => some .debug
  | ['I'] => some .info
  | ['W'] => some .warn
  | ['E'] => some .error
  | _ => none

/-- A thread id: a decimal numeral of 32 signed bits. -/
def tidOfChars? (cs : List Char) : Option Tid :=
  (Text.integer? 0x8000_0000 cs).map Int32.ofInt

namespace CoreLine

def ofText? (line : String) : Option CoreLine := do
  let (head, message) ← Text.splitFirst? [':', ' '] line.toList
  let (letter, rest) ← Text.splitFirst? ['/'] head
  let level ← Level.ofLetter? letter
  if rest.getLast? = some ')' then
    let (tag, tid) ← Text.splitLast? '(' rest.dropLast
    let tid ← tidOfChars? tid
    some ⟨level, String.ofList tag, tid, String.ofList message⟩
  else none

/-- The record of a diagnostic line; it gets its trace id when it is emitted. -/
def toEntry (l : CoreLine) (timestamp : String) : Entry where
  timestamp
  traceId := ""
  level := l.level
  event := "core_log"
  stream := some .core
  tid := some l.tid
  details := some (.object [("message", .string l.message), ("tag", .string l.tag)])

end CoreLine
end Threading.Record
