import Threading.Settings
import Threading.Text.Numeral

/-!
# Diagnostic lines

A line reads `<letter>/<tag>(<tid>): <message>` and is assembled in a buffer of
fixed capacity, piece by piece. A piece that does not fit is cut at the last
character boundary that does; a later, shorter piece may still fit. One byte
beyond the capacity is kept for a newline.
-/
namespace Threading

/-- A kernel thread id; 0 stands for no thread. -/
abbrev Tid := Int32

namespace Log

/-- The longest line in bytes, without its newline. -/
def lineCapacity : Nat := 1023

/-- The size of the array that a line is put together in. -/
def arraySize : Nat := lineCapacity + 1

/-- The last place at or before byte `i` at which a text can be cut between two characters. -/
def lastCut (s : String) : (i : Nat) → Nat
  | 0 => 0
  | i + 1 => if (String.Pos.Raw.mk (i + 1)).isValid s then i + 1 else lastCut s i

/-- A line under construction: the bytes of the array that are in use. -/
structure LineBuffer where
  bytes : ByteArray := .empty
  deriving Inhabited

namespace LineBuffer

/-- The bytes used so far. -/
def length (b : LineBuffer) : Nat := b.bytes.size

/-- The text so far; bytes that are not the UTF-8 form of a text read as the empty one. -/
def text (b : LineBuffer) : String := (String.fromUTF8? b.bytes).getD ""

/-- Appends what fits of a piece. Nothing comes of it if more than a line is in use already, or if
bytes beyond the end of the piece or of the array would be copied. -/
def write? (b : LineBuffer) (piece : String) : Option LineBuffer :=
  let kept := lastCut piece (min piece.utf8ByteSize (lineCapacity - b.length))
  if b.length ≤ lineCapacity ∧ kept ≤ piece.utf8ByteSize ∧ b.length + kept ≤ arraySize then
    some ⟨b.bytes ++ piece.toByteArray.extract 0 kept⟩
  else none

/-- Appends several pieces, each cut on its own. -/
def writeAll? (b : LineBuffer) (pieces : List String) : Option LineBuffer :=
  pieces.foldlM write? b

/-- The bytes of the line and a newline, for which one byte of the array must be left. -/
def terminated? (b : LineBuffer) : Option ByteArray :=
  if b.length < arraySize then some (b.bytes.push '\n'.toUInt8) else none

end LineBuffer

/-- A line before it is put together. -/
structure Line where
  priority : LogPriority
  tag : String
  /-- The thread that logs. -/
  tid : Tid
  message : String
  deriving DecidableEq, Repr

/-- The pieces in the order they are written. -/
def Line.pieces (l : Line) : List String :=
  let digits := Text.decimal l.tid.toInt.natAbs
  let tid := if l.tid < 0 then ["-", digits] else [digits]
  [String.singleton l.priority.letter, "/", l.tag, "("] ++ tid ++ ["): ", l.message]

/-- The line as it is delivered. -/
def Line.text (l : Line) : String :=
  ((({} : LineBuffer).writeAll? l.pieces).map (·.text)).getD ""

/-- The lines that reach the sink: those whose priority passes the minimum. -/
def delivered (least : LogPriority) (lines : List Line) : List Line :=
  lines.filter fun l => least.passes l.priority

end Log
end Threading
