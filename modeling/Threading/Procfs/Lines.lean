/-!
# Reading a file by lines through a small buffer

The bytes of a file arrive in portions of the kernel's choosing, never more than
the buffer has room for. Complete lines are delivered as soon as they are in the
buffer; a line that fills the buffer without ending is skipped up to its end. The
lines delivered are those shorter than the buffer, whatever the portions.
-/
namespace Threading.Procfs

/-- A byte string. -/
abbrev Bytes := List UInt8

/-- The size of the buffer. -/
def bufferSize : Nat := 4096

def newline : UInt8 := 10

/-- The complete lines of a byte string and the part after the last newline. -/
def takeLines : Bytes → List Bytes × Bytes
  | [] => ([], [])
  | b :: bs =>
    let (lines, rest) := takeLines bs
    if b = newline then ([] :: lines, rest)
    else
      match lines with
      | [] => ([], b :: rest)
      | line :: lines => ((b :: line) :: lines, rest)

/-- Whether to stop, given the number of lines delivered before and a line. -/
abbrev Stop := Nat → Bytes → Bool

structure LineReader where
  /-- The bytes of the line that has not ended yet. -/
  buffer : Bytes := []
  /-- Whether that line is too long. -/
  skipping : Bool := false
  /-- The lines delivered so far, last one first. -/
  delivered : List Bytes := []
  stopped : Bool := false
  deriving DecidableEq, Repr, Inhabited

namespace LineReader

variable (stop : Stop)

/-- Delivers a line, unless the reader has stopped. -/
def deliver (r : LineReader) (line : Bytes) : LineReader :=
  if r.stopped then r
  else
    { r with
      delivered := line :: r.delivered
      stopped := stop r.delivered.length line }

/-- The end of a line has been found. -/
def endLine (r : LineReader) (line : Bytes) : LineReader :=
  if r.skipping then { r with skipping := false } else r.deliver stop line

/-- Takes in what one read brought. -/
def feed (r : LineReader) (portion : Bytes) : LineReader :=
  let (lines, rest) := takeLines (r.buffer ++ portion)
  let r := lines.foldl (endLine stop) r
  if rest.length < bufferSize then { r with buffer := rest }
  else { r with buffer := [], skipping := true }

/-- The file has ended: what is left is a line too, unless it is empty. -/
def finish (r : LineReader) : LineReader :=
  if r.buffer.isEmpty || r.skipping then r else r.deliver stop r.buffer

end LineReader

/-- How the kernel answers a request to read. -/
inductive Read where
  | interrupted
  /-- As many bytes as asked for, but at most this many, and at least one. -/
  | atMost (n : Nat)
  deriving DecidableEq, Repr

/-- Reads a file to its end or until told to stop. Once the given answers are used
up, every read brings all it was asked for. -/
def readLines (stop : Stop) (answers : List Read) (file : Bytes) (r : LineReader) : LineReader :=
  if r.stopped then r
  else if _h : file = [] then r.finish stop
  else
    match answers with
    | .interrupted :: answers => readLines stop answers file r
    | .atMost n :: answers =>
      let k := max 1 (min n (bufferSize - r.buffer.length))
      readLines stop answers (file.drop k) (r.feed stop (file.take k))
    | [] =>
      let k := max 1 (bufferSize - r.buffer.length)
      readLines stop [] (file.drop k) (r.feed stop (file.take k))
termination_by (file.length, answers.length)
decreasing_by
  · exact Prod.Lex.right _ (Nat.lt_succ_self _)
  all_goals
    apply Prod.Lex.left
    have := List.length_pos_iff.2 _h
    simp only [List.length_drop]
    omega

/-- The lines delivered from a file, in order. -/
def forEachLine (stop : Stop) (answers : List Read) (file : Bytes) : List Bytes :=
  (readLines stop answers file {}).delivered.reverse

/-- The part of a file that a buffer of `room` bytes takes. -/
def readSmallFile (room : Nat) (file : Bytes) : Bytes := file.take room

/-- The error number for a file that does not exist. -/
def missingFile : Int32 := 2

end Threading.Procfs
