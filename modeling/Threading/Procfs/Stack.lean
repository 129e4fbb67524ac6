import Threading.Error
import Threading.Procfs.Lines
import Threading.Text.Blank
import Threading.Text.Numeral
import Threading.Text.Split

/-!
# The stack of the initial thread

The kernel tells where the initial thread's stack started in the 28th field of a
process's status line. Fields are counted after the command name in parentheses,
which may hold any bytes, so counting starts at the last closing parenthesis. The
mapping that contains the start ends at the top of the stack.
-/
namespace Threading.Procfs

/-- The text of bytes that are valid UTF-8. -/
def decode? (bytes : Bytes) : Option (List Char) :=
  (String.fromUTF8? (ByteArray.mk bytes.toArray)).map String.toList

/-- The bytes after the last closing parenthesis. -/
def afterCommand? : Bytes → Option Bytes
  | [] => none
  | b :: bs =>
    match afterCommand? bs with
    | some rest => some rest
    | none => if b = 41 then some bs else none

/-- The index of the start of the stack among the fields after the command name. -/
def startStackField : Nat := 25

/-- Where the stack started, from a status line. -/
def startStack? (stat : Bytes) : Option UInt64 := do
  let rest ← afterCommand? stat
  let text ← decode? rest
  let field ← (Text.fields text)[startStackField]?
  let n ← Text.natural? 10 UInt64.size field
  some (UInt64.ofNat n)

/-- The range of addresses at the start of a line that describes a mapping. -/
def mappingRange? (line : Bytes) : Option (UInt64 × UInt64) := do
  let text ← decode? line
  let range ← (Text.fields text).head?
  let (low, high) ← Text.splitFirst? ['-'] range
  let low ← Text.natural? 16 UInt64.size low
  let high ← Text.natural? 16 UInt64.size high
  some (UInt64.ofNat low, UInt64.ofNat high)

/-- The size assumed when the stack may grow without limit. -/
def fallbackStackSize : UInt64 := 8388608

/-- The most bytes of a status line that are looked at. -/
def statusRoom : Nat := 1024

/-- The end of the mapping that contains an address. -/
def mappingEnd? (address : UInt64) (maps : Bytes) : Option UInt64 :=
  let holds (line : Bytes) : Option UInt64 :=
    (mappingRange? line).bind fun (low, high) =>
      if low ≤ address ∧ address < high then some high else none
  (forEachLine (fun _ line => (holds line).isSome) [] maps).getLast?.bind holds

/-- The lowest address and the size of the initial thread's stack. The limit is
none when there is none; a file that cannot be opened is an error number. -/
def mainThreadStack (limit : Option UInt64) (stat maps : Except Int32 Bytes) :
    Except Error (UInt64 × UInt64) := do
  let size := limit.getD fallbackStackSize
  let stat ← stat.mapError .os
  match startStack? (readSmallFile statusRoom stat) with
  | none => .error (.os missingFile)
  | some start =>
    let maps ← maps.mapError .os
    match mappingEnd? start maps with
    | none => .error (.os missingFile)
    | some top => .ok (if size ≤ top then top - size else 0, size)

end Threading.Procfs
