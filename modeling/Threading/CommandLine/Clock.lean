import Threading.Calendar
import Threading.Text.Blank
import Threading.Text.Split

/-!
# Reading the clock

The kernel tells when the machine was started, in whole seconds since the epoch, and
how long it has been up, in seconds with decimals. Together they give the time.
-/
namespace Threading.CommandLine

/-- The second word of the first line whose first word is `key`. -/
def wordAfter? (key : String) (file : String) : Option (List Char) :=
  (file.splitOn "\n").findSome? fun line =>
    match Text.fields line.toList with
    | word :: value :: _ => if word = key.toList then some value else none
    | _ => none

/-- The digits of a fraction as thousandths. -/
def thousandths (fraction : List Char) : Nat :=
  (Text.digits? 10 ((fraction ++ ['0', '0', '0']).take 3)).getD 0

/-- The time that the start of the machine and its time up amount to. -/
def instant? (statistics uptime : String) : Option Calendar.Instant := do
  let start ← (wordAfter? "btime" statistics).bind (Text.digits? 10)
  let up ← (Text.fields uptime.toList).head?
  let (whole, fraction) := (Text.splitFirst? ['.'] up).getD (up, [])
  let whole ← Text.digits? 10 whole
  some ⟨UInt64.ofNat (start + whole), UInt32.ofNat (thousandths fraction)⟩

end Threading.CommandLine
