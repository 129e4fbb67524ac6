/-!
# Numerals

Reading: one or more digits of a base, with an optional sign before them, denote
a number; a numeral whose value leaves the target range is refused, however it is
written. A plus sign is always allowed, a minus sign only where negative numbers
are. Writing: decimal and lower-case hexadecimal digits, without superfluous
zeros or padded to a width.
-/
namespace Threading.Text

/-- The value of a digit; letters of both cases count from ten. -/
def digitValue? (base : Nat) (c : Char) : Option Nat :=
  let value :=
    if '0' ≤ c ∧ c ≤ '9' then c.toNat - '0'.toNat
    else if 'a' ≤ c ∧ c ≤ 'z' then c.toNat - 'a'.toNat + 10
    else if 'A' ≤ c ∧ c ≤ 'Z' then c.toNat - 'A'.toNat + 10
    else base
  if value < base then some value else none

/-- The number that a sequence of digits denotes after a part denoting `acc`. -/
def digitsFrom? (base : Nat) : (acc : Nat) → List Char → Option Nat
  | acc, [] => some acc
  | acc, c :: cs => do
    let d ← digitValue? base c
    digitsFrom? base (acc * base + d) cs

/-- The number that one or more digits denote. -/
def digits? (base : Nat) : List Char → Option Nat
  | [] => none
  | cs => digitsFrom? base 0 cs

/-- Reads a numeral below `bound`; a plus sign may come first. -/
def natural? (base bound : Nat) (cs : List Char) : Option Nat := do
  let n ← digits? base (if cs.head? = some '+' then cs.tail else cs)
  if n < bound then some n else none

/-- Reads a decimal numeral from `-bound` up to `bound - 1`; a sign may come first. -/
def integer? (bound : Nat) (cs : List Char) : Option Int := do
  if cs.head? = some '-' then
    let n ← digits? 10 cs.tail
    if n ≤ bound then some (-n) else none
  else
    let n ← natural? 10 bound cs
    some n

/-- Decimal digits of a number. -/
def decimal (n : Nat) : String :=
  String.ofList (Nat.toDigits 10 n)

/-- Decimal digits of an integer, with a minus sign if it is negative. -/
def signedDecimal (n : Int) : String :=
  if n < 0 then "-" ++ decimal n.natAbs else decimal n.natAbs

/-- Decimal digits with zeros put in front up to `width` digits; longer numbers
keep all their digits. -/
def paddedDecimal (width n : Nat) : String :=
  let digits := Nat.toDigits 10 n
  String.ofList (List.replicate (width - digits.length) '0' ++ digits)

/-- Hexadecimal digits after `0x`. -/
def hexadecimal (n : Nat) : String :=
  "0x" ++ String.ofList (Nat.toDigits 16 n)

end Threading.Text
