import Threading.Json.Binary64

/-!
# JSON numbers

A number is an optional minus sign, an integer part without leading zeros, an
optional fraction and an optional exponent. Without fraction and exponent it is
an integer if 64 bits hold it; only `-0` is a floating-point number all the same,
because the integers have no negative zero.
-/
namespace Threading.Json

/-- The digits of a numeral, taken apart. -/
structure Numeral where
  negative : Bool
  whole : List Char
  /-- The digits after the point, if there is one. -/
  fraction : Option (List Char)
  /-- The exponent, if there is one. -/
  exponent : Option Int
  deriving DecidableEq, Repr

def isDigit (c : Char) : Bool := '0' ≤ c && c ≤ '9'

def digitValue (c : Char) : Nat := c.toNat - '0'.toNat

/-- The number that decimal digits denote. -/
def digitsValue (cs : List Char) : Nat :=
  cs.foldl (fun n c => n * 10 + digitValue c) 0

/-- Splits off the digits a text starts with; at least one is needed. -/
def takeDigits? (cs : List Char) : Option (List Char × List Char) :=
  let digits := cs.takeWhile isDigit
  if digits.isEmpty then none else some (digits, cs.dropWhile isDigit)

/-- Splits off an integer part: a zero stands alone. -/
def takeWhole? : List Char → Option (List Char × List Char)
  | '0' :: rest => some (['0'], rest)
  | cs => takeDigits? cs

/-- Splits off a fraction, if a point comes next. -/
def takeFraction? : List Char → Option (Option (List Char) × List Char)
  | '.' :: rest => (takeDigits? rest).map fun (digits, rest) => (some digits, rest)
  | cs => some (none, cs)

/-- Splits off an exponent, if its letter comes next. -/
def takeExponent? : List Char → Option (Option Int × List Char)
  | c :: rest =>
    if c = 'e' ∨ c = 'E' then
      let (sign, rest) : Int × List Char :=
        match rest with
        | '+' :: rest => (1, rest)
        | '-' :: rest => (-1, rest)
        | rest => (1, rest)
      (takeDigits? rest).map fun (digits, rest) => (some (sign * digitsValue digits), rest)
    else some (none, c :: rest)
  | [] => some (none, [])

/-- Splits off a numeral. -/
def takeNumeral? (cs : List Char) : Option (Numeral × List Char) := do
  let (negative, cs) := if cs.head? = some '-' then (true, cs.tail) else (false, cs)
  let (whole, cs) ← takeWhole? cs
  let (fraction, cs) ← takeFraction? cs
  let (exponent, cs) ← takeExponent? cs
  some (⟨negative, whole, fraction, exponent⟩, cs)

/-- A significand of 64 bits with the power of ten it is scaled by. -/
structure Scaled where
  significand : Nat
  exponent : Int
  deriving DecidableEq, Repr

/-- Appends the digits of an integer part; from the first digit that does not fit
on, digits only scale. -/
def Scaled.appendWhole (s : Scaled) : List Char → Scaled
  | [] => s
  | c :: cs =>
    let n := s.significand * 10 + digitValue c
    if n < UInt64.size then appendWhole ⟨n, s.exponent⟩ cs
    else ⟨s.significand, s.exponent + cs.length + 1⟩

/-- Appends the digits of a fraction; from the first digit that does not fit on,
digits are dropped. -/
def Scaled.appendFraction (s : Scaled) : List Char → Scaled
  | [] => s
  | c :: cs =>
    let n := s.significand * 10 + digitValue c
    if n < UInt64.size then appendFraction ⟨n, s.exponent - 1⟩ cs else s

/-- The value of a numeral as a floating-point number. -/
def Numeral.toBinary64? (n : Numeral) : Option Binary64 :=
  let s := (Scaled.mk 0 0).appendWhole n.whole
  let s := s.appendFraction (n.fraction.getD [])
  Binary64.ofDecimal? n.negative (UInt64.ofNat s.significand) (s.exponent + n.exponent.getD 0)

/-- The value of a numeral; none if it is too large for a floating-point number. -/
def Numeral.value? (n : Numeral) : Option Json :=
  let m := digitsValue n.whole
  if n.fraction.isNone ∧ n.exponent.isNone ∧ ¬ n.negative ∧ m < UInt64.size then some (.int m)
  else if n.fraction.isNone ∧ n.exponent.isNone ∧ n.negative ∧ 0 < m ∧ m ≤ 0x8000_0000_0000_0000 then
    some (.int (-m))
  else n.toBinary64?.map .float

end Threading.Json
