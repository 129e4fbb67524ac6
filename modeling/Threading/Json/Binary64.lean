import Threading.Json.Basic

/-!
# Decimal text of floating-point numbers

Writing takes the fewest digits that lie closer to the number than to any other
one, and of those the digits nearest to it. The interval of reals that round to a
number is known exactly from its bits, so the digits are found in integer
arithmetic: on the decimal grid of each length, only the two neighbours of the
number can lie in the interval.

Reading keeps as many leading digits as a 64-bit word holds and then multiplies
or divides once by a power of ten, so a long numeral may be read as a neighbour
of the nearest number.
-/
namespace Threading.Binary64

/-- The digits of a positive number and the exponent of ten they are scaled by. -/
structure Digits where
  digits : Nat
  exponent : Int
  deriving DecidableEq, Repr

variable (x : Binary64)

def isNegative : Bool := 0x8000_0000_0000_0000 ≤ x.bits.toNat

/-- The bits of the fraction. -/
def fraction : Nat := x.bits.toNat % Nat.pow 2 52

/-- The biased exponent. -/
def biased : Nat := x.bits.toNat / Nat.pow 2 52 % Nat.pow 2 11

def isFinite : Bool := x.biased < 2047

def isZero : Bool := x.fraction = 0 ∧ x.biased = 0

/-- The number's magnitude is `significand * 2 ^ scale`. -/
def significand : Nat :=
  if x.biased = 0 then x.fraction else x.fraction + Nat.pow 2 52

def scale : Int :=
  if x.biased = 0 then -1074 else x.biased - 1075

/-- A numerator over the denominator of `unit`: the magnitude is four units of it,
in quarters of the last binary place. -/
def quarters (n : Nat) : Nat × Nat :=
  let e := x.scale - 2
  (n * Nat.pow 2 e.toNat, Nat.pow 2 (-e).toNat)

/-- The bounds of the interval of reals that round to the number, in quarters of
the last binary place. Below a power of two the numbers lie twice as close. -/
def lowerQuarters : Nat :=
  4 * x.significand - (if x.fraction = 0 ∧ 1 < x.biased then 1 else 2)

def upperQuarters : Nat := 4 * x.significand + 2

/-- The bounds themselves belong to the interval iff the significand is even. -/
def holds (num den : Nat) : Bool :=
  let (low, unit) := x.quarters x.lowerQuarters
  let (high, _) := x.quarters x.upperQuarters
  let here := num * unit
  if x.significand % 2 = 0 then low * den ≤ here && here ≤ high * den
  else low * den < here && here < high * den

/-- The least `k` with `num / den < 10 ^ k`, for a positive fraction. -/
def decimalPosition (num den : Nat) : Int :=
  if den ≤ num then (Nat.toDigits 10 (num / den)).length
  else
    let ceiling := (den + num - 1) / num
    1 - (Nat.toDigits 10 (ceiling - 1)).length

/-- The integer nearest to a fraction; of two that are equally near, the even one. -/
def roundHalfEven (num den : Nat) : Nat :=
  let below := num / den
  let rest := num % den
  if 2 * rest < den ∨ (2 * rest = den ∧ below % 2 = 0) then below else below + 1

/-- The nearest neighbour of the number on the grid of `n` decimal digits, of those
that lie in the interval. -/
def onGrid? (n : Nat) : Option Digits :=
  let (num, den) := x.quarters (4 * x.significand)
  let e := decimalPosition num den - n
  let gridNum := num * Nat.pow 10 (-e).toNat
  let gridDen := den * Nat.pow 10 e.toNat
  let below := gridNum / gridDen
  let hit (d : Nat) : Bool := x.holds (d * Nat.pow 10 e.toNat) (Nat.pow 10 (-e).toNat)
  match hit below, hit (below + 1) with
  | true, true => some ⟨roundHalfEven gridNum gridDen, e⟩
  | true, false => some ⟨below, e⟩
  | false, true => some ⟨below + 1, e⟩
  | false, false => none

/-- Digits without zeros at their end. -/
def Digits.trim : (fuel : Nat) → Digits → Digits
  | 0, d => d
  | fuel + 1, d =>
    if d.digits % 10 = 0 ∧ d.digits ≠ 0 then trim fuel ⟨d.digits / 10, d.exponent + 1⟩ else d

/-- The fewest digits that read back; seventeen always do. -/
def shortest : Digits :=
  (((List.range 17).findSome? fun n => x.onGrid? (n + 1)).getD ⟨0, 0⟩).trim 20

/-- Digits as text: positional where the point falls no further than sixteen
places right of the first digit and five left of it, and otherwise with an
exponent, which always shows its sign. A number shows a point or an exponent. -/
def Digits.text (d : Digits) : String :=
  let ds := Nat.toDigits 10 d.digits
  let zeros (n : Int) : List Char := List.replicate n.toNat '0'
  let point : Int := ds.length + d.exponent
  String.ofList <|
    if 0 ≤ d.exponent ∧ point ≤ 16 then ds ++ zeros d.exponent ++ ['.', '0']
    else if 0 < point ∧ point ≤ 16 then
      ds.take point.toNat ++ ['.'] ++ ds.drop point.toNat
    else if -5 < point ∧ point ≤ 0 then ['0', '.'] ++ zeros (-point) ++ ds
    else
      let e := point - 1
      let sign := if e < 0 then '-' else '+'
      let fraction := if ds.length ≤ 1 then [] else '.' :: ds.drop 1
      ds.take 1 ++ fraction ++ ['e', sign] ++ Nat.toDigits 10 e.natAbs

/-- The text of a finite number; other numbers have no JSON text but `null`. -/
def text : String :=
  if !x.isFinite then "null"
  else
    (if x.isNegative then "-" else "") ++ (if x.isZero then "0.0" else x.shortest.text)

/-! ## Reading -/

def ofFloat (f : Float) : Binary64 := ⟨f.toBits⟩

def powerOfTen (n : Nat) : Float := Float.ofScientific 1 false n

/-- Divides by `10 ^ n`, in steps of `10 ^ 308`. -/
def divideByPower (f : Float) (n : Nat) : Float :=
  if n ≤ 308 then f / powerOfTen n
  else if f == 0 then f
  else divideByPower (f / powerOfTen 308) (n - 308)
termination_by n

/-- The number `significand * 10 ^ exponent`; none if it is too large. -/
def ofDecimal? (negative : Bool) (significand : UInt64) (exponent : Int) : Option Binary64 :=
  let f := significand.toFloat
  let magnitude : Option Float :=
    if exponent < 0 then some (divideByPower f (-exponent).toNat)
    else if exponent ≤ 308 then
      let r := f * powerOfTen exponent.toNat
      if r.isInf then none else some r
    else if f == 0 then some f
    else none
  magnitude.map fun r => ofFloat (if negative then -r else r)

end Threading.Binary64
