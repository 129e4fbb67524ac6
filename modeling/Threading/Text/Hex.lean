import Threading.Text.Numeral

/-!
# Bytes in hexadecimal

Two digits a byte, high digit first. Digits are read in either case and written in
lower case.
-/
namespace Threading.Text

/-- The bytes that pairs of digits denote. -/
def hexBytes? : List Char → Option (List UInt8)
  | [] => some []
  | [_] => none
  | a :: b :: rest => do
    let n ← digits? 16 [a, b]
    let more ← hexBytes? rest
    some (UInt8.ofNat n :: more)

/-- Two digits for each byte. -/
def hexText (bytes : List UInt8) : String :=
  String.ofList (bytes.flatMap fun b =>
    let digits := Nat.toDigits 16 b.toNat
    List.replicate (2 - digits.length) '0' ++ digits)

end Threading.Text
