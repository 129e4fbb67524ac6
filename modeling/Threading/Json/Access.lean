import Threading.Json.Basic
import Threading.Text.Names
import Threading.Text.Numeral

/-!
# Access to JSON values

Short ways into objects. A field that is null counts as absent, and a number may
also be given as a decimal or hexadecimal numeral in a string. Numbers that not
every reader of JSON keeps exactly are put into strings in turn.
-/
namespace Threading.Json

variable (j : Json) (key : String)

/-- A field that is there and is not null. -/
def get? : Option Json :=
  match j.field? key with
  | some .null => none
  | v => v

def text? : Option String := (j.get? key).bind asString?

/-- The value that a field names. -/
def named? {α : Type} [Named α] : Option α := (j.text? key).bind Threading.named?

/-- Whether a field is true. -/
def isOn : Bool := (j.get? key) matches some (.bool true)

def items? : Option (List Json) :=
  match j.get? key with
  | some (.array items) => some items
  | _ => none

/-- The integer that a value stands for. -/
def toInteger? : Json → Option Int
  | .int n => some n
  | .string s =>
    match s.toList with
    | '0' :: 'x' :: digits => (Text.digits? 16 digits).map Int.ofNat
    | numeral => Text.integer? UInt64.size numeral
  | _ => none

def toNatural? (j : Json) : Option Nat :=
  j.toInteger?.bind fun n => if 0 ≤ n then some n.toNat else none

def toWord? (j : Json) : Option UInt64 :=
  j.toNatural?.bind fun n => if n < UInt64.size then some (UInt64.ofNat n) else none

def integer? : Option Int := (j.get? key).bind toInteger?

def natural? : Option Nat := (j.get? key).bind toNatural?

def word? : Option UInt64 := (j.get? key).bind toWord?

/-- The greatest magnitude that every reader keeps exactly. -/
def maxPlain : Nat := 0x20_0000_0000_0000

def ofInt (n : Int) : Json :=
  if n.natAbs ≤ maxPlain then .int n else .string (Text.signedDecimal n)

def ofNat (n : Nat) : Json := ofInt n

def ofWord (w : UInt64) : Json := ofNat w.toNat

/-- An address as hexadecimal digits. -/
def ofAddress (w : UInt64) : Json := .string (Text.hexadecimal w.toNat)

/-- A value by its name. -/
def ofName {α : Type} [Named α] (a : α) : Json := .string (Named.name a)

/-- A value that may be absent. -/
def ofOption {α : Type} (f : α → Json) : Option α → Json
  | none => .null
  | some a => f a

end Threading.Json
