/-!
# JSON values

Integers are those of 64 bits, signed or unsigned; every other number is a binary
floating-point number. An object lists its fields by ascending key, each key
once; a field put twice keeps the last value.
-/
namespace Threading

/-- A 64-bit binary floating-point number, by its bits. -/
structure Binary64 where
  bits : UInt64
  deriving DecidableEq, Repr, Inhabited

inductive Json where
  | null
  | bool (value : Bool)
  | int (value : Int)
  | float (value : Binary64)
  | string (value : String)
  | array (items : List Json)
  | object (fields : List (String × Json))
  deriving Repr, Inhabited

namespace Json

/-- Puts a field into a list sorted by key; a field of the same key is replaced. -/
def putField (key : String) (value : Json) : List (String × Json) → List (String × Json)
  | [] => [(key, value)]
  | (k, v) :: rest =>
    if key < k then (key, value) :: (k, v) :: rest
    else if key = k then (key, value) :: rest
    else (k, v) :: putField key value rest

/-- The object with the given fields, in any order. -/
def ofFields (fields : List (String × Json)) : Json :=
  .object (fields.foldl (fun acc (k, v) => putField k v acc) [])

/-- The value of a field in a list of fields. -/
def lookup? (fields : List (String × Json)) (key : String) : Option Json :=
  (fields.find? (·.1 = key)).map (·.2)

/-- The value of a field of an object. -/
def field? (key : String) : Json → Option Json
  | .object fields => lookup? fields key
  | _ => none

def asString? : Json → Option String
  | .string s => some s
  | _ => none

/-- The integer, when it is one and fits 64 signed bits. -/
def asSigned? : Json → Option Int
  | .int n => if -0x8000_0000_0000_0000 ≤ n ∧ n < 0x8000_0000_0000_0000 then some n else none
  | _ => none

/-- Integers that a reader can produce. -/
def IntegerInRange (n : Int) : Prop := -0x8000_0000_0000_0000 ≤ n ∧ n < UInt64.size

mutual

/-- The number of containers on the deepest path through a value. -/
def depth : Json → Nat
  | .array items => depthOfItems items + 1
  | .object fields => depthOfFields fields + 1
  | _ => 0

def depthOfItems : List Json → Nat
  | [] => 0
  | v :: rest => max v.depth (depthOfItems rest)

def depthOfFields : List (String × Json) → Nat
  | [] => 0
  | (_, v) :: rest => max v.depth (depthOfFields rest)

end

mutual

/-- The values that can be written and read back unchanged: integers in range, no
floating-point numbers, and the keys of each object strictly ascending. -/
def Exact : Json → Prop
  | .int n => IntegerInRange n
  | .float _ => False
  | .array items => ExactItems items
  | .object fields => (fields.map (·.1)).Pairwise (· < ·) ∧ ExactFields fields
  | _ => True

def ExactItems : List Json → Prop
  | [] => True
  | v :: rest => v.Exact ∧ ExactItems rest

def ExactFields : List (String × Json) → Prop
  | [] => True
  | (_, v) :: rest => v.Exact ∧ ExactFields rest

end

end Json
end Threading
