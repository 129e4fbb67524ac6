import Threading.Json.Token

/-!
# Reading JSON

Tokens are put together with an explicit stack of the containers that are still
open, innermost first. At most 127 containers may be open at a time.
-/
namespace Threading.Json

/-- A container that is still open. -/
inductive Open where
  /-- An array with the items read so far, last one first. -/
  | array (items : List Json)
  /-- An object with the fields read so far and the key whose value comes next. -/
  | object (fields : List (String × Json)) (key : String)
  deriving Repr

/-- The most containers that may be open at a time. -/
def maxOpen : Nat := 127

mutual

/-- Reads a value and what follows it. -/
def readValue? (stack : List Open) : List Token → Option Json
  | .scalar v :: ts => resume? stack v ts
  | .string s :: ts => resume? stack (.string s) ts
  | .openBracket :: .closeBracket :: ts =>
    if stack.length < maxOpen then resume? stack (.array []) ts else none
  | .openBracket :: ts =>
    if stack.length < maxOpen then readValue? (.array [] :: stack) ts else none
  | .openBrace :: .closeBrace :: ts =>
    if stack.length < maxOpen then resume? stack (.object []) ts else none
  | .openBrace :: .string key :: .colon :: ts =>
    if stack.length < maxOpen then readValue? (.object [] key :: stack) ts else none
  | _ => none

/-- Continues after a value: in the innermost open container, or at the end. -/
def resume? (stack : List Open) (v : Json) : List Token → Option Json
  | [] => if stack.isEmpty then some v else none
  | .comma :: .string key :: .colon :: ts =>
    match stack with
    | .object fields k :: stack => readValue? (.object (putField k v fields) key :: stack) ts
    | _ => none
  | .comma :: ts =>
    match stack with
    | .array items :: stack => readValue? (.array (v :: items) :: stack) ts
    | _ => none
  | .closeBracket :: ts =>
    match stack with
    | .array items :: stack => resume? stack (.array (v :: items).reverse) ts
    | _ => none
  | .closeBrace :: ts =>
    match stack with
    | .object fields k :: stack => resume? stack (.object (putField k v fields)) ts
    | _ => none
  | _ => none

end

/-- The value that a text denotes; none if it is no JSON text. -/
def ofText? (text : String) : Option Json :=
  (tokens? text.toList).bind (readValue? [])

end Threading.Json
