import Threading.Json.Number

/-!
# JSON tokens

A text is first cut into brackets, separators, strings and scalars. Blanks
between tokens are dropped. A string holds no control character unless escaped,
and an escaped surrogate only as half of a pair.
-/
namespace Threading.Json

inductive Token where
  | openBracket
  | closeBracket
  | openBrace
  | closeBrace
  | comma
  | colon
  | string (s : String)
  /-- `null`, a truth value or a number. -/
  | scalar (v : Json)
  deriving Repr

/-- The blanks that may stand between tokens. -/
def isSpace (c : Char) : Bool := c = ' ' || c = '\n' || c = '\t' || c = '\r'

def hexValue? (c : Char) : Option Nat :=
  if '0' ≤ c ∧ c ≤ '9' then some (c.toNat - '0'.toNat)
  else if 'a' ≤ c ∧ c ≤ 'f' then some (c.toNat - 'a'.toNat + 10)
  else if 'A' ≤ c ∧ c ≤ 'F' then some (c.toNat - 'A'.toNat + 10)
  else none

/-- The number that four hexadecimal digits denote. -/
def hexWord? (a b c d : Char) : Option Nat := do
  let a ← hexValue? a
  let b ← hexValue? b
  let c ← hexValue? c
  let d ← hexValue? d
  some (((a * 16 + b) * 16 + c) * 16 + d)

def isHighSurrogate (n : Nat) : Bool := 0xd800 ≤ n && n ≤ 0xdbff

def isLowSurrogate (n : Nat) : Bool := 0xdc00 ≤ n && n ≤ 0xdfff

/-- The character of a surrogate pair. -/
def surrogatePair (high low : Nat) : Char :=
  Char.ofNat (0x10000 + (high - 0xd800) * 0x400 + (low - 0xdc00))

/-- The character of an escape of one letter. -/
def shortEscape? (c : Char) : Option Char :=
  if c = '"' then some '"'
  else if c = '\\' then some '\\'
  else if c = '/' then some '/'
  else if c = 'b' then some '\x08'
  else if c = 'f' then some '\x0c'
  else if c = 'n' then some '\n'
  else if c = 'r' then some '\r'
  else if c = 't' then some '\t'
  else none

/-- Reads the rest of a string after its opening quote. The result is its
characters and the text after the closing quote. -/
def takeString? : List Char → Option (List Char × List Char)
  | '"' :: rest => some ([], rest)
  | '\\' :: 'u' :: a :: b :: c :: d :: '\\' :: 'u' :: a' :: b' :: c' :: d' :: rest => do
    let n ← hexWord? a b c d
    if isHighSurrogate n then
      let low ← hexWord? a' b' c' d'
      if isLowSurrogate low then
        let (s, rest) ← takeString? rest
        some (surrogatePair n low :: s, rest)
      else none
    else if isLowSurrogate n then none
    else
      let (s, rest) ← takeString? ('\\' :: 'u' :: a' :: b' :: c' :: d' :: rest)
      some (Char.ofNat n :: s, rest)
  | '\\' :: 'u' :: a :: b :: c :: d :: rest => do
    let n ← hexWord? a b c d
    if isHighSurrogate n || isLowSurrogate n then none
    else
      let (s, rest) ← takeString? rest
      some (Char.ofNat n :: s, rest)
  | '\\' :: c :: rest => do
    let e ← shortEscape? c
    let (s, rest) ← takeString? rest
    some (e :: s, rest)
  | c :: rest => do
    if c < ' ' ∨ c = '\\' then none
    else
      let (s, rest) ← takeString? rest
      some (c :: s, rest)
  | [] => none

/-- Reads one token that starts with the character `c`. -/
def takeToken? (c : Char) (rest : List Char) : Option (Token × List Char) :=
  if c = '[' then some (.openBracket, rest)
  else if c = ']' then some (.closeBracket, rest)
  else if c = '\x7b' then some (.openBrace, rest)
  else if c = '\x7d' then some (.closeBrace, rest)
  else if c = ',' then some (.comma, rest)
  else if c = ':' then some (.colon, rest)
  else if c = '"' then (takeString? rest).map fun (s, rest) => (.string (String.ofList s), rest)
  else
    match c, rest with
    | 'n', 'u' :: 'l' :: 'l' :: rest => some (.scalar .null, rest)
    | 't', 'r' :: 'u' :: 'e' :: rest => some (.scalar (.bool true), rest)
    | 'f', 'a' :: 'l' :: 's' :: 'e' :: rest => some (.scalar (.bool false), rest)
    | c, rest => do
      let (n, rest) ← takeNumeral? (c :: rest)
      let v ← n.value?
      some (.scalar v, rest)

/-- The tokens of a text, with as many turns as `fuel` allows. A token takes at
least one character, so the length of the text is enough. -/
def tokensFrom? : (fuel : Nat) → List Char → Option (List Token)
  | _, [] => some []
  | 0, _ :: _ => none
  | fuel + 1, c :: rest =>
    if isSpace c then tokensFrom? fuel rest
    else do
      let (t, rest) ← takeToken? c rest
      let ts ← tokensFrom? fuel rest
      some (t :: ts)

/-- The tokens of a text; none if some part of it is no token. -/
def tokens? (cs : List Char) : Option (List Token) :=
  tokensFrom? cs.length cs

end Threading.Json
