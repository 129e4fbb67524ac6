import Threading.Text.Numeral
import Threading.Text.Split

/-!
# Options on a command line

An option is written `--name value` or `--name=value`, a switch `--name`; each may
be given once. A value on its own must not look like an option, except for a lone
hyphen. There are no other arguments: a double hyphen may end the line, but nothing
may follow it. Asking for help ends the reading of the line where it is met, unless
an option still misses its value there.
-/
namespace Threading.CommandLine

/-- Why a command line is not carried out. -/
inductive Stop where
  /-- Help was asked for. -/
  | help
  /-- The line is not understood. -/
  | usage
  deriving DecidableEq, Repr

/-- What an option takes. -/
inductive Kind where
  /-- No value. -/
  | switch
  /-- A number of 64 bits. -/
  | number
  | text
  /-- The name of a file, which is not empty. -/
  | path
  deriving DecidableEq, Repr

/-- An option a command knows. -/
structure Parameter where
  name : String
  kind : Kind
  deriving DecidableEq, Repr

/-- Whether an option takes a value. -/
def Kind.takesValue : Kind → Bool
  | switch => false
  | _ => true

/-- Whether a text is a value of the kind; a switch has the empty one. -/
def Kind.accepts : Kind → String → Bool
  | switch, value => value.isEmpty
  | number, value => (Text.natural? 10 UInt64.size value.toList).isSome
  | text, _ => true
  | path, value => !value.isEmpty

/-- The options found so far with their values. -/
abbrev Found := List (String × String)

namespace Found

/-- Adds an option with its value. -/
def add (found : Found) (p : Parameter) (value : String) : Except Stop Found :=
  if found.any (·.1 = p.name) ∨ !p.kind.accepts value then .error .usage
  else .ok ((p.name, value) :: found)

def text? (found : Found) (name : String) : Option String :=
  (found.find? (·.1 = name)).map (·.2)

def isOn (found : Found) (name : String) : Bool := (found.text? name).isSome

def number? (found : Found) (name : String) : Option Nat :=
  (found.text? name).bind fun value => Text.natural? 10 UInt64.size value.toList

end Found

/-- An argument by its looks. -/
inductive Argument where
  | doubleHyphen
  /-- A name after two hyphens, and the value after an equals sign. -/
  | long (name : String) (value : Option String)
  /-- The letters after one hyphen. -/
  | short (letters : List Char)
  | plain (text : String)
  deriving DecidableEq, Repr

def Argument.ofText (text : String) : Argument :=
  match text.toList with
  | ['-', '-'] => doubleHyphen
  | '-' :: '-' :: rest =>
    match Text.splitFirst? ['='] rest with
    | none => long (String.ofList rest) none
    | some (name, value) => long (String.ofList name) (some (String.ofList value))
  | ['-'] => plain text
  | '-' :: letters => short letters
  | _ => plain text

/-- The name of the option, and its letter, that ask for help. -/
def helpName : String := "help"

def helpLetter : Char := 'h'

/-- What short letters lead to: no command has short options but the one for help. -/
def stopAtShort (letters : List Char) : Stop :=
  if letters.head? = some helpLetter then .help else .usage

/-- What a long name of no option leads to. -/
def stopAtLong (name : String) (value : Option String) : Stop :=
  if name = helpName ∧ value = none then .help else .usage

/-- Reads the options of a command. `pending` is an option whose value comes next. -/
def readOptions (known : List Parameter) :
    (found : Found) → (pending : Option Parameter) → List String → Except Stop Found
  | found, none, [] => .ok found
  | _, some _, [] => .error .usage
  | found, some p, arg :: rest =>
    match Argument.ofText arg with
    | .plain value => (found.add p value).bind fun found => readOptions known found none rest
    | _ => .error .usage
  | found, none, arg :: rest =>
    match Argument.ofText arg with
    | .plain _ => .error .usage
    | .short letters => .error (stopAtShort letters)
    | .doubleHyphen => if rest.isEmpty then .ok found else .error .usage
    | .long name value =>
      match known.find? (·.name = name), value with
      | none, _ => .error (stopAtLong name value)
      | some p, some v =>
        if p.kind.takesValue then
          (found.add p v).bind fun found => readOptions known found none rest
        else .error .usage
      | some p, none =>
        if p.kind.takesValue then readOptions known found (some p) rest
        else (found.add p "").bind fun found => readOptions known found none rest

end Threading.CommandLine
