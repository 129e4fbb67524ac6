import Threading.Text.Numeral

/-!
# Errors of thread operations

The failures an operation on threads, mutexes or attributes can report. Each has
an error number and a message; an error number coming back from the kernel is
folded into the failure it stands for.
-/
namespace Threading

/-- Why an operation was refused. -/
inductive Error where
  /-- An argument is not acceptable; the text names the rule it breaks. -/
  | invalidArgument (reason : String)
  /-- A limit was reached; the text names what ran out. -/
  | resourceExhausted (what : String)
  | noSuchThread
  /-- Waiting would never end. -/
  | deadlock
  | busy
  /-- The caller does not own the lock. -/
  | notOwner
  | notSupported (what : String)
  /-- A kernel failure with no meaning of its own here. -/
  | os (errno : Int32)
  deriving DecidableEq, Repr

namespace Error

/-- The kind of a failure. -/
def name : Error → String
  | invalidArgument _ => "InvalidArgument"
  | resourceExhausted _ => "ResourceExhausted"
  | noSuchThread => "NoSuchThread"
  | deadlock => "Deadlock"
  | busy => "Busy"
  | notOwner => "NotOwner"
  | notSupported _ => "NotSupported"
  | os _ => "Os"

/-- The failure of a kind, with its text or its error number. -/
def ofName? (name text : String) (errno : Int32) : Option Error :=
  [invalidArgument text, resourceExhausted text, noSuchThread, deadlock, busy, notOwner,
    notSupported text, os errno].find? (·.name = name)

/-- The error number a caller sees. -/
def errno : Error → Int32
  | invalidArgument _ => 22
  | resourceExhausted _ => 11
  | noSuchThread => 3
  | deadlock => 35
  | busy => 16
  | notOwner => 1
  | notSupported _ => 95
  | os n => n

/-- The failure a kernel error number stands for. -/
def ofErrno (n : Int32) : Error :=
  if n = 22 then invalidArgument "rejected by kernel"
  else if n = 11 then resourceExhausted "kernel refused"
  else if n = 3 then noSuchThread
  else if n = 35 then deadlock
  else if n = 16 then busy
  else os n

/-- The text of a failure. -/
def message : Error → String
  | invalidArgument reason => "invalid argument: " ++ reason
  | resourceExhausted what => "resources exhausted: " ++ what
  | noSuchThread => "no such thread"
  | deadlock => "operation would deadlock"
  | busy => "resource busy"
  | notOwner => "caller does not own the lock"
  | notSupported what => "not supported: " ++ what
  | os n => "os error " ++ Text.signedDecimal n.toInt

end Error
end Threading
