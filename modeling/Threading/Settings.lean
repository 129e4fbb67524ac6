import Threading.Text.Blank
import Threading.Text.Names
import Threading.Text.Numeral

/-!
# Settings

Three settings govern the runtime: how much the lock-order observer does, what a
scheduling failure after a launch means, and how severe a diagnostic line must be
to be written. Each is read leniently from a text: blanks at the ends and the
case of ASCII letters do not matter, and a text that says nothing gives the
default.
-/
namespace Threading

/-- How much the lock-order observer does. -/
inductive LockDebugLevel where
  | disabled
  /-- Ownership and the order of acquisitions are tracked. -/
  | enabled
  /-- As `enabled`, with a call stack per acquisition and per edge. -/
  | captureCallStacks
  deriving DecidableEq, Repr, Inhabited

/-- What a scheduling failure means for a thread that has been launched. -/
inductive SchedFailurePolicy where
  /-- A warning is logged and the thread runs with inherited scheduling. -/
  | warn
  /-- The thread runs nothing and its creation fails. -/
  | fail
  deriving DecidableEq, Repr

instance : Inhabited SchedFailurePolicy := ⟨.fail⟩

/-- The severity of a diagnostic line. -/
inductive LogPriority where
  | debug
  | info
  | warn
  | error
  deriving DecidableEq, Repr

instance : Inhabited LogPriority := ⟨.info⟩

/-- The characters of a setting's text without the blanks around them. -/
def settingWord (text : String) : List Char :=
  Text.trimBlank text.toList

/-- The same with ASCII capitals made small. -/
def settingName (text : String) : String :=
  String.ofList ((settingWord text).map Char.toLower)

namespace LockDebugLevel

/-- A number decides: 1 enables tracking and any larger number enables call
stacks too. Zero, negative numbers, numbers outside 64 bits and everything that
is no number disable the observer. -/
def ofText (text : String) : LockDebugLevel :=
  match Text.integer? 0x8000_0000_0000_0000 (settingWord text) with
  | none => .disabled
  | some n => if n ≤ 0 then .disabled else if n = 1 then .enabled else .captureCallStacks

def isEnabled (l : LockDebugLevel) : Bool := l != .disabled

def capturesStacks (l : LockDebugLevel) : Bool := l == .captureCallStacks

/-- The level as the number that selects it. -/
def rank : LockDebugLevel → Nat
  | disabled => 0
  | enabled => 1
  | captureCallStacks => 2

def name : LockDebugLevel → String
  | disabled => "Disabled"
  | enabled => "Enabled"
  | captureCallStacks => "CaptureCallStacks"

instance : Named LockDebugLevel := ⟨name, [disabled, enabled, captureCallStacks]⟩

def toByte : LockDebugLevel → UInt8
  | disabled => 1
  | enabled => 2
  | captureCallStacks => 3

/-- A byte that encodes no level reads as the default. -/
def ofByte (b : UInt8) : LockDebugLevel :=
  if b = 2 then .enabled else if b = 3 then .captureCallStacks else .disabled

@[simp] theorem ofByte_toByte (l : LockDebugLevel) : ofByte l.toByte = l := by
  cases l <;> rfl

end LockDebugLevel

namespace SchedFailurePolicy

def name : SchedFailurePolicy → String
  | warn => "Warn"
  | fail => "Fail"

instance : Named SchedFailurePolicy := ⟨name, [warn, fail]⟩

def ofText (text : String) : SchedFailurePolicy :=
  let name := settingName text
  if name ∈ ["warn", "ignore", "log"] then .warn else .fail

def toByte : SchedFailurePolicy → UInt8
  | warn => 1
  | fail => 2

/-- A byte that encodes no policy reads as the default. -/
def ofByte (b : UInt8) : SchedFailurePolicy :=
  if b = 1 then .warn else .fail

@[simp] theorem ofByte_toByte (p : SchedFailurePolicy) : ofByte p.toByte = p := by
  cases p <;> rfl

end SchedFailurePolicy

namespace LogPriority

def ofText (text : String) : LogPriority :=
  let name := settingName text
  if name ∈ ["debug", "trace", "verbose"] then .debug
  else if name ∈ ["warn", "warning"] then .warn
  else if name ∈ ["error", "fatal"] then .error
  else .info

def name : LogPriority → String
  | debug => "Debug"
  | info => "Info"
  | warn => "Warn"
  | error => "Error"

instance : Named LogPriority := ⟨name, [debug, info, warn, error]⟩

/-- The letter that starts a line of this priority. -/
def letter : LogPriority → Char
  | debug => 'D'
  | info => 'I'
  | warn => 'W'
  | error => 'E'

/-- Position in the order of severity. -/
def severity : LogPriority → Nat
  | debug => 0
  | info => 1
  | warn => 2
  | error => 3

/-- Whether a line of priority `p` is written when `least` is the minimum. -/
def passes (least p : LogPriority) : Bool :=
  least.severity ≤ p.severity

def toByte : LogPriority → UInt8
  | debug => 1
  | info => 2
  | warn => 3
  | error => 4

/-- A byte that encodes no priority reads as the default. -/
def ofByte (b : UInt8) : LogPriority :=
  if b = 1 then .debug else if b = 3 then .warn else if b = 4 then .error else .info

@[simp] theorem ofByte_toByte (p : LogPriority) : ofByte p.toByte = p := by
  cases p <;> rfl

end LogPriority

/-- The three settings in force. -/
structure Settings where
  level : LockDebugLevel := default
  policy : SchedFailurePolicy := default
  priority : LogPriority := default
  deriving DecidableEq, Repr, Inhabited

end Threading
