import Threading.Error
import Threading.Futex.Mutex
import Threading.Log.Line
import Threading.Text.Names

/-!
# Mutexes with an owner

A futex mutex with the three kinds of the thread standard. A normal mutex may be
unlocked by any thread while it is locked, and locking it again blocks even its
owner; a recursive mutex counts the acquisitions of its owner; an error-checking
one refuses them. Owner and depth are written only by the thread that holds the
mutex, so the owner of a normal mutex stays behind when another thread unlocks it.
-/
namespace Threading

inductive MutexKind where
  | normal
  | recursive
  | errorCheck
  deriving DecidableEq, Repr, Inhabited

namespace MutexKind

/-- The number of a kind. -/
def toRaw : MutexKind → Int32
  | normal => 0
  | recursive => 1
  | errorCheck => 2

def ofRaw (raw : Int32) : Except Error MutexKind :=
  if raw = 0 then .ok normal
  else if raw = 1 then .ok recursive
  else if raw = 2 then .ok errorCheck
  else .error (.invalidArgument "unknown mutex kind")

def name : MutexKind → String
  | normal => "Normal"
  | recursive => "Recursive"
  | errorCheck => "ErrorCheck"

instance : Named MutexKind := ⟨name, [normal, recursive, errorCheck]⟩

@[simp] theorem ofRaw_toRaw (k : MutexKind) : ofRaw k.toRaw = .ok k := by
  cases k <;> rfl

end MutexKind

structure Mutex where
  kind : MutexKind := .normal
  /-- The word of the futex mutex. -/
  word : UInt32 := 0
  /-- The thread that acquired the mutex last, or 0 after its own unlock. -/
  owner : Tid := 0
  /-- Acquisitions by the owner beyond the first. -/
  depth : UInt32 := 0
  deriving DecidableEq, Repr, Inhabited

namespace Mutex

/-- How a call to lock a mutex goes. -/
inductive Attempt where
  /-- The mutex is acquired, and the observer is told. -/
  | granted (m : Mutex)
  | refused (e : Error)
  /-- The mutex is locked and the caller has to wait. -/
  | waits
  deriving DecidableEq, Repr

def isLocked (m : Mutex) : Bool := Futex.Mutex.isLocked m.word

/-- The greatest depth of a recursive mutex. -/
def maxDepth : UInt32 := 0xffffffff

/-- The description of a mutex in diagnostics. -/
def describe (m : Mutex) : String :=
  "GuardedMutex \x7b kind: " ++ m.kind.name ++ ", owner: " ++
    Text.signedDecimal m.owner.toInt ++ " \x7d"

/-- The mutex just acquired by `t`, with the given word. -/
def acquiredBy (m : Mutex) (t : Tid) (word : UInt32) : Mutex :=
  { m with word, owner := t, depth := 0 }

/-- A further acquisition by the owner; none if the word of the mutex decides. -/
def relock? (m : Mutex) (t : Tid) : Option Attempt :=
  if m.owner ≠ t then none
  else
    match m.kind with
    | .normal => none
    | .errorCheck => some (.refused .deadlock)
    | .recursive =>
      if m.depth = maxDepth then some (.refused (.resourceExhausted "recursion depth"))
      else some (.granted { m with depth := m.depth + 1 })

/-- Locks the mutex, if that needs no waiting. -/
def lock (m : Mutex) (t : Tid) : Attempt :=
  match m.relock? t with
  | some attempt => attempt
  | none =>
    match Futex.Mutex.lock m.word with
    | (.immediate, word) => .granted (m.acquiredBy t word)
    | _ => .waits

/-- Locks the mutex or fails; a mutex that `t` has locked already is as busy as any other. -/
def tryLock (m : Mutex) (t : Tid) : Attempt :=
  match m.relock? t with
  | some (.refused .deadlock) => .refused .busy
  | some attempt => attempt
  | none =>
    match Futex.Mutex.tryLock? m.word with
    | some word => .granted (m.acquiredBy t word)
    | none => .refused .busy

/-- The mutex after an unlock by `t`. -/
def unlock (m : Mutex) (t : Tid) : Except Error Mutex :=
  if m.kind ≠ .normal ∧ m.owner ≠ t then .error .notOwner
  else if m.kind = .normal ∧ ¬ m.isLocked then .error .notOwner
  else if m.owner = t ∧ m.depth > 0 then .ok { m with depth := m.depth - 1 }
  else
    .ok { m with
      word := Futex.Mutex.unlock m.word
      owner := if m.owner = t then 0 else m.owner }

/-- The mutex acquired by `t`, which was asleep waiting for it. -/
def handTo (m : Mutex) (t : Tid) : Mutex :=
  m.acquiredBy t (Futex.Mutex.handOver 1)

end Mutex
end Threading
