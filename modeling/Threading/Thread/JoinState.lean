import Threading.Attributes

/-!
# Join states

Who is responsible for reclaiming a thread. A state changes by compare-and-swap,
so of several threads that want to change it one succeeds.
-/
namespace Threading

inductive JoinState where
  | joinable
  /-- The thread has ended and waits for someone to join or detach it. -/
  | exitedNotJoined
  /-- Someone has claimed the thread. -/
  | joined
  /-- The thread reclaims itself when it ends. -/
  | detached
  deriving DecidableEq, Repr, Inhabited

namespace JoinState

def toRaw : JoinState → UInt32
  | joinable => 0
  | exitedNotJoined => 1
  | joined => 2
  | detached => 3

def name : JoinState → String
  | joinable => "Joinable"
  | exitedNotJoined => "ExitedNotJoined"
  | joined => "Joined"
  | detached => "Detached"

instance : Named JoinState := ⟨name, [joinable, exitedNotJoined, joined, detached]⟩

/-- A number that encodes no state reads as joinable. -/
def ofRaw (raw : UInt32) : JoinState :=
  if raw = 1 then exitedNotJoined else if raw = 2 then joined
  else if raw = 3 then detached else joinable

@[simp] theorem ofRaw_toRaw (s : JoinState) : ofRaw s.toRaw = s := by
  cases s <;> rfl

/-- The state of a thread that has just been created. -/
def initial : DetachState → JoinState
  | .joinable => joinable
  | .detached => detached

/-- Changes the state from `source` to `target`; otherwise the result is the state
that was found instead. -/
def transition (s source target : JoinState) : Except JoinState JoinState :=
  if s = source then .ok target else .error s

end JoinState
end Threading
