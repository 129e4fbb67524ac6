import Threading.CpuSet
import Threading.Text.Names
import Threading.Word

/-!
# Thread attributes

How a thread is to be created. The setters check what they are given; two of them
write the stack size under different rules, so the whole is checked again before a
thread is created.
-/
namespace Threading

inductive DetachState where
  | joinable
  | detached
  deriving DecidableEq, Repr, Inhabited

namespace DetachState

def toRaw : DetachState → Int32
  | joinable => 0
  | detached => 1

def ofRaw (raw : Int32) : Except Error DetachState :=
  if raw = 0 then .ok joinable
  else if raw = 1 then .ok detached
  else .error (.invalidArgument "unknown detach state")

def name : DetachState → String
  | joinable => "Joinable"
  | detached => "Detached"

instance : Named DetachState := ⟨name, [joinable, detached]⟩

@[simp] theorem ofRaw_toRaw (s : DetachState) : ofRaw s.toRaw = .ok s := by
  cases s <;> rfl

end DetachState

/-- Scheduling policies. -/
inductive SchedPolicy where
  | other
  | fifo
  | roundRobin
  | batch
  | idle
  deriving DecidableEq, Repr, Inhabited

namespace SchedPolicy

def name : SchedPolicy → String
  | other => "Other"
  | fifo => "Fifo"
  | roundRobin => "RoundRobin"
  | batch => "Batch"
  | idle => "Idle"

instance : Named SchedPolicy := ⟨name, [other, fifo, roundRobin, batch, idle]⟩

/-- The number of a policy. -/
def toRaw : SchedPolicy → Int32
  | other => 0
  | fifo => 1
  | roundRobin => 2
  | batch => 3
  | idle => 5

/-- The least and the greatest static priority. -/
def priorityRange : SchedPolicy → Int32 × Int32
  | fifo | roundRobin => (1, 99)
  | other | batch | idle => (0, 0)

end SchedPolicy

/-- The scope of contention for the CPU; only the system's exists. -/
def systemScope : Int32 := 0

def processScope : Int32 := 1

def defaultStackSize : UInt64 := 2097152

def defaultGuardSize : UInt64 := pageSize

/-- The smallest stack a thread may have. -/
def minStackSize : UInt64 := 16384

structure Attributes where
  detachState : DetachState := .joinable
  schedPolicy : SchedPolicy := .other
  schedPriority : Int32 := 0
  /-- Whether policy and priority were asked for. -/
  explicitSched : Bool := false
  /-- The address of a stack the caller lends, or 0. -/
  stackBase : UInt64 := 0
  stackSize : UInt64 := defaultStackSize
  /-- Bytes kept inaccessible below a mapped stack. -/
  guardSize : UInt64 := defaultGuardSize
  affinity : Option CpuSet := none
  deriving DecidableEq, Repr, Inhabited

namespace Attributes

variable (a : Attributes)

/-! A setter gives its answer and the attributes after the call. -/

def setDetachState (s : DetachState) : Attributes := { a with detachState := s }

/-- Asks for a policy and a priority of its range. -/
def setScheduling (policy : SchedPolicy) (priority : Int32) : Except Error Unit × Attributes :=
  let (low, high) := policy.priorityRange
  if priority < low ∨ high < priority then
    (.error (.invalidArgument "priority outside policy range"), a)
  else
    (.ok (), { a with schedPolicy := policy, schedPriority := priority, explicitSched := true })

def setStackSize (size : UInt64) : Except Error Unit × Attributes :=
  if size < minStackSize then (.error (.invalidArgument "stack size below minimum"), a)
  else (.ok (), { a with stackSize := size })

/-- Lends the memory from `base` up to `base + size` as the stack. -/
def setStack (base size : UInt64) : Except Error Unit × Attributes :=
  if size < minStackSize then (.error (.invalidArgument "stack size below minimum"), a)
  else if base = 0 ∨ base % pageSize ≠ 0 ∨ size % pageSize ≠ 0 then
    (.error (.invalidArgument "stack not page aligned"), a)
  else if (Word.add? base size).isNone then
    (.error (.invalidArgument "stack wraps the address space"), a)
  else (.ok (), { a with stackBase := base, stackSize := size })

def setGuardSize (size : UInt64) : Attributes := { a with guardSize := size }

def setAffinity (cpus : CpuSet) : Except Error Unit × Attributes :=
  if cpus.isEmpty then (.error (.invalidArgument "empty cpu set"), a)
  else (.ok (), { a with affinity := some cpus })

/-- The system's scope is accepted and the process's is known but not supported. -/
def setScope (scope : Int32) : Except Error Unit × Attributes :=
  if scope = systemScope then (.ok (), a)
  else if scope = processScope then (.error (.notSupported "process contention scope"), a)
  else (.error (.invalidArgument "unknown contention scope"), a)

def usesBorrowedStack : Bool := a.stackBase != 0

/-- Checks the attributes as a whole. -/
def validate : Except Error Unit :=
  if a.stackSize < minStackSize then .error (.invalidArgument "stack size below minimum")
  else if a.usesBorrowedStack ∧ (a.stackBase % pageSize ≠ 0 ∨ a.stackSize % pageSize ≠ 0) then
    .error (.invalidArgument "stack not page aligned")
  else if (Word.pageRoundUp? a.stackSize).isNone ∨ (Word.pageRoundUp? a.guardSize).isNone then
    .error (.invalidArgument "stack or guard size overflows")
  else .ok ()

end Attributes
end Threading
