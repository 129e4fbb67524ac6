import Threading.Settings

/-!
# The settings of a process

Every setting is read from its environment variable at most once and kept in a
byte. The byte 0 means that nothing was read yet and 255 that some thread is
reading right now; a caller that finds 255 gets the default and leaves the byte
alone. Setting a value by hand bypasses the environment.
-/
namespace Threading.Settings

/-- The environment variables. A value that is no valid UTF-8 counts as unset
and has no place here. -/
structure Environment where
  level : Option String := none
  policy : Option String := none
  priority : Option String := none
  deriving DecidableEq, Repr, Inhabited

namespace Environment

/-- The names of the variables. -/
def levelVariable : String := "STRAND_PTHREAD_DEBUG"

def policyVariable : String := "STRAND_SCHED_FAILURE"

def priorityVariable : String := "STRAND_LOG"

/-- The environment in which `value?` gives the values of variables. -/
def ofVariables (value? : String → Option String) : Environment where
  level := value? levelVariable
  policy := value? policyVariable
  priority := value? priorityVariable

end Environment

/-- The kept bytes. -/
structure Cache where
  level : UInt8 := 0
  policy : UInt8 := 0
  priority : UInt8 := 0
  deriving DecidableEq, Repr, Inhabited

namespace Cache

/-- The byte of a setting that has not been read yet. -/
def unresolved : UInt8 := 0

/-- The byte of a setting that is being read. -/
def resolving : UInt8 := 255

/-- The kept byte, or `fresh` when nothing was read yet. The result is what the
byte becomes. -/
def settle (byte fresh : UInt8) : UInt8 :=
  if byte = unresolved then fresh else byte

variable (env : Environment) (c : Cache)

def resolveLevel : Cache :=
  { c with level := settle c.level ((env.level.map LockDebugLevel.ofText).getD default).toByte }

def resolvePolicy : Cache :=
  { c with policy :=
      settle c.policy ((env.policy.map SchedFailurePolicy.ofText).getD default).toByte }

def resolvePriority : Cache :=
  { c with priority :=
      settle c.priority ((env.priority.map LogPriority.ofText).getD default).toByte }

/-- Reads every setting now. -/
def resolveAll : Cache :=
  ((c.resolveLevel env).resolvePolicy env).resolvePriority env

/-- The level, read on first use. -/
def getLevel : LockDebugLevel × Cache :=
  let c := c.resolveLevel env
  (.ofByte c.level, c)

/-- The policy, read on first use. -/
def getPolicy : SchedFailurePolicy × Cache :=
  let c := c.resolvePolicy env
  (.ofByte c.policy, c)

/-- The minimum priority, read on first use. -/
def getPriority : LogPriority × Cache :=
  let c := c.resolvePriority env
  (.ofByte c.priority, c)

/-- Whether a line of priority `p` would be written; this reads the minimum. -/
def isLogged (p : LogPriority) : Bool × Cache :=
  let (least, c) := c.getPriority env
  (least.passes p, c)

def setLevel (l : LockDebugLevel) : Cache := { c with level := l.toByte }

def setPolicy (p : SchedFailurePolicy) : Cache := { c with policy := p.toByte }

def setPriority (p : LogPriority) : Cache := { c with priority := p.toByte }

end Cache

/-- The settings a process starts with, all read from its environment. -/
def ofEnvironment (env : Environment) : Settings where
  level := ((default : Cache).getLevel env).1
  policy := ((default : Cache).getPolicy env).1
  priority := ((default : Cache).getPriority env).1

end Threading.Settings
