import Threading.LockOrder.Node

/-!
# The report of a predicted deadlock

A report names the lock that closes a cycle, the locks its thread already holds
and the order of acquisitions that the new one contradicts, read backwards. Call
stacks are part of it only where the observer keeps them; without them each call
stack of a report is empty.
-/
namespace Threading.LockOrder

/-- A mutex with the call stack that goes with it. -/
structure Site where
  mutex : UInt64
  stack : CallStack
  deriving DecidableEq, Repr

structure Report where
  tid : Tid
  /-- The lock whose acquisition closes the cycle. -/
  attempt : UInt64
  /-- The locks held before, most recent first. -/
  held : List Site
  /-- The path of recorded edges from the attempted lock to the most recent one,
  last lock first. -/
  order : List Site
  deriving DecidableEq, Repr

/-- The tag of every line of the observer. -/
def logTag : String := "lockorder"

namespace Report

def startBanner : String := "=============== predicted deadlock ==============="

def endBanner : String := "=============== end predicted deadlock ==============="

/-- The line that names a mutex. -/
def mutexLine (mutex : UInt64) : String :=
  "--- mutex at " ++ Text.hexadecimal mutex.toNat

/-- A mutex and the frames that go with it. -/
def siteLines (symbols : Symbols) (s : Site) : List String :=
  mutexLine s.mutex :: s.stack.lines symbols

/-- The messages of a report in the process `pid`; `here` is the call stack of the
offending acquisition, and program counters are looked up in `symbols`. -/
def lines (r : Report) (pid : Tid) (here : CallStack) (symbols : Symbols) : List String :=
  [startBanner,
    "pid: " ++ Text.signedDecimal pid.toInt ++ ", tid: " ++ Text.signedDecimal r.tid.toInt ++
      " >>> lock order violation <<<",
    "Illegal lock attempt:"] ++
  siteLines symbols ⟨r.attempt, here⟩ ++
  ["+++ Currently held locks in this thread (in reverse order):"] ++
  r.held.flatMap (siteLines symbols) ++
  ["+++ Earlier, the following lock order (from last to first) was established"] ++
  r.order.flatMap (siteLines symbols) ++
  [endBanner]

end Report
end Threading.LockOrder
