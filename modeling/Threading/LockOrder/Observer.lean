import Threading.LockOrder.Graph
import Threading.Settings

/-!
# The observer

While the debug level enables it, the observer is told of every acquisition and of
every release, and keeps the lock graph. The first time it works or a thread is
created, it announces its level. What it predicts is only logged; the acquisition
goes ahead.
-/
namespace Threading.LockOrder

/-- Something the observer logs. -/
inductive Notice where
  /-- The observer works, at this level. -/
  | enabled (level : LockDebugLevel)
  | predicted (report : Report)
  deriving DecidableEq, Repr

namespace Notice

def priority : Notice → LogPriority
  | enabled _ => .info
  | predicted _ => .warn

/-- The messages of a notice in the process `pid`; `here` is the call stack of the
thread that logs it, and `symbols` what it can look up. -/
def messages (pid : Tid) (here : CallStack) (symbols : Symbols) : Notice → List String
  | enabled level =>
    ["pthread deadlock detection level " ++ Text.decimal level.rank ++ " enabled for pid " ++
      Text.signedDecimal pid.toInt]
  | predicted report => report.lines pid here symbols

/-- The lines of a notice, logged by the thread `t`. -/
def lines (n : Notice) (pid t : Tid) (here : CallStack) (symbols : Symbols) : List Log.Line :=
  (n.messages pid here symbols).map fun message => ⟨n.priority, logTag, t, message⟩

end Notice

structure Observer where
  graph : Graph := .empty
  /-- Whether the level has been announced. -/
  announced : Bool := false

namespace Observer

instance : Inhabited Observer := ⟨{}⟩

variable (o : Observer)

/-- Announces the level, once. -/
def prepare (level : LockDebugLevel) : Observer × List Notice :=
  if level.isEnabled && !o.announced then ({ o with announced := true }, [.enabled level])
  else (o, [])

/-- The thread `t` holds the mutex `m` now; the outcome is none while the observer
is off. There is no result at all if the observer would never return. -/
def onLock (level : LockDebugLevel) (m : UInt64) (t : Tid) (here : CallStack) :
    Option (Observer × Option Outcome × List Notice) :=
  if !level.isEnabled then some (o, none, [])
  else
    let (o, notices) := o.prepare level
    let stack := if level.capturesStacks then some here else none
    (o.graph.onLock m t stack level.capturesStacks).map fun (graph, outcome, report) =>
      ({ o with graph }, some outcome, notices ++ (report.map .predicted).toList)

/-- The thread `t` is about to release the mutex `m`. -/
def onUnlock (level : LockDebugLevel) (m : UInt64) (t : Tid) : Option Observer :=
  if !level.isEnabled then some o
  else (o.graph.onUnlock m t).map fun graph => { o with graph }

/-- The thread `t` exits. -/
def forget (level : LockDebugLevel) (t : Tid) : Observer :=
  if level.isEnabled then { o with graph := o.graph.forgetThread t } else o

/-- How many locks a thread holds, as far as the observer knows; none if its list
has no end. -/
def heldCount? (t : Tid) : Option Nat := (o.graph.held? t).map (·.length)

end Observer
end Threading.LockOrder
