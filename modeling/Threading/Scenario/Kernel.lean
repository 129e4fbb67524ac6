import Threading.ThreadGroup

/-!
# The kernel's part in a scenario

The threads of a scenario run at the same time, so a run depends on who goes on when,
and on what the kernel answers to the requests for threads. All of this is given
beforehand: whenever several threads can go on, the kernel has chosen one. A run for
every kernel is a run under every schedule.
-/
namespace Threading.Scenario

/-- The addresses of the two mutexes of the lock-order scenario. -/
structure LockPair where
  /-- The lock that workers take first. -/
  outer : UInt64 := 0x5500000000c0
  /-- The lock that workers take second. -/
  inner : UInt64 := 0x550000000100
  distinct : outer ≠ inner := by decide

/-- The kernel's part in a run, with the places and call stacks of the program it runs. A
point is a moment of the run at which some thread goes on, counted from 0. -/
structure Kernel where
  /-- The time stamp of every record. -/
  now : String
  /-- The id of the thread that runs the scenario. -/
  conductor : Tid
  /-- The ids of the host threads that create threads for it. -/
  creator : Nat → Tid
  /-- What is answered to each request for a thread, counted from 0, in a process as it is
  by then. -/
  launch : Nat → ThreadGroup → Launch
  /-- Who goes on at a point: a position among those that can, around and around. -/
  turn : Nat → Nat := fun _ => 0
  /-- The call stack of the thread that goes on at a point. -/
  here : Nat → LockOrder.CallStack := fun _ => .empty
  /-- How long each request for a thread takes, in nanoseconds. -/
  latency : Nat → UInt64 := fun _ => 0
  locks : LockPair := {}

namespace Kernel

/-- Room for one thread's memory. -/
def stride : UInt64 := 0x1000000000

/-- A kernel that gives every thread an id and room of its own and refuses only
what `mapAt` refuses. The thread that runs the scenario goes on whenever it can, and of
the others the eldest. -/
def plain (now : String) (pid : Tid) : Kernel where
  now
  conductor := pid
  creator n := pid + 1 + 2 * Int32.ofNat n
  launch n _ :=
    { map := mapAt (0x100000000000 + UInt64.ofNat n * stride)
      tid := pid + 2 + 2 * Int32.ofNat n }

end Kernel
end Threading.Scenario
