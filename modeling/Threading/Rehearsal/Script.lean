import Threading.Json.Access
import Threading.Rehearsal.Act
import Threading.Rehearsal.Launch

/-!
# Scripts

Actions and wishes can be written as JSON objects. The field `do` names an action,
and the others say what it is about: `m` is a mutex, by name or by address, `of` is
a thread, `id` a cleanup routine.
-/
namespace Threading

/-- The addresses of mutexes that have names. -/
abbrev MutexNames := List (String × UInt64)

/-- The address of the mutex in a field. -/
def MutexNames.address? (names : MutexNames) (j : Json) (key : String) : Option UInt64 :=
  (j.get? key).bind fun v =>
    ((names.find? fun (name, _) => v.asString? = some name).map (·.2)).or v.toWord?

/-- A scheduling policy with a priority. -/
def Wish.schedOfJson? : List Json → Option (SchedPolicy × Int32)
  | [.string policy, priority] => do
    some (← named? policy, Int32.ofInt (← priority.toInteger?))
  | _ => none

/-- The wish that an object describes. -/
def Wish.ofJson? (j : Json) : Option Wish := do
  let sched ← (j.items? "sched").mapM schedOfJson?
  let affinity ← (j.items? "affinity").mapM (·.mapM Json.toNatural?)
  some
    { detached := j.isOn "detached"
      guardSize := j.word? "guard_size"
      stackSize := j.word? "stack_size"
      borrowed := j.word? "borrowed"
      resize := j.word? "resize"
      sched, affinity }

namespace Rehearsal

/-- The action that an object describes. -/
def Action.ofJson? (names : MutexNames) (j : Json) : Option Action := do
  let m := names.address? j "m"
  let thread := j.text? "of"
  let value := (j.word? "value").getD 0
  match ← j.text? "do" with
  | "lock" => some (.lock (← m))
  | "try_lock" => some (.tryLock (← m))
  | "unlock" => some (.unlock (← m))
  | "observe" => some (.observe (← m))
  | "unobserve" => some (.unobserve (← m))
  | "push" => some (.pushCleanup (← j.natural? "id"))
  | "pop" => some (.popCleanup (j.isOn "run"))
  | "self" => some .whoAmI
  | "register" => some .threadPointer
  | "join" => some (.join (← thread))
  | "detach" => some (.detach (← thread))
  | "exit" => some (.exit value)
  | "return" => some (.leave value)
  | _ => none

end Rehearsal
end Threading
