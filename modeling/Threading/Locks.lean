import Threading.LockOrder.Observer
import Threading.Mutex

/-!
# Mutexes under observation

The mutexes of a process with the observer that watches them. Every acquisition is
reported after it happened, every release before it happens, and nothing is
reported of a call that fails. A call has no result if the observer would never
return from it.
-/
namespace Threading

open LockOrder (CallStack Notice Observer)

/-- Mutexes by their address; an address without an entry is a fresh normal mutex. -/
abbrev MutexTable := List (UInt64 × Mutex)

namespace MutexTable

def get (table : MutexTable) (id : UInt64) : Mutex :=
  ((table.find? (·.1 = id)).map (·.2)).getD {}

def set (id : UInt64) (m : Mutex) : MutexTable → MutexTable
  | [] => [(id, m)]
  | (i, n) :: rest => if i = id then (id, m) :: rest else (i, n) :: set id m rest

@[simp] theorem get_set_self (table : MutexTable) (id : UInt64) (m : Mutex) :
    get (set id m table) id = m := by
  induction table with
  | nil => simp [get, set]
  | cons p rest ih =>
    obtain ⟨i, n⟩ := p
    by_cases h : i = id
    · simp [get, set, h]
    · simpa [get, set, h] using ih

theorem get_set_of_ne (table : MutexTable) {id other : UInt64} (m : Mutex) (h : other ≠ id) :
    get (set id m table) other = get table other := by
  induction table with
  | nil => simp [get, set, Ne.symm h]
  | cons p rest ih =>
    obtain ⟨i, n⟩ := p
    by_cases hi : i = id
    · subst hi
      simp [get, set, Ne.symm h]
    · by_cases ho : i = other
      · subst ho
        simp [get, set, h]
      · simpa [get, set, hi, ho] using ih

end MutexTable

structure Locks where
  observer : Observer := {}
  mutexes : MutexTable := []

namespace Locks

instance : Inhabited Locks := ⟨{}⟩

/-- How a call that may wait ends. -/
inductive Answer where
  | done (result : Except Error Unit)
  | waits

variable (l : Locks) (level : LockDebugLevel)

/-- Stores a mutex that `t` has just acquired and tells the observer. -/
def observed (id : UInt64) (m : Mutex) (t : Tid) (here : CallStack) :
    Option (Locks × List Notice) :=
  (l.observer.onLock level id t here).map fun (observer, _, notices) =>
    ({ l with observer, mutexes := l.mutexes.set id m }, notices)

/-- Carries out an attempt to lock. -/
def settle (id : UInt64) (t : Tid) (here : CallStack) :
    Mutex.Attempt → Option (Locks × Answer × List Notice)
  | .granted m => (l.observed level id m t here).map fun (l, notices) => (l, .done (.ok ()), notices)
  | .refused e => some (l, .done (.error e), [])
  | .waits => some (l, .waits, [])

/-- The thread `t` locks a mutex; if it has to wait, nothing has happened yet. -/
def lock (id : UInt64) (t : Tid) (here : CallStack) : Option (Locks × Answer × List Notice) :=
  l.settle level id t here ((l.mutexes.get id).lock t)

/-- The thread `t` locks a mutex without waiting. -/
def tryLock (id : UInt64) (t : Tid) (here : CallStack) :
    Option (Locks × Answer × List Notice) :=
  l.settle level id t here ((l.mutexes.get id).tryLock t)

/-- The thread `t`, which waited for a mutex that is free now, acquires it. -/
def handTo (id : UInt64) (t : Tid) (here : CallStack) : Option (Locks × List Notice) :=
  l.observed level id ((l.mutexes.get id).handTo t) t here

/-- The thread `t` unlocks a mutex. -/
def unlock (id : UInt64) (t : Tid) : Option (Locks × Except Error Unit) :=
  match (l.mutexes.get id).unlock t with
  | .error e => some (l, .error e)
  | .ok m =>
    (l.observer.onUnlock level id t).map fun observer =>
      ({ l with observer, mutexes := l.mutexes.set id m }, .ok ())

end Locks
end Threading
