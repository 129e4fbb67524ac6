import Threading.Scenario.Kernel

/-!
# Workers

A worker of the lock-order scenario takes two locks, one within the other, again and
again, and counts the rounds in which locking failed. It does one call at a time; a call
to lock that has to wait goes on once the lock is free. In the end it returns its count,
and then its task is gone.
-/
namespace Threading.Scenario

/-- What a worker does next. -/
inductive Worker.Position where
  /-- It begins a round, or returns if none is left. -/
  | apart
  /-- It waits for the outer lock. -/
  | awaitsOuter
  /-- It holds the outer lock and calls for the inner one. -/
  | holdsOuter
  /-- It holds the outer lock and waits for the inner one. -/
  | awaitsInner
  /-- It holds both locks and releases the inner one. -/
  | holdsBoth
  /-- It releases the outer lock. -/
  | releases
  /-- It has departed, and its task is about to be gone. -/
  | departed
  deriving DecidableEq, Repr

structure Worker where
  block : BlockId
  tid : Tid
  /-- The rounds it has not begun yet. -/
  rounds : Nat
  /-- The rounds in which locking failed. -/
  failed : Nat := 0
  position : Worker.Position := .apart
  deriving DecidableEq, Repr

namespace Worker

variable (k : Kernel) (point : Nat) (w : Worker) (p : ThreadGroup)

/-- Whether a worker can go on. -/
def able : Bool :=
  match w.position with
  | .awaitsOuter => !(p.locks.mutexes.get k.locks.outer).isLocked
  | .awaitsInner => !(p.locks.mutexes.get k.locks.inner).isLocked
  | _ => true

/-- How a call to lock leads on: to one position if it succeeds, to another if it fails
and the round counts, and to a third if it waits. -/
def callLock (id : UInt64) (granted refused waiting : Position) :
    Option (Worker × ThreadGroup) :=
  (p.lock id w.tid (k.here point)).map fun
    | (p, .done (.ok ())) => ({ w with position := granted }, p)
    | (p, .done (.error _)) => ({ w with position := refused, failed := w.failed + 1 }, p)
    | (p, .waits) => ({ w with position := waiting }, p)

/-- A wait for a lock ends. -/
def resumeLock (id : UInt64) (granted : Position) : Option (Worker × ThreadGroup) :=
  (p.handTo id w.tid (k.here point)).map fun p => ({ w with position := granted }, p)

/-- A release leads on whatever comes of it. -/
def callUnlock (id : UInt64) (next : Position) : Option (Worker × ThreadGroup) :=
  (p.unlock id w.tid).map fun (p, _) => ({ w with position := next }, p)

/-- The next step of a worker; it is there no more after its last one, and there is no
result if a call never returns. -/
def act : Option (Option Worker × ThreadGroup) :=
  let goesOn : Worker × ThreadGroup → Option Worker × ThreadGroup := fun (w, p) => (some w, p)
  match w.position, w.rounds with
  | .apart, 0 =>
    (p.returnWith w.block (UInt64.ofNat w.failed)).map fun (_, p) =>
      (some { w with position := .departed }, p)
  | .apart, n + 1 =>
    ({ w with rounds := n }.callLock k point p k.locks.outer .holdsOuter .apart
      .awaitsOuter).map goesOn
  | .awaitsOuter, _ => (w.resumeLock k point p k.locks.outer .holdsOuter).map goesOn
  | .holdsOuter, _ =>
    (w.callLock k point p k.locks.inner .holdsBoth .releases .awaitsInner).map goesOn
  | .awaitsInner, _ => (w.resumeLock k point p k.locks.inner .holdsBoth).map goesOn
  | .holdsBoth, _ => (w.callUnlock p k.locks.inner .releases).map goesOn
  | .releases, _ => (w.callUnlock p k.locks.outer .apart).map goesOn
  | .departed, _ => some (none, p.expire w.block)

/-- How many steps a worker has left at most. -/
def left : Nat :=
  match w.position with
  | .apart => 7 * w.rounds + 2
  | .awaitsOuter => 7 * w.rounds + 8
  | .holdsOuter => 7 * w.rounds + 7
  | .awaitsInner => 7 * w.rounds + 6
  | .holdsBoth => 7 * w.rounds + 5
  | .releases => 7 * w.rounds + 4
  | .departed => 1

variable {k point w p} {w' : Worker} {w? : Option Worker} {p' : ThreadGroup}

theorem rounds_callLock {id : UInt64} {granted refused waiting : Position}
    (h : w.callLock k point p id granted refused waiting = some (w', p')) :
    w'.rounds = w.rounds ∧
      (w'.position = granted ∨ w'.position = refused ∨ w'.position = waiting) := by
  obtain ⟨⟨q, answer⟩, -, heq⟩ := Option.map_eq_some_iff.1 h
  rcases answer with (_ | _) | _ <;> cases heq <;> simp

/-- Every step brings a worker closer to its end. -/
theorem left_act (h : w.act k point p = some (w?, p')) :
    (w?.map left).getD 0 < w.left := by
  rw [act] at h
  cases hposition : w.position <;> simp only [hposition] at h
  case apart =>
    cases hrounds : w.rounds <;> simp only [hrounds] at h
    case zero =>
      obtain ⟨_, -, heq⟩ := Option.map_eq_some_iff.1 h
      cases heq
      simp [left, hposition]
    case succ n =>
      obtain ⟨⟨w', q⟩, hcall, heq⟩ := Option.map_eq_some_iff.1 h
      cases heq
      obtain ⟨hr, hp⟩ := rounds_callLock hcall
      obtain hp | hp | hp := hp <;> simp [left, hposition, hr, hp, hrounds] <;> omega
  case holdsOuter =>
    obtain ⟨⟨w', q⟩, hcall, heq⟩ := Option.map_eq_some_iff.1 h
    cases heq
    obtain ⟨hr, hp⟩ := rounds_callLock hcall
    obtain hp | hp | hp := hp <;> simp [left, hposition, hr, hp]
  case departed =>
    cases h
    simp [left, hposition]
  all_goals
    obtain ⟨⟨w', q⟩, hcall, heq⟩ := Option.map_eq_some_iff.1 h
    cases heq
    obtain ⟨_, -, heq⟩ := Option.map_eq_some_iff.1 hcall
    cases heq
    simp [left, hposition]

end Worker
end Threading.Scenario
