import Threading.Scenario.Kernel

/-!
# Creators and parked threads

In the spawn scenario host threads create threads, each of them its own number of them,
one after the other. A created thread takes the gate, which is a futex mutex, and
releases it again, so it is parked as long as someone else has the gate. Then it returns
the number it was given, and then its task is gone.
-/
namespace Threading.Scenario

/-- What a creator knows of a thread it has created. -/
structure Parked where
  handle : UInt64
  /-- What the thread was given to return. -/
  number : UInt64
  /-- How long the creation took, in nanoseconds. -/
  latency : UInt64
  deriving DecidableEq, Repr

/-! ## The gate -/

namespace Gate

/-- The word of the gate after a call to lock it, and whether that had the gate at once. -/
def enter (gate : UInt32) : Bool × UInt32 :=
  let (gate, point) := Futex.Mutex.runAlone Futex.Mutex.callLength gate .entering
  (point = .holding, gate)

/-- The word of the gate after a sleeper was woken and has it. -/
def wake (gate : UInt32) : UInt32 :=
  (Futex.Mutex.runAlone Futex.Mutex.callLength gate .looking).1

def isClosed (gate : UInt32) : Bool := Futex.Mutex.isLocked gate

@[simp] theorem enter_zero : enter 0 = (true, 1) := by decide

@[simp] theorem wake_zero : wake 0 = 2 := by decide

theorem isClosed_eq_false {gate : UInt32} : isClosed gate = false ↔ gate = 0 := by
  simp [isClosed, Futex.Mutex.isLocked]

/-- A closed gate stays closed, and it is not had. -/
theorem enter_of_isClosed {gate : UInt32} (h : isClosed gate = true) :
    (enter gate).1 = false ∧ isClosed (enter gate).2 = true := by
  have hne : gate ≠ 0 := by simpa [isClosed, Futex.Mutex.isLocked] using h
  by_cases hone : gate = 1
  · subst hone
    decide
  · by_cases htwo : gate = 2
    · subst htwo
      decide
    · simp [enter, isClosed, Futex.Mutex.isLocked, Futex.Mutex.callLength,
        Futex.Mutex.runAlone, Futex.Mutex.Point.next, hne, hone, htwo]

end Gate

/-! ## Parked threads -/

/-- What a parked thread does next. -/
inductive Sleeper.Position where
  /-- It calls for the gate. -/
  | arriving
  /-- It waits for the gate. -/
  | asleep
  /-- It has the gate and releases it. -/
  | inside
  | returning
  /-- It has departed, and its task is about to be gone. -/
  | departed
  deriving DecidableEq, Repr

structure Sleeper where
  block : BlockId
  number : UInt64
  position : Sleeper.Position := .arriving
  deriving DecidableEq, Repr

namespace Sleeper

variable (t : Sleeper) (gate : UInt32) (p : ThreadGroup)

def able : Bool :=
  match t.position with
  | .asleep => !Gate.isClosed gate
  | _ => true

/-- The next step of a parked thread; it is there no more after its last one, and there is
no result if a call never returns. -/
def act : Option (Option Sleeper × UInt32 × ThreadGroup) :=
  match t.position with
  | .arriving =>
    let (had, gate) := Gate.enter gate
    some (some { t with position := if had then .inside else .asleep }, gate, p)
  | .asleep => some (some { t with position := .inside }, Gate.wake gate, p)
  | .inside => some (some { t with position := .returning }, Futex.Mutex.unlock gate, p)
  | .returning =>
    (p.returnWith t.block t.number).map fun (_, p) => (some { t with position := .departed }, gate, p)
  | .departed => some (none, gate, p.expire t.block)

/-- How many steps a parked thread has left at most. -/
def left : Nat :=
  match t.position with
  | .arriving => 5
  | .asleep => 4
  | .inside => 3
  | .returning => 2
  | .departed => 1

variable {t gate p} {t? : Option Sleeper} {gate' : UInt32} {p' : ThreadGroup}

theorem left_act (h : t.act gate p = some (t?, gate', p')) : (t?.map left).getD 0 < t.left := by
  rw [act] at h
  cases hposition : t.position <;> simp only [hposition] at h
  case arriving =>
    cases h
    cases (Gate.enter gate).1 <;> simp [left, hposition]
  case returning =>
    obtain ⟨_, -, heq⟩ := Option.map_eq_some_iff.1 h
    cases heq
    simp [left, hposition]
  all_goals
    cases h
    simp [left, hposition]

end Sleeper

/-! ## Creators -/

/-- A host thread that creates threads. -/
structure Creator where
  index : Nat
  attributes : Attributes
  /-- The requests it has yet to make, counted over all creators. -/
  next : List Nat
  /-- What came of the earlier ones, in order. -/
  results : List (Except Error Parked) := []

namespace Creator

variable (k : Kernel) (point : Nat) (c : Creator) (p : ThreadGroup)

/-- The next request of a creator, with the thread that comes of it. -/
def act : Option (Creator × Option Sleeper × ThreadGroup) :=
  match c.next with
  | [] => none
  | n :: rest =>
    let (result, p) :=
      p.create (k.creator c.index) (k.here point) (some c.attributes) (k.launch n p)
    let number := UInt64.ofNat (n + 1)
    let outcome := result.map fun i => (⟨p.handle i, number, k.latency n⟩ : Parked)
    some ({ c with next := rest, results := c.results ++ [outcome] },
      result.toOption.map fun i => { block := i, number }, p)

/-- How many steps a creator and the threads that come of its requests have left at most. -/
def left : Nat := 6 * c.next.length

variable {k point c p} {c' : Creator} {t? : Option Sleeper} {p' : ThreadGroup}

theorem left_act (h : c.act k point p = some (c', t?, p')) :
    c'.left + (t?.map Sleeper.left).getD 0 < c.left := by
  rw [act] at h
  split at h
  · cases h
  next n rest hnext =>
    cases h
    have hnew (created : Option BlockId) (number : UInt64) :
        ((created.map fun i => ({ block := i, number } : Sleeper)).map Sleeper.left).getD 0 ≤ 5 := by
      cases created <;> simp [Sleeper.left]
    rw [left, left, hnext, List.length_cons]
    exact Nat.add_lt_add_left (Nat.lt_succ_of_le (hnew _ _)) _

end Creator
end Threading.Scenario
