/-!
# The three-state futex mutex

The mutex is one word: 0 when free, 1 when locked and 2 when locked with threads
that may be asleep. A thread goes through its calls one atomic operation at a
time; `Point.next` says what it does next and what that does to the word. A thread
sleeps only if the word is 2 at that moment, and the unlocker that swaps a 2 out
owes one wake. `System` is any number of threads interleaved in any order.

A call that no other thread interferes with is a run of such steps, so the calls
used everywhere else are defined by running them.
-/
namespace Threading.Futex.Mutex

/-- Where a thread stands in its use of the mutex. -/
inductive Point where
  | idle
  /-- In `lock`, about to swap 0 for 1. -/
  | entering
  /-- In the slow path of `lock`, about to read the word. -/
  | looking
  /-- Has read 0, about to swap 0 for 2. -/
  | claiming
  /-- Has read 1, about to swap 1 for 2. -/
  | marking
  /-- About to sleep if the word is 2. -/
  | waiting
  | asleep
  /-- In `try_lock`, about to swap 0 for 1. -/
  | trying
  | holding
  /-- In `unlock`, about to swap in 0. -/
  | releasing
  /-- Has swapped out 2 and owes a wake. -/
  | waking
  deriving DecidableEq, Repr

/-- The thread is in the slow path and awake. -/
def Point.isLooking : Point → Bool
  | looking | claiming | marking | waiting => true
  | _ => false

/-- The next atomic operation of a thread: where it leads and what the word
becomes. Nothing happens to a thread that is idle, asleep or holds the mutex until
it is called or woken. -/
def Point.next (word : UInt32) : Point → Option (Point × UInt32)
  | entering => some (if word = 0 then (holding, 1) else (looking, word))
  | looking =>
    some (if word = 0 then claiming else if word = 1 then marking else waiting, word)
  | claiming => some (if word = 0 then (holding, 2) else (looking, word))
  | marking => some (waiting, if word = 1 then 2 else word)
  | waiting => some (if word = 2 then asleep else looking, word)
  | trying => some (if word = 0 then (holding, 1) else (idle, word))
  | releasing => some (if word = 2 then waking else idle, 0)
  | waking => some (idle, word)
  | idle | asleep | holding => none

/-! ## Threads interleaved -/

/-- The word and where every thread stands. -/
structure System where
  word : UInt32
  point : Nat → Point

namespace System

/-- Nobody uses the mutex. -/
def initial : System := ⟨0, fun _ => .idle⟩

/-- The system with one thread moved. -/
def move (s : System) (i : Nat) (p : Point) : System :=
  { s with point := fun j => if j = i then p else s.point j }

/-- What can happen next. -/
inductive Step : System → System → Prop where
  | callLock (s : System) (i : Nat) : s.point i = .idle → Step s (s.move i .entering)
  | callTryLock (s : System) (i : Nat) : s.point i = .idle → Step s (s.move i .trying)
  | callUnlock (s : System) (i : Nat) : s.point i = .holding → Step s (s.move i .releasing)
  /-- A thread that owes no wake does its next operation. -/
  | operate (s : System) (i : Nat) (p : Point) (word : UInt32) : s.point i ≠ .waking →
      (s.point i).next s.word = some (p, word) → Step s { s.move i p with word }
  /-- A wake reaches one sleeper. -/
  | wake (s : System) (i j : Nat) : s.point i = .waking → s.point j = .asleep →
      Step s ((s.move i .idle).move j .looking)
  /-- A wake finds nobody asleep. -/
  | wakeNobody (s : System) (i : Nat) : s.point i = .waking → (∀ j, s.point j ≠ .asleep) →
      Step s (s.move i .idle)
  /-- A sleeper wakes without reason. -/
  | wakeSpuriously (s : System) (i : Nat) : s.point i = .asleep → Step s (s.move i .looking)

/-- The states that interleavings lead to. -/
inductive Reachable : System → Prop where
  | initial : Reachable initial
  | step {s t : System} : Reachable s → Step s t → Reachable t

end System

/-! ## Calls without interference -/

/-- Runs one thread for at most `n` operations. -/
def runAlone : (n : Nat) → UInt32 → Point → UInt32 × Point
  | 0, word, p => (word, p)
  | n + 1, word, p =>
    match p.next word with
    | none => (word, p)
    | some (p, word) => runAlone n word p

/-- The most operations between the start of a call and its end or its sleep. -/
def callLength : Nat := 6

def isLocked (word : UInt32) : Bool := word != 0

/-- The word after a successful attempt to lock without waiting. -/
def tryLock? (word : UInt32) : Option UInt32 :=
  match runAlone callLength word .trying with
  | (word, .holding) => some word
  | _ => none

/-- The word after an unlock. -/
def unlock (word : UInt32) : UInt32 := (runAlone callLength word .releasing).1

/-- The word after a thread that sleeps on a locked mutex was handed the mutex by
an unlock: the thread marks the mutex, sleeps, is woken and claims it. -/
def handOver (word : UInt32) : UInt32 :=
  let (word, _) := runAlone callLength word .entering
  (runAlone callLength (unlock word) .looking).1

/-- How an acquisition goes. -/
inductive Acquisition where
  | immediate
  /-- The thread sleeps until the holder releases. -/
  | afterRelease
  /-- Nobody is known to release. -/
  | wouldBlock
  deriving DecidableEq, Repr

/-- Locks on behalf of the first waiter: the holder of a mutex nobody waits for
yet gives way to it. -/
def lock (word : UInt32) : Acquisition × UInt32 :=
  match runAlone callLength word .entering with
  | (word, .holding) => (.immediate, word)
  | _ => if word = 1 then (.afterRelease, handOver word) else (.wouldBlock, word)

@[simp] theorem tryLock?_zero : tryLock? 0 = some 1 := by decide

theorem tryLock?_of_ne {word : UInt32} (h : word ≠ 0) : tryLock? word = none := by
  simp [tryLock?, callLength, runAlone, Point.next, h]

@[simp] theorem lock_zero : lock 0 = (.immediate, 1) := by decide

/-- A locked mutex is not acquired at once. -/
theorem lock_of_ne {word : UInt32} (h : word ≠ 0) : (lock word).1 ≠ .immediate := by
  by_cases hone : word = 1
  · subst hone
    decide
  · by_cases htwo : word = 2
    · subst htwo
      decide
    · simp [lock, callLength, runAlone, Point.next, h, hone, htwo]

@[simp] theorem unlock_eq (word : UInt32) : unlock word = 0 := by
  by_cases h : word = 2 <;> simp [unlock, callLength, runAlone, Point.next, h]

end Threading.Futex.Mutex
