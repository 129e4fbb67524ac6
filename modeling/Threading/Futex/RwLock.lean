/-!
# The futex reader-writer lock

The word counts the readers inside or holds its largest value while a writer is
inside; a second word counts the threads that are about to sleep. Taking the lock,
counting oneself as a waiter and going to sleep are separate atomic operations, as
are changing the word and reading the number of waiters on the way out. `System`
interleaves any number of threads.

Calls without interference are runs of the same operations.
-/
namespace Threading.Futex.RwLock

/-- The word while a writer is inside. -/
def writer : UInt32 := 0xffffffff

/-- Which way a thread wants in. -/
inductive Side where
  | shared
  | exclusive
  deriving DecidableEq, Repr

/-- Where a thread stands in its use of the lock. -/
inductive Point where
  | idle
  /-- About to read the word, or to swap 0 for the writer's value. -/
  | looking (side : Side)
  /-- A reader that has read `seen`, about to swap it for one more. -/
  | joining (seen : UInt32)
  /-- Has read `seen`, about to count itself as a waiter. -/
  | counting (side : Side) (seen : UInt32)
  /-- About to sleep if the word is still `seen`. -/
  | waiting (side : Side) (seen : UInt32)
  | asleep (side : Side)
  /-- Awake again, about to count itself out. -/
  | leaving (side : Side)
  /-- In a call that does not wait, about to read or swap. -/
  | trying (side : Side)
  | tryJoining (seen : UInt32)
  | inside (side : Side)
  /-- About to change the word on the way out. -/
  | releasing (side : Side)
  /-- Has changed the word, about to read the number of waiters. -/
  | checking
  /-- Owes every sleeper a wake. -/
  | waking
  deriving DecidableEq, Repr

/-- The two words of the lock. -/
structure Words where
  word : UInt32 := 0
  waiters : UInt32 := 0
  deriving DecidableEq, Repr, Inhabited

/-- The next atomic operation of a thread: where it leads and what the words
become. -/
def Point.next (w : Words) : Point → Option (Point × Words)
  | looking .shared =>
    some (if w.word < writer - 1 then joining w.word else counting .shared w.word, w)
  | looking .exclusive =>
    some (if w.word = 0 then (inside .exclusive, { w with word := writer })
      else (counting .exclusive w.word, w))
  | joining seen =>
    some (if w.word = seen then (inside .shared, { w with word := seen + 1 })
      else (looking .shared, w))
  | counting side seen => some (waiting side seen, { w with waiters := w.waiters + 1 })
  | waiting side seen => some (if w.word = seen then asleep side else leaving side, w)
  | leaving side => some (looking side, { w with waiters := w.waiters - 1 })
  | trying .shared => some (if w.word < writer - 1 then tryJoining w.word else idle, w)
  | trying .exclusive =>
    some (if w.word = 0 then (inside .exclusive, { w with word := writer }) else (idle, w))
  | tryJoining seen =>
    some (if w.word = seen then (inside .shared, { w with word := seen + 1 }) else (idle, w))
  | releasing .shared =>
    some (if w.word = 1 then checking else idle, { w with word := w.word - 1 })
  | releasing .exclusive => some (checking, { w with word := 0 })
  | checking => some (if w.waiters ≠ 0 then waking else idle, w)
  | waking => some (idle, w)
  | idle | asleep _ | inside _ => none

/-! ## Threads interleaved -/

structure System where
  words : Words
  point : Nat → Point

namespace System

/-- Nobody uses the lock. -/
def initial : System := ⟨{}, fun _ => .idle⟩

def move (s : System) (i : Nat) (p : Point) : System :=
  { s with point := fun j => if j = i then p else s.point j }

/-- Every sleeper woken. -/
def wakeAll (s : System) : System :=
  { s with point := fun j =>
      match s.point j with
      | .asleep side => .leaving side
      | p => p }

/-- What can happen next. -/
inductive Step : System → System → Prop where
  | call (s : System) (i : Nat) (side : Side) : s.point i = .idle →
      Step s (s.move i (.looking side))
  | callTry (s : System) (i : Nat) (side : Side) : s.point i = .idle →
      Step s (s.move i (.trying side))
  | callUnlock (s : System) (i : Nat) (side : Side) : s.point i = .inside side →
      Step s (s.move i (.releasing side))
  /-- A thread that owes no wake does its next operation. -/
  | operate (s : System) (i : Nat) (p : Point) (words : Words) : s.point i ≠ .waking →
      (s.point i).next s.words = some (p, words) → Step s { s.move i p with words }
  /-- A swap that could succeed fails without reason. -/
  | failSwap (s : System) (i : Nat) (seen : UInt32) : s.point i = .joining seen →
      Step s (s.move i (.looking .shared))
  | wake (s : System) (i : Nat) : s.point i = .waking → Step s (s.wakeAll.move i .idle)
  /-- A sleeper wakes without reason. -/
  | wakeSpuriously (s : System) (i : Nat) (side : Side) : s.point i = .asleep side →
      Step s (s.move i (.leaving side))

/-- The states that interleavings lead to. -/
inductive Reachable : System → Prop where
  | initial : Reachable initial
  | step {s t : System} : Reachable s → Step s t → Reachable t

end System

/-! ## Calls without interference -/

/-- Runs one thread for at most `n` operations. -/
def runAlone : (n : Nat) → Words → Point → Words × Point
  | 0, w, p => (w, p)
  | n + 1, w, p =>
    match p.next w with
    | none => (w, p)
    | some (p, w) => runAlone n w p

/-- The most operations between the start of a call and its end or its sleep. -/
def callLength : Nat := 4

def isLocked (w : Words) : Bool := w.word != 0

/-- The words after a successful attempt to get in without waiting. -/
def tryLock? (side : Side) (w : Words) : Option Words :=
  match runAlone callLength w (.trying side) with
  | (w, .inside _) => some w
  | _ => none

/-- The words after leaving on the given side. -/
def unlock (side : Side) (w : Words) : Words := (runAlone callLength w (.releasing side)).1

/-- How an acquisition goes. -/
inductive Acquisition where
  | immediate
  /-- The thread sleeps until the only other one inside leaves. -/
  | afterRelease
  /-- Nobody is known to make room. -/
  | wouldBlock
  deriving DecidableEq, Repr

/-- The side of the only thread inside, when there is exactly one whose leaving
admits the given side. -/
def soleHolder? (side : Side) (word : UInt32) : Option Side :=
  if word = writer then some .exclusive
  else if word = 1 ∧ side = .exclusive then some .shared
  else none

/-- Gets in; a thread that has to sleep is let in by the only other one inside. -/
def lock (side : Side) (w : Words) : Acquisition × Words :=
  match runAlone callLength w (.looking side) with
  | (w, .inside _) => (.immediate, w)
  | (asleep, _) =>
    match soleHolder? side w.word with
    | none => (.wouldBlock, w)
    | some holder => (.afterRelease, (runAlone callLength (unlock holder asleep) (.leaving side)).1)

end Threading.Futex.RwLock
