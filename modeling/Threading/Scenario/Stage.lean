import Threading.Record.Emitter
import Threading.Scenario.Parked
import Threading.Scenario.Summary
import Threading.Scenario.Worker

/-!
# The stage of a scenario

A scenario is run by one thread, its conductor, in a process with other threads, and
writes records. Between any two steps of the conductor the others may go on, each of them
any number of steps, as the kernel chooses; where the conductor waits, they must, and if
none of them can, the run never ends. The first record that cannot be written ends it.
Time is not modelled: what a record tells of a duration is 0.
-/
namespace Threading.Scenario

/-- A thread of a scenario other than the conductor. -/
inductive Player where
  | worker (w : Worker)
  | creator (c : Creator)
  | sleeper (t : Sleeper)

namespace Player

variable (k : Kernel) (point : Nat) (gate : UInt32) (p : ThreadGroup)

/-- Whether a thread can go on. -/
def able : Player → Bool
  | worker w => w.able k p
  | creator c => !c.next.isEmpty
  | sleeper t => t.able gate

/-- A step of a thread: who takes its place, the gate and the process. -/
def act : Player → Option (List Player × UInt32 × ThreadGroup)
  | worker w => (w.act k point p).map fun (w?, p) => ((w?.map worker).toList, gate, p)
  | creator c =>
    (c.act k point p).map fun (c, t?, p) => (creator c :: (t?.map sleeper).toList, gate, p)
  | sleeper t => (t.act gate p).map fun (t?, gate, p) => ((t?.map sleeper).toList, gate, p)

/-- How many steps a thread has left at most. -/
def left : Player → Nat
  | worker w => w.left
  | creator c => c.left
  | sleeper t => t.left

/-- How many steps some threads have left at most. -/
def leftAll : List Player → Nat
  | [] => 0
  | player :: players => player.left + leftAll players

theorem leftAll_append (players others : List Player) :
    leftAll (players ++ others) = leftAll players + leftAll others := by
  induction players with
  | nil => exact (Nat.zero_add _).symm
  | cons player players ih => rw [List.cons_append, leftAll, ih, leftAll, Nat.add_assoc]

variable {k point gate p} {player : Player} {players : List Player} {gate' : UInt32}
variable {p' : ThreadGroup}

theorem left_act (h : player.act k point gate p = some (players, gate', p')) :
    leftAll players < player.left := by
  cases player with
  | worker w =>
    obtain ⟨⟨w?, q⟩, hact, heq⟩ := Option.map_eq_some_iff.1 h
    cases heq
    have hlt := Worker.left_act hact
    cases w? <;> simpa [left, leftAll] using hlt
  | creator c =>
    obtain ⟨⟨c', t?, q⟩, hact, heq⟩ := Option.map_eq_some_iff.1 h
    cases heq
    have hlt := Creator.left_act hact
    cases t? <;> simpa [left, leftAll] using hlt
  | sleeper t =>
    obtain ⟨⟨t?, gate', q⟩, hact, heq⟩ := Option.map_eq_some_iff.1 h
    cases heq
    have hlt := Sleeper.left_act hact
    cases t? <;> simpa [left, leftAll] using hlt

end Player

structure Stage where
  group : ThreadGroup
  emitter : Record.Emitter
  /-- The word of the gate of the spawn scenario. -/
  gate : UInt32 := 0
  /-- The threads of the scenario that run beside the conductor. -/
  crew : List Player := []
  /-- How many steps have been chosen so far. -/
  point : Nat := 0

namespace Stage

variable (k : Kernel) (stage : Stage)

/-- The positions of the threads that can go on. -/
def able : List Nat :=
  (List.range stage.crew.length).filter fun i =>
    stage.crew[i]?.any (·.able k stage.gate stage.group)

/-- The thread at a position does its next step. -/
def act (i : Nat) : Option Stage :=
  match stage.crew[i]? with
  | none => none
  | some player =>
    (player.act k stage.point stage.gate stage.group).map fun (players, gate, group) =>
      { stage with
        group
        gate
        crew := stage.crew.take i ++ players ++ stage.crew.drop (i + 1)
        point := stage.point + 1 }

/-- How many steps the threads beside the conductor have left at most. -/
def left : Nat := Player.leftAll stage.crew

variable {k stage} {stage' : Stage}

theorem left_act {i : Nat} (h : stage.act k i = some stage') : stage'.left < stage.left := by
  rw [act] at h
  split at h
  · cases h
  next player hplayer =>
    obtain ⟨⟨players, gate, group⟩, hact, heq⟩ := Option.map_eq_some_iff.1 h
    cases heq
    have hlt := Player.left_act hact
    obtain ⟨hi, rfl⟩ := List.getElem?_eq_some_iff.1 hplayer
    have hsplit : stage.crew = stage.crew.take i ++ stage.crew[i] :: stage.crew.drop (i + 1) := by
      rw [List.getElem_cons_drop, List.take_append_drop]
    have hleft := congrArg Player.leftAll hsplit
    rw [Player.leftAll_append, Player.leftAll] at hleft
    rw [left, left, Player.leftAll_append, Player.leftAll_append, hleft]
    omega

variable (k)

/-- Who can go on next: the conductor, which is no position, if it is ready, and the others. -/
def choices (ready : Stage → Bool) (stage : Stage) : List (Option Nat) :=
  let others := (stage.able k).map some
  if ready stage then none :: others else others

/-- The other threads go on until it is the conductor's turn, which can come whenever it is
ready; none if nobody can go on or a call never returns. -/
def awaitTurn (ready : Stage → Bool) (stage : Stage) : Option Stage :=
  let choices := stage.choices k ready
  match choices[k.turn stage.point % choices.length]? with
  | none => none
  | some none => some { stage with point := stage.point + 1 }
  | some (some i) =>
    match _h : stage.act k i with
    | none => none
    | some stage => awaitTurn ready stage
termination_by stage.left
decreasing_by exact left_act _h

end Stage

/-- A part of a run: it changes the stage, and a failure ends the run. -/
abbrev Performance := ExceptT Failure (StateM Stage)

namespace Performance

/-! ## Records -/

/-- Emits a record of the scenario's own. -/
def emit (k : Kernel) (level : Record.Level) (event : String)
    (fill : Record.Entry → Record.Entry) : Performance Unit := do
  let stage ← get
  let (entry, emitter) := stage.emitter.entry k.now level event
  let (result, emitter) := emitter.emitEntry (fill entry)
  set { stage with emitter }
  match result with
  | .ok () => pure ()
  | .error .refused => throw .notWritten

/-- Emits the record of a diagnostic line; other texts are passed over. -/
def emitLine (k : Kernel) (line : Log.Line) : Performance Unit :=
  match Record.CoreLine.ofText? line.text with
  | none => pure ()
  | some core => do
    let stage ← get
    let (result, emitter) := stage.emitter.emitEntry (core.toEntry k.now)
    set { stage with emitter }
    match result with
    | .ok () => pure ()
    | .error .refused => throw .notWritten

/-- The record that closes a run. -/
def close (k : Kernel) (s : Summary) : Performance Unit := do
  emit k (if s.outcome = .pass then .info else .error) "scenario_end" fun e =>
    { e with
      stream := some .scenario
      outcome := some s.outcome
      threadCount := some s.threads
      predictedDeadlocks := some s.predictedDeadlocks
      durationMs := some 0
      details := some (.object [("failures", .array (s.failures.map .string))]) }
  match (← get).emitter.flush with
  | .ok () => pure ()
  | .error .refused => throw .notWritten

/-! ## Steps of the conductor -/

/-- Changes the process. -/
def modifyGroup (f : ThreadGroup → ThreadGroup) : Performance Unit :=
  modify fun stage => { stage with group := f stage.group }

/-- Carries out a call that might never return. -/
def onGroup? {α : Type} (f : ThreadGroup → Option (α × ThreadGroup)) : Performance α := do
  let stage ← get
  match f stage.group with
  | none => throw .endless
  | some (a, group) =>
    set { stage with group }
    pure a

/-- What has to be undone is undone before a failure in a part of a run ends the run. -/
def onFailure {α : Type} (x : Performance α) (undo : Performance Unit) : Performance α :=
  tryCatch x fun e => do
    undo
    throw e

/-- The others go on until the conductor does, which must wait until it is ready. -/
def awaitTurn (k : Kernel) (ready : Stage → Bool) : Performance Unit := do
  match (← get).awaitTurn k ready with
  | none => throw .endless
  | some stage => set stage

/-- The others go on until the conductor does, which need not wait. -/
def turn (k : Kernel) : Performance Unit := awaitTurn k fun _ => true

/-- The conductor locks a mutex. -/
def lock (k : Kernel) (id : UInt64) : Performance (Except Error Unit) := do
  turn k
  let here := k.here (← get).point
  match ← onGroup? fun p => (p.lock id k.conductor here).map fun (p, answer) => (answer, p) with
  | .done result => pure result
  | .waits =>
    awaitTurn k fun stage => !(stage.group.locks.mutexes.get id).isLocked
    let here := k.here (← get).point
    onGroup? fun p => (p.handTo id k.conductor here).map ((), ·)
    pure (.ok ())

/-- The conductor unlocks a mutex. -/
def unlock (k : Kernel) (id : UInt64) : Performance (Except Error Unit) := do
  turn k
  onGroup? fun p => (p.unlock id k.conductor).map fun (p, result) => (result, p)

/-- The conductor joins the thread with a handle. -/
def join (k : Kernel) (handle : UInt64) : Performance (Except Error UInt64) := do
  turn k
  match (← get).group.joinHandle k.conductor handle with
  | .error e => pure (.error e)
  | .ok (_, .value v, group) =>
    modifyGroup fun _ => group
    pure (.ok v)
  | .ok (i, .waits, group) =>
    modifyGroup fun _ => group
    awaitTurn k fun stage => (stage.group.completeJoin? i).isSome
    let v ← onGroup? (·.completeJoin? i)
    pure (.ok v)

/-- The conductor joins the threads with the given handles, in order. -/
def joinAll (k : Kernel) : List UInt64 → Performance (List (Except Error UInt64))
  | [] => pure []
  | handle :: rest => do
    let answer ← join k handle
    return answer :: (← joinAll k rest)

end Performance
end Threading.Scenario
