import Threading.Rehearsal.Cast

/-!
# Launching threads in a rehearsal

What a thread is asked to be like is handed to the setters of its attributes one
by one, and the first refusal ends the request before anything is created.
-/
namespace Threading

/-- What is asked of a new thread. -/
structure Wish where
  detached : Bool := false
  guardSize : Option UInt64 := none
  stackSize : Option UInt64 := none
  /-- The size of a stack the creator lends. -/
  borrowed : Option UInt64 := none
  /-- A stack size set after that. -/
  resize : Option UInt64 := none
  sched : Option (SchedPolicy × Int32) := none
  affinity : Option (List Nat) := none
  deriving Repr

namespace Wish

/-- Applies a setter if there is something to set. -/
def apply {α : Type} (setter : Attributes → α → Except Error Unit × Attributes)
    (value : Option α) (a : Attributes) : Except Error Attributes :=
  match value with
  | none => .ok a
  | some v =>
    let (answer, a) := setter a v
    answer.map fun _ => a

/-- The set of some indices. -/
def cpuSet (cpus : List Nat) : Except Error CpuSet :=
  cpus.foldlM (fun set cpu => set.set cpu) .empty

/-- The attributes a wish leads to, with a lent stack at `base`. -/
def attributes (w : Wish) (base : UInt64) : Except Error Attributes := do
  let a : Attributes := if w.detached then ({} : Attributes).setDetachState .detached else {}
  let a := (w.guardSize.map a.setGuardSize).getD a
  let a ← apply Attributes.setStackSize w.stackSize a
  let a ← apply (·.setStack base ·) w.borrowed a
  let a ← apply Attributes.setStackSize w.resize a
  let a ← apply (fun a s => a.setScheduling s.1 s.2) w.sched a
  apply Attributes.setAffinity (← w.affinity.mapM cpuSet) a

end Wish

namespace Rehearsal

/-- The indices of the machine's processors are below this number. -/
def processorCount : Nat := 1000

/-- The kernel's answer to a request for an affinity: some processor must exist. -/
def affinityVerdict (a : Attributes) : Option Int32 :=
  match a.affinity with
  | none => none
  | some set => if set.toList.any (· < processorCount) then none else some 22

/-- What came of a wish for a thread. -/
inductive Casting where
  /-- A setter refused. -/
  | refusedBySetter (e : Error)
  /-- The creation failed; the thread never ran. -/
  | notCreated (e : Error)
  | created
  deriving Repr

/-- The bytes a thread with the given attributes takes at most. -/
def footprint (a : Attributes) : UInt64 := a.stackSize + a.guardSize

/-- The thread `creator` creates a thread with the given attributes. -/
def create (r : Rehearsal) (creator : Tid) (name : String) (request : Option Attributes) :
    Casting × Rehearsal :=
  let (tid, r) := r.freshTid
  let (address, r) := r.freshAddress (footprint (request.getD {}))
  let (result, group) := r.group.create creator .empty request
    { map := mapAt address
      tid
      affinity := request.bind affinityVerdict }
  let r := { r with group }
  match result with
  | .error e => (.notCreated e, r)
  | .ok i =>
    let tls := ((r.group.registry.get? i).map (·.tls)).getD 0
    (.created, { r with cast := ⟨name, .runtime, ⟨tid, tls⟩, some i, true, none⟩ :: r.cast })

/-- The initial thread creates a thread; without a wish no attributes are passed. -/
def castThread (r : Rehearsal) (name : String) (wish : Option Wish) : Casting × Rehearsal :=
  match wish with
  | none => r.create r.group.pid name none
  | some w =>
    let (base, r) := r.freshAddress (w.borrowed.getD 0)
    match w.attributes base with
    | .error e => (.refusedBySetter e, r)
    | .ok a => r.create r.group.pid name (some a)

end Rehearsal
end Threading
