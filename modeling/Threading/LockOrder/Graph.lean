import Threading.LockOrder.Hash
import Threading.LockOrder.Search
import Threading.LockOrder.Report
import Threading.Text.Names

/-!
# The lock graph

The graph records in which order threads nest their locks. A lock acquired while
another one is held gives an edge from the most recently acquired lock to the new
one; an edge that closes a cycle is a predicted deadlock, is reported and taken
away again, so the graph stays acyclic.

Held locks of a thread form a doubly linked list through the nodes. The links
belong to the node, not to the list: a mutex that one thread acquires while the
observer believes another one to hold it stays in both lists, and a list may then
lead into another or into a circle. A walk along such a list either ends or goes
on forever; an operation that would walk forever has no result.
-/
namespace Threading.LockOrder

/-- What the observer concluded from an acquisition. -/
inductive Outcome where
  /-- The owner acquired a lock it holds. -/
  | reentrant
  /-- Nothing else was held, or the order was known. -/
  | acquired
  /-- A new order was recorded. -/
  | newEdge
  /-- The acquisition contradicts the recorded order; no edge was kept. -/
  | predictedDeadlock
  deriving DecidableEq, Repr

def Outcome.name : Outcome → String
  | reentrant => "Reentrant"
  | acquired => "Acquired"
  | newEdge => "NewEdge"
  | predictedDeadlock => "PredictedDeadlock"

instance : Named Outcome := ⟨Outcome.name, [.reentrant, .acquired, .newEdge, .predictedDeadlock]⟩

/-- A thread's stack of held locks. -/
structure HeldStack where
  tid : Tid
  /-- The most recently acquired lock. -/
  top : Option NodeId := none
  deriving DecidableEq, Repr

instance : Inhabited HeldStack := ⟨{ tid := 0 }⟩

/-- Numbers that describe a graph. -/
structure Stats where
  nodes : Nat
  edges : Nat
  threads : Nat
  predicted : Nat
  deriving DecidableEq, Repr

structure Graph where
  nodes : Array Node := #[]
  nodeIndex : Buckets := {}
  threads : Array HeldStack := #[]
  threadIndex : Buckets := {}
  /-- The path the last cycle search ended with, deepest node first. -/
  trail : List NodeId := []
  epoch : UInt32 := 0
  edges : Nat := 0
  predicted : Nat := 0
  deriving DecidableEq

namespace Graph

/-- The graph that has seen nothing. -/
def empty : Graph := {}

instance : Inhabited Graph := ⟨empty⟩

variable (g : Graph)

/-! ## Nodes and threads -/

def node (i : NodeId) : Node := g.nodes.getD i default

def modifyNode (i : NodeId) (f : Node → Node) : Graph :=
  { g with nodes := g.nodes.modify i f }

def mutexBucket (m : UInt64) : Fin 256 := bucketOf (hashBytes (wordBytes m))

def tidBucket (t : Tid) : Fin 256 := bucketOf (hashBytes (tidBytes t))

/-- The node of a mutex. -/
def findNode? (m : UInt64) : Option NodeId :=
  g.nodeIndex.find? (mutexBucket m) fun i => (g.node i).mutex = m

/-- The node of a mutex, created on first sight. -/
def internNode (m : UInt64) : NodeId × Graph :=
  match g.findNode? m with
  | some i => (i, g)
  | none =>
    (g.nodes.size,
      { g with
        nodes := g.nodes.push { mutex := m }
        nodeIndex := g.nodeIndex.push (mutexBucket m) g.nodes.size })

/-- The position of a thread in the thread table. -/
def findThread? (t : Tid) : Option Nat :=
  g.threadIndex.find? (tidBucket t) fun i => (g.threads.getD i default).tid = t

/-- The position of a thread, created on first sight. -/
def internThread (t : Tid) : Nat × Graph :=
  match g.findThread? t with
  | some i => (i, g)
  | none =>
    (g.threads.size,
      { g with
        threads := g.threads.push { tid := t }
        threadIndex := g.threadIndex.push (tidBucket t) g.threads.size })

def knowsThread (t : Tid) : Bool := (g.findThread? t).isSome

/-- The most recently acquired lock of the thread at a position. -/
def top (thread : Nat) : Option NodeId := (g.threads.getD thread default).top

def setTop (thread : Nat) (top : Option NodeId) : Graph :=
  { g with threads := g.threads.modify thread ({ · with top := top }) }

/-! ## Stacks of held locks -/

/-- The first `n` locks met from `start` towards older ones. -/
def walk : (n : Nat) → (start : Option NodeId) → List NodeId
  | 0, _ => []
  | _, none => []
  | n + 1, some i => i :: walk n (g.node i).older

/-- The first `n` locks of a thread, most recent first. -/
def heldPrefix (t : Tid) (n : Nat) : List NodeId :=
  match g.findThread? t with
  | none => []
  | some thread => g.walk n (g.top thread)

/-- All locks of a thread, most recent first; none if the list has no end. A list
that visits more nodes than there are runs in a circle. -/
def held? (t : Tid) : Option (List NodeId) :=
  let list := g.heldPrefix t (g.nodes.size + 1)
  if list.length ≤ g.nodes.size then some list else none

/-- Whether the walk of at most `n` steps from `start` comes to `goal`; none if it
gets to no end. -/
def reaches? (goal : NodeId) : (n : Nat) → (start : Option NodeId) → Option Bool
  | _, none => some false
  | 0, some i => if i = goal then some true else none
  | n + 1, some i => if i = goal then some true else reaches? goal n (g.node i).older

/-- Puts a lock on top of a thread's stack. -/
def pushHeld (thread : Nat) (i : NodeId) : Graph :=
  let head := g.top thread
  let g := g.modifyNode i ({ · with newer := none, older := head })
  let g := match head with
    | none => g
    | some h => g.modifyNode h ({ · with newer := some i })
  g.setTop thread (some i)

/-- Takes a lock out of the stack it is in, by its own links. The thread's top
moves only if the lock has nothing newer above it. -/
def unchain (thread : Nat) (i : NodeId) : Graph :=
  let newer := (g.node i).newer
  let older := (g.node i).older
  let g := match newer with
    | none => g.setTop thread older
    | some n => g.modifyNode n ({ · with older := older })
  let g := match older with
    | none => g
    | some o => g.modifyNode o ({ · with newer := newer })
  g.modifyNode i (·.unchain)

/-- Takes a lock out of a thread's stack, if a walk from the top finds it. -/
def removeHeld (thread : Nat) (i : NodeId) : Option Graph :=
  (g.reaches? i g.nodes.size (g.top thread)).map fun found =>
    if found then g.unchain thread i else g

/-! ## Edges -/

/-- Records an edge with the call stack of its acquisition. -/
def link (parent child : NodeId) (stack : CallStack) : Graph :=
  let g := g.modifyNode parent fun n => { n with children := n.children ++ [child] }
  let g := g.modifyNode child fun n =>
    { n with parents := n.parents ++ [parent], parentStacks := n.parentStacks ++ [stack] }
  { g with edges := g.edges + 1 }

/-- Takes the newest edge between two nodes away. -/
def unlink (parent child : NodeId) : Graph :=
  let g := g.modifyNode parent (·.dropChild child)
  let g := g.modifyNode child (·.dropParent parent)
  { g with edges := g.edges - 1 }

/-- Whether the order of two mutexes is recorded. -/
def hasEdge (parent child : UInt64) : Bool :=
  match g.findNode? parent, g.findNode? child with
  | some p, some c => (g.node p).children.contains c
  | _, _ => false

/-- Searches for a cycle that can be reached from `start`. The path of the search
stays behind as the trail; no node keeps its mark of being on the path. -/
def findCycle (start : NodeId) : Graph × Option NodeId :=
  let epoch := nextEpoch g.epoch
  let (s, closing) := (Search.enter { nodes := g.nodes, epoch } start).run
  let trail := s.path.map (·.node)
  let nodes := trail.foldl (fun nodes i => nodes.modify i (·.leave)) s.nodes
  ({ g with nodes, epoch, trail }, closing)

/-- The path of the last search, start first. -/
def cyclePath : List NodeId := g.trail.reverse

/-- The order a report gives: each lock of the trail with the call stack of the
edge from its predecessor. The predecessor of the first lock is `prev`. -/
def orderSites (prev : NodeId) (capture : Bool) : List NodeId → List Site
  | [] => []
  | i :: rest =>
    let n := g.node i
    let stack := (n.edgeStack? (rest.head?.getD prev)).getD n.stack
    ⟨n.mutex, if capture then stack else .empty⟩ :: orderSites prev capture rest

/-- The report on an acquisition after `prev` that closes a cycle at `closing`. -/
def report? (t : Tid) (prev closing : NodeId) (capture : Bool) : Option Report :=
  (g.held? t).map fun held =>
    { tid := t
      attempt := (g.node closing).mutex
      held := held.map fun i => ⟨(g.node i).mutex, if capture then (g.node i).stack else .empty⟩
      order := g.orderSites prev capture g.trail }

/-! ## Events -/

/-- Records the order between the most recent lock of a thread and a new one. -/
def recordOrder (thread : Nat) (t : Tid) (i : NodeId) (capture : Bool) :
    Option (Graph × Outcome × Option Report) :=
  match g.top thread with
  | none => some (g, .acquired, none)
  | some prev =>
    if prev = i ∨ i ∈ (g.node prev).children then some (g, .acquired, none)
    else
      let linked := g.link prev i (if capture then (g.node i).stack else .empty)
      match linked.findCycle i with
      | (g, none) => some (g, .newEdge, none)
      | (g, some closing) =>
        (g.report? t prev closing capture).map fun report =>
          ({ g.unlink prev i with predicted := g.predicted + 1 }, .predictedDeadlock, some report)

/-- A thread has acquired a mutex. -/
def onLock (m : UInt64) (t : Tid) (stack : Option CallStack) (capture : Bool) :
    Option (Graph × Outcome × Option Report) :=
  let (i, g) := g.internNode m
  if (g.node i).owner = t then
    some (g.modifyNode i fun n => { n with count := n.count + 1 }, .reentrant, none)
  else
    let g := g.modifyNode i (·.claim t stack)
    let (thread, g) := g.internThread t
    (g.recordOrder thread t i capture).map fun (g, outcome, report) =>
      (g.pushHeld thread i, outcome, report)

/-- A thread is about to release a mutex. Nothing happens unless the thread is the
recorded owner. -/
def onUnlock (m : UInt64) (t : Tid) : Option Graph :=
  match g.findNode? m with
  | none => some g
  | some i =>
    let n := g.node i
    if n.owner ≠ t then some g
    else if 0 < n.count then some (g.modifyNode i fun n => { n with count := n.count - 1 })
    else
      let g := g.modifyNode i fun n => { n with owner := 0 }
      match g.findThread? t with
      | none => some g
      | some thread => g.removeHeld thread i

/-- Frees the top of a stack up to `n` times. -/
def freeTops (thread : Nat) : (n : Nat) → Graph → Graph
  | 0, g => g
  | n + 1, g =>
    match g.top thread with
    | none => g
    | some i => freeTops thread n ((g.modifyNode i (·.free)).unchain thread i)

/-- A thread exits: its stack is emptied from the top. A turn that finds a newer
lock above the top cuts the stack off, and every other turn but the last takes an
`older` link away, so two turns more than there are nodes are enough. -/
def forgetThread (t : Tid) : Graph :=
  match g.findThread? t with
  | none => g
  | some thread => freeTops thread (g.nodes.size + 2) g

def stats : Stats where
  nodes := g.nodes.size
  edges := g.edges
  threads := g.threads.size
  predicted := g.predicted

end Graph
end Threading.LockOrder
