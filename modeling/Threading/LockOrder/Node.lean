import Threading.Log.Line
import Threading.LockOrder.CallStack

/-!
# Nodes of the lock graph

A node stands for a mutex the observer has seen. It knows who holds the mutex,
its neighbours in that thread's stack of held locks, the edges to and from other
nodes, and two marks that belong to the cycle search. An edge `a → b` says that
some thread acquired `b` while `a` was the lock it had acquired last.
-/
namespace Threading.LockOrder

/-- A node's position in the graph. -/
abbrev NodeId := Nat

/-- The position at which `i` occurs last. -/
def lastIndex? (i : NodeId) : List NodeId → Option Nat
  | [] => none
  | j :: rest =>
    match lastIndex? i rest with
    | some k => some (k + 1)
    | none => if j = i then some 0 else none

/-- A list without the element at a position, if there is one. -/
def removeAt {α : Type} (xs : List α) : Option Nat → List α
  | none => xs
  | some k => xs.eraseIdx k

structure Node where
  mutex : UInt64
  /-- The holder, or 0. -/
  owner : Tid := 0
  /-- Acquisitions by the owner beyond the first, modulo `2 ^ 32`. -/
  count : UInt32 := 0
  /-- The lock that the holder acquired after this one. -/
  newer : Option NodeId := none
  /-- The lock that the holder acquired before this one. -/
  older : Option NodeId := none
  /-- The ends of the outgoing edges, oldest edge first. -/
  children : List NodeId := []
  /-- The starts of the incoming edges, oldest edge first. -/
  parents : List NodeId := []
  /-- The call stacks of the acquisitions that recorded these edges. -/
  parentStacks : List CallStack := []
  /-- The call stack of the last acquisition that came with one. -/
  stack : CallStack := .empty
  /-- Set while the cycle search has the node on its path. -/
  onPath : Bool := false
  /-- The last search that came to the node. -/
  visited : UInt32 := 0
  deriving DecidableEq, Repr

namespace Node

instance : Inhabited Node := ⟨{ mutex := 0 }⟩

/-- The call stack of the newest edge from `parent`. -/
def edgeStack? (n : Node) (parent : NodeId) : Option CallStack :=
  (lastIndex? parent n.parents).bind (n.parentStacks[·]?)

/-- Takes the newest edge to `child` away. -/
def dropChild (n : Node) (child : NodeId) : Node :=
  { n with children := removeAt n.children (lastIndex? child n.children) }

/-- Takes the newest edge from `parent` away. -/
def dropParent (n : Node) (parent : NodeId) : Node :=
  { n with
    parents := removeAt n.parents (lastIndex? parent n.parents)
    parentStacks := removeAt n.parentStacks (lastIndex? parent n.parents) }

/-- The node after its first acquisition by `t`. -/
def claim (n : Node) (t : Tid) (stack : Option CallStack) : Node :=
  { n with owner := t, count := 0, stack := stack.getD n.stack }

/-- The node with no holder. -/
def free (n : Node) : Node := { n with owner := 0, count := 0 }

/-- The node out of every stack of held locks. -/
def unchain (n : Node) : Node := { n with newer := none, older := none }

/-- The node as search number `epoch` enters it. -/
def enter (n : Node) (epoch : UInt32) : Node := { n with onPath := true, visited := epoch }

/-- The node off the search path. -/
def leave (n : Node) : Node := { n with onPath := false }

end Node

theorem lastIndex?_append_self (i : NodeId) (xs : List NodeId) :
    lastIndex? i (xs ++ [i]) = some xs.length := by
  induction xs with
  | nil => simp [lastIndex?]
  | cons x xs ih => simp [lastIndex?, ih]

theorem removeAt_length {α : Type} (xs : List α) (x : α) :
    removeAt (xs ++ [x]) (some xs.length) = xs := by
  simp [removeAt, List.eraseIdx_append_of_length_le]

/-- Taking away the edge that was put in last. -/
theorem Node.dropChild_append (n : Node) (child : NodeId) :
    dropChild { n with children := n.children ++ [child] } child = n := by
  simp [dropChild, lastIndex?_append_self, removeAt_length]

theorem Node.dropParent_append (n : Node) (parent : NodeId) (stack : CallStack)
    (h : n.parents.length = n.parentStacks.length) :
    dropParent { n with
      parents := n.parents ++ [parent], parentStacks := n.parentStacks ++ [stack] } parent = n := by
  have hstacks : removeAt (n.parentStacks ++ [stack]) (some n.parents.length) = n.parentStacks := by
    rw [h, removeAt_length]
  simp [dropParent, lastIndex?_append_self, removeAt_length, hstacks]

end Threading.LockOrder
