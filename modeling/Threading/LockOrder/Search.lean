import Threading.LockOrder.Node

/-!
# The cycle search

A depth-first search with an explicit path. It starts from one node, explores the
children of a node from the newest edge to the oldest, does not enter a node
twice, and stops at the first edge that leads back to the path. Searches are
numbered; a node keeps the number of the last search that entered it, so no marks
have to be cleared between searches.

The search ends because every turn uses up a part of the edges that the nodes not
entered yet and the frames of the path still hold.
-/
namespace Threading.LockOrder

/-- A node of the path with its children still to be explored, next one first. -/
structure Frame where
  node : NodeId
  pending : List NodeId
  deriving DecidableEq, Repr

/-- A search under way. -/
structure Search where
  nodes : Array Node
  epoch : UInt32
  /-- The path, its deepest node first. -/
  path : List Frame := []

namespace Search

/-- What a node that has not been entered contributes to the work left. -/
def openWork (epoch : UInt32) (n : Node) : Nat :=
  if n.visited = epoch then 0 else n.children.length + 1

/-- The sum of a weight over a list. -/
def total {α : Type} (w : α → Nat) : List α → Nat
  | [] => 0
  | a :: l => w a + total w l

/-- The turns that the search can still take. -/
def work (s : Search) : Nat :=
  total (openWork s.epoch) s.nodes.toList + total (·.pending.length + 1) s.path

/-- Puts a node on the path. -/
def enter (s : Search) (i : NodeId) : Search :=
  { s with
    nodes := s.nodes.modify i (·.enter s.epoch)
    path := ⟨i, (s.nodes.getD i default).children.reverse⟩ :: s.path }

theorem total_modify {α : Type} (w : α → Nat) (f : α → α) :
    ∀ (l : List α) (i : Nat) (a : α), l[i]? = some a →
      total w (l.modify i f) + w a = total w l + w (f a)
  | [], i, a, h => by simp at h
  | x :: l, 0, a, h => by
    obtain rfl : x = a := by simpa using h
    simp only [List.modify_zero_cons, total]
    omega
  | x :: l, i + 1, a, h => by
    have ih := total_modify w f l i a (by simpa using h)
    simp only [List.modify_succ_cons, total]
    omega

theorem total_modify_of_eq {α : Type} (w : α → Nat) (f : α → α) (hf : ∀ a, w (f a) = w a) :
    ∀ (l : List α) (i : Nat), total w (l.modify i f) = total w l
  | [], i => by simp
  | x :: l, 0 => by simp [total, hf]
  | x :: l, i + 1 => by simp [total, total_modify_of_eq w f hf l i]

theorem work_leave (s : Search) (i : NodeId) (rest : List Frame) :
    work { s with nodes := s.nodes.modify i (·.leave), path := rest } + 1 ≤
      work { s with path := ⟨i, []⟩ :: rest } := by
  have h := total_modify_of_eq (openWork s.epoch) (·.leave) (fun _ => rfl) s.nodes.toList i
  simp only [work, Array.toList_modify, h, total, List.length_nil]
  omega

theorem work_enter (s : Search) {c : NodeId} {n : Node} (hn : s.nodes[c]? = some n)
    (hv : n.visited ≠ s.epoch) : work (s.enter c) ≤ work s := by
  have h := total_modify (openWork s.epoch) (·.enter s.epoch) s.nodes.toList c n
    (by simpa using hn)
  have hnew : openWork s.epoch (n.enter s.epoch) = 0 := by simp [openWork, Node.enter]
  have hold : openWork s.epoch n = n.children.length + 1 := by simp [openWork, hv]
  have hget : s.nodes.getD c default = n := by
    simp [Array.getD_eq_getD_getElem?, hn]
  simp only [work, enter, Array.toList_modify, hget, total, List.length_reverse] at h ⊢
  rw [hnew, hold] at h
  omega

/-- Continues a search to its end. The result is the node that closes a cycle, if
one was found; the path then ends in the node with the edge to it. -/
def run (s : Search) : Search × Option NodeId :=
  match _hp : s.path with
  | [] => (s, none)
  | ⟨i, []⟩ :: rest => run { s with nodes := s.nodes.modify i (·.leave), path := rest }
  | ⟨i, c :: pending⟩ :: rest =>
    let t := { s with path := ⟨i, pending⟩ :: rest }
    match _hc : s.nodes[c]? with
    | none => run t
    | some n =>
      if n.onPath then (t, some c)
      else if _hv : n.visited = s.epoch then run t
      else run (t.enter c)
termination_by s.work
decreasing_by
  · have h := work_leave s i rest
    have hs : work s = work { s with path := ⟨i, []⟩ :: rest } := by rw [← _hp]
    omega
  · simp only [work, _hp, total, List.length_cons]
    omega
  · simp only [work, _hp, total, List.length_cons]
    omega
  · have h : work (t.enter c) ≤ work t := work_enter t _hc _hv
    have ht : work t + 1 = work s := by
      simp only [t, work, _hp, total, List.length_cons]
      omega
    exact Nat.lt_of_le_of_lt h (by omega)

end Search

/-- The number of the search after number `epoch`: numbers wrap, and 0 is the
mark of a node that no search has entered. -/
def nextEpoch (epoch : UInt32) : UInt32 :=
  if epoch + 1 = 0 then 1 else epoch + 1

end Threading.LockOrder
