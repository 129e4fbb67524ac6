import Threading.Proofs.LockOrder.CycleSearch

/-!
# What a search leaves behind

A search tells whether a cycle can be reached, in any graph. If one was found, the path is left
behind that leads into it; if not, no path is. The marks of the path are taken off again, and
apart from the numbers of the searches the nodes are what they were: their edges with the call
stacks, their owners and counts, and the stacks of held locks that run through them.
-/
namespace Threading.LockOrder.Graph

open Relation

variable {g g' : Graph} {start c : NodeId} {closing : Option NodeId} {path trail : List NodeId}

/-- A path of recorded edges from `start` that comes to no node twice and could go on to its own
node `c`. -/
structure Closes (nodes : Array Node) (start c : NodeId) (path : List NodeId) : Prop where
  head : path.head? = some start
  chain : path.IsChain (Arc nodes)
  nodup : path.Nodup
  mem : c ∈ path
  closes : ∃ last, path.getLast? = some last ∧ Arc nodes last c

theorem Loops.reverse {nodes : Array Node} (h : Loops nodes start c trail) :
    Closes nodes start c trail.reverse := by
  obtain ⟨top, rest, rfl, harc⟩ := h.closes
  constructor
  case head => rw [List.head?_reverse, h.last]
  case chain => exact List.isChain_reverse.2 h.chain
  case nodup => exact List.nodup_reverse.2 h.nodup
  case mem => exact List.mem_reverse.2 h.mem
  case closes => exact ⟨top, by rw [List.getLast?_reverse, List.head?_cons], harc⟩

theorem not_tame_iff {nodes : Array Node} :
    ¬ Tame nodes start ↔ ∃ i, ReflTransGen (Arc nodes) start i ∧ TransGen (Arc nodes) i i := by
  simp only [Tame, not_forall, not_not, exists_prop]

/-- A search that runs out of path leaves none behind. -/
theorem cyclePath_eq_nil (hlt : start < g.nodes.size) (hoff : ∀ i, (g.node i).onPath = false)
    (hfresh : ∀ i, (g.node i).visited ≠ nextEpoch g.epoch)
    (h : g.findCycle start = (g', none)) : g'.cyclePath = [] := by
  obtain ⟨-, -, hnone, -⟩ := Search.run_enter_spec (nextEpoch g.epoch) hlt hoff hfresh
  obtain ⟨rfl, hclosing⟩ := Prod.mk.inj h
  have hpath := (hnone hclosing).1
  rw [cyclePath]
  simp only [hpath, List.map_nil, List.reverse_nil]

/-- The outcome of a search from `start`: what it answers and what it leaves behind. -/
structure Searched (g : Graph) (start : NodeId) (g' : Graph) (closing : Option NodeId) : Prop where
  isSome_iff : closing.isSome = true ↔
    ∃ i, ReflTransGen (Arc g.nodes) start i ∧ TransGen (Arc g.nodes) i i
  path_of_some : ∀ c, closing = some c → Closes g.nodes start c g'.cyclePath
  path_of_none : closing = none → g'.cyclePath = []
  onPath : ∀ i, (g'.node i).onPath = false
  /-- Every node is what it was but for its marks. -/
  unmarked : g'.nodes.map Node.unmarked = g.nodes.map Node.unmarked
  /-- Tables, stacks of held locks and counters are untouched. -/
  rest : g' = { g with nodes := g'.nodes, epoch := nextEpoch g.epoch, trail := g'.trail }

/-- Whatever the edges are, a search from clean marks with a new number finds a cycle exactly if
one can be reached. -/
theorem searched_findCycle (hstart : start < g.nodes.size)
    (hoff : ∀ i, (g.node i).onPath = false)
    (hfresh : ∀ i, (g.node i).visited ≠ nextEpoch g.epoch) :
    g.Searched start (g.findCycle start).1 (g.findCycle start).2 := by
  have hfound : g.findCycle start = ((g.findCycle start).1, (g.findCycle start).2) := rfl
  obtain ⟨htame, hleft, -⟩ := findCycle_spec hstart hoff hfresh hfound
  constructor
  case isSome_iff => rw [← not_tame_iff, ← htame, Option.isSome_iff_ne_none]
  case path_of_some =>
    intro c hc
    exact (findCycle_loops hstart hoff hfresh (Prod.ext rfl hc)).reverse
  case path_of_none =>
    intro hnone
    exact cyclePath_eq_nil hstart hoff hfresh (Prod.ext rfl hnone)
  case onPath => exact hleft
  case unmarked => exact unmarked_findCycle g start
  case rest => rfl

/-- A node that leads to a dead end and, by its older edge, into a cycle that it is not on. The
dead end has the mark of the search before. -/
def cycleBehindDeadEnd : Graph where
  nodes := #[{ mutex := 1, children := [1, 2] },
    { mutex := 2, children := [3, 4], parents := [0, 4], owner := 7, older := some 0 },
    { mutex := 3, children := [3], parents := [0] },
    { mutex := 4, parents := [1, 2], visited := 8 },
    { mutex := 5, children := [1], parents := [1] }]
  epoch := 8

theorem searched_findCycle_cycleBehindDeadEnd :
    0 < cycleBehindDeadEnd.nodes.size ∧ (∀ i, (cycleBehindDeadEnd.node i).onPath = false) ∧
      (∀ i, (cycleBehindDeadEnd.node i).visited ≠ nextEpoch cycleBehindDeadEnd.epoch) ∧
      (cycleBehindDeadEnd.findCycle 0).2 = some 1 ∧
      (cycleBehindDeadEnd.findCycle 0).1.cyclePath = [0, 1, 4] ∧
      cycleBehindDeadEnd.Searched 0 (cycleBehindDeadEnd.findCycle 0).1
        (cycleBehindDeadEnd.findCycle 0).2 := by
  have hclean : ∀ i, (cycleBehindDeadEnd.node i).onPath = false ∧
      (cycleBehindDeadEnd.node i).visited ≠ nextEpoch cycleBehindDeadEnd.epoch := by
    intro i
    by_cases hi : i < 5
    · exact (by decide : ∀ i < 5, (cycleBehindDeadEnd.node i).onPath = false ∧
        (cycleBehindDeadEnd.node i).visited ≠ nextEpoch cycleBehindDeadEnd.epoch) i hi
    · rw [node_eq_default _ (Nat.le_of_not_lt hi)]
      decide
  have hfound : (cycleBehindDeadEnd.findCycle 0).2 = some 1 ∧
      (cycleBehindDeadEnd.findCycle 0).1.cyclePath = [0, 1, 4] := by
    decide +kernel
  exact ⟨by decide, fun i => (hclean i).1, fun i => (hclean i).2, hfound.1, hfound.2,
    searched_findCycle (by decide) (fun i => (hclean i).1) fun i => (hclean i).2⟩

end Threading.LockOrder.Graph
