import Mathlib
import Threading.LockOrder.Graph

/-!
# The two parts of a lock graph

Who holds which lock and in which order locks were nested stand side by side in
the nodes, but no operation writes both. `orderPart` forgets the holders and
`heldPart` forgets the order; an operation leaves a part alone exactly when that
part of the graph is the same before and after it. Interning a mutex or a thread
adds an entry that holds nothing and has no edge.
-/
namespace Threading.LockOrder

namespace Node

/-- The node with nothing said of its holder. -/
def forgetHolder (n : Node) : Node :=
  { n with owner := 0, count := 0, newer := none, older := none, stack := .empty }

/-- The node with its edges and marks gone. -/
def forgetOrder (n : Node) : Node :=
  { n with children := [], parents := [], parentStacks := [], onPath := false, visited := 0 }

end Node

namespace Graph

variable (g : Graph)

/-- The recorded order, the marks of the search and the tables. -/
def orderPart : Graph :=
  { g with
    nodes := g.nodes.map (·.forgetHolder)
    threads := g.threads.map ({ · with top := none }) }

/-- The owners, the stacks of held locks and the tables. -/
def heldPart : Graph :=
  { g with
    nodes := g.nodes.map (·.forgetOrder)
    trail := [], epoch := 0, edges := 0, predicted := 0 }

/-! ## Nodes -/

theorem node_eq (i : NodeId) : g.node i = (g.nodes[i]?).getD default := by
  simp [node, Array.getD_eq_getD_getElem?]

theorem node_eq_default {i : NodeId} (h : g.nodes.size ≤ i) : g.node i = default := by
  simp [node_eq, h]

theorem map_modify_of_eq {α β : Type} (xs : Array α) (i : Nat) (f : α → α) (u : α → β)
    (hf : ∀ a, u (f a) = u a) : (xs.modify i f).map u = xs.map u := by
  apply Array.ext_getElem?
  intro j
  simp only [Array.getElem?_map, Array.getElem?_modify]
  split
  · rw [Option.map_map]
    exact congrArg (Option.map · _) (funext hf)
  · rfl

theorem map_modify {α : Type} (xs : Array α) (i : Nat) (f u : α → α)
    (hf : ∀ a, u (f a) = f (u a)) : (xs.modify i f).map u = (xs.map u).modify i f := by
  apply Array.ext_getElem?
  intro j
  simp only [Array.getElem?_map, Array.getElem?_modify]
  split
  · cases xs[j]? <;> simp [hf]
  · rfl

@[simp] theorem size_modifyNode (i : NodeId) (f : Node → Node) :
    (g.modifyNode i f).nodes.size = g.nodes.size := by
  simp [modifyNode]

theorem node_modifyNode (i j : NodeId) (f : Node → Node) :
    (g.modifyNode i f).node j = if i = j ∧ j < g.nodes.size then f (g.node j) else g.node j := by
  simp only [node_eq, modifyNode, Array.getElem?_modify]
  by_cases hij : i = j <;> by_cases hj : j < g.nodes.size <;> simp [hij, hj]

theorem node_modifyNode_self {i : NodeId} (h : i < g.nodes.size) (f : Node → Node) :
    (g.modifyNode i f).node i = f (g.node i) := by
  rw [node_modifyNode, if_pos ⟨rfl, h⟩]

theorem node_modifyNode_of_ne {i j : NodeId} (h : j ≠ i) (f : Node → Node) :
    (g.modifyNode i f).node j = g.node j := by
  rw [node_modifyNode, if_neg fun hij => h hij.1.symm]

/-- A property of nodes that a change respects is the same at every node. -/
theorem view_modifyNode {β : Type} (u : Node → β) {f : Node → Node} (hf : ∀ n, u (f n) = u n)
    (i j : NodeId) : u ((g.modifyNode i f).node j) = u (g.node j) := by
  rw [node_modifyNode]
  split
  · exact hf _
  · rfl

theorem node_orderPart (i : NodeId) : g.orderPart.node i = (g.node i).forgetHolder := by
  simp only [node_eq, orderPart, Array.getElem?_map]
  cases g.nodes[i]? <;> rfl

theorem node_heldPart (i : NodeId) : g.heldPart.node i = (g.node i).forgetOrder := by
  simp only [node_eq, heldPart, Array.getElem?_map]
  cases g.nodes[i]? <;> rfl

/-! ## What leaves the order alone -/

theorem orderPart_modifyNode {f : Node → Node}
    (hf : ∀ n, (f n).forgetHolder = n.forgetHolder) (i : NodeId) :
    (g.modifyNode i f).orderPart = g.orderPart := by
  simp only [orderPart, modifyNode, map_modify_of_eq _ _ _ _ hf]

theorem orderPart_setTop (thread : Nat) (top : Option NodeId) :
    (g.setTop thread top).orderPart = g.orderPart := by
  simp only [orderPart, setTop]
  rw [map_modify_of_eq]
  intro s
  rfl

theorem orderPart_pushHeld (thread : Nat) (i : NodeId) :
    (g.pushHeld thread i).orderPart = g.orderPart := by
  refine (orderPart_setTop _ thread (some i)).trans ?_
  have hi := orderPart_modifyNode g (f := ({ · with newer := none, older := g.top thread }))
    (fun n => by rfl) i
  split
  · exact hi
  · exact (orderPart_modifyNode _ (fun n => by rfl) _).trans hi

theorem orderPart_unchain (thread : Nat) (i : NodeId) :
    (g.unchain thread i).orderPart = g.orderPart := by
  refine (orderPart_modifyNode _ (fun n => by rfl) i).trans ?_
  split
  · split
    · exact orderPart_setTop g thread _
    · exact orderPart_modifyNode g (fun n => by rfl) _
  · refine (orderPart_modifyNode _ (fun n => by rfl) _).trans ?_
    split
    · exact orderPart_setTop g thread _
    · exact orderPart_modifyNode g (fun n => by rfl) _

theorem orderPart_removeHeld {g g' : Graph} {thread : Nat} {i : NodeId}
    (h : g.removeHeld thread i = some g') : g'.orderPart = g.orderPart := by
  obtain ⟨found, -, rfl⟩ := Option.map_eq_some_iff.1 h
  split
  · exact orderPart_unchain g thread i
  · rfl

theorem orderPart_freeTops (thread n : Nat) : (freeTops thread n g).orderPart = g.orderPart := by
  induction n generalizing g with
  | zero => rfl
  | succ n ih =>
    rw [freeTops]
    split
    · rfl
    next i _ =>
      rw [ih, orderPart_unchain]
      exact orderPart_modifyNode g (fun n => by rfl) i

theorem orderPart_forgetThread (t : Tid) : (g.forgetThread t).orderPart = g.orderPart := by
  rw [forgetThread]
  split
  · rfl
  · exact orderPart_freeTops g _ _

/-- What a release can do. -/
theorem onUnlock_cases {g g' : Graph} {m : UInt64} {t : Tid} (h : g.onUnlock m t = some g') :
    ((∀ i, g.findNode? m = some i → (g.node i).owner ≠ t) ∧ g' = g) ∨
    ∃ i, g.findNode? m = some i ∧ (g.node i).owner = t ∧
      ((g.node i).count ≠ 0 ∧ g' = (g.modifyNode i fun n => { n with count := n.count - 1 }) ∨
        (g.node i).count = 0 ∧
          (g.findThread? t = none ∧ g' = g.modifyNode i ({ · with owner := 0 }) ∨
            ∃ thread, g.findThread? t = some thread ∧
              (g.modifyNode i ({ · with owner := 0 })).removeHeld thread i = some g')) := by
  rw [onUnlock] at h
  split at h
  next hfind => exact .inl ⟨by simp [hfind], (Option.some.inj h).symm⟩
  next i hfind =>
    simp only at h
    split at h
    next ho =>
      refine .inl ⟨fun j hj => ?_, (Option.some.inj h).symm⟩
      rwa [← Option.some.inj (hfind.symm.trans hj)]
    next ho =>
      refine .inr ⟨i, hfind, Decidable.not_not.1 ho, ?_⟩
      split at h
      next hcount =>
        refine .inl ⟨fun h0 => ?_, (Option.some.inj h).symm⟩
        simp [h0] at hcount
      next hcount =>
        rw [UInt32.lt_iff_toNat_lt, Nat.not_lt] at hcount
        refine .inr ⟨UInt32.toNat_inj.1 (Nat.le_zero.1 hcount), ?_⟩
        split at h
        next hthread => exact .inl ⟨hthread, (Option.some.inj h).symm⟩
        next thread hthread => exact .inr ⟨thread, hthread, h⟩

theorem orderPart_onUnlock {g g' : Graph} {m : UInt64} {t : Tid} (h : g.onUnlock m t = some g') :
    g'.orderPart = g.orderPart := by
  obtain ⟨-, rfl⟩ | ⟨i, -, -, ⟨-, rfl⟩ | ⟨-, hfreed⟩⟩ := onUnlock_cases h
  · rfl
  · exact orderPart_modifyNode g (fun n => by rfl) i
  · have hi := orderPart_modifyNode g (f := ({ · with owner := 0 })) (fun n => by rfl) i
    obtain ⟨-, rfl⟩ | ⟨thread, -, hremove⟩ := hfreed
    · exact hi
    · exact (orderPart_removeHeld hremove).trans hi

/-! ## What leaves the held locks alone -/

theorem heldPart_modifyNode {f : Node → Node}
    (hf : ∀ n, (f n).forgetOrder = n.forgetOrder) (i : NodeId) :
    (g.modifyNode i f).heldPart = g.heldPart := by
  simp only [heldPart, modifyNode, map_modify_of_eq _ _ _ _ hf]

theorem heldPart_link (parent child : NodeId) (stack : CallStack) :
    (g.link parent child stack).heldPart = g.heldPart := by
  have h := (heldPart_modifyNode (g.modifyNode parent fun n =>
    { n with children := n.children ++ [child] })
    (f := fun n =>
      { n with parents := n.parents ++ [parent], parentStacks := n.parentStacks ++ [stack] })
    (fun n => by rfl) child).trans (heldPart_modifyNode g (fun n => by rfl) parent)
  exact h

theorem heldPart_unlink (parent child : NodeId) :
    (g.unlink parent child).heldPart = g.heldPart := by
  have h := (heldPart_modifyNode (g.modifyNode parent (·.dropChild child))
    (f := (·.dropParent parent)) (fun n => by rfl) child).trans
    (heldPart_modifyNode g (fun n => by rfl) parent)
  exact h

end Graph
end Threading.LockOrder
