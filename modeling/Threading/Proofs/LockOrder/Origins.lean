import Threading.Proofs.LockOrder.Nesting
import Threading.Proofs.LockOrder.NewEdges

/-!
# Where call stacks come from

A node keeps the call stack of its mutex's last acquisition, further ones by the owner aside,
and an edge the call stack that its end had in the call that reported it. Both can be told from
the calls of a run alone: an acquisition that comes without a call stack leaves the one before
in place.
-/
namespace Threading.LockOrder

variable {calls newer older : List Call} {c : Call} {g g' : Graph} {e : Event} {edge : NewEdge}
variable {outcome? : Option Outcome} {outcome : Outcome} {report : Option Report}
variable {m m' : UInt64} {t : Tid} {stack : Option CallStack} {capture : Bool} {i : NodeId}

/-- The call stack that the call gives to a mutex: it acquires the mutex, and its thread did not
own it. -/
def Call.acquiredStack? (c : Call) (m : UInt64) : Option CallStack :=
  match c.event with
  | .lock m' _ stack _ => if m' = m ∧ c.outcome ≠ some .reentrant then stack else none
  | .unlock .. | .forget _ => none

/-- The call stack that was given to a mutex last. -/
def lastStack (m : UInt64) : List Call → CallStack
  | [] => .empty
  | c :: calls => (c.acquiredStack? m).getD (lastStack m calls)

/-- The call stack that an edge gets if the call reports it, after the calls of `older`. -/
def Call.edgeStack (c : Call) (older : List Call) : CallStack :=
  match c.event with
  | .lock m _ stack capture => if capture then stack.getD (lastStack m older) else .empty
  | .unlock .. | .forget _ => .empty

namespace Graph

/-- The call stack that the node of a mutex keeps. -/
def stackOf (g : Graph) (m : UInt64) : CallStack := (g.node (g.internNode m).1).stack

theorem stackOf_of_find (h : g.findNode? m = some i) : g.stackOf m = (g.node i).stack := by
  rw [stackOf, internNode, h]

theorem stackOf_of_find_none (h : g.findNode? m = none) : g.stackOf m = .empty := by
  rw [stackOf, internNode, h]
  exact congrArg Node.stack (node_eq_default g (Nat.le_refl _))

/-- A mutex that has a node keeps it. -/
theorem Grows.findNode? (h : g.Grows g') (hg : g.Indexed) (hg' : g'.Indexed)
    (hfind : g.findNode? m = some i) : g'.findNode? m = some i := by
  obtain ⟨hi, hm⟩ := hg.findNode?_eq_some_iff.1 hfind
  exact hg'.findNode?_eq_some_iff.2 ⟨Nat.lt_of_lt_of_le hi h.size, (h.mutex i hi).trans hm⟩

/-- A mutex keeps its call stack if its node does; a new node has none. -/
theorem Grows.stackOf_eq (h : g.Grows g') (hg : g.Indexed) (hg' : g'.Indexed)
    (hstack : ∀ j, (g'.node j).mutex = m → (g'.node j).stack = (g.node j).stack) :
    g'.stackOf m = g.stackOf m := by
  cases hfind : g.findNode? m with
  | some i =>
    have hfind' := h.findNode? hg hg' hfind
    rw [stackOf_of_find hfind', stackOf_of_find hfind,
      hstack i (hg'.findNode?_eq_some_iff.1 hfind').2]
  | none =>
    rw [stackOf_of_find_none hfind]
    cases hfind' : g'.findNode? m with
    | none => exact stackOf_of_find_none hfind'
    | some i =>
      obtain ⟨-, hm⟩ := hg'.findNode?_eq_some_iff.1 hfind'
      have hnew : g.nodes.size ≤ i := by
        by_contra hold
        have hi := Nat.lt_of_not_le hold
        have hold := hg.findNode?_eq_some_iff.2 ⟨hi, (h.mutex i hi).symm.trans hm⟩
        exact absurd (hfind.symm.trans hold) (by simp)
      rw [stackOf_of_find hfind', hstack i hm, node_eq_default g hnew]
      rfl

/-! ## One call -/

theorem stack_eq_of_heldPart (h : g'.heldPart = g.heldPart) (i : NodeId) :
    (g'.node i).stack = (g.node i).stack := by
  have hi := congrArg Node.stack (forgetOrder_node h i)
  exact hi

theorem WellFormed.findNode?_onLock (hg : g.WellFormed)
    (h : g.onLock m t stack capture = some (g', outcome, report)) :
    g'.findNode? m = some (g.internNode m).1 := by
  refine (hg.onLock h).indexed.findNode?_eq_some_iff.2 ⟨?_, mutex_onLock hg.indexed h⟩
  obtain ⟨-, -, -, rfl⟩ | ⟨-, g₁, hrecord, rfl⟩ := onLock_cases h
  · rw [size_modifyNode]
    exact (hg.indexed.internNode_spec m).1
  · rw [size_pushHeld, size_eq_of_heldPart (heldPart_recordOrder hrecord)]
    exact lt_size_claimed hg

/-- An acquisition gives its call stack to the mutex, unless the owner repeats it. -/
theorem WellFormed.stackOf_onLock (hg : g.WellFormed)
    (h : g.onLock m t stack capture = some (g', outcome, report)) (m' : UInt64) :
    g'.stackOf m' =
      if m = m' ∧ outcome ≠ .reentrant then stack.getD (g.stackOf m') else g.stackOf m' := by
  have hg' := hg.onLock h
  have hgrow := grows_onLock h
  have hfind := hg.findNode?_onLock h
  have hreentrant := onLock_eq_reentrant_iff h
  obtain ⟨-, rfl, -, rfl⟩ | ⟨ho, g₁, hrecord, rfl⟩ := onLock_cases h
  · rw [if_neg fun hfirst => hfirst.2 rfl]
    refine hgrow.stackOf_eq hg.indexed hg'.indexed fun j _ => ?_
    rw [view_modifyNode _ Node.stack fun n => by rfl, view_internNode Node.stack (by rfl)]
  · have hpushed (j : NodeId) :
        ((g₁.pushHeld (g.internThread t).1 (g.internNode m).1).node j).stack =
          ((g.claimed m t stack).node j).stack := by
      rw [view_pushHeld Node.stack fun _ _ _ => rfl,
        stack_eq_of_heldPart (heldPart_recordOrder hrecord)]
    by_cases hm : m = m'
    · subst hm
      rw [if_pos ⟨rfl, fun heq => ho (hreentrant.1 heq)⟩, stackOf_of_find hfind, hpushed,
        stack_claimed hg.indexed]
      rfl
    · rw [if_neg fun hfirst => hm hfirst.1]
      refine hgrow.stackOf_eq hg.indexed hg'.indexed fun j hj => ?_
      have hne : j ≠ (g.internNode m).1 := by
        rintro rfl
        exact hm ((hg'.indexed.findNode?_eq_some_iff.1 hfind).2.symm.trans hj)
      rw [hpushed, node_claimed, node_modifyNode_of_ne _ hne, view_internNode Node.stack (by rfl)]

theorem WellFormed.stackOf_of_loosens (hg : g.WellFormed) (hpart : g'.orderPart = g.orderPart)
    (h : ∀ j, (g.node j).Loosens (g'.node j)) (m : UInt64) : g'.stackOf m = g.stackOf m :=
  (grows_of_orderPart hpart).stackOf_eq hg.indexed (hg.indexed.congr_orderPart hpart) fun j _ =>
    (h j).stack

/-- What a call does to the call stack of a mutex. -/
theorem WellFormed.stackOf_handle? (hg : g.WellFormed) (h : g.handle? e = some (g', outcome?))
    (m : UInt64) :
    g'.stackOf m = (Call.acquiredStack? ⟨g, e, outcome?⟩ m).getD (g.stackOf m) := by
  cases e with
  | lock m' t stack capture =>
    obtain ⟨outcome, report, rfl, hlock⟩ := handle?_lock_iff.1 h
    rw [hg.stackOf_onLock hlock, Call.acquiredStack?]
    simp only [ne_eq, Option.some.injEq]
    split <;> rfl
  | unlock m' t =>
    have hunlock := (handle?_unlock_iff.1 h).2
    exact hg.stackOf_of_loosens (orderPart_onUnlock hunlock) (loosens_onUnlock hunlock) m
  | forget t =>
    obtain ⟨-, rfl⟩ := handle?_forget_iff.1 h
    exact hg.stackOf_of_loosens (orderPart_forgetThread g t) (loosens_forgetThread g t) m

end Graph

/-! ## Every run -/

/-- The node of a mutex has the call stack that was given to the mutex last. -/
theorem Run.stackOf_eq (h : Run calls g) (m : UInt64) : g.stackOf m = lastStack m calls := by
  induction h with
  | nil => exact Graph.stackOf_of_find_none (by simp [Graph.findNode?, Graph.empty, Buckets.find?])
  | cons hrun hstep ih => rw [hrun.wellFormed.stackOf_handle? hstep, ih, lastStack]

theorem Call.exists_lock_of_newEdge? (h : c.newEdge? = some edge) :
    ∃ m t stack capture, c.event = .lock m t stack capture ∧ c.outcome = some .newEdge ∧
      c.before.topOf t = some edge.parent ∧ edge.child = (c.before.internNode m).1 ∧
        edge.stack = if capture then stack.getD (c.before.stackOf m) else .empty := by
  rw [Call.newEdge?] at h
  split at h
  next m t stack capture outcome hevent hout =>
    cases outcome with
    | newEdge =>
      obtain ⟨prev, htop, rfl⟩ := Option.map_eq_some_iff.1 h
      exact ⟨m, t, stack, capture, hevent, hout, htop, rfl, rfl⟩
    | reentrant | acquired | predictedDeadlock => exact absurd h (by simp [Graph.newEdge?])
  · exact absurd h (by simp)

/-- Every edge was reported by a call, and has the call stack of that call. -/
theorem Run.exists_addsEdge (h : Run calls g) (hedge : edge ∈ newEdges calls) :
    ∃ newer c older, calls = newer ++ c :: older ∧
      c.AddsEdge (g.node edge.parent).mutex (g.node edge.child).mutex ∧
        edge.stack = c.edgeStack older := by
  obtain ⟨c, hc, hnew⟩ := List.mem_filterMap.1 (List.mem_reverse.1 hedge)
  obtain ⟨newer, older, rfl⟩ := List.append_of_mem hc
  refine ⟨newer, c, older, rfl, ?_⟩
  obtain ⟨hrun, g₁, hstep, hrun₁, hgrow⟩ := h.at_call
  obtain ⟨m, t, stack, capture, hevent, hout, htop, hchild, hstack⟩ :=
    Call.exists_lock_of_newEdge? hnew
  have hparent := hrun.wellFormed.inRange.topOf htop
  have hbefore := (Graph.grows_handle? hstep).trans hgrow
  rw [hevent] at hstep
  obtain ⟨outcome, report, -, hlock⟩ := Graph.handle?_lock_iff.1 hstep
  have hfind := hgrow.findNode? hrun₁.wellFormed.indexed h.wellFormed.indexed
    (hrun.wellFormed.findNode?_onLock hlock)
  have hm := (h.wellFormed.indexed.findNode?_eq_some_iff.1 hfind).2
  rw [hchild, hm]
  refine ⟨⟨t, stack, capture, hevent, hout, ?_⟩, ?_⟩
  · rw [Graph.latest?, htop, Option.map_some, hbefore.mutex _ hparent]
  · rw [hstack, Call.edgeStack, hevent, hrun.stackOf_eq]

end Threading.LockOrder
