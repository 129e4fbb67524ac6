import Threading.Proofs.LockOrder.Tables

/-!
# The edges of a run

A graph keeps an edge in three lists, the children of its start and the parents and call
stacks of its end, and counts it. They say the same: each is what is left of the list of all
edges that were reported as new, in the order of the reports, when it is cut down to one
node. An edge that a search rejects is in none of them, whatever happened around it.
-/
namespace Threading.LockOrder

/-- An edge that was reported as new. -/
structure NewEdge where
  parent : NodeId
  child : NodeId
  /-- The call stack that `child` had in the call that recorded the edge. -/
  stack : CallStack
  deriving DecidableEq, Repr

theorem getElem?_lastIndex? {i : NodeId} {xs : List NodeId} {k : Nat}
    (h : lastIndex? i xs = some k) : xs[k]? = some i := by
  induction xs generalizing k with
  | nil => exact absurd h (by simp [lastIndex?])
  | cons x xs ih =>
    rw [lastIndex?] at h
    split at h
    next k' hk' =>
      obtain rfl := Option.some.inj h
      simpa using ih hk'
    · split at h
      next hx =>
        obtain rfl := Option.some.inj h
        simp [hx]
      · exact absurd h (by simp)

theorem exists_lastIndex? {i : NodeId} {xs : List NodeId} (h : i ∈ xs) :
    ∃ k, lastIndex? i xs = some k := by
  induction xs with
  | nil => exact absurd h List.not_mem_nil
  | cons x xs ih =>
    rw [lastIndex?]
    split
    next k hk => exact ⟨k + 1, rfl⟩
    next hnone =>
      rcases List.mem_cons.1 h with rfl | hmem
      · exact ⟨0, if_pos rfl⟩
      · obtain ⟨k, hk⟩ := ih hmem
        exact absurd (hnone.symm.trans hk) (by simp)

/-- The edges of a node: their ends, their starts and the call stacks of the latter. -/
def Node.arcs (n : Node) : List NodeId × List NodeId × List CallStack :=
  (n.children, n.parents, n.parentStacks)

namespace Graph

variable {g g' g₁ : Graph} {parent child i j p c : NodeId} {stack : CallStack} {thread : Nat}
variable {t : Tid} {m : UInt64} {capture : Bool} {outcome : Outcome} {report : Option Report}
variable {es : List NewEdge}

/-- The lists and the counter of a graph draw a list of edges. -/
structure Draws (g : Graph) (es : List NewEdge) : Prop where
  children : ∀ i, (g.node i).children = (es.filter (·.parent = i)).map (·.child)
  parents : ∀ i, (g.node i).parents = (es.filter (·.child = i)).map (·.parent)
  parentStacks : ∀ i, (g.node i).parentStacks = (es.filter (·.child = i)).map (·.stack)
  edges : g.edges = es.length
  distinct : es.Pairwise fun e e' => ¬ (e.parent = e'.parent ∧ e.child = e'.child)
  lt : ∀ e ∈ es, e.parent < g.nodes.size ∧ e.child < g.nodes.size

theorem draws_empty : Draws .empty [] :=
  ⟨fun _ => rfl, fun _ => rfl, fun _ => rfl, rfl, .nil, fun _ he => absurd he List.not_mem_nil⟩

theorem Draws.congr (h : g.Draws es) (hsize : g.nodes.size ≤ g'.nodes.size)
    (harcs : ∀ i, (g'.node i).arcs = (g.node i).arcs) (hedges : g'.edges = g.edges) :
    g'.Draws es := by
  refine ⟨fun i => ?_, fun i => ?_, fun i => ?_, hedges.trans h.edges, h.distinct, fun e he => ?_⟩
  · exact (congrArg (·.1) (harcs i)).trans (h.children i)
  · exact (congrArg (·.2.1) (harcs i)).trans (h.parents i)
  · exact (congrArg (·.2.2) (harcs i)).trans (h.parentStacks i)
  · obtain ⟨hparent, hchild⟩ := h.lt e he
    exact ⟨Nat.lt_of_lt_of_le hparent hsize, Nat.lt_of_lt_of_le hchild hsize⟩

theorem Draws.congr_orderPart (h : g.Draws es) (hpart : g'.orderPart = g.orderPart) :
    g'.Draws es := by
  refine h.congr (Nat.le_of_eq (size_eq_of_orderPart hpart).symm) (fun i => ?_) ?_
  · exact (congrArg Node.arcs (forgetHolder_node hpart i) :)
  · exact (congrArg (·.edges) hpart :)

theorem arcs_eq_of_unmarked (h : g'.nodes.map Node.unmarked = g.nodes.map Node.unmarked)
    (i : NodeId) : (g'.node i).arcs = (g.node i).arcs :=
  (congrArg Node.arcs (getD_eq_of_unmarked h i) :)

/-- The edge from `p` to `c` is drawn exactly if it is in the list. -/
theorem Draws.edge_iff (h : g.Draws es) :
    g.Edge p c ↔ ∃ e ∈ es, e.parent = p ∧ e.child = c := by
  rw [Graph.edge_iff, h.children]
  simp only [List.mem_map, List.mem_filter, decide_eq_true_eq, and_assoc]

theorem Draws.link (h : g.Draws es) (hparent : parent < g.nodes.size)
    (hchild : child < g.nodes.size) (hnew : ¬ g.Edge parent child) (stack : CallStack) :
    (g.link parent child stack).Draws (es ++ [⟨parent, child, stack⟩]) := by
  refine ⟨fun i => ?_, fun i => ?_, fun i => ?_, ?_, ?_, fun e he => ?_⟩
  · rw [children_link hparent, h.children]
    by_cases hi : i = parent
    · simp [hi]
    · simp [hi, Ne.symm hi]
  · rw [(incoming_link hchild i).1, h.parents]
    by_cases hi : i = child
    · simp [hi]
    · simp [hi, Ne.symm hi]
  · rw [(incoming_link hchild i).2, h.parentStacks]
    by_cases hi : i = child
    · simp [hi]
    · simp [hi, Ne.symm hi]
  · simp [Graph.link, modifyNode, h.edges]
  · rw [List.pairwise_append]
    refine ⟨h.distinct, List.pairwise_singleton _ _, fun e he e' he' => ?_⟩
    rw [List.mem_singleton.1 he']
    exact fun hsame => hnew (h.edge_iff.2 ⟨e, he, hsame⟩)
  · rw [size_link]
    rcases List.mem_append.1 he with he | he
    · exact h.lt e he
    · rw [List.mem_singleton.1 he]
      exact ⟨hparent, hchild⟩

/-- Lists that are drawn are in step. -/
theorem Draws.aligned (h : g.Draws es) (i : NodeId) :
    (g.node i).parents.length = (g.node i).parentStacks.length := by
  rw [h.parents, h.parentStacks, List.length_map, List.length_map]

/-! ## Reading the lists -/

theorem Draws.eq_of_same (h : g.Draws es) {e e' : NewEdge} (he : e ∈ es) (he' : e' ∈ es)
    (hparent : e.parent = e'.parent) (hchild : e.child = e'.child) : e = e' := by
  by_contra hne
  have hsymm : Std.Symm fun e e' : NewEdge => ¬ (e.parent = e'.parent ∧ e.child = e'.child) :=
    ⟨fun e e' hnot hsame => hnot ⟨hsame.1.symm, hsame.2.symm⟩⟩
  exact h.distinct.forall he he' hne ⟨hparent, hchild⟩

theorem Draws.nodup_children (h : g.Draws es) (i : NodeId) : (g.node i).children.Nodup := by
  rw [h.children, List.Nodup, List.pairwise_map]
  refine (h.distinct.filter _).imp_of_mem fun {e e'} he he' hnot hchild => hnot ⟨?_, hchild⟩
  simp only [List.mem_filter, decide_eq_true_eq] at he he'
  rw [he.2, he'.2]

/-- The two ends of an edge know of each other. -/
theorem Draws.count_children (h : g.Draws es) (p c : NodeId) :
    (g.node p).children.count c = (g.node c).parents.count p := by
  rw [h.children, h.parents, List.count, List.count, List.countP_map, List.countP_map,
    List.countP_filter, List.countP_filter]
  refine List.countP_congr fun e _ => ?_
  simp [and_comm]

/-- The call stack of an edge is the one that its call recorded. -/
theorem Draws.edgeStack?_eq_some_iff (h : g.Draws es) :
    (g.node c).edgeStack? p = some stack ↔ ⟨p, c, stack⟩ ∈ es := by
  rw [Node.edgeStack?, h.parents, h.parentStacks]
  have hat {k : Nat} (hk : lastIndex? p ((es.filter (·.child = c)).map (·.parent)) = some k) :
      ∃ e ∈ es, e.parent = p ∧ e.child = c ∧
        ((es.filter (·.child = c)).map (·.stack))[k]? = some e.stack := by
    have hget := getElem?_lastIndex? hk
    rw [List.getElem?_map, Option.map_eq_some_iff] at hget
    obtain ⟨e, he, hparent⟩ := hget
    have hmem := List.mem_of_getElem? he
    simp only [List.mem_filter, decide_eq_true_eq] at hmem
    exact ⟨e, hmem.1, hparent, hmem.2, by rw [List.getElem?_map, he]; rfl⟩
  constructor
  · intro hstack
    obtain ⟨k, hk, hget⟩ := Option.bind_eq_some_iff.1 hstack
    obtain ⟨e, he, rfl, rfl, hstack⟩ := hat hk
    rw [← Option.some.inj (hstack.symm.trans hget)]
    exact he
  · intro hmem
    have hparent : p ∈ (es.filter (·.child = c)).map (·.parent) :=
      List.mem_map.2 ⟨_, List.mem_filter.2 ⟨hmem, by simp⟩, rfl⟩
    obtain ⟨k, hk⟩ := exists_lastIndex? hparent
    obtain ⟨e, he, hp, hc, hstack⟩ := hat hk
    rw [hk, Option.bind_some, hstack, h.eq_of_same he hmem hp hc]

/-- Each edge is counted once, at its start. -/
theorem Draws.sum_children (h : g.Draws es) :
    ∑ i ∈ Finset.range g.nodes.size, (g.node i).children.length = g.edges := by
  rw [h.edges]
  simp only [h.children, List.length_map]
  have hlt : ∀ e ∈ es, e.parent < g.nodes.size := fun e he => (h.lt e he).1
  clear h
  induction es with
  | nil => simp
  | cons e es ih =>
    have hcons (i : NodeId) : ((e :: es).filter (·.parent = i)).length =
        (es.filter (·.parent = i)).length + if e.parent = i then 1 else 0 := by
      rw [List.filter_cons]
      by_cases hi : e.parent = i <;> simp [hi]
    simp only [hcons]
    rw [Finset.sum_add_distrib, ih fun e' he' => hlt e' (List.mem_cons_of_mem e he'),
      Finset.sum_ite_eq, if_pos (Finset.mem_range.2 (hlt e List.mem_cons_self)), List.length_cons]

/-! ## Recording -/

/-- The edge that recording adds. -/
def recorded (g : Graph) (thread : Nat) (i : NodeId) (capture : Bool) :
    Outcome → Option NewEdge
  | .newEdge => (g.top thread).map fun prev => ⟨prev, i, g.edgeStackOf i capture⟩
  | .reentrant | .acquired | .predictedDeadlock => none

theorem edges_findCycle (g : Graph) (start : NodeId) :
    (g.findCycle start).1.edges = g.edges := rfl

theorem predicted_findCycle (g : Graph) (start : NodeId) :
    (g.findCycle start).1.predicted = g.predicted := rfl

theorem Draws.findCycle (h : g.Draws es) (start : NodeId) : (g.findCycle start).1.Draws es := by
  have hunmarked := unmarked_findCycle g start
  have hsize : (g.findCycle start).1.nodes.size = g.nodes.size := by
    simpa using congrArg Array.size hunmarked
  exact h.congr (Nat.le_of_eq hsize.symm) (arcs_eq_of_unmarked hunmarked) (edges_findCycle g start)

/-- A search in between does not matter, whatever it finds. -/
theorem Draws.recordOrder (h : g.Draws es) (hi : i < g.nodes.size)
    (htop : ∀ prev, g.top thread = some prev → prev < g.nodes.size)
    (hrecord : g.recordOrder thread t i capture = some (g', outcome, report)) :
    g'.Draws (es ++ (g.recorded thread i capture outcome).toList) ∧
      g'.predicted = g.predicted + if outcome = .predictedDeadlock then 1 else 0 := by
  obtain ⟨rfl, rfl, -⟩ | ⟨prev, g₁, closing, hprev, -, hnew, hsearch, hend⟩ :=
    recordOrder_cases hrecord
  · exact ⟨by simpa [recorded] using h, rfl⟩
  have hlinked := h.link (htop prev hprev) hi hnew (g.edgeStackOf i capture)
  have hunmarked := unmarked_findCycle (g.link prev i (g.edgeStackOf i capture)) i
  have hedges := edges_findCycle (g.link prev i (g.edgeStackOf i capture)) i
  have hpredicted := predicted_findCycle (g.link prev i (g.edgeStackOf i capture)) i
  have hsearched := hlinked.findCycle i
  rw [hsearch] at hunmarked hedges hpredicted hsearched
  obtain ⟨-, rfl, rfl, -⟩ | ⟨rfl, rfl, -⟩ := hend
  · rw [recorded, hprev]
    exact ⟨hsearched, hpredicted⟩
  · have hrestored := unmarked_unlink_link (h.aligned i) hunmarked
    have hsize : (g₁.unlink prev i).nodes.size = g.nodes.size := by
      simpa using congrArg Array.size hrestored
    refine ⟨?_, congrArg (· + 1) hpredicted⟩
    rw [recorded, Option.toList_none, List.append_nil]
    exact h.congr (Nat.le_of_eq hsize.symm) (arcs_eq_of_unmarked hrestored)
      (congrArg (· - 1) hedges)

/-! ## One call -/

variable {stack? : Option CallStack}

theorem counters_internNode (g : Graph) (m : UInt64) :
    (g.internNode m).2.edges = g.edges ∧ (g.internNode m).2.predicted = g.predicted := by
  unfold internNode
  split <;> exact ⟨rfl, rfl⟩

theorem counters_claimed (g : Graph) (m : UInt64) (t : Tid) (stack? : Option CallStack) :
    (g.claimed m t stack?).edges = g.edges ∧ (g.claimed m t stack?).predicted = g.predicted := by
  rw [← (counters_internNode g m).1, ← (counters_internNode g m).2, claimed, internThread]
  split <;> exact ⟨rfl, rfl⟩

theorem Draws.claimed (h : g.Draws es) (m : UInt64) (t : Tid) (stack? : Option CallStack) :
    (g.claimed m t stack?).Draws es :=
  h.congr (grows_claimed g m t stack?).size (view_claimed Node.arcs (by rfl) fun _ => rfl)
    (counters_claimed g m t stack?).1

theorem predicted_eq_of_orderPart (h : g'.orderPart = g.orderPart) : g'.predicted = g.predicted :=
  (congrArg (·.predicted) h :)

/-- The call stack that a node has once its mutex is acquired, unless it is a further
acquisition by the owner. -/
theorem stack_claimed (hg : g.Indexed) (m : UInt64) (t : Tid) (stack? : Option CallStack) :
    ((g.claimed m t stack?).node (g.internNode m).1).stack =
      stack?.getD (g.node (g.internNode m).1).stack := by
  rw [node_claimed, node_modifyNode_self _ (hg.internNode_spec m).1]
  exact congrArg stack?.getD (view_internNode Node.stack (by rfl) g _)

/-- The edge that an acquisition adds: from the most recent lock of the thread, with the call
stack of this acquisition or, if it comes with none, the last one before it. -/
def newEdge? (g : Graph) (m : UInt64) (t : Tid) (stack? : Option CallStack) (capture : Bool) :
    Outcome → Option NewEdge
  | .newEdge => (g.topOf t).map fun prev =>
    ⟨prev, (g.internNode m).1,
      if capture then stack?.getD (g.node (g.internNode m).1).stack else .empty⟩
  | .reentrant | .acquired | .predictedDeadlock => none

theorem recorded_claimed (hg : g.Indexed) :
    (g.claimed m t stack?).recorded (g.internThread t).1 (g.internNode m).1 capture outcome =
      g.newEdge? m t stack? capture outcome := by
  cases outcome with
  | newEdge => rw [recorded, newEdge?, top_claimed hg, edgeStackOf, stack_claimed hg]
  | _ => rfl

theorem Draws.onLock (h : g.Draws es) (hg : g.WellFormed)
    (hlock : g.onLock m t stack? capture = some (g', outcome, report)) :
    g'.Draws (es ++ (g.newEdge? m t stack? capture outcome).toList) ∧
      g'.predicted = g.predicted + if outcome = .predictedDeadlock then 1 else 0 := by
  obtain ⟨-, rfl, -, rfl⟩ | ⟨-, g₁, hrecord, rfl⟩ := onLock_cases hlock
  · refine ⟨?_, (counters_internNode g m).2⟩
    rw [newEdge?, Option.toList_none, List.append_nil]
    refine h.congr ?_ (fun i => ?_) (counters_internNode g m).1
    · rw [size_modifyNode]
      exact size_le_internNode g m
    · rw [view_modifyNode _ Node.arcs fun n => by rfl, view_internNode Node.arcs (by rfl)]
  · obtain ⟨hdraws, hpredicted⟩ := (h.claimed m t stack?).recordOrder (lt_size_claimed hg)
      ((hg.claimed m t stack?).inRange.top _) hrecord
    have hpart := orderPart_pushHeld g₁ (g.internThread t).1 (g.internNode m).1
    rw [recorded_claimed hg.indexed] at hdraws
    rw [predicted_eq_of_orderPart hpart, hpredicted, (counters_claimed g m t stack?).2]
    exact ⟨hdraws.congr_orderPart hpart, rfl⟩

end Graph

/-! ## Every run -/

variable {calls : List Call} {g g' : Graph} {c : Call} {e : Event} {outcome? : Option Outcome}
variable {es : List NewEdge}

/-- The edge that a call reported as new. -/
def Call.newEdge? (c : Call) : Option NewEdge :=
  match c.event, c.outcome with
  | .lock m t stack capture, some outcome => c.before.newEdge? m t stack capture outcome
  | _, _ => none

/-- All edges that were reported as new, oldest first. -/
def newEdges (calls : List Call) : List NewEdge := (calls.filterMap (·.newEdge?)).reverse

/-- The number of predictions. -/
def predictions (calls : List Call) : ℕ :=
  calls.countP fun c => c.outcome = some .predictedDeadlock

theorem newEdges_cons (c : Call) (calls : List Call) :
    newEdges (c :: calls) = newEdges calls ++ c.newEdge?.toList := by
  rw [newEdges, List.filterMap_cons]
  cases c.newEdge? <;> simp [newEdges]

/-- No other call than an acquisition draws an edge. -/
theorem Graph.Draws.handle? (h : g.Draws es) (hg : g.WellFormed)
    (hstep : g.handle? e = some (g', outcome?)) :
    g'.Draws (es ++ (Call.newEdge? ⟨g, e, outcome?⟩).toList) ∧
      g'.predicted = g.predicted + if outcome? = some .predictedDeadlock then 1 else 0 := by
  have hquiet (hnew : Call.newEdge? ⟨g, e, outcome?⟩ = none) (hnone : outcome? = none)
      (hpart : g'.orderPart = g.orderPart) :
      g'.Draws (es ++ (Call.newEdge? ⟨g, e, outcome?⟩).toList) ∧
        g'.predicted = g.predicted + if outcome? = some .predictedDeadlock then 1 else 0 := by
    rw [hnew, hnone, Option.toList_none, List.append_nil]
    exact ⟨h.congr_orderPart hpart, Graph.predicted_eq_of_orderPart hpart⟩
  cases e with
  | lock m t stack capture =>
    obtain ⟨outcome, report, rfl, hlock⟩ := Graph.handle?_lock_iff.1 hstep
    obtain ⟨hdraws, hpredicted⟩ := h.onLock hg hlock
    exact ⟨hdraws, by simpa using hpredicted⟩
  | unlock m t =>
    obtain ⟨hnone, hunlock⟩ := Graph.handle?_unlock_iff.1 hstep
    exact hquiet rfl hnone (Graph.orderPart_onUnlock hunlock)
  | forget t =>
    obtain ⟨hnone, rfl⟩ := Graph.handle?_forget_iff.1 hstep
    exact hquiet rfl hnone (Graph.orderPart_forgetThread g t)

theorem Run.draws (h : Run calls g) :
    g.Draws (newEdges calls) ∧ g.predicted = predictions calls := by
  induction h with
  | nil => exact ⟨Graph.draws_empty, rfl⟩
  | @cons calls g g' e outcome? hrun hstep ih =>
    obtain ⟨hdraws, hpredicted⟩ := ih.1.handle? hrun.wellFormed hstep
    rw [newEdges_cons, predictions, List.countP_cons, hpredicted, ih.2]
    exact ⟨hdraws, by simp [predictions]⟩

/-- What the tables, the lists and the counters of a graph say of the calls that led to it. -/
structure Graph.Reflects (g : Graph) (calls : List Call) : Prop where
  node_iff : ∀ m, (∃ i, g.findNode? m = some i) ↔ ∃ c ∈ calls, c.event.mutex? = some m
  node_inj : ∀ a b i, g.findNode? a = some i → g.findNode? b = some i → a = b
  node_stays : ∀ c ∈ calls, ∀ m i, c.before.findNode? m = some i → g.findNode? m = some i
  thread_iff : ∀ t, t ≠ 0 →
    ((∃ k, g.findThread? t = some k) ↔ ∃ c ∈ calls, c.event.locker? = some t)
  thread_inj : ∀ t u k, g.findThread? t = some k → g.findThread? u = some k → t = u
  thread_stays : ∀ c ∈ calls, ∀ t k, c.before.findThread? t = some k → g.findThread? t = some k
  both : ∀ p c, (g.node p).children.count c = (g.node c).parents.count p
  once : ∀ p c, (g.node p).children.count c ≤ 1
  aligned : ∀ c, (g.node c).parents.length = (g.node c).parentStacks.length
  edge_iff : ∀ p c, c ∈ (g.node p).children ↔ ∃ stack, ⟨p, c, stack⟩ ∈ newEdges calls
  edgeStack_iff : ∀ p c stack,
    (g.node c).edgeStack? p = some stack ↔ ⟨p, c, stack⟩ ∈ newEdges calls
  edges : g.edges = ∑ i ∈ Finset.range g.nodes.size, (g.node i).children.length
  predicted : g.predicted = predictions calls

/-- Every run, whoever calls and however often searches are numbered again. -/
theorem Run.reflects_calls (h : Run calls g) : g.Reflects calls := by
  obtain ⟨hdraws, hpredicted⟩ := h.draws
  have hindexed := h.wellFormed.indexed
  have hnode {m : UInt64} {i : NodeId} : g.findNode? m = some i ↔ g.mutexes[i]? = some m :=
    hindexed.findNode?_eq_some_iff.trans Graph.getElem?_mutexes.symm
  have hthread {t : Tid} {k : Nat} : g.findThread? t = some k ↔ g.tids[k]? = some t :=
    hindexed.findThread?_eq_some_iff.trans Graph.getElem?_tids.symm
  constructor
  case node_iff =>
    intro m
    simp only [hnode, ← List.mem_iff_getElem?, h.mem_mutexes_iff]
  case node_inj =>
    intro a b i ha hb
    exact Option.some.inj ((hnode.1 ha).symm.trans (hnode.1 hb))
  case node_stays =>
    intro c hc m i hi
    rw [(h.wellFormed_before hc).indexed.findNode?_eq_some_iff, ← Graph.getElem?_mutexes] at hi
    obtain ⟨rest, hrest⟩ := (h.prefix_tables hc).1
    rw [hnode, ← hrest, List.getElem?_append_left (List.getElem?_eq_some_iff.1 hi).1]
    exact hi
  case thread_iff =>
    intro t ht
    simp only [hthread, ← List.mem_iff_getElem?, h.mem_tids_iff ht]
  case thread_inj =>
    intro t u k ht hu
    exact Option.some.inj ((hthread.1 ht).symm.trans (hthread.1 hu))
  case thread_stays =>
    intro c hc t k hk
    rw [(h.wellFormed_before hc).indexed.findThread?_eq_some_iff, ← Graph.getElem?_tids] at hk
    obtain ⟨rest, hrest⟩ := (h.prefix_tables hc).2
    rw [hthread, ← hrest, List.getElem?_append_left (List.getElem?_eq_some_iff.1 hk).1]
    exact hk
  case both => exact hdraws.count_children
  case once =>
    intro p c
    exact List.nodup_iff_count_le_one.1 (hdraws.nodup_children p) c
  case aligned => exact hdraws.aligned
  case edge_iff =>
    intro p c
    rw [← Graph.edge_iff, hdraws.edge_iff]
    constructor
    · rintro ⟨⟨_, _, stack⟩, he, rfl, rfl⟩
      exact ⟨stack, he⟩
    · rintro ⟨stack, he⟩
      exact ⟨_, he, rfl, rfl⟩
  case edgeStack_iff =>
    intro p c stack
    exact hdraws.edgeStack?_eq_some_iff
  case edges => exact hdraws.sum_children.symm
  case predicted => exact hpredicted

/-- Edges into one mutex with call stacks of their own: two nestings, an acquisition of a mutex
that another thread has, an inversion whose edge goes, and an edge without a call stack. -/
def stolenLock : List Event :=
  [.lock 1 1 none true, .lock 3 1 (some (.ofFrames [13])) true, .unlock 3 1, .unlock 1 1,
    .lock 2 1 none true, .lock 3 1 (some (.ofFrames [23])) true, .lock 4 2 none true,
    .lock 3 2 (some (.ofFrames [43])) true, .unlock 3 1, .unlock 3 2, .lock 3 3 none true,
    .lock 5 3 none true, .unlock 5 3, .unlock 3 3, .lock 5 3 none true,
    .lock 3 3 (some (.ofFrames [53])) true, .unlock 3 3, .lock 6 4 none true, .lock 3 4 none false,
    .forget 3]

theorem reflects_calls_stolenLock :
    ∃ calls g, Graph.play .empty [] stolenLock = some (calls, g) ∧
      newEdges calls = [⟨0, 1, .ofFrames [13]⟩, ⟨2, 1, .ofFrames [23]⟩, ⟨3, 1, .ofFrames [43]⟩,
        ⟨1, 4, .empty⟩, ⟨5, 1, .empty⟩] ∧
      predictions calls = 1 ∧ g.Reflects calls := by
  have hrun : (Graph.play .empty [] stolenLock).map (fun p => (newEdges p.1, predictions p.1)) =
      some ([⟨0, 1, .ofFrames [13]⟩, ⟨2, 1, .ofFrames [23]⟩, ⟨3, 1, .ofFrames [43]⟩,
        ⟨1, 4, .empty⟩, ⟨5, 1, .empty⟩], 1) := by
    decide +kernel
  obtain ⟨⟨calls, g⟩, hplay, hfacts⟩ := Option.map_eq_some_iff.1 hrun
  obtain ⟨hedges, hpredictions⟩ := Prod.mk.inj hfacts
  exact ⟨calls, g, hplay, hedges, hpredictions, (Run.nil.of_play hplay).reflects_calls⟩

end Threading.LockOrder
