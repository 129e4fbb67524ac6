import Threading.Proofs.LockOrder.CycleSearch
import Threading.Proofs.LockOrder.Links

/-!
# Recording an order

While the recorded edges have no cycle and the marks of earlier searches are older
than the next number, a new edge is kept exactly when it closes no cycle, and a
rejected edge leaves nothing behind but marks. The number of a search is new as
long as fewer than `2 ^ 32 - 1` searches have run.
-/
namespace Threading.LockOrder

open Relation

/-! ## One more arc -/

section Arcs

variable {α : Type} {r r' : α → α → Prop} {p c a b : α}

/-- A path with one more arc either does without it or goes through it. -/
theorem transGen_add (hr : ∀ a b, r' a b ↔ r a b ∨ a = p ∧ b = c) (h : TransGen r' a b) :
    TransGen r a b ∨ ReflTransGen r a p ∧ ReflTransGen r c b := by
  induction h with
  | single hab =>
    rcases (hr _ _).1 hab with hab | ⟨rfl, rfl⟩
    · exact .inl (.single hab)
    · exact .inr ⟨.refl, .refl⟩
  | tail _ hbd ih =>
    rcases (hr _ _).1 hbd with hbd | ⟨rfl, rfl⟩ <;> rcases ih with hab | ⟨hap, hcb⟩
    · exact .inl (hab.tail hbd)
    · exact .inr ⟨hap, hcb.tail hbd⟩
    · exact .inr ⟨hab.to_reflTransGen, .refl⟩
    · exact .inr ⟨hap, .refl⟩

/-- One more arc closes a cycle exactly if there was a path back. -/
theorem acyclic_add (hr : ∀ a b, r' a b ↔ r a b ∨ a = p ∧ b = c) (hacyc : ∀ a, ¬ TransGen r a a)
    (hback : ¬ ReflTransGen r c p) (a : α) : ¬ TransGen r' a a := by
  intro h
  rcases transGen_add hr h with h | ⟨hap, hca⟩
  · exact hacyc a h
  · exact hback (hca.trans hap)

theorem transGen_of_add (hr : ∀ a b, r' a b ↔ r a b ∨ a = p ∧ b = c) (hback : ReflTransGen r c p) :
    TransGen r' c c :=
  .tail' (ReflTransGen.mono (fun a b hab => (hr a b).2 (.inl hab)) _ _ hback)
    ((hr p c).2 (.inr ⟨rfl, rfl⟩))

end Arcs

/-- Whether a cycle search led to the outcome. -/
def Outcome.searched : Outcome → Bool
  | reentrant | acquired => false
  | newEdge | predictedDeadlock => true

namespace Graph

variable {g g' g₁ : Graph} {parent child i a b : NodeId} {stack : CallStack} {thread : Nat}
variable {t : Tid} {capture : Bool} {outcome : Outcome} {report : Option Report}

/-- The recorded order of two nodes. -/
def Edge (g : Graph) : NodeId → NodeId → Prop := Arc g.nodes

theorem edge_iff : g.Edge a b ↔ b ∈ (g.node a).children := Iff.rfl

theorem edge_iff_of_unmarked (h : g'.nodes.map Node.unmarked = g.nodes.map Node.unmarked) :
    g'.Edge a b ↔ g.Edge a b :=
  arc_iff_of_unmarked h a b

theorem forgetHolder_node (h : g'.orderPart = g.orderPart) (i : NodeId) :
    (g'.node i).forgetHolder = (g.node i).forgetHolder := by
  rw [← node_orderPart, h, node_orderPart]

theorem edge_iff_of_orderPart (h : g'.orderPart = g.orderPart) : g'.Edge a b ↔ g.Edge a b := by
  have ha : (g'.node a).children = (g.node a).children := by
    have hn := congrArg Node.children (forgetHolder_node h a)
    exact hn
  rw [edge_iff, edge_iff, ha]

theorem size_eq_of_orderPart (h : g'.orderPart = g.orderPart) : g'.nodes.size = g.nodes.size := by
  have hn := congrArg (·.nodes.size) h
  simpa [orderPart] using hn

theorem epoch_eq_of_orderPart (h : g'.orderPart = g.orderPart) : g'.epoch = g.epoch := by
  have he := congrArg (·.epoch) h
  exact he

/-- The edges have no cycle, and no mark stands in the way of the next search. -/
structure Ordered (g : Graph) : Prop where
  acyclic : ∀ i, ¬ TransGen g.Edge i i
  lt : ∀ a b, g.Edge a b → b < g.nodes.size
  offPath : ∀ i, (g.node i).onPath = false
  visited_le : ∀ i, (g.node i).visited ≤ g.epoch
  aligned : ∀ i, (g.node i).parents.length = (g.node i).parentStacks.length

theorem ordered_empty : Ordered .empty := by
  have hno : ∀ a b, ¬ Edge .empty a b := fun a b h => absurd h List.not_mem_nil
  refine ⟨fun i h => ?_, fun a b h => absurd h (hno a b), fun _ => rfl, fun _ => Nat.le_refl _,
    fun _ => rfl⟩
  obtain ⟨b, hb, -⟩ := TransGen.head'_iff.1 h
  exact hno i b hb

/-- What an operation on holders does not touch. -/
theorem Ordered.congr_orderPart (hg : g.Ordered) (h : g'.orderPart = g.orderPart) : g'.Ordered := by
  have hedge : g'.Edge = g.Edge := funext₂ fun a b => propext (edge_iff_of_orderPart h)
  refine ⟨fun i => hedge ▸ hg.acyclic i, fun a b hab => ?_, fun i => ?_, fun i => ?_, fun i => ?_⟩
  · rw [size_eq_of_orderPart h]
    exact hg.lt a b (hedge ▸ hab)
  · have hi := congrArg Node.onPath (forgetHolder_node h i)
    exact hi.trans (hg.offPath i)
  · have hi : (g'.node i).visited = (g.node i).visited := by
      have hv := congrArg Node.visited (forgetHolder_node h i)
      exact hv
    rw [hi, epoch_eq_of_orderPart h]
    exact hg.visited_le i
  · have hi := forgetHolder_node h i
    have hparents := congrArg (·.parents.length) hi
    have hstacks := congrArg (·.parentStacks.length) hi
    exact hparents.trans ((hg.aligned i).trans hstacks.symm)

theorem aligned_of_unmarked (h : g'.nodes.map Node.unmarked = g.nodes.map Node.unmarked)
    (hg : ∀ i, (g.node i).parents.length = (g.node i).parentStacks.length) (i : NodeId) :
    (g'.node i).parents.length = (g'.node i).parentStacks.length := by
  have hi := getD_eq_of_unmarked h i
  have hparents := congrArg (·.parents.length) hi
  have hstacks := congrArg (·.parentStacks.length) hi
  exact hparents.trans ((hg i).trans hstacks.symm)

/-- Other marks do no harm, as long as no later search takes them for its own. -/
theorem Ordered.of_unmarked (hg : g.Ordered)
    (h : g'.nodes.map Node.unmarked = g.nodes.map Node.unmarked)
    (hoff : ∀ i, (g'.node i).onPath = false) (hvisited : ∀ i, (g'.node i).visited ≤ g'.epoch) :
    g'.Ordered := by
  have hedge : g'.Edge = g.Edge := funext₂ fun a b => propext (edge_iff_of_unmarked h)
  have hsize : g'.nodes.size = g.nodes.size := by simpa using congrArg Array.size h
  refine ⟨fun i => hedge ▸ hg.acyclic i, fun a b hab => ?_, hoff, hvisited, fun i => ?_⟩
  · rw [hsize]
    exact hg.lt a b (hedge ▸ hab)
  · exact aligned_of_unmarked h hg.aligned i

theorem edge_internNode (g : Graph) (m : UInt64) : (g.internNode m).2.Edge a b ↔ g.Edge a b := by
  rw [edge_iff, edge_iff, view_internNode Node.children (by rfl)]

theorem epoch_internNode (g : Graph) (m : UInt64) : (g.internNode m).2.epoch = g.epoch := by
  unfold internNode
  split <;> rfl

theorem Ordered.internNode (hg : g.Ordered) (m : UInt64) : (g.internNode m).2.Ordered := by
  have hedge : (g.internNode m).2.Edge = g.Edge :=
    funext₂ fun a b => propext (edge_internNode g m)
  refine ⟨fun i => hedge ▸ hg.acyclic i, fun a b hab => ?_, fun i => ?_, fun i => ?_, fun i => ?_⟩
  · exact Nat.lt_of_lt_of_le (hg.lt a b (hedge ▸ hab)) (size_le_internNode g m)
  · rw [view_internNode Node.onPath (by rfl)]
    exact hg.offPath i
  · rw [view_internNode Node.visited (by rfl), epoch_internNode]
    exact hg.visited_le i
  · rw [view_internNode Node.parents (by rfl), view_internNode Node.parentStacks (by rfl)]
    exact hg.aligned i

/-! ## Putting an edge in and taking it out -/

theorem size_link (g : Graph) (parent child : NodeId) (stack : CallStack) :
    (g.link parent child stack).nodes.size = g.nodes.size := by
  simp [link, modifyNode]

theorem children_link (hparent : parent < g.nodes.size) (a : NodeId) :
    ((g.link parent child stack).node a).children =
      if a = parent then (g.node a).children ++ [child] else (g.node a).children := by
  refine (view_modifyNode _ Node.children (fun n => by rfl) child a).trans ?_
  by_cases ha : a = parent
  · subst ha
    rw [if_pos rfl, node_modifyNode_self g hparent]
  · rw [if_neg ha, node_modifyNode_of_ne g ha]

/-- The edge comes into its end together with its call stack. -/
theorem incoming_link (hchild : child < g.nodes.size) (a : NodeId) :
    ((g.link parent child stack).node a).parents =
        (if a = child then (g.node a).parents ++ [parent] else (g.node a).parents) ∧
      ((g.link parent child stack).node a).parentStacks =
        if a = child then (g.node a).parentStacks ++ [stack] else (g.node a).parentStacks := by
  have hparents := view_modifyNode g (f := fun n => { n with children := n.children ++ [child] })
    Node.parents (fun n => by rfl) parent a
  have hstacks := view_modifyNode g (f := fun n => { n with children := n.children ++ [child] })
    Node.parentStacks (fun n => by rfl) parent a
  rw [← hparents, ← hstacks]
  change ((modifyNode (modifyNode g parent _) child _).node a).parents = _ ∧
    ((modifyNode (modifyNode g parent _) child _).node a).parentStacks = _
  by_cases ha : a = child
  · subst ha
    rw [if_pos rfl, if_pos rfl, node_modifyNode_self _ (by rwa [size_modifyNode])]
    exact ⟨rfl, rfl⟩
  · rw [if_neg ha, if_neg ha, node_modifyNode_of_ne _ ha]
    exact ⟨rfl, rfl⟩

theorem aligned_link (hchild : child < g.nodes.size)
    (hg : ∀ i, (g.node i).parents.length = (g.node i).parentStacks.length) (i : NodeId) :
    ((g.link parent child stack).node i).parents.length =
      ((g.link parent child stack).node i).parentStacks.length := by
  rw [(incoming_link hchild i).1, (incoming_link hchild i).2]
  split
  · simp [hg i]
  · exact hg i

theorem edge_link (hparent : parent < g.nodes.size) :
    (g.link parent child stack).Edge a b ↔ g.Edge a b ∨ a = parent ∧ b = child := by
  rw [edge_iff, children_link hparent, edge_iff]
  by_cases ha : a = parent
  · simp [ha]
  · simp [ha]

/-- Taking the edge out that was just put in restores every node, whatever marks a
search has left in between. -/
theorem unmarked_unlink_link
    (haligned : (g.node child).parents.length = (g.node child).parentStacks.length)
    (h : g₁.nodes.map Node.unmarked = (g.link parent child stack).nodes.map Node.unmarked) :
    (g₁.unlink parent child).nodes.map Node.unmarked = g.nodes.map Node.unmarked := by
  simp only [unlink, link, modifyNode] at h ⊢
  rw [map_modify _ _ _ _ fun n => by rfl, map_modify _ _ _ _ fun n => by rfl, h,
    map_modify _ _ _ _ fun n => by rfl, map_modify _ _ _ _ fun n => by rfl]
  apply Array.ext_getElem?
  intro j
  simp only [Array.getElem?_modify, Array.getElem?_map]
  cases hn : g.nodes[j]? with
  | none => simp
  | some n =>
    have hnode (hc : child = j) : n.unmarked.parents.length = n.unmarked.parentStacks.length := by
      rw [hc, node_eq, hn, Option.getD_some] at haligned
      exact haligned
    by_cases hp : parent = j <;> by_cases hc : child = j <;> simp [hp, hc]
    · have hchild := Node.dropChild_append { n.unmarked with
        parents := n.unmarked.parents ++ [j]
        parentStacks := n.unmarked.parentStacks ++ [stack] } j
      exact (congrArg (·.dropParent j) hchild).trans
        (n.unmarked.dropParent_append j stack (hnode hc))
    · exact n.unmarked.dropChild_append child
    · exact n.unmarked.dropParent_append parent stack (hnode hc)

theorem view_link {β : Type} (u : Node → β)
    (hu : ∀ n children parents parentStacks,
      u { n with children, parents, parentStacks } = u n) (g : Graph)
    (parent child : NodeId) (stack : CallStack) (j : NodeId) :
    u ((g.link parent child stack).node j) = u (g.node j) :=
  (view_modifyNode _ u (fun n => hu n n.children _ _) child j).trans
    (view_modifyNode g u (fun n => hu n _ n.parents n.parentStacks) parent j)

theorem view_unlink {β : Type} (u : Node → β)
    (hu : ∀ n children parents parentStacks,
      u { n with children, parents, parentStacks } = u n) (g : Graph)
    (parent child j : NodeId) : u ((g.unlink parent child).node j) = u (g.node j) :=
  (view_modifyNode _ u (fun n => hu n n.children _ _) child j).trans
    (view_modifyNode g u (fun n => hu n _ n.parents n.parentStacks) parent j)

/-! ## The outcome of recording -/

theorem toNat_nextEpoch {epoch : UInt32} (h : epoch.toNat < 2 ^ 32 - 1) :
    (nextEpoch epoch).toNat = epoch.toNat + 1 := by
  have hsum : (epoch + 1).toNat = epoch.toNat + 1 := by
    rw [UInt32.toNat_add]
    exact Nat.mod_eq_of_lt (by simp; omega)
  rw [nextEpoch, if_neg fun h0 => by simp [h0] at hsum, hsum]

/-- How an order `r` becomes `r'` when `i` is acquired and `prev?` is the lock that
its thread acquired last. -/
inductive Records {α : Type} (r r' : α → α → Prop) (prev? : Option α) (i : α) : Outcome → Prop
  | reentrant : (∀ a b, r' a b ↔ r a b) → Records r r' prev? i .reentrant
  | acquired : (∀ prev, prev? = some prev → prev = i ∨ r prev i) → (∀ a b, r' a b ↔ r a b) →
      Records r r' prev? i .acquired
  | newEdge {prev : α} : prev? = some prev → prev ≠ i → ¬ r prev i → ¬ ReflTransGen r i prev →
      (∀ a b, r' a b ↔ r a b ∨ a = prev ∧ b = i) → Records r r' prev? i .newEdge
  | predicted {prev : α} : prev? = some prev → prev ≠ i → ¬ r prev i → ReflTransGen r i prev →
      (∀ a b, r' a b ↔ r a b) → Records r r' prev? i .predictedDeadlock

/-- The call stack that an edge to a node gets. -/
def edgeStackOf (g : Graph) (i : NodeId) (capture : Bool) : CallStack :=
  if capture then (g.node i).stack else .empty

/-- What recording can do. -/
theorem recordOrder_cases (h : g.recordOrder thread t i capture = some (g', outcome, report)) :
    (outcome = .acquired ∧ g' = g ∧ report = none ∧
      ∀ prev, g.top thread = some prev → prev = i ∨ g.Edge prev i) ∨
    ∃ prev g₁ closing, g.top thread = some prev ∧ prev ≠ i ∧ ¬ g.Edge prev i ∧
      (g.link prev i (g.edgeStackOf i capture)).findCycle i = (g₁, closing) ∧
      (closing = none ∧ outcome = .newEdge ∧ g' = g₁ ∧ report = none ∨
        outcome = .predictedDeadlock ∧
          g' = { g₁.unlink prev i with predicted := g₁.predicted + 1 } ∧
          ∃ c r, closing = some c ∧ report = some r ∧ g₁.report? t prev c capture = some r) := by
  rw [recordOrder] at h
  split at h
  next htop =>
    obtain ⟨rfl, rfl, rfl⟩ : g = g' ∧ Outcome.acquired = outcome ∧ none = report := by simpa using h
    exact .inl ⟨rfl, rfl, rfl, by simp [htop]⟩
  next prev htop =>
    split at h
    next hknown =>
      obtain ⟨rfl, rfl, rfl⟩ : g = g' ∧ Outcome.acquired = outcome ∧ none = report := by
        simpa using h
      refine .inl ⟨rfl, rfl, rfl, fun prev' hprev' => ?_⟩
      obtain rfl : prev = prev' := Option.some.inj (htop.symm.trans hprev')
      exact hknown
    next hnew =>
      obtain ⟨hne, hedge⟩ := not_or.1 hnew
      simp only at h
      split at h
      next g₁ hsearch =>
        obtain ⟨rfl, rfl, rfl⟩ : g₁ = g' ∧ Outcome.newEdge = outcome ∧ none = report := by
          simpa using h
        exact .inr ⟨prev, g₁, none, htop, hne, hedge, hsearch, .inl ⟨rfl, rfl, rfl, rfl⟩⟩
      next g₁ c hsearch =>
        obtain ⟨r, hr, heq⟩ := Option.map_eq_some_iff.1 h
        obtain ⟨rfl, rfl, rfl⟩ :
            _ = g' ∧ Outcome.predictedDeadlock = outcome ∧ some r = report := by
          simpa using heq
        exact .inr ⟨prev, g₁, some c, htop, hne, hedge, hsearch,
          .inr ⟨rfl, rfl, c, r, rfl, rfl, hr⟩⟩

/-- Putting an edge in and searching leaves the held locks alone. -/
theorem heldPart_findCycle_link {closing : Option NodeId}
    (h : (g.link parent child stack).findCycle i = (g₁, closing)) : g₁.heldPart = g.heldPart := by
  have hfind := heldPart_findCycle (g.link parent child stack) i
  rw [h, heldPart_link] at hfind
  exact hfind

/-- Recording leaves the held locks alone. -/
theorem heldPart_recordOrder (h : g.recordOrder thread t i capture = some (g', outcome, report)) :
    g'.heldPart = g.heldPart := by
  obtain ⟨-, rfl, -⟩ | ⟨prev, g₁, closing, -, -, -, hsearch, hend⟩ := recordOrder_cases h
  · rfl
  have hg₁ := heldPart_findCycle_link hsearch
  obtain ⟨-, -, rfl, -⟩ | ⟨-, rfl, -⟩ := hend
  · exact hg₁
  · exact (heldPart_unlink g₁ prev i).trans hg₁

/-- Only a search takes a new number. -/
theorem epoch_recordOrder (h : g.recordOrder thread t i capture = some (g', outcome, report)) :
    g'.epoch = if outcome.searched then nextEpoch g.epoch else g.epoch := by
  obtain ⟨rfl, rfl, -⟩ | ⟨prev, g₁, closing, -, -, -, hsearch, hend⟩ := recordOrder_cases h
  · rfl
  have hg₁ : g₁.epoch = nextEpoch g.epoch := by
    have he := congrArg (·.1.epoch) hsearch
    exact he.symm
  obtain ⟨-, rfl, rfl, -⟩ | ⟨rfl, rfl, -⟩ := hend
  · exact hg₁
  · exact hg₁

/-- Before the search after an edge is put in, no node has a mark that the search could take for
its own. -/
theorem Ordered.marks_link (hg : g.Ordered) (parent child : NodeId) (stack : CallStack)
    (hepoch : g.epoch.toNat < 2 ^ 32 - 1) (j : NodeId) :
    ((g.link parent child stack).node j).onPath = false ∧
      ((g.link parent child stack).node j).visited < nextEpoch g.epoch := by
  rw [view_link Node.onPath (fun _ _ _ _ => rfl), view_link Node.visited (fun _ _ _ _ => rfl),
    UInt32.lt_iff_toNat_lt, toNat_nextEpoch hepoch]
  exact ⟨hg.offPath j, Nat.lt_succ_of_le (UInt32.le_iff_toNat_le.1 (hg.visited_le j))⟩

/-- The search after an edge is put in finds a cycle exactly if there was a path back. -/
theorem Ordered.findCycle_link (hg : g.Ordered) (hi : i < g.nodes.size)
    (hparent : parent < g.nodes.size) (hepoch : g.epoch.toNat < 2 ^ 32 - 1)
    {closing : Option NodeId} (h : (g.link parent i stack).findCycle i = (g₁, closing)) :
    (closing = none ↔ ¬ ReflTransGen g.Edge i parent) ∧ (∀ j, (g₁.node j).onPath = false) ∧
      ∀ j, (g₁.node j).visited ≤ g₁.epoch := by
  have hmarks := hg.marks_link parent i stack hepoch
  obtain ⟨hclosing, hoff₁, hvisit₁⟩ := findCycle_spec (by rwa [size_link])
    (fun j => (hmarks j).1) (fun j => UInt32.ne_of_lt (hmarks j).2) h
  have hepoch₁ : g₁.epoch = nextEpoch g.epoch := by
    have he := congrArg (·.1.epoch) h
    exact he.symm
  have hlink (a b : NodeId) : (g.link parent i stack).Edge a b ↔ g.Edge a b ∨ a = parent ∧ b = i :=
    edge_link hparent
  have htame : Tame (g.link parent i stack).nodes i ↔ ¬ ReflTransGen g.Edge i parent :=
    ⟨fun ht hback => ht i .refl (transGen_of_add hlink hback),
      fun hback j _ => acyclic_add hlink hg.acyclic hback j⟩
  refine ⟨hclosing.trans htame, hoff₁, fun j => ?_⟩
  rcases hvisit₁ j with hj | hj
  · rw [hj, hepoch₁]
    exact UInt32.le_of_lt (hmarks j).2
  · rw [hj]
    exact UInt32.le_refl _

/-- In a list without repetition nothing leads on from the last element. -/
theorem isChain_imp_of_getLast? {α : Type} {r r' : α → α → Prop} {l : List α} {last : α}
    (h : l.IsChain r) (hnodup : l.Nodup) (hlast : l.getLast? = some last)
    (himp : ∀ a b, a ≠ last → r a b → r' a b) : l.IsChain r' := by
  rw [List.isChain_iff_forall_rel_of_append_cons_cons] at h ⊢
  rintro a b l₁ l₂ rfl
  refine himp a b ?_ (h rfl)
  rintro rfl
  rw [List.getLast?_append_cons, List.getLast?_cons_cons] at hlast
  obtain ⟨-, hnodup, -⟩ := List.nodup_append.1 hnodup
  exact (List.nodup_cons.1 hnodup).1 (List.mem_of_getLast? hlast)

/-- A path of edges from `start` to `goal`, read backwards. -/
structure PathBack (g : Graph) (start goal : NodeId) (path : List NodeId) : Prop where
  first : ∃ rest, path = goal :: rest
  last : path.getLast? = some start
  nodup : path.Nodup
  chain : path.IsChain fun a b => g.Edge b a

/-- If the search finds a cycle, it is the one that the new edge closes: its path leads along
older edges from the end of the new edge to the start. -/
theorem Ordered.findCycle_link_eq_some (hg : g.Ordered) (hi : i < g.nodes.size)
    (hparent : parent < g.nodes.size) (hepoch : g.epoch.toNat < 2 ^ 32 - 1) {c : NodeId}
    (h : (g.link parent i stack).findCycle i = (g₁, some c)) :
    c = i ∧ g.PathBack i parent g₁.trail := by
  have hmarks := hg.marks_link parent i stack hepoch
  have hloops := findCycle_loops (by rwa [size_link]) (fun j => (hmarks j).1)
    (fun j => UInt32.ne_of_lt (hmarks j).2) h
  have hlink (a b : NodeId) : (g.link parent i stack).Edge a b ↔ g.Edge a b ∨ a = parent ∧ b = i :=
    edge_link hparent
  have hchain : g₁.trail.IsChain fun a b => g.Edge b a :=
    isChain_imp_of_getLast? hloops.chain hloops.nodup hloops.last fun a b ha hab =>
      ((hlink b a).1 hab).resolve_right fun hnew => ha hnew.2
  obtain ⟨top, rest, htrail, harc⟩ := hloops.closes
  -- The arc back is the new edge, as an older one would close a cycle of older edges.
  have hback : top = parent ∧ c = i := by
    refine ((hlink top c).1 harc).resolve_left fun hold => hg.acyclic c ?_
    have hmem := hloops.mem
    rw [htrail] at hchain hmem
    exact .tail' (reflTransGen_of_isChain hchain hmem) hold
  obtain ⟨rfl, rfl⟩ := hback
  exact ⟨rfl, ⟨rest, htrail⟩, hloops.last, hloops.nodup, hchain⟩

/-- An edge is kept exactly if it closes no cycle, and then there is still none. -/
theorem recordOrder_spec (hg : g.Ordered) (hi : i < g.nodes.size)
    (htop : ∀ prev, g.top thread = some prev → prev < g.nodes.size)
    (hepoch : g.epoch.toNat < 2 ^ 32 - 1)
    (h : g.recordOrder thread t i capture = some (g', outcome, report)) :
    g'.Ordered ∧ Records g.Edge g'.Edge (g.top thread) i outcome := by
  obtain ⟨rfl, rfl, -, hknown⟩ | ⟨prev, g₁, closing, hprev, hne, hnew, hsearch, hend⟩ :=
    recordOrder_cases h
  · exact ⟨hg, .acquired hknown fun _ _ => Iff.rfl⟩
  obtain ⟨hclosing, hoff, hvisited⟩ := hg.findCycle_link hi (htop prev hprev) hepoch hsearch
  have hunmarked : g₁.nodes.map Node.unmarked =
      (g.link prev i (g.edgeStackOf i capture)).nodes.map Node.unmarked := by
    have hu := unmarked_findCycle (g.link prev i (g.edgeStackOf i capture)) i
    rwa [hsearch] at hu
  obtain ⟨hnone, rfl, rfl, -⟩ | ⟨rfl, rfl, c, -, hsome, -⟩ := hend
  · have hback := hclosing.1 hnone
    have hedge (a b : NodeId) : g'.Edge a b ↔ g.Edge a b ∨ a = prev ∧ b = i :=
      (edge_iff_of_unmarked hunmarked).trans (edge_link (htop prev hprev))
    have hsize : g'.nodes.size = g.nodes.size := by
      simpa [size_link] using congrArg Array.size hunmarked
    refine ⟨⟨acyclic_add hedge hg.acyclic hback, fun a b hab => ?_, hoff, hvisited, fun j => ?_⟩,
      .newEdge hprev hne hnew hback hedge⟩
    · rw [hsize]
      rcases (hedge a b).1 hab with hab | ⟨-, rfl⟩
      · exact hg.lt a b hab
      · exact hi
    · exact aligned_of_unmarked hunmarked (aligned_link hi hg.aligned) j
  · have hback : ReflTransGen g.Edge i prev := by
      by_contra hback
      exact absurd (hclosing.2 hback) (by simp [hsome])
    have hrestored := unmarked_unlink_link (hg.aligned i) hunmarked
    have hedge (a b : NodeId) : (g₁.unlink prev i).Edge a b ↔ g.Edge a b :=
      edge_iff_of_unmarked hrestored
    refine ⟨hg.of_unmarked hrestored (fun j => ?_) fun j => ?_,
      .predicted hprev hne hnew hback hedge⟩
    · exact (view_unlink Node.onPath (fun _ _ _ _ => rfl) g₁ prev i j).trans (hoff j)
    · have hv := view_unlink Node.visited (fun _ _ _ _ => rfl) g₁ prev i j
      exact hv ▸ hvisited j

end Graph
end Threading.LockOrder
