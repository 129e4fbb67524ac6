import Threading.Proofs.LockOrder.Steps

/-!
# The recorded order of mutexes

Nodes are numbered in the order in which mutexes are first seen, and a node keeps
its mutex. The recorded order of mutexes is therefore the image of the edges under
an injection, and what is known of edges and paths carries over to mutexes.
-/
namespace Threading.LockOrder

open Relation

namespace Graph

variable {g g' : Graph} {m a b : UInt64} {t : Tid} {stack : Option CallStack} {capture : Bool}
variable {outcome : Outcome} {report : Option Report} {i j : NodeId} {thread : Nat}

/-- The order `a` before `b` is recorded. -/
def Precedes (g : Graph) (a b : UInt64) : Prop := g.hasEdge a b = true

theorem Edge.lt_left (h : g.Edge i j) : i < g.nodes.size := by
  by_contra hi
  rw [edge_iff, node_eq_default g (Nat.le_of_not_lt hi)] at h
  exact List.not_mem_nil h

theorem precedes_iff_find : g.Precedes a b ↔
    ∃ i j, g.findNode? a = some i ∧ g.findNode? b = some j ∧ g.Edge i j := by
  rw [Precedes, hasEdge]
  split
  next i j hi hj => simp [hi, hj, edge_iff]
  next h =>
    simp only [Bool.false_eq_true, false_iff]
    rintro ⟨i, j, hi, hj, -⟩
    exact h i j hi hj

theorem precedes_iff (hg : g.Indexed) (ho : g.Ordered) : g.Precedes a b ↔
    ∃ i j, g.Edge i j ∧ (g.node i).mutex = a ∧ (g.node j).mutex = b := by
  simp only [precedes_iff_find, hg.findNode?_eq_some_iff]
  constructor
  · rintro ⟨i, j, ⟨-, hi⟩, ⟨-, hj⟩, hij⟩
    exact ⟨i, j, hij, hi, hj⟩
  · rintro ⟨i, j, hij, hi, hj⟩
    exact ⟨i, j, ⟨hij.lt_left, hi⟩, ⟨ho.lt i j hij, hj⟩, hij⟩

theorem precedes_node (hg : g.Indexed) (ho : g.Ordered) (hi : i < g.nodes.size)
    (hj : j < g.nodes.size) : g.Precedes (g.node i).mutex (g.node j).mutex ↔ g.Edge i j := by
  rw [precedes_iff hg ho]
  constructor
  · rintro ⟨i', j', hij, hi', hj'⟩
    rwa [← hg.mutex_inj hij.lt_left hi hi', ← hg.mutex_inj (ho.lt i' j' hij) hj hj']
  · intro hij
    exact ⟨i, j, hij, rfl, rfl⟩

/-- A path of the order comes from a path of edges. -/
theorem reflTransGen_precedes_node (hg : g.Indexed) (ho : g.Ordered) (hi : i < g.nodes.size)
    (hj : j < g.nodes.size) :
    ReflTransGen g.Precedes (g.node i).mutex (g.node j).mutex ↔ ReflTransGen g.Edge i j := by
  constructor
  · have hpath : ∀ b, ReflTransGen g.Precedes (g.node i).mutex b →
        ∃ k, k < g.nodes.size ∧ (g.node k).mutex = b ∧ ReflTransGen g.Edge i k := by
      intro b h
      induction h with
      | refl => exact ⟨i, hi, rfl, .refl⟩
      | tail _ hbc ih =>
        obtain ⟨k, hk, hkb, hik⟩ := ih
        obtain ⟨k', l, hkl, hk', hl⟩ := (precedes_iff hg ho).1 hbc
        obtain rfl := hg.mutex_inj hk hkl.lt_left (hkb.trans hk'.symm)
        exact ⟨l, ho.lt k l hkl, hl, hik.tail hkl⟩
    intro h
    obtain ⟨k, hk, hkj, hik⟩ := hpath _ h
    rwa [← hg.mutex_inj hk hj hkj]
  · intro h
    exact ReflTransGen.lift (fun k => (g.node k).mutex)
      (fun a b hab => (precedes_iff hg ho).2 ⟨a, b, hab, rfl, rfl⟩) _ _ h

/-- The recorded order of mutexes has no cycle. -/
theorem Ordered.acyclic_precedes (ho : g.Ordered) (hg : g.Indexed) (a : UInt64) :
    ¬ TransGen g.Precedes a a := by
  intro h
  obtain ⟨b, hab, hba⟩ := TransGen.head'_iff.1 h
  obtain ⟨i, j, hij, rfl, rfl⟩ := (precedes_iff hg ho).1 hab
  have hji := (reflTransGen_precedes_node hg ho (ho.lt i j hij) hij.lt_left).1 hba
  exact ho.acyclic i (.head' hij hji)

/-! ## Nodes keep their mutexes -/

/-- Every node is still there, with its mutex. -/
structure Grows (g g' : Graph) : Prop where
  size : g.nodes.size ≤ g'.nodes.size
  mutex : ∀ j < g.nodes.size, (g'.node j).mutex = (g.node j).mutex

theorem Grows.trans {g₁ : Graph} (h : g.Grows g') (h' : g'.Grows g₁) : g.Grows g₁ :=
  ⟨Nat.le_trans h.size h'.size, fun j hj =>
    (h'.mutex j (Nat.lt_of_lt_of_le hj h.size)).trans (h.mutex j hj)⟩

theorem mutex_eq_of_orderPart (h : g'.orderPart = g.orderPart) (j : NodeId) :
    (g'.node j).mutex = (g.node j).mutex := by
  have hj := congrArg Node.mutex (forgetHolder_node h j)
  exact hj

theorem mutex_eq_of_heldPart (h : g'.heldPart = g.heldPart) (j : NodeId) :
    (g'.node j).mutex = (g.node j).mutex := by
  have hj := congrArg Node.mutex (forgetOrder_node h j)
  exact hj

theorem grows_of_orderPart (h : g'.orderPart = g.orderPart) : g.Grows g' :=
  ⟨Nat.le_of_eq (size_eq_of_orderPart h).symm, fun j _ => mutex_eq_of_orderPart h j⟩

theorem grows_of_heldPart (h : g'.heldPart = g.heldPart) : g.Grows g' :=
  ⟨Nat.le_of_eq (size_eq_of_heldPart h).symm, fun j _ => mutex_eq_of_heldPart h j⟩

theorem grows_internNode (g : Graph) (m : UInt64) : g.Grows (g.internNode m).2 :=
  ⟨size_le_internNode g m, fun j hj => by rw [node_internNode_of_lt g m hj]⟩

theorem grows_claimed (g : Graph) (m : UInt64) (t : Tid) (stack : Option CallStack) :
    g.Grows (g.claimed m t stack) := by
  refine (grows_internNode g m).trans ⟨Nat.le_of_eq (size_claimed g m t stack).symm, fun j _ => ?_⟩
  rw [node_claimed, view_modifyNode _ Node.mutex fun n => by rfl]

theorem grows_onLock (h : g.onLock m t stack capture = some (g', outcome, report)) :
    g.Grows g' := by
  obtain ⟨-, -, -, rfl⟩ | ⟨-, g₁, hrecord, rfl⟩ := onLock_cases h
  · exact (grows_internNode g m).trans
      (grows_of_orderPart (orderPart_modifyNode _ (fun n => by rfl) _))
  · have hrecorded := grows_of_heldPart (heldPart_recordOrder hrecord)
    exact ((grows_claimed g m t stack).trans hrecorded).trans
      (grows_of_orderPart (orderPart_pushHeld g₁ _ _))

/-- The mutex of an acquisition is that of its node. -/
theorem mutex_claimed (hg : g.Indexed) :
    ((g.claimed m t stack).node (g.internNode m).1).mutex = m := by
  rw [node_claimed, view_modifyNode _ Node.mutex fun n => by rfl]
  exact (hg.internNode_spec m).2

theorem mutex_onLock (hg : g.Indexed)
    (h : g.onLock m t stack capture = some (g', outcome, report)) :
    (g'.node (g.internNode m).1).mutex = m := by
  obtain ⟨-, -, -, rfl⟩ | ⟨-, g₁, hrecord, rfl⟩ := onLock_cases h
  · rw [view_modifyNode _ Node.mutex fun n => by rfl]
    exact (hg.internNode_spec m).2
  · rw [view_pushHeld Node.mutex fun _ _ _ => rfl,
      mutex_eq_of_heldPart (heldPart_recordOrder hrecord), mutex_claimed hg]

/-! ## Orders that stay -/

theorem Grows.precedes_iff (h : g.Grows g') (hg : g.Indexed) (ho : g.Ordered) (hg' : g'.Indexed)
    (ho' : g'.Ordered) (hedge : ∀ i j, g'.Edge i j ↔ g.Edge i j) (a b : UInt64) :
    g'.Precedes a b ↔ g.Precedes a b := by
  simp only [Graph.precedes_iff hg ho, Graph.precedes_iff hg' ho', hedge]
  refine exists_congr fun i => exists_congr fun j => and_congr_right fun hij => ?_
  rw [h.mutex i hij.lt_left, h.mutex j (ho.lt i j hij)]

theorem precedes_of_orderPart (h : g'.orderPart = g.orderPart) (a b : UInt64) :
    g'.Precedes a b ↔ g.Precedes a b := by
  simp only [precedes_iff_find, findNode?_eq_of_orderPart h, edge_iff_of_orderPart h]

theorem edge_claimed : (g.claimed m t stack).Edge i j ↔ g.Edge i j := by
  rw [edge_iff, edge_iff, view_claimed Node.children (by rfl) fun _ => rfl]

theorem epoch_internThread (g : Graph) (t : Tid) : (g.internThread t).2.epoch = g.epoch := by
  unfold internThread
  split <;> rfl

theorem Ordered.internThread (ho : g.Ordered) (t : Tid) : (g.internThread t).2.Ordered := by
  have hnodes := nodes_internThread g t
  have hedge : (g.internThread t).2.Edge = g.Edge := by
    unfold Edge
    rw [hnodes]
  refine ⟨fun i => hedge ▸ ho.acyclic i, fun a b hab => ?_, fun i => ?_, fun i => ?_, fun i => ?_⟩
  · rw [hnodes]
    exact ho.lt a b (hedge ▸ hab)
  · rw [node_eq, hnodes, ← node_eq]
    exact ho.offPath i
  · rw [node_eq, hnodes, ← node_eq, epoch_internThread]
    exact ho.visited_le i
  · rw [node_eq, hnodes, ← node_eq]
    exact ho.aligned i

theorem Ordered.claimed (ho : g.Ordered) (m : UInt64) (t : Tid) (stack : Option CallStack) :
    (g.claimed m t stack).Ordered :=
  ((ho.internNode m).congr_orderPart
    (orderPart_modifyNode _ (keepsLinks_claim t stack).forgetHolder _)).internThread t

/-- A claim records no order. -/
theorem precedes_claimed (hg : g.WellFormed) (ho : g.Ordered) :
    (g.claimed m t stack).Precedes a b ↔ g.Precedes a b :=
  (grows_claimed g m t stack).precedes_iff hg.indexed ho (hg.claimed m t stack).indexed
    (ho.claimed m t stack) (fun _ _ => edge_claimed) a b

/-! ## What an acquisition records -/

/-- A change of the edges between nodes as a change of the order of mutexes. -/
theorem Records.precedes {prev? : Option NodeId} (hr : Records g.Edge g'.Edge prev? i outcome)
    (h : g.Grows g') (hg : g.Indexed) (ho : g.Ordered) (hg' : g'.Indexed) (ho' : g'.Ordered)
    (hi : i < g.nodes.size) (hprev : ∀ prev, prev? = some prev → prev < g.nodes.size) :
    Records g.Precedes g'.Precedes (prev?.map fun j => (g.node j).mutex) (g.node i).mutex
      outcome := by
  cases hr with
  | reentrant hedge => exact .reentrant (h.precedes_iff hg ho hg' ho' hedge)
  | acquired hknown hedge =>
    refine .acquired (fun a ha => ?_) (h.precedes_iff hg ho hg' ho' hedge)
    obtain ⟨prev, hp, rfl⟩ := Option.map_eq_some_iff.1 ha
    rcases hknown prev hp with rfl | hpi
    · exact .inl rfl
    · exact .inr ((precedes_node hg ho (hprev prev hp) hi).2 hpi)
  | @newEdge prev hp hne hnew hback hedge =>
    have hlt := hprev prev hp
    refine .newEdge (congrArg (Option.map _) hp) (fun e => hne (hg.mutex_inj hlt hi e))
      (fun hpi => hnew ((precedes_node hg ho hlt hi).1 hpi))
      (fun hb => hback ((reflTransGen_precedes_node hg ho hi hlt).1 hb)) fun a b => ?_
    rw [Graph.precedes_iff hg ho, Graph.precedes_iff hg' ho']
    constructor
    · rintro ⟨k, l, hkl, rfl, rfl⟩
      rcases (hedge k l).1 hkl with hkl | ⟨rfl, rfl⟩
      · exact .inl ⟨k, l, hkl, (h.mutex k hkl.lt_left).symm, (h.mutex l (ho.lt k l hkl)).symm⟩
      · exact .inr ⟨h.mutex _ hlt, h.mutex _ hi⟩
    · rintro (⟨k, l, hkl, rfl, rfl⟩ | ⟨rfl, rfl⟩)
      · exact ⟨k, l, (hedge k l).2 (.inl hkl), h.mutex k hkl.lt_left, h.mutex l (ho.lt k l hkl)⟩
      · exact ⟨prev, i, (hedge prev i).2 (.inr ⟨rfl, rfl⟩), h.mutex prev hlt, h.mutex i hi⟩
  | @predicted prev hp hne hnew hback hedge =>
    have hlt := hprev prev hp
    exact .predicted (congrArg (Option.map _) hp) (fun e => hne (hg.mutex_inj hlt hi e))
      (fun hpi => hnew ((precedes_node hg ho hlt hi).1 hpi))
      ((reflTransGen_precedes_node hg ho hi hlt).2 hback) (h.precedes_iff hg ho hg' ho' hedge)

theorem onLock_eq_reentrant_iff (h : g.onLock m t stack capture = some (g', outcome, report)) :
    outcome = .reentrant ↔ g.ownerOf m = t := by
  obtain ⟨ho, rfl, -⟩ | ⟨ho, g₁, hrecord, -⟩ := onLock_cases h
  · simp [ho]
  · obtain ⟨rfl, -⟩ | ⟨-, -, -, -, -, -, -, ⟨-, rfl, -⟩ | ⟨rfl, -⟩⟩ :=
      recordOrder_cases hrecord <;> simp [ho]

theorem epoch_claimed (g : Graph) (m : UInt64) (t : Tid) (stack : Option CallStack) :
    (g.claimed m t stack).epoch = g.epoch :=
  (epoch_internThread _ t).trans (epoch_internNode g m)

theorem epoch_onLock (h : g.onLock m t stack capture = some (g', outcome, report)) :
    g'.epoch = if outcome.searched then nextEpoch g.epoch else g.epoch := by
  obtain ⟨-, rfl, -, rfl⟩ | ⟨-, g₁, hrecord, rfl⟩ := onLock_cases h
  · exact epoch_internNode g m
  · rw [epoch_eq_of_orderPart (orderPart_pushHeld g₁ _ _), epoch_recordOrder hrecord,
      epoch_claimed]

/-- An acquisition records its order, and there is still no cycle. -/
theorem WellFormed.onLock_records (hg : g.WellFormed) (ho : g.Ordered)
    (hepoch : g.epoch.toNat < 2 ^ 32 - 1)
    (h : g.onLock m t stack capture = some (g', outcome, report)) :
    g'.Ordered ∧ Records g.Precedes g'.Precedes (g.latest? t) m outcome := by
  obtain ⟨-, rfl, -, rfl⟩ | ⟨-, g₁, hrecord, rfl⟩ := onLock_cases h
  · have hcount := orderPart_modifyNode (g.internNode m).2 (keepsLinks_count (· + 1)).forgetHolder
      (g.internNode m).1
    have ho' := (ho.internNode m).congr_orderPart hcount
    refine ⟨ho', .reentrant ?_⟩
    exact ((grows_internNode g m).trans (grows_of_orderPart hcount)).precedes_iff hg.indexed ho
      ((hg.indexed.internNode m).congr_orderPart hcount) ho' fun i j =>
        (edge_iff_of_orderPart hcount).trans (edge_internNode g m)
  · have hc := hg.claimed m t stack
    have hoc := ho.claimed m t stack
    have htop := top_claimed hg.indexed m t stack
    have hlt (prev : NodeId) (hprev : g.topOf t = some prev) :
        prev < (g.claimed m t stack).nodes.size :=
      Nat.lt_of_lt_of_le (hg.inRange.topOf hprev) (grows_claimed g m t stack).size
    obtain ⟨ho₁, hr⟩ := recordOrder_spec hoc (lt_size_claimed hg) (htop ▸ hlt)
      (by rwa [epoch_claimed]) hrecord
    have hheld := heldPart_recordOrder hrecord
    have hpush := orderPart_pushHeld g₁ (g.internThread t).1 (g.internNode m).1
    refine ⟨ho₁.congr_orderPart hpush, ?_⟩
    have hrm := (htop ▸ hr).precedes (grows_of_heldPart hheld) hc.indexed hoc
      (hc.indexed.congr_heldPart hheld) ho₁ (lt_size_claimed hg) hlt
    have hbefore : (g.claimed m t stack).Precedes = g.Precedes := funext₂ fun a b =>
      propext (precedes_claimed hg ho)
    have hafter : (g₁.pushHeld (g.internThread t).1 (g.internNode m).1).Precedes = g₁.Precedes :=
      funext₂ fun a b => propext (precedes_of_orderPart hpush a b)
    have hlatest : (g.topOf t).map (fun j => ((g.claimed m t stack).node j).mutex) = g.latest? t :=
      Option.map_congr fun j hj =>
        (grows_claimed g m t stack).mutex j (hg.inRange.topOf hj)
    rw [hafter, ← hbefore, ← hlatest]
    rwa [mutex_claimed hg.indexed] at hrm

end Graph
end Threading.LockOrder
