import Threading.Proofs.LockOrder.Recording

/-!
# Acquiring, releasing and forgetting

Each operation of the graph in terms of its parts: an acquisition claims the node
of its mutex, records the order and pushes the node; a release takes the node out
of the stack; forgetting a thread frees its tops. Tables and links stay in order
under all of them, whoever calls.
-/
namespace Threading.LockOrder
namespace Graph

variable {g g' : Graph} {m : UInt64} {t : Tid} {stack : Option CallStack} {capture : Bool}
variable {outcome : Outcome} {report : Option Report} {i j : NodeId} {thread : Nat}

/-- The holder of a mutex, or 0. -/
def ownerOf (g : Graph) (m : UInt64) : Tid :=
  match g.findNode? m with
  | none => 0
  | some i => (g.node i).owner

/-- The mutex on top of a thread's stack. -/
def latest? (g : Graph) (t : Tid) : Option UInt64 := (g.topOf t).map fun i => (g.node i).mutex

/-- The tables are in order, and links are numbers of nodes. -/
structure WellFormed (g : Graph) : Prop where
  indexed : g.Indexed
  inRange : g.InRange

theorem wellFormed_empty : WellFormed .empty := ⟨indexed_empty, inRange_empty⟩

theorem WellFormed.congr_heldPart (hg : g.WellFormed) (h : g'.heldPart = g.heldPart) :
    g'.WellFormed :=
  ⟨hg.indexed.congr_heldPart h, hg.inRange.congr_heldPart h⟩

theorem lt_of_findThread? (hg : g.Indexed) (h : g.findThread? t = some thread) :
    thread < g.threads.size :=
  (hg.findThread?_eq_some_iff.1 h).1

/-! ## Claiming a mutex -/

/-- The graph in which `t` has claimed `m` and the order is not recorded yet. -/
def claimed (g : Graph) (m : UInt64) (t : Tid) (stack : Option CallStack) : Graph :=
  (((g.internNode m).2.modifyNode (g.internNode m).1 (·.claim t stack)).internThread t).2

theorem internThread_fst (g : Graph) (t : Tid) :
    (g.internThread t).1 = (g.findThread? t).getD g.threads.size := by
  unfold internThread
  cases g.findThread? t <;> rfl

theorem internThread_fst_internNode (g : Graph) (m : UInt64) (t : Tid) (f : Node → Node) :
    (((g.internNode m).2.modifyNode (g.internNode m).1 f).internThread t).1 =
      (g.internThread t).1 := by
  rw [internThread_fst, internThread_fst]
  unfold internNode
  split <;> rfl

theorem owner_internNode (g : Graph) (m : UInt64) :
    ((g.internNode m).2.node (g.internNode m).1).owner = g.ownerOf m := by
  unfold internNode ownerOf
  split
  next h => rw [h]
  next h =>
    rw [h]
    simp [node_eq]

/-- An acquisition is counted if the owner repeats it and recorded otherwise. -/
theorem onLock_eq (g : Graph) (m : UInt64) (t : Tid) (stack : Option CallStack) (capture : Bool) :
    g.onLock m t stack capture =
      if g.ownerOf m = t then
        some ((g.internNode m).2.modifyNode (g.internNode m).1 fun n =>
          { n with count := n.count + 1 }, .reentrant, none)
      else
        ((g.claimed m t stack).recordOrder (g.internThread t).1 t (g.internNode m).1 capture).map
          fun r => (r.1.pushHeld (g.internThread t).1 (g.internNode m).1, r.2.1, r.2.2) := by
  rw [← owner_internNode, ← internThread_fst_internNode g m t (·.claim t stack)]
  rfl

theorem onLock_cases (h : g.onLock m t stack capture = some (g', outcome, report)) :
    (g.ownerOf m = t ∧ outcome = .reentrant ∧ report = none ∧
      g' = (g.internNode m).2.modifyNode (g.internNode m).1 fun n =>
        { n with count := n.count + 1 }) ∨
    (g.ownerOf m ≠ t ∧ ∃ g₁,
      (g.claimed m t stack).recordOrder (g.internThread t).1 t (g.internNode m).1 capture =
        some (g₁, outcome, report) ∧
      g' = g₁.pushHeld (g.internThread t).1 (g.internNode m).1) := by
  rw [onLock_eq] at h
  split at h
  next ho =>
    obtain ⟨rfl, rfl, rfl⟩ : _ = g' ∧ Outcome.reentrant = outcome ∧ none = report := by
      simpa using h
    exact .inl ⟨ho, rfl, rfl, rfl⟩
  next ho =>
    obtain ⟨⟨g₁, o, r⟩, hr, heq⟩ := Option.map_eq_some_iff.1 h
    obtain ⟨rfl, rfl, rfl⟩ : _ = g' ∧ o = outcome ∧ r = report := by simpa using heq
    exact .inr ⟨ho, g₁, hr, rfl⟩

theorem size_claimed (g : Graph) (m : UInt64) (t : Tid) (stack : Option CallStack) :
    (g.claimed m t stack).nodes.size = (g.internNode m).2.nodes.size := by
  rw [claimed, nodes_internThread]
  exact size_modifyNode _ _ _

theorem node_claimed (j : NodeId) : (g.claimed m t stack).node j =
    ((g.internNode m).2.modifyNode (g.internNode m).1 (·.claim t stack)).node j := by
  rw [node_eq, claimed, nodes_internThread, ← node_eq]

/-- What the claim of a node does not write is the same everywhere. -/
theorem view_claimed {β : Type} (u : Node → β) (hu : u { mutex := m } = u default)
    (hclaim : ∀ n, u (n.claim t stack) = u n) (j : NodeId) :
    u ((g.claimed m t stack).node j) = u (g.node j) := by
  rw [node_claimed, view_modifyNode _ u hclaim, view_internNode u hu]

/-- What the claim of a node sets to `b` is left alone at other nodes. -/
theorem view_claimed_of_const {β : Type} (u : Node → β) (b : β) (hu : u { mutex := m } = u default)
    (hclaim : ∀ n : Node, u (n.claim t stack) = b) (hg : g.Indexed) (j : NodeId) :
    u ((g.claimed m t stack).node j) = if j = (g.internNode m).1 then b else u (g.node j) := by
  rw [node_claimed]
  by_cases hj : j = (g.internNode m).1
  · subst hj
    rw [if_pos rfl, node_modifyNode_self _ (hg.internNode_spec m).1]
    exact hclaim _
  · rw [if_neg hj, node_modifyNode_of_ne _ hj, view_internNode u hu]

theorem topOf_internThread_self (g : Graph) (t : Tid) :
    (g.internThread t).2.top (g.internThread t).1 = g.topOf t := by
  unfold internThread topOf
  split
  next h => rw [h, Option.bind_some]
  next h =>
    rw [h, Option.bind_none]
    simp [top, Array.getD_eq_getD_getElem?]

theorem topOf_internThread (hg : g.Indexed) (t t' : Tid) :
    (g.internThread t).2.topOf t' = g.topOf t' := by
  by_cases ht : t' = t
  · subst ht
    rw [topOf, hg.findThread?_internThread, Option.bind_some, topOf_internThread_self]
  · have hfind : (g.internThread t).2.findThread? t' = g.findThread? t' := by
      apply Option.ext
      intro k
      rw [(hg.internThread t).findThread?_eq_some_iff, hg.findThread?_eq_some_iff]
      unfold internThread
      split
      · rfl
      · simp only [Array.getD_eq_getD_getElem?, Array.getElem?_push, Array.size_push]
        by_cases hk : k = g.threads.size
        · simp [hk, Ne.symm ht]
        · rw [if_neg hk]
          have hlt : k < g.threads.size + 1 ↔ k < g.threads.size := by omega
          rw [hlt]
    rw [topOf, hfind, topOf]
    exact congrArg _ (funext fun k => top_internThread g t k)

theorem topOf_internNode (g : Graph) (m : UInt64) (t : Tid) :
    (g.internNode m).2.topOf t = g.topOf t := by
  unfold internNode
  split <;> rfl

theorem topOf_claimed (hg : g.Indexed) (m : UInt64) (t : Tid) (stack : Option CallStack)
    (t' : Tid) : (g.claimed m t stack).topOf t' = g.topOf t' := by
  rw [claimed, topOf_internThread]
  · exact topOf_internNode g m t'
  · exact (hg.internNode m).congr_orderPart (orderPart_modifyNode _ (fun n => by rfl) _)

theorem indexed_claimed (hg : g.Indexed) (m : UInt64) (t : Tid) (stack : Option CallStack) :
    (g.claimed m t stack).Indexed :=
  ((hg.internNode m).congr_orderPart (orderPart_modifyNode _ (fun n => by rfl) _)).internThread t

theorem findThread?_claimed (hg : g.Indexed) (m : UInt64) (t : Tid) (stack : Option CallStack) :
    (g.claimed m t stack).findThread? t = some (g.internThread t).1 := by
  rw [← internThread_fst_internNode g m t (·.claim t stack)]
  exact ((hg.internNode m).congr_orderPart
    (orderPart_modifyNode _ (fun n => by rfl) _)).findThread?_internThread t

theorem top_claimed (hg : g.Indexed) (m : UInt64) (t : Tid) (stack : Option CallStack) :
    (g.claimed m t stack).top (g.internThread t).1 = g.topOf t := by
  rw [← topOf_claimed hg m t stack t, topOf, findThread?_claimed hg, Option.bind_some]

theorem InRange.internNode (hg : g.InRange) (m : UInt64) : (g.internNode m).2.InRange := by
  have hsize := size_le_internNode g m
  refine ⟨fun thread i hi => ?_, fun j i hi => ?_, fun j i hi => ?_⟩
  · rw [Graph.top, threads_internNode] at hi
    exact Nat.lt_of_lt_of_le (hg.top thread i hi) hsize
  · rw [view_internNode Node.older (by rfl)] at hi
    exact Nat.lt_of_lt_of_le (hg.older j i hi) hsize
  · rw [view_internNode Node.newer (by rfl)] at hi
    exact Nat.lt_of_lt_of_le (hg.newer j i hi) hsize

theorem WellFormed.internNode (hg : g.WellFormed) (m : UInt64) : (g.internNode m).2.WellFormed :=
  ⟨hg.indexed.internNode m, hg.inRange.internNode m⟩

theorem InRange.internThread (hg : g.InRange) (t : Tid) : (g.internThread t).2.InRange := by
  have hnodes := nodes_internThread g t
  refine ⟨fun thread i hi => ?_, fun j i hi => ?_, fun j i hi => ?_⟩ <;> rw [hnodes]
  · rw [top_internThread] at hi
    exact hg.top thread i hi
  · rw [node_eq, hnodes, ← node_eq] at hi
    exact hg.older j i hi
  · rw [node_eq, hnodes, ← node_eq] at hi
    exact hg.newer j i hi

theorem WellFormed.modifyNode (hg : g.WellFormed) {f : Node → Node} (hf : KeepsLinks f)
    (i : NodeId) : (g.modifyNode i f).WellFormed :=
  ⟨hg.indexed.congr_orderPart (orderPart_modifyNode g hf.forgetHolder i),
    hg.inRange.modifyNode hf i⟩

theorem WellFormed.claimed (hg : g.WellFormed) (m : UInt64) (t : Tid) (stack : Option CallStack) :
    (g.claimed m t stack).WellFormed := by
  have hclaim := (hg.internNode m).modifyNode (keepsLinks_claim t stack) (g.internNode m).1
  exact ⟨hclaim.indexed.internThread t, hclaim.inRange.internThread t⟩

theorem WellFormed.pushHeld (hg : g.WellFormed) (hi : i < g.nodes.size)
    (hthread : thread < g.threads.size) : (g.pushHeld thread i).WellFormed :=
  ⟨hg.indexed.congr_orderPart (orderPart_pushHeld g thread i), hg.inRange.pushHeld hi hthread⟩

theorem WellFormed.unchain (hg : g.WellFormed) (hi : i < g.nodes.size)
    (hthread : thread < g.threads.size) : (g.unchain thread i).WellFormed :=
  ⟨hg.indexed.congr_orderPart (orderPart_unchain g thread i), hg.inRange.unchain hi hthread⟩

theorem lt_size_claimed (hg : g.WellFormed) :
    (g.internNode m).1 < (g.claimed m t stack).nodes.size := by
  rw [size_claimed]
  exact (hg.indexed.internNode_spec m).1

theorem lt_threads_claimed (hg : g.WellFormed) :
    (g.internThread t).1 < (g.claimed m t stack).threads.size :=
  lt_of_findThread? (indexed_claimed hg.indexed m t stack)
    (findThread?_claimed hg.indexed m t stack)

/-- The tables and links stay in order under an acquisition. -/
theorem WellFormed.onLock (hg : g.WellFormed)
    (h : g.onLock m t stack capture = some (g', outcome, report)) : g'.WellFormed := by
  obtain ⟨-, -, -, rfl⟩ | ⟨-, g₁, hrecord, rfl⟩ := onLock_cases h
  · exact (hg.internNode m).modifyNode (keepsLinks_count (· + 1)) _
  · have hheld := heldPart_recordOrder hrecord
    refine ((hg.claimed m t stack).congr_heldPart hheld).pushHeld ?_ ?_
    · rw [size_eq_of_heldPart hheld]
      exact lt_size_claimed hg
    · rw [threads_eq_of_heldPart hheld]
      exact lt_threads_claimed hg

/-! ## Releasing and forgetting -/

/-- The tables and links stay in order under a release. -/
theorem WellFormed.onUnlock (hg : g.WellFormed) (h : g.onUnlock m t = some g') :
    g'.WellFormed := by
  obtain ⟨-, rfl⟩ | ⟨i, hfind, -, ⟨-, rfl⟩ | ⟨-, hfreed⟩⟩ := onUnlock_cases h
  · exact hg
  · exact hg.modifyNode (keepsLinks_count (· - 1)) i
  · have hi := (hg.indexed.findNode?_eq_some_iff.1 hfind).1
    have hfree := hg.modifyNode (keepsLinks_owner 0) i
    obtain ⟨-, rfl⟩ | ⟨thread, hthread, hremove⟩ := hfreed
    · exact hfree
    · obtain ⟨found, -, rfl⟩ := Option.map_eq_some_iff.1 hremove
      split
      · exact hfree.unchain (by rwa [size_modifyNode]) (lt_of_findThread? hfree.indexed hthread)
      · exact hfree

theorem WellFormed.freeTops (hg : g.WellFormed) (hthread : thread < g.threads.size) (n : Nat) :
    (Graph.freeTops thread n g).WellFormed := by
  induction n generalizing g with
  | zero => exact hg
  | succ n ih =>
    rw [Graph.freeTops]
    split
    · exact hg
    next i htop =>
      have hfree := hg.modifyNode keepsLinks_free i
      refine ih (hfree.unchain ?_ hthread) ?_
      · rw [size_modifyNode]
        exact hg.inRange.top thread i htop
      · rw [threads_unchain]
        exact hthread

/-- The tables and links stay in order when a thread exits. -/
theorem WellFormed.forgetThread (hg : g.WellFormed) (t : Tid) : (g.forgetThread t).WellFormed := by
  rw [Graph.forgetThread]
  split
  · exact hg
  next thread hthread => exact hg.freeTops (lt_of_findThread? hg.indexed hthread) _

/-! ## What the operations do to the stacks -/

theorem findNode?_eq_of_orderPart (h : g'.orderPart = g.orderPart) (m : UInt64) :
    g'.findNode? m = g.findNode? m := by
  have hp (g : Graph) : g.orderPart.findNode? m = g.findNode? m := by
    simp only [findNode?, node_orderPart]
    rfl
  rw [← hp g', h, hp]

theorem findThread?_eq_of_orderPart (h : g'.orderPart = g.orderPart) (t : Tid) :
    g'.findThread? t = g.findThread? t := by
  have hp (g : Graph) : g.orderPart.findThread? t = g.findThread? t := by
    simp only [findThread?, orderPart, Array.getD_eq_getD_getElem?, Array.getElem?_map]
    refine congrArg (g.threadIndex.find? (tidBucket t)) (funext fun k => ?_)
    cases g.threads[k]? <;> rfl
  rw [← hp g', h, hp]

/-- A change of one thread's top, told by its position and by its number. -/
theorem topOf_of_top (hg : g.Indexed) {p : Prop} [Decidable p] {a : Option NodeId}
    (hfind : ∀ t', g'.findThread? t' = g.findThread? t') (hthread : g.findThread? t = some thread)
    (htop : ∀ k, g'.top k = if p ∧ k = thread then a else g.top k) (t' : Tid) :
    g'.topOf t' = if p ∧ t' = t then a else g.topOf t' := by
  rw [topOf, hfind, topOf]
  cases hk : g.findThread? t' with
  | none =>
    have hne : t' ≠ t := by
      rintro rfl
      exact absurd (hk.symm.trans hthread) (by simp)
    rw [if_neg fun h => hne h.2]
    rfl
  | some k =>
    have heq : k = thread ↔ t' = t := by
      constructor
      · rintro rfl
        rw [← (hg.findThread?_eq_some_iff.1 hk).2, (hg.findThread?_eq_some_iff.1 hthread).2]
      · rintro rfl
        exact Option.some.inj (hk.symm.trans hthread)
    simp only [Option.bind_some, htop, heq]

/-- `t` gets the node `i` on top of its stack and becomes its owner. -/
structure Pushes (g g' : Graph) (t : Tid) (i : NodeId) : Prop where
  owner : ∀ j, (g'.node j).owner = if j = i then t else (g.node j).owner
  count : ∀ j, (g'.node j).count = if j = i then 0 else (g.node j).count
  older : ∀ j, (g'.node j).older = if j = i then g.topOf t else (g.node j).older
  newer : ∀ j, (g'.node j).newer =
    if g.topOf t = some j then some i else if j = i then none else (g.node j).newer
  topOf : ∀ t', g'.topOf t' = if t' = t then some i else g.topOf t'

/-- `t` gives the node `i` up, and its neighbours by its own links are joined. -/
structure Removes (g g' : Graph) (t : Tid) (i : NodeId) : Prop where
  owner : ∀ j, (g'.node j).owner = if j = i then 0 else (g.node j).owner
  count : ∀ j, (g'.node j).count = if j = i then 0 else (g.node j).count
  older : ∀ j, (g'.node j).older =
    if j = i then none else if (g.node i).newer = some j then (g.node i).older else (g.node j).older
  newer : ∀ j, (g'.node j).newer =
    if j = i then none else if (g.node i).older = some j then (g.node i).newer else (g.node j).newer
  topOf : ∀ t', g'.topOf t' =
    if (g.node i).newer = none ∧ t' = t then (g.node i).older else g.topOf t'

/-- The stacks stay as they are. -/
structure Keeps (g g' : Graph) : Prop where
  older : ∀ j, (g'.node j).older = (g.node j).older
  newer : ∀ j, (g'.node j).newer = (g.node j).newer
  topOf : ∀ t', g'.topOf t' = g.topOf t'

/-- An acquisition that is not repeated pushes the node of the mutex. -/
theorem WellFormed.pushes_onLock (hg : g.WellFormed) {g₁ : Graph}
    (h : g₁.heldPart = (g.claimed m t stack).heldPart) :
    g.Pushes (g₁.pushHeld (g.internThread t).1 (g.internNode m).1) t (g.internNode m).1 := by
  have hg₁ : g₁.WellFormed := (hg.claimed m t stack).congr_heldPart h
  have hi : (g.internNode m).1 < g₁.nodes.size := by
    rw [size_eq_of_heldPart h]
    exact lt_size_claimed hg
  have hthread : (g.internThread t).1 < g₁.threads.size := by
    rw [threads_eq_of_heldPart h]
    exact lt_threads_claimed hg
  have htopOf (t' : Tid) : g₁.topOf t' = g.topOf t' := by
    rw [topOf_eq_of_heldPart h, topOf_claimed hg.indexed]
  have hfind : g₁.findThread? t = some (g.internThread t).1 := by
    have ht := congrArg (·.findThread? t) h
    exact ht.trans (findThread?_claimed hg.indexed m t stack)
  have htop : g₁.top (g.internThread t).1 = g.topOf t := by
    rw [← htopOf, topOf, hfind, Option.bind_some]
  refine ⟨fun j => ?_, fun j => ?_, fun j => ?_, fun j => ?_, fun t' => ?_⟩
  · rw [view_pushHeld Node.owner (fun _ _ _ => rfl), owner_eq_of_heldPart h,
      view_claimed_of_const Node.owner t (by rfl) (fun _ => rfl) hg.indexed]
  · rw [view_pushHeld Node.count (fun _ _ _ => rfl), count_eq_of_heldPart h,
      view_claimed_of_const Node.count 0 (by rfl) (fun _ => rfl) hg.indexed]
  · rw [older_pushHeld hi, htop, older_eq_of_heldPart h,
      view_claimed Node.older (by rfl) (fun _ => rfl)]
  · rw [newer_pushHeld hi (hg₁.inRange.top _), htop, newer_eq_of_heldPart h,
      view_claimed Node.newer (by rfl) (fun _ => rfl)]
  · have ht := topOf_of_top hg₁.indexed (p := True) (a := some (g.internNode m).1)
      (findThread?_eq_of_orderPart
        (orderPart_pushHeld g₁ (g.internThread t).1 (g.internNode m).1)) hfind
      (fun k => by simp only [top_pushHeld hthread, true_and]) t'
    simpa only [true_and, htopOf] using ht

/-- Unchaining a node that a modification has freed removes it. -/
theorem WellFormed.removes_unchain (hg : g.WellFormed) (hi : i < g.nodes.size)
    (hthread : g.findThread? t = some thread) {f : Node → Node} (hf : KeepsLinks f)
    (howner : (f (g.node i)).owner = 0) (hcount : (f (g.node i)).count = 0) :
    g.Removes ((g.modifyNode i f).unchain thread i) t i := by
  have hg' : (g.modifyNode i f).WellFormed := hg.modifyNode hf i
  have hi' : i < (g.modifyNode i f).nodes.size := by rwa [size_modifyNode]
  have hfind (t' : Tid) : (g.modifyNode i f).findThread? t' = g.findThread? t' :=
    findThread?_eq_of_orderPart (orderPart_modifyNode g hf.forgetHolder i) t'
  have holder' (j : NodeId) : ((g.modifyNode i f).node j).older = (g.node j).older :=
    view_modifyNode g Node.older hf.older i j
  have hnewer' (j : NodeId) : ((g.modifyNode i f).node j).newer = (g.node j).newer :=
    view_modifyNode g Node.newer hf.newer i j
  refine ⟨fun j => ?_, fun j => ?_, fun j => ?_, fun j => ?_, fun t' => ?_⟩
  · rw [view_unchain Node.owner (fun _ _ _ => rfl)]
    by_cases hj : j = i
    · rw [if_pos hj, hj, node_modifyNode_self g hi, howner]
    · rw [if_neg hj, node_modifyNode_of_ne g hj]
  · rw [view_unchain Node.count (fun _ _ _ => rfl)]
    by_cases hj : j = i
    · rw [if_pos hj, hj, node_modifyNode_self g hi, hcount]
    · rw [if_neg hj, node_modifyNode_of_ne g hj]
  · rw [older_unchain hi' (hg'.inRange.newer i), hnewer', holder', holder']
  · rw [newer_unchain hi' (hg'.inRange.older i), hnewer', holder', hnewer']
  · have hlt := lt_of_findThread? hg'.indexed ((hfind t).trans hthread)
    have ht := topOf_of_top hg'.indexed (p := (g.node i).newer = none) (a := (g.node i).older)
      (findThread?_eq_of_orderPart (orderPart_unchain (g.modifyNode i f) thread i))
      ((hfind t).trans hthread) (fun k => by rw [top_unchain hlt, hnewer', holder']) t'
    rw [ht, topOf, hfind]
    rfl

/-! ## What a call does to the stacks -/

theorem Keeps.modifyNode (g : Graph) {f : Node → Node} (hf : KeepsLinks f) (i : NodeId) :
    g.Keeps (g.modifyNode i f) where
  older := view_modifyNode g Node.older hf.older i
  newer := view_modifyNode g Node.newer hf.newer i
  topOf := fun t' => by
    rw [Graph.topOf, findThread?_eq_of_orderPart (orderPart_modifyNode g hf.forgetHolder i)]
    rfl

theorem Keeps.internNode (g : Graph) (m : UInt64) : g.Keeps (g.internNode m).2 where
  older := view_internNode Node.older (by rfl) g
  newer := view_internNode Node.newer (by rfl) g
  topOf := topOf_internNode g m

theorem Keeps.trans {g₁ : Graph} (h : g.Keeps g') (h' : g'.Keeps g₁) : g.Keeps g₁ :=
  ⟨fun j => (h'.older j).trans (h.older j), fun j => (h'.newer j).trans (h.newer j),
    fun t => (h'.topOf t).trans (h.topOf t)⟩

/-- The effect of an acquisition of `m` by `t` on the stacks. -/
inductive Acquires (g g' : Graph) (m : UInt64) (t : Tid) : Prop
  | counted : g.ownerOf m = t → g.Keeps g' → (∀ j, (g'.node j).owner = (g.node j).owner) →
      (∀ j, (g'.node j).count =
        if j = (g.internNode m).1 then (g.node j).count + 1 else (g.node j).count) →
      Acquires g g' m t
  | pushed : g.ownerOf m ≠ t → g.Pushes g' t (g.internNode m).1 → Acquires g g' m t

/-- The effect of a release of `m` by `t`, whose locks are `l`, on the stacks. -/
inductive Releases (g g' : Graph) (m : UInt64) (t : Tid) (l : List NodeId) : Prop
  | ignored : (∀ i, g.findNode? m = some i → (g.node i).owner ≠ t) → g' = g → Releases g g' m t l
  | counted {i : NodeId} : g.findNode? m = some i → (g.node i).owner = t → (g.node i).count ≠ 0 →
      g.Keeps g' → (∀ j, (g'.node j).owner = (g.node j).owner) →
      (∀ j, (g'.node j).count = if j = i then (g.node j).count - 1 else (g.node j).count) →
      Releases g g' m t l
  | lost {i : NodeId} : g.findNode? m = some i → (g.node i).owner = t → (g.node i).count = 0 →
      i ∉ l → g.Keeps g' → Releases g g' m t l
  | removed {i : NodeId} : g.findNode? m = some i → (g.node i).owner = t → (g.node i).count = 0 →
      i ∈ l → g.Removes g' t i → Releases g g' m t l

theorem WellFormed.acquires (hg : g.WellFormed)
    (h : g.onLock m t stack capture = some (g', outcome, report)) : g.Acquires g' m t := by
  obtain ⟨ho, -, -, rfl⟩ | ⟨ho, g₁, hrecord, rfl⟩ := onLock_cases h
  · refine .counted ho ((Keeps.internNode g m).trans
      (Keeps.modifyNode _ (keepsLinks_count (· + 1)) _)) (fun j => ?_) fun j => ?_
    · rw [view_modifyNode _ Node.owner (fun n => by rfl), view_internNode Node.owner (by rfl)]
    · by_cases hj : j = (g.internNode m).1
      · subst hj
        rw [if_pos rfl, node_modifyNode_self _ (hg.indexed.internNode_spec m).1]
        exact congrArg (· + 1) (view_internNode Node.count (by rfl) g _)
      · rw [if_neg hj, node_modifyNode_of_ne _ hj, view_internNode Node.count (by rfl)]
  · exact .pushed ho (hg.pushes_onLock (heldPart_recordOrder hrecord))

/-- While the order of a claimed mutex is recorded, the thread has the locks that it had. -/
theorem WellFormed.held?_of_heldPart_claimed (hg : g.WellFormed) {l : List NodeId}
    (hl : g.Leads (g.topOf t) l) {g₁ : Graph}
    (h : g₁.heldPart = (g.claimed m t stack).heldPart) : g₁.held? t = some l := by
  refine ((hg.claimed m t stack).inRange.congr_heldPart h).held?_eq_some_iff.2 ?_
  rw [topOf_eq_of_heldPart h, topOf_claimed hg.indexed]
  refine hl.congr fun j _ => ?_
  rw [older_eq_of_heldPart h, view_claimed Node.older (by rfl) fun _ => rfl]

/-- An acquisition by a thread whose stack has an end returns. -/
theorem WellFormed.onLock_isSome (hg : g.WellFormed) {l : List NodeId}
    (hl : g.Leads (g.topOf t) l) (m : UInt64) (stack : Option CallStack) (capture : Bool) :
    (g.onLock m t stack capture).isSome := by
  rw [onLock_eq]
  split
  · rfl
  rw [Option.isSome_map, recordOrder]
  split
  · rfl
  split
  · rfl
  next prev _ _ =>
    simp only
    split
    · rfl
    next g₁ closing hsearch =>
      have hheld := hg.held?_of_heldPart_claimed hl (heldPart_findCycle_link hsearch)
      rw [Option.isSome_map, report?, hheld]
      rfl

/-- A lock that a stack with an end leads through is taken out of it. -/
theorem removeHeld_of_leads (hg : g.InRange) {l : List NodeId} (hl : g.Leads (g.top thread) l)
    (i : NodeId) : g.removeHeld thread i = some (if i ∈ l then g.unchain thread i else g) := by
  have hlen := hl.length_le hg (hg.top thread)
  rw [removeHeld, hl.reaches?_eq hlen, Option.map_some]
  simp only [decide_eq_true_eq]

/-- The walk of a release sees the stack as it was before the lock was freed. -/
theorem WellFormed.removeHeld_freed (hg : g.WellFormed) {l : List NodeId}
    (hl : g.Leads (g.topOf t) l) (hthread : g.findThread? t = some thread) (i : NodeId) :
    (g.modifyNode i ({ · with owner := 0 })).removeHeld thread i =
      some (if i ∈ l then (g.modifyNode i ({ · with owner := 0 })).unchain thread i
        else g.modifyNode i ({ · with owner := 0 })) := by
  have hkeep := Keeps.modifyNode g (keepsLinks_owner 0) i
  have htop : (g.modifyNode i ({ · with owner := 0 })).top thread = g.topOf t := by
    rw [topOf, hthread, Option.bind_some]
    rfl
  refine removeHeld_of_leads (hg.modifyNode (keepsLinks_owner 0) i).inRange ?_ i
  rw [htop]
  exact hl.congr fun j _ => hkeep.older j

/-- A release by a thread whose stack has an end returns. -/
theorem WellFormed.exists_onUnlock (hg : g.WellFormed) {l : List NodeId}
    (hl : g.Leads (g.topOf t) l) (m : UInt64) : ∃ g', g.onUnlock m t = some g' := by
  rw [Graph.onUnlock]
  split
  · exact ⟨g, rfl⟩
  next i hfind =>
    simp only
    split
    · exact ⟨g, rfl⟩
    split
    · exact ⟨_, rfl⟩
    split
    · exact ⟨_, rfl⟩
    next thread hthread => exact ⟨_, hg.removeHeld_freed hl hthread i⟩

theorem WellFormed.releases (hg : g.WellFormed) {l : List NodeId} (hl : g.Leads (g.topOf t) l)
    (h : g.onUnlock m t = some g') : g.Releases g' m t l := by
  obtain ⟨ho, heq⟩ | ⟨i, hfind, ho, ⟨hcount, rfl⟩ | ⟨hcount, hfreed⟩⟩ := onUnlock_cases h
  · exact .ignored ho heq
  · have hi := (hg.indexed.findNode?_eq_some_iff.1 hfind).1
    refine .counted hfind ho hcount (Keeps.modifyNode g (keepsLinks_count (· - 1)) i)
      (view_modifyNode g Node.owner (fun n => by rfl) i) fun j => ?_
    by_cases hj : j = i
    · rw [hj, if_pos rfl, node_modifyNode_self g hi]
    · rw [if_neg hj, node_modifyNode_of_ne g hj]
  · have hi := (hg.indexed.findNode?_eq_some_iff.1 hfind).1
    have hkeep := Keeps.modifyNode g (keepsLinks_owner 0) i
    obtain ⟨hthread, rfl⟩ | ⟨thread, hthread, hremove⟩ := hfreed
    · have hnone : g.topOf t = none := by rw [topOf, hthread, Option.bind_none]
      rw [hnone] at hl
      exact .lost hfind ho hcount (by simp [leads_none.1 hl]) hkeep
    · rw [hg.removeHeld_freed hl hthread] at hremove
      obtain rfl := Option.some.inj hremove
      split
      next hil =>
        exact .removed hfind ho hcount hil
          (hg.removes_unchain hi hthread (keepsLinks_owner 0) rfl hcount)
      next hil => exact .lost hfind ho hcount hil hkeep

end Graph
end Threading.LockOrder
