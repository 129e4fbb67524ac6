import Threading.Proofs.LockOrder.Lookup

/-!
# Stacks of held locks as lists

The `older` links that start at the top of a thread's stack lead through a list of
nodes or run in a circle. `Leads` says that they lead through a given list to an
end; such a list has no repetition, so the walks of the graph, which count their
steps, come to its end exactly when it has one. The second half says what a push
and a removal do to the links and tops: both close a gap between two neighbours.
-/
namespace Threading.LockOrder
namespace Graph

variable {g g' : Graph} {start : Option NodeId} {i j : NodeId} {l l' : List NodeId} {t : Tid}

/-- The lock on top of a thread's stack. -/
def topOf (g : Graph) (t : Tid) : Option NodeId := (g.findThread? t).bind g.top

/-- The links from `start` towards older locks lead through `l` to an end. -/
def Leads (g : Graph) : (start : Option NodeId) → (l : List NodeId) → Prop
  | start, [] => start = none
  | start, i :: l => start = some i ∧ Leads g (g.node i).older l

@[simp] theorem leads_nil : g.Leads start [] ↔ start = none := Iff.rfl

@[simp] theorem leads_cons : g.Leads start (i :: l) ↔ start = some i ∧ g.Leads (g.node i).older l :=
  Iff.rfl

theorem leads_none : g.Leads none l ↔ l = [] := by
  cases l <;> simp

theorem Leads.unique (h : g.Leads start l) (h' : g.Leads start l') : l = l' := by
  induction l generalizing start l' with
  | nil =>
    rw [leads_nil.1 h] at h'
    exact (leads_none.1 h').symm
  | cons i l ih =>
    cases l' with
    | nil =>
      rw [leads_nil.1 h'] at h
      exact leads_none.1 h
    | cons j l' =>
      obtain rfl : i = j := Option.some.inj (h.1.symm.trans h'.1)
      rw [ih h.2 h'.2]

/-- The links lead on from every node of the list. -/
theorem Leads.of_append {a b : List NodeId} (h : g.Leads start (a ++ b)) :
    ∃ start', g.Leads start' b := by
  induction a generalizing start with
  | nil => exact ⟨start, h⟩
  | cons i a ih => exact ih h.2

theorem Leads.older {a b : List NodeId} (h : g.Leads start (a ++ i :: b)) :
    g.Leads (g.node i).older b := by
  obtain ⟨_, h⟩ := h.of_append
  exact h.2

/-- A list with an end passes no node twice. -/
theorem Leads.nodup (h : g.Leads start l) : l.Nodup := by
  induction l generalizing start with
  | nil => exact List.nodup_nil
  | cons i l ih =>
    refine List.nodup_cons.2 ⟨fun hi => ?_, ih h.2⟩
    obtain ⟨a, b, rfl⟩ := List.append_of_mem hi
    have hlen := congrArg List.length (h.2.unique h.2.older)
    simp only [List.length_append, List.length_cons] at hlen
    omega

/-- The list is the same where the links are. -/
theorem Leads.congr (h : g.Leads start l) (hl : ∀ i ∈ l, (g'.node i).older = (g.node i).older) :
    g'.Leads start l := by
  induction l generalizing start with
  | nil => exact h
  | cons i l ih =>
    refine ⟨h.1, ?_⟩
    rw [hl i (by simp)]
    exact ih h.2 fun j hj => hl j (List.mem_cons_of_mem i hj)

/-- A list whose links are kept down to `i` goes on as `i` leads on now. -/
theorem Leads.redirect {a b b' : List NodeId} (h : g.Leads start (a ++ i :: b))
    (ha : ∀ j ∈ a, (g'.node j).older = (g.node j).older) (hi : g'.Leads (g'.node i).older b') :
    g'.Leads start (a ++ i :: b') := by
  induction a generalizing start with
  | nil => exact ⟨h.1, hi⟩
  | cons j a ih =>
    refine ⟨h.1, ?_⟩
    rw [ha j (by simp)]
    exact ih h.2 fun k hk => ha k (List.mem_cons_of_mem j hk)

theorem walk_none (n : Nat) : g.walk n none = [] := by
  cases n <;> rfl

theorem Leads.walk_eq (h : g.Leads start l) (n : Nat) : g.walk n start = l.take n := by
  induction l generalizing start n with
  | nil => rw [leads_nil.1 h, walk_none, List.take_nil]
  | cons i l ih =>
    rw [h.1]
    cases n with
    | zero => rfl
    | succ n => rw [walk, ih h.2, List.take_succ_cons]

theorem leads_walk {n : Nat} (h : (g.walk n start).length < n) :
    g.Leads start (g.walk n start) := by
  induction n generalizing start with
  | zero => exact absurd h (Nat.not_lt_zero _)
  | succ n ih =>
    cases start with
    | none => rfl
    | some i =>
      rw [walk, List.length_cons] at h
      exact ⟨rfl, ih (Nat.lt_of_succ_lt_succ h)⟩

theorem Leads.reaches?_eq (h : g.Leads start l) {n : Nat} (hn : l.length ≤ n) (goal : NodeId) :
    g.reaches? goal n start = some (decide (goal ∈ l)) := by
  induction l generalizing start n with
  | nil =>
    rw [leads_nil.1 h]
    cases n <;> simp [reaches?]
  | cons i l ih =>
    rw [h.1]
    cases n with
    | zero => exact absurd hn (Nat.not_succ_le_zero _)
    | succ n =>
      rw [reaches?]
      by_cases hi : i = goal
      · simp [hi]
      · rw [if_neg hi, ih h.2 (Nat.le_of_succ_le_succ hn)]
        simp [Ne.symm hi]

/-- Tops and links are numbers of nodes. -/
structure InRange (g : Graph) : Prop where
  top : ∀ thread i, g.top thread = some i → i < g.nodes.size
  older : ∀ j i, (g.node j).older = some i → i < g.nodes.size
  newer : ∀ j i, (g.node j).newer = some i → i < g.nodes.size

theorem inRange_empty : InRange .empty :=
  ⟨fun _ _ h => absurd h (by simp [top, Graph.empty]),
    fun _ _ h => absurd h (by simp [node, Graph.empty]),
    fun _ _ h => absurd h (by simp [node, Graph.empty])⟩

theorem InRange.topOf (h : g.InRange) (hi : g.topOf t = some i) : i < g.nodes.size := by
  obtain ⟨thread, -, htop⟩ := Option.bind_eq_some_iff.1 hi
  exact h.top thread i htop

theorem Leads.lt (hg : g.InRange) (h : g.Leads start l)
    (hstart : ∀ i, start = some i → i < g.nodes.size) : ∀ i ∈ l, i < g.nodes.size := by
  induction l generalizing start with
  | nil => simp
  | cons j l ih =>
    intro i hi
    rcases List.mem_cons.1 hi with rfl | hi
    · exact hstart i h.1
    · exact ih h.2 (hg.older j) i hi

/-- A list of nodes with an end is no longer than the table of nodes. -/
theorem Leads.length_le (hg : g.InRange) (h : g.Leads start l)
    (hstart : ∀ i, start = some i → i < g.nodes.size) : l.length ≤ g.nodes.size := by
  have hsub : l ⊆ List.range g.nodes.size := fun i hi => List.mem_range.2 (h.lt hg hstart i hi)
  have hle := (List.subperm_of_subset h.nodup hsub).length_le
  rwa [List.length_range] at hle

/-- The held locks of a thread are the list its stack leads through. -/
theorem InRange.held?_eq_some_iff (hg : g.InRange) :
    g.held? t = some l ↔ g.Leads (g.topOf t) l := by
  have hprefix : g.heldPrefix t (g.nodes.size + 1) = g.walk (g.nodes.size + 1) (g.topOf t) := by
    rw [heldPrefix, Graph.topOf]
    split
    next h => rw [h, Option.bind_none, walk_none]
    next h => rw [h, Option.bind_some]
  rw [held?, hprefix]
  constructor
  · intro h
    split at h
    next hlen =>
      rw [← Option.some.inj h]
      exact leads_walk (Nat.lt_succ_of_le hlen)
    · exact absurd h (by simp)
  · intro h
    have hlen := h.length_le hg fun i hi => hg.topOf hi
    have hwalk : g.walk (g.nodes.size + 1) (g.topOf t) = l := by
      rw [h.walk_eq, List.take_of_length_le (Nat.le_succ_of_le hlen)]
    simp only [hwalk, hlen, if_true]

/-! ## What the operations do to links and tops -/

variable {thread : Nat}

theorem forgetOrder_node (h : g'.heldPart = g.heldPart) (i : NodeId) :
    (g'.node i).forgetOrder = (g.node i).forgetOrder := by
  rw [← node_heldPart, h, node_heldPart]

theorem older_eq_of_heldPart (h : g'.heldPart = g.heldPart) (i : NodeId) :
    (g'.node i).older = (g.node i).older := by
  have hi := congrArg Node.older (forgetOrder_node h i)
  exact hi

theorem newer_eq_of_heldPart (h : g'.heldPart = g.heldPart) (i : NodeId) :
    (g'.node i).newer = (g.node i).newer := by
  have hi := congrArg Node.newer (forgetOrder_node h i)
  exact hi

theorem owner_eq_of_heldPart (h : g'.heldPart = g.heldPart) (i : NodeId) :
    (g'.node i).owner = (g.node i).owner := by
  have hi := congrArg Node.owner (forgetOrder_node h i)
  exact hi

theorem count_eq_of_heldPart (h : g'.heldPart = g.heldPart) (i : NodeId) :
    (g'.node i).count = (g.node i).count := by
  have hi := congrArg Node.count (forgetOrder_node h i)
  exact hi

theorem size_eq_of_heldPart (h : g'.heldPart = g.heldPart) : g'.nodes.size = g.nodes.size := by
  have hn := congrArg (·.nodes.size) h
  simpa [heldPart] using hn

theorem threads_eq_of_heldPart (h : g'.heldPart = g.heldPart) : g'.threads = g.threads := by
  have ht := congrArg (·.threads) h
  exact ht

theorem topOf_eq_of_heldPart (h : g'.heldPart = g.heldPart) (t : Tid) : g'.topOf t = g.topOf t := by
  have ht := congrArg (·.topOf t) h
  exact ht

theorem InRange.congr_heldPart (hg : g.InRange) (h : g'.heldPart = g.heldPart) : g'.InRange := by
  have hsize := size_eq_of_heldPart h
  refine ⟨fun thread i hi => ?_, fun j i hi => ?_, fun j i hi => ?_⟩ <;> rw [hsize]
  · rw [Graph.top, threads_eq_of_heldPart h] at hi
    exact hg.top thread i hi
  · exact hg.older j i (older_eq_of_heldPart h j ▸ hi)
  · exact hg.newer j i (newer_eq_of_heldPart h j ▸ hi)

theorem top_setTop (g : Graph) (thread thread' : Nat) (a : Option NodeId) :
    (g.setTop thread a).top thread' =
      if thread = thread' ∧ thread' < g.threads.size then a else g.top thread' := by
  simp only [top, setTop, Array.getD_eq_getD_getElem?, Array.getElem?_modify]
  by_cases h : thread = thread' <;> by_cases hlt : thread' < g.threads.size <;> simp [h, hlt]

@[simp] theorem node_setTop (g : Graph) (thread : Nat) (a : Option NodeId) (j : NodeId) :
    (g.setTop thread a).node j = g.node j := rfl

/-! ## The two ends of a gap

A push and a removal both join what lies above a place of a stack to what lies below
it. Above lies a newer lock or, at the top, the thread itself.
-/

/-- What lies above a gap gets `below` as the next older lock. -/
def linkAbove (g : Graph) (thread : Nat) (above below : Option NodeId) : Graph :=
  match above with
  | none => g.setTop thread below
  | some n => g.modifyNode n ({ · with older := below })

/-- What lies below a gap, if anything does, gets `above` as the next newer lock. -/
def linkBelow (g : Graph) (above below : Option NodeId) : Graph :=
  match below with
  | none => g
  | some o => g.modifyNode o ({ · with newer := above })

theorem pushHeld_eq (g : Graph) (thread : Nat) (i : NodeId) :
    g.pushHeld thread i =
      ((g.modifyNode i ({ · with newer := none, older := g.top thread })).linkBelow (some i)
        (g.top thread)).setTop thread (some i) := rfl

theorem unchain_eq (g : Graph) (thread : Nat) (i : NodeId) :
    g.unchain thread i =
      ((g.linkAbove thread (g.node i).newer (g.node i).older).linkBelow (g.node i).newer
        (g.node i).older).modifyNode i (·.unchain) := rfl

variable {above below : Option NodeId}

@[simp] theorem size_linkAbove :
    (g.linkAbove thread above below).nodes.size = g.nodes.size := by
  cases above <;> simp [linkAbove, setTop]

@[simp] theorem size_linkBelow : (g.linkBelow above below).nodes.size = g.nodes.size := by
  cases below <;> simp [linkBelow]

theorem threads_linkAbove :
    (g.linkAbove thread above below).threads.size = g.threads.size := by
  cases above <;> simp [linkAbove, setTop, modifyNode]

theorem threads_linkBelow : (g.linkBelow above below).threads = g.threads := by
  cases below <;> rfl

theorem view_linkAbove {β : Type} (u : Node → β) (hu : ∀ n older, u { n with older } = u n)
    (j : NodeId) : u ((g.linkAbove thread above below).node j) = u (g.node j) := by
  cases above with
  | none => rfl
  | some n => exact view_modifyNode g u (fun n => hu n below) n j

theorem view_linkBelow {β : Type} (u : Node → β) (hu : ∀ n newer, u { n with newer } = u n)
    (j : NodeId) : u ((g.linkBelow above below).node j) = u (g.node j) := by
  cases below with
  | none => rfl
  | some o => exact view_modifyNode g u (fun n => hu n above) o j

theorem older_linkAbove (habove : ∀ n, above = some n → n < g.nodes.size) (j : NodeId) :
    ((g.linkAbove thread above below).node j).older =
      if above = some j then below else (g.node j).older := by
  cases above with
  | none => simp [linkAbove]
  | some n =>
    by_cases hj : j = n
    · subst hj
      rw [if_pos rfl, linkAbove, node_modifyNode_self g (habove j rfl)]
    · rw [if_neg fun h => hj (Option.some.inj h).symm, linkAbove, node_modifyNode_of_ne g hj]

theorem newer_linkBelow (hbelow : ∀ o, below = some o → o < g.nodes.size) (j : NodeId) :
    ((g.linkBelow above below).node j).newer =
      if below = some j then above else (g.node j).newer := by
  cases below with
  | none => simp [linkBelow]
  | some o =>
    by_cases hj : j = o
    · subst hj
      rw [if_pos rfl, linkBelow, node_modifyNode_self g (hbelow j rfl)]
    · rw [if_neg fun h => hj (Option.some.inj h).symm, linkBelow, node_modifyNode_of_ne g hj]

theorem top_linkAbove (hthread : thread < g.threads.size) (thread' : Nat) :
    (g.linkAbove thread above below).top thread' =
      if above = none ∧ thread' = thread then below else g.top thread' := by
  cases above with
  | none =>
    rw [linkAbove, top_setTop]
    by_cases h : thread' = thread
    · subst h
      simp [hthread]
    · rw [if_neg fun h' => h h'.1.symm, if_neg fun h' => h h'.2]
  | some n =>
    rw [if_neg (by simp)]
    rfl

theorem top_linkBelow (thread' : Nat) : (g.linkBelow above below).top thread' = g.top thread' := by
  rw [top, top, threads_linkBelow]

/-! ## Pushes -/

theorem size_pushHeld (g : Graph) (thread : Nat) (i : NodeId) :
    (g.pushHeld thread i).nodes.size = g.nodes.size := by
  simp [pushHeld_eq, setTop]

theorem older_pushHeld (hi : i < g.nodes.size) (j : NodeId) :
    ((g.pushHeld thread i).node j).older = if j = i then g.top thread else (g.node j).older := by
  rw [pushHeld_eq, node_setTop, view_linkBelow Node.older fun _ _ => rfl]
  by_cases hj : j = i
  · subst hj
    rw [node_modifyNode_self g hi, if_pos rfl]
  · rw [node_modifyNode_of_ne g hj, if_neg hj]

theorem newer_pushHeld (hi : i < g.nodes.size)
    (htop : ∀ k, g.top thread = some k → k < g.nodes.size) (j : NodeId) :
    ((g.pushHeld thread i).node j).newer =
      if g.top thread = some j then some i else if j = i then none else (g.node j).newer := by
  rw [pushHeld_eq, node_setTop, newer_linkBelow (by simpa using htop)]
  refine congrArg (fun a => if g.top thread = some j then some i else a) ?_
  by_cases hj : j = i
  · subst hj
    rw [node_modifyNode_self g hi, if_pos rfl]
  · rw [node_modifyNode_of_ne g hj, if_neg hj]

theorem top_pushHeld (hthread : thread < g.threads.size) (thread' : Nat) :
    (g.pushHeld thread i).top thread' = if thread' = thread then some i else g.top thread' := by
  rw [pushHeld_eq, top_setTop, top_linkBelow, threads_linkBelow]
  by_cases h : thread' = thread
  · subst h
    simp [modifyNode, hthread]
  · rw [if_neg fun h' => h h'.1.symm, if_neg h]
    rfl

/-- What a node says apart from its links stays the same on a push. -/
theorem view_pushHeld {β : Type} (u : Node → β)
    (hu : ∀ n newer older, u { n with newer, older } = u n) (g : Graph) (thread : Nat)
    (i j : NodeId) : u ((g.pushHeld thread i).node j) = u (g.node j) := by
  rw [pushHeld_eq, node_setTop, view_linkBelow u fun n newer => hu n newer n.older]
  exact view_modifyNode g u (fun n => hu n none _) i j

/-! ## Removals -/

theorem size_unchain (g : Graph) (thread : Nat) (i : NodeId) :
    (g.unchain thread i).nodes.size = g.nodes.size := by
  simp [unchain_eq]

theorem older_unchain (hi : i < g.nodes.size)
    (hnewer : ∀ n, (g.node i).newer = some n → n < g.nodes.size) (j : NodeId) :
    ((g.unchain thread i).node j).older =
      if j = i then none
      else if (g.node i).newer = some j then (g.node i).older else (g.node j).older := by
  rw [unchain_eq]
  by_cases hj : j = i
  · subst hj
    rw [if_pos rfl, node_modifyNode_self _ (by simpa using hi)]
    rfl
  · rw [if_neg hj, node_modifyNode_of_ne _ hj, view_linkBelow Node.older fun _ _ => rfl,
      older_linkAbove hnewer]

theorem newer_unchain (hi : i < g.nodes.size)
    (holder : ∀ o, (g.node i).older = some o → o < g.nodes.size) (j : NodeId) :
    ((g.unchain thread i).node j).newer =
      if j = i then none
      else if (g.node i).older = some j then (g.node i).newer else (g.node j).newer := by
  rw [unchain_eq]
  by_cases hj : j = i
  · subst hj
    rw [if_pos rfl, node_modifyNode_self _ (by simpa using hi)]
    rfl
  · rw [if_neg hj, node_modifyNode_of_ne _ hj, newer_linkBelow (by simpa using holder),
      view_linkAbove Node.newer fun _ _ => rfl]

theorem top_unchain (hthread : thread < g.threads.size) (thread' : Nat) :
    (g.unchain thread i).top thread' =
      if (g.node i).newer = none ∧ thread' = thread then (g.node i).older else g.top thread' := by
  rw [← top_linkAbove hthread thread']
  exact top_linkBelow thread'

theorem threads_unchain (g : Graph) (thread : Nat) (i : NodeId) :
    (g.unchain thread i).threads.size = g.threads.size := by
  rw [unchain_eq, modifyNode, threads_linkBelow]
  exact threads_linkAbove

theorem view_unchain {β : Type} (u : Node → β)
    (hu : ∀ n newer older, u { n with newer, older } = u n) (g : Graph) (thread : Nat)
    (i j : NodeId) : u ((g.unchain thread i).node j) = u (g.node j) := by
  rw [unchain_eq, view_modifyNode _ u (f := (·.unchain)) fun n => hu n none none,
    view_linkBelow u fun n newer => hu n newer n.older,
    view_linkAbove u fun n older => hu n n.newer older]

/-! ## Numbers stay in range -/

/-- A change that writes of a node only who holds it and how often. -/
structure KeepsLinks (f : Node → Node) : Prop where
  forgetHolder : ∀ n, (f n).forgetHolder = n.forgetHolder
  older : ∀ n, (f n).older = n.older
  newer : ∀ n, (f n).newer = n.newer

theorem keepsLinks_claim (t : Tid) (stack : Option CallStack) : KeepsLinks (·.claim t stack) :=
  ⟨fun _ => rfl, fun _ => rfl, fun _ => rfl⟩

theorem keepsLinks_free : KeepsLinks (·.free) :=
  ⟨fun _ => rfl, fun _ => rfl, fun _ => rfl⟩

theorem keepsLinks_owner (t : Tid) : KeepsLinks ({ · with owner := t }) :=
  ⟨fun _ => rfl, fun _ => rfl, fun _ => rfl⟩

theorem keepsLinks_count (k : UInt32 → UInt32) :
    KeepsLinks fun n => { n with count := k n.count } :=
  ⟨fun _ => rfl, fun _ => rfl, fun _ => rfl⟩

theorem InRange.modifyNode (hg : g.InRange) {f : Node → Node} (hf : KeepsLinks f) (i : NodeId) :
    (g.modifyNode i f).InRange := by
  refine ⟨fun thread k hk => ?_, fun j k hk => ?_, fun j k hk => ?_⟩ <;> rw [size_modifyNode]
  · exact hg.top thread k hk
  · rw [view_modifyNode g Node.older hf.older] at hk
    exact hg.older j k hk
  · rw [view_modifyNode g Node.newer hf.newer] at hk
    exact hg.newer j k hk

theorem InRange.pushHeld (hg : g.InRange) (hi : i < g.nodes.size)
    (hthread : thread < g.threads.size) : (g.pushHeld thread i).InRange := by
  refine ⟨fun thread' k hk => ?_, fun j k hk => ?_, fun j k hk => ?_⟩ <;> rw [size_pushHeld]
  · rw [top_pushHeld hthread] at hk
    split at hk
    · exact Option.some.inj hk ▸ hi
    · exact hg.top thread' k hk
  · rw [older_pushHeld hi] at hk
    split at hk
    · exact hg.top thread k hk
    · exact hg.older j k hk
  · rw [newer_pushHeld hi (hg.top thread)] at hk
    split at hk
    · exact Option.some.inj hk ▸ hi
    split at hk
    · exact absurd hk (by simp)
    · exact hg.newer j k hk

theorem InRange.unchain (hg : g.InRange) (hi : i < g.nodes.size)
    (hthread : thread < g.threads.size) : (g.unchain thread i).InRange := by
  refine ⟨fun thread' k hk => ?_, fun j k hk => ?_, fun j k hk => ?_⟩ <;> rw [size_unchain]
  · rw [top_unchain hthread] at hk
    split at hk
    · exact hg.older i k hk
    · exact hg.top thread' k hk
  · rw [older_unchain hi (hg.newer i)] at hk
    split at hk
    · exact absurd hk (by simp)
    split at hk
    · exact hg.older i k hk
    · exact hg.older j k hk
  · rw [newer_unchain hi (hg.older i)] at hk
    split at hk
    · exact absurd hk (by simp)
    split at hk
    · exact hg.newer i k hk
    · exact hg.newer j k hk

end Graph
end Threading.LockOrder
