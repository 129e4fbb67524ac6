import Threading.Proofs.Chain
import Threading.Proofs.LockOrder.History

/-!
# Stacks of a disciplined run

A disciplined caller acquires a mutex only while it is free or its own. Then every
node lies in the stack of its owner and in no other, the links of a stack mirror each
other, and what one thread does leaves the stacks of the others alone. `below` puts
the top of a thread's stack below the place of no lock, so that the top is moved by
the same rule as the links.
-/
namespace Threading.LockOrder
namespace Graph

variable {g g' : Graph} {m : UInt64} {t t' : Tid} {stack : Option CallStack} {capture : Bool}
variable {above : Option NodeId} {i j : NodeId} {l l' a b : List NodeId}

/-- The lock below a place in a thread's stack; the place of no lock is above the top. -/
def below (g : Graph) (t : Tid) : Option NodeId → Option NodeId
  | none => g.topOf t
  | some i => (g.node i).older

/-- Below `above` stand the locks of `l` and nothing else, each linked to its
neighbours in both directions. -/
def Linked (g : Graph) (t : Tid) : (above : Option NodeId) → (l : List NodeId) → Prop
  | above, [] => g.below t above = none
  | above, i :: l => g.below t above = some i ∧ (g.node i).newer = above ∧ Linked g t (some i) l

/-- The links of a thread's stack. -/
def links (g : Graph) (t : Tid) : Links := ⟨g.below t, fun i => (g.node i).newer⟩

theorem linked_iff_chain : g.Linked t above l ↔ (g.links t).Chain above l := by
  induction l generalizing above with
  | nil => exact Iff.rfl
  | cons i l ih => exact and_congr_right fun _ => and_congr_right fun _ => ih

theorem Linked.below_eq (h : g.Linked t above l) : g.below t above = l.head? :=
  (linked_iff_chain.1 h).below_eq

theorem Linked.leads (h : g.Linked t above l) : g.Leads (g.below t above) l := by
  induction l generalizing above with
  | nil => exact h
  | cons i l ih => exact ⟨h.1, ih h.2.2⟩

/-- Between a newer part and an older part of a stack. -/
theorem Linked.of_append (h : g.Linked t above (a ++ i :: b)) :
    g.Linked t (some i) b ∧ ((g.node i).newer = above ∨ ∃ j ∈ a, (g.node i).newer = some j) := by
  obtain ⟨hb, hi⟩ := (linked_iff_chain.1 h).of_append
  exact ⟨linked_iff_chain.2 hb, hi⟩

theorem Linked.congr (h : g.Linked t above l) (habove : g'.below t above = g.below t above)
    (holder : ∀ j ∈ l, (g'.node j).older = (g.node j).older)
    (hnewer : ∀ j ∈ l, (g'.node j).newer = (g.node j).newer) : g'.Linked t above l :=
  linked_iff_chain.2 ((linked_iff_chain.1 h).congr habove holder hnewer)

/-- The stack of a thread: its list of locks, which are the nodes it owns. -/
structure Stack (g : Graph) (t : Tid) (l : List NodeId) : Prop where
  linked : g.Linked t none l
  mem_iff : ∀ i, i ∈ l ↔ t ≠ 0 ∧ (g.node i).owner = t

/-- Every thread has a stack. -/
def Stacked (g : Graph) : Prop := ∀ t, ∃ l, g.Stack t l

theorem Stack.leads (h : g.Stack t l) : g.Leads (g.topOf t) l := h.linked.leads

theorem Stack.nodup (h : g.Stack t l) : l.Nodup := h.leads.nodup

/-- No lock is in the stacks of two threads. -/
theorem Stack.disjoint (h : g.Stack t l) (h' : g.Stack t' l') (hne : t' ≠ t) (hi : i ∈ l) :
    i ∉ l' := by
  intro hi'
  exact hne (((h'.mem_iff i).1 hi').2.symm.trans ((h.mem_iff i).1 hi).2)

theorem stacked_empty : Stacked .empty := by
  intro t
  have htop : Graph.topOf .empty t = none := by
    simp [topOf, findThread?, Graph.empty, Buckets.find?]
  refine ⟨[], htop, fun i => ?_⟩
  simp only [List.not_mem_nil, false_iff, not_and]
  intro ht ho
  exact ht ho.symm

/-! ## A push -/

/-- The pushed lock stands on top of the stack. -/
theorem Stack.push (h : g.Stack t l) (hp : g.Pushes g' t i) (ht : t ≠ 0)
    (hi : (g.node i).owner = 0) : g'.Stack t (i :: l) := by
  have hil : i ∉ l := fun hil => ht (((h.mem_iff i).1 hil).2.symm.trans hi)
  have htop : g'.below t none = some i := (hp.topOf t).trans (if_pos rfl)
  refine ⟨linked_iff_chain.2 ((linked_iff_chain.1 h.linked).push hil htop hp.older hp.newer),
    fun j => ?_⟩
  rw [List.mem_cons, hp.owner, h.mem_iff]
  by_cases hj : j = i
  · simp [hj, ht]
  · simp [hj]

/-- A push leaves the stacks of other threads alone. -/
theorem Stack.push_other (h' : g.Stack t' l') (h : g.Stack t l) (hp : g.Pushes g' t i)
    (hi : (g.node i).owner = 0) (hne : t' ≠ t) : g'.Stack t' l' := by
  have hil (j : NodeId) (hj : j ∈ l') : j ≠ i := by
    rintro rfl
    obtain ⟨ht', ho⟩ := (h'.mem_iff j).1 hj
    exact ht' (ho.symm.trans hi)
  refine ⟨h'.linked.congr ?_ (fun j hj => ?_) fun j hj => ?_, fun j => ?_⟩
  · exact (hp.topOf t').trans (if_neg hne)
  · rw [hp.older, if_neg (hil j hj)]
  · rw [hp.newer, if_neg, if_neg (hil j hj)]
    intro htop
    have hjl : j ∈ l := List.mem_of_head? (h.linked.below_eq.symm.trans htop)
    exact h.disjoint h' hne hjl hj
  · rw [h'.mem_iff, hp.owner]
    by_cases hj : j = i
    · subst hj
      rw [if_pos rfl, hi]
      exact ⟨fun hz => absurd hz.2.symm hz.1, fun hz => absurd hz.2.symm hne⟩
    · rw [if_neg hj]

/-! ## A removal -/

theorem Removes.below (hr : g.Removes g' t i) (x : Option NodeId) (hx : x ≠ some i) :
    g'.below t x = if (g.node i).newer = x then (g.node i).older else g.below t x := by
  cases x with
  | none =>
    refine (hr.topOf t).trans ?_
    simp only [and_true]
    rfl
  | some j =>
    refine (hr.older j).trans ?_
    rw [if_neg fun hj => hx (congrArg some hj)]
    rfl

/-- The removed lock is gone from the stack. -/
theorem Stack.remove (h : g.Stack t (a ++ i :: b)) (hr : g.Removes g' t i) :
    g'.Stack t (a ++ b) := by
  have hnewer (j : NodeId) (hj : j ≠ i) : (g'.node j).newer =
      if (g.node i).older = some j then (g.node i).newer else (g.node j).newer := by
    rw [hr.newer, if_neg hj]
  refine ⟨linked_iff_chain.2 ((linked_iff_chain.1 h.linked).remove (by simp) hr.below hnewer),
    fun j => ?_⟩
  · rw [hr.owner]
    have hmem := h.mem_iff j
    have hi := List.nodup_middle.1 h.nodup
    by_cases hj : j = i
    · subst hj
      rw [if_pos rfl]
      exact ⟨fun hab => absurd hab (List.nodup_cons.1 hi).1, fun hz => absurd hz.2.symm hz.1⟩
    · rw [if_neg hj, ← hmem]
      simp [hj]

/-- A removal leaves the stacks of other threads alone. -/
theorem Stack.remove_other (h' : g.Stack t' l') (h : g.Stack t l) (hr : g.Removes g' t i)
    (hi : i ∈ l) (hne : t' ≠ t) : g'.Stack t' l' := by
  obtain ⟨a, b, rfl⟩ := List.append_of_mem hi
  obtain ⟨hb, hin⟩ := h.linked.of_append
  have hother (j : NodeId) (hj : j ∈ l') : j ∉ a ++ i :: b := fun hj' =>
    h.disjoint h' hne hj' hj
  have hne_newer (j : NodeId) (hj : j ∈ l') : (g.node i).newer ≠ some j := by
    intro hn
    rcases hin with hin | ⟨k, hk, hin⟩ <;> rw [hin] at hn
    · exact absurd hn (by simp)
    · exact hother j hj (by simp [← Option.some.inj hn, hk])
  have hne_older (j : NodeId) (hj : j ∈ l') : (g.node i).older ≠ some j := by
    have hold : (g.node i).older = b.head? := hb.below_eq
    rw [hold]
    intro hhead
    have hmem := List.mem_of_head? hhead
    exact hother j hj (by simp [hmem])
  have hji (j : NodeId) (hj : j ∈ l') : j ≠ i := by
    rintro rfl
    exact hother j hj (by simp)
  refine ⟨h'.linked.congr ?_ (fun j hj => ?_) fun j hj => ?_, fun j => ?_⟩
  · exact (hr.topOf t').trans (if_neg fun hz => hne hz.2)
  · rw [hr.older, if_neg (hji j hj), if_neg (hne_newer j hj)]
  · rw [hr.newer, if_neg (hji j hj), if_neg (hne_older j hj)]
  · rw [h'.mem_iff, hr.owner]
    by_cases hj : j = i
    · subst hj
      rw [if_pos rfl, ((h.mem_iff j).1 hi).2]
      exact ⟨fun hz => absurd hz.2.symm hne, fun hz => absurd hz.2.symm hz.1⟩
    · rw [if_neg hj]

/-! ## An exit -/

theorem freeTops_of_top {thread : Nat} (h : g.top thread = none) (n : Nat) :
    freeTops thread n g = g := by
  cases n with
  | zero => rfl
  | succ n => rw [freeTops, h]

/-- One turn of freeing tops removes the top of the stack. -/
theorem Stack.freeTops_succ {thread : Nat} (h : g.Stack t (i :: l)) (hg : g.WellFormed)
    (hthread : g.findThread? t = some thread) (n : Nat) :
    ∃ g₁, Graph.freeTops thread (n + 1) g = Graph.freeTops thread n g₁ ∧ g.Removes g₁ t i ∧
      g₁.WellFormed ∧ g₁.findThread? t = some thread := by
  have htop : g.top thread = some i := by
    have hsome : g.topOf t = some i := h.linked.1
    rwa [topOf, hthread, Option.bind_some] at hsome
  have hi := hg.inRange.top thread i htop
  have hfree := hg.modifyNode keepsLinks_free i
  refine ⟨(g.modifyNode i (·.free)).unchain thread i, ?_,
    hg.removes_unchain hi hthread keepsLinks_free rfl rfl,
    hfree.unchain (by rwa [size_modifyNode]) (lt_of_findThread? hfree.indexed hthread), ?_⟩
  · rw [Graph.freeTops, htop]
  · rw [findThread?_eq_of_orderPart (orderPart_unchain _ thread i),
      findThread?_eq_of_orderPart (orderPart_modifyNode g (fun n => by rfl) i), hthread]

/-- Freeing the tops of a stack empties it and leaves the others alone. -/
theorem Stack.freeTops {thread n : Nat} (h : g.Stack t l) (hg : g.WellFormed)
    (hthread : g.findThread? t = some thread) (hn : l.length ≤ n) :
    (Graph.freeTops thread n g).Stack t [] ∧
      ∀ t' l', t' ≠ t → g.Stack t' l' → (Graph.freeTops thread n g).Stack t' l' := by
  induction l generalizing g n with
  | nil =>
    have htop : g.top thread = none := by
      have hnone : g.topOf t = none := h.linked
      rwa [topOf, hthread, Option.bind_some] at hnone
    rw [freeTops_of_top htop]
    exact ⟨h, fun t' l' _ h' => h'⟩
  | cons i l ih =>
    obtain ⟨n, rfl⟩ := Nat.exists_eq_succ_of_ne_zero (Nat.ne_zero_of_lt hn)
    obtain ⟨g₁, heq, hr, hg₁, hthread₁⟩ := h.freeTops_succ hg hthread n
    obtain ⟨hempty, hothers⟩ :=
      ih (h.remove (a := []) hr) hg₁ hthread₁ (Nat.le_of_succ_le_succ hn)
    rw [heq]
    exact ⟨hempty, fun t' l' hne h' =>
      hothers t' l' hne (h'.remove_other h hr List.mem_cons_self hne)⟩

theorem Stack.length_le (h : g.Stack t l) (hg : g.InRange) : l.length ≤ g.nodes.size :=
  h.leads.length_le hg fun _ hi => hg.topOf hi

/-- The exit of a thread empties its stack and leaves the others alone. -/
theorem Stack.forgetThread (h : g.Stack t l) (hg : g.WellFormed) :
    (g.forgetThread t).Stack t [] ∧
      ∀ t' l', t' ≠ t → g.Stack t' l' → (g.forgetThread t).Stack t' l' := by
  rw [Graph.forgetThread]
  split
  next hthread =>
    have hnone : g.topOf t = none := by rw [topOf, hthread, Option.bind_none]
    have hl := h.leads
    rw [hnone] at hl
    exact ⟨leads_none.1 hl ▸ h, fun t' l' _ h' => h'⟩
  next thread hthread =>
    exact h.freeTops hg hthread (Nat.le_trans (h.length_le hg.inRange) (Nat.le_add_right _ 2))

/-! ## Held mutexes -/

/-- The mutexes of a thread, most recent first; none if its list has no end. -/
def heldBy? (g : Graph) (t : Tid) : Option (List UInt64) :=
  (g.held? t).map fun held => held.map fun i => (g.node i).mutex

/-- The mutex is in the list of the thread. -/
def Holds (g : Graph) (t : Tid) (m : UInt64) : Prop := ∃ held, g.heldBy? t = some held ∧ m ∈ held

/-- The call is made by a thread with a number, and acquires only a mutex that is free
or held by the caller. -/
def Permits (g : Graph) : Event → Prop
  | .lock m t _ _ => t ≠ 0 ∧ ((∀ t', ¬ g.Holds t' m) ∨ g.Holds t m)
  | .unlock _ t => t ≠ 0
  | .forget t => t ≠ 0

instance (g : Graph) (t : Tid) (m : UInt64) : Decidable (g.Holds t m) :=
  decidable_of_iff (∃ held, held ∈ g.heldBy? t ∧ m ∈ held) Iff.rfl

theorem Stack.heldBy?_eq (h : g.Stack t l) (hg : g.InRange) :
    g.heldBy? t = some (l.map fun i => (g.node i).mutex) := by
  rw [heldBy?, hg.held?_eq_some_iff.2 h.leads, Option.map_some]

theorem Stack.lt (h : g.Stack t l) (hg : g.InRange) : ∀ i ∈ l, i < g.nodes.size :=
  h.leads.lt hg fun _ hi => hg.topOf hi

/-- A thread holds a mutex if the node of the mutex is in its list. -/
theorem holds_iff_mem (hg : g.WellFormed) (hl : g.Leads (g.topOf t) l) :
    g.Holds t m ↔ (g.internNode m).1 ∈ l := by
  have hlt := hl.lt hg.inRange fun _ hi => hg.inRange.topOf hi
  have hheld : g.heldBy? t = some (l.map fun i => (g.node i).mutex) := by
    rw [heldBy?, hg.inRange.held?_eq_some_iff.2 hl, Option.map_some]
  simp only [Holds, hheld, Option.some.injEq, exists_eq_left', List.mem_map]
  constructor
  · rintro ⟨i, hi, rfl⟩
    have hfind := hg.indexed.findNode?_eq_some_iff.2 ⟨hlt i hi, rfl⟩
    rw [internNode, hfind]
    exact hi
  · intro hi
    refine ⟨_, hi, ?_⟩
    rw [← node_internNode_of_lt g m (hlt _ hi)]
    exact (hg.indexed.internNode_spec m).2

theorem owner_node_internNode (g : Graph) (m : UInt64) :
    (g.node (g.internNode m).1).owner = g.ownerOf m := by
  rw [← owner_internNode, view_internNode Node.owner (by rfl)]

/-- In a disciplined run the owner of a node is the thread that holds it. -/
theorem Stacked.holds_iff (hs : g.Stacked) (hg : g.WellFormed) :
    g.Holds t m ↔ t ≠ 0 ∧ g.ownerOf m = t := by
  obtain ⟨l, h⟩ := hs t
  rw [holds_iff_mem hg h.leads, h.mem_iff, owner_node_internNode]

theorem Stacked.ownerOf_eq_zero (hs : g.Stacked) (hg : g.WellFormed)
    (hfree : ∀ t', ¬ g.Holds t' m) : g.ownerOf m = 0 := by
  by_contra ho
  exact hfree _ ((hs.holds_iff hg).2 ⟨ho, rfl⟩)

theorem Stacked.exists_lock (hs : g.Stacked) (hg : g.WellFormed) (m : UInt64) (t : Tid)
    (stack : Option CallStack) (capture : Bool) :
    ∃ g' outcome, g.handle? (.lock m t stack capture) = some (g', some outcome) := by
  obtain ⟨l, h⟩ := hs t
  obtain ⟨⟨g', outcome, report⟩, hlock⟩ :=
    Option.isSome_iff_exists.1 (hg.onLock_isSome h.leads m stack capture)
  exact ⟨g', outcome, handle?_lock_iff.2 ⟨outcome, report, rfl, hlock⟩⟩

/-- While every thread has a stack, every call returns. -/
theorem Stacked.exists_handle? (hs : g.Stacked) (hg : g.WellFormed) (e : Event) :
    ∃ g' outcome?, g.handle? e = some (g', outcome?) := by
  cases e with
  | lock m t stack capture =>
    obtain ⟨g', outcome, hlock⟩ := hs.exists_lock hg m t stack capture
    exact ⟨g', some outcome, hlock⟩
  | unlock m t =>
    obtain ⟨l, h⟩ := hs t
    obtain ⟨g', hunlock⟩ := hg.exists_onUnlock h.leads m
    exact ⟨g', none, handle?_unlock_iff.2 ⟨rfl, hunlock⟩⟩
  | forget t => exact ⟨g.forgetThread t, none, rfl⟩

/-- The lock acquired last heads the list of held locks. -/
theorem Stacked.latest?_eq {held : List UInt64} (hs : g.Stacked) (hg : g.WellFormed)
    (h : g.heldBy? t = some held) : g.latest? t = held.head? := by
  obtain ⟨l, hl⟩ := hs t
  obtain rfl : l.map (fun i => (g.node i).mutex) = held :=
    Option.some.inj ((hl.heldBy?_eq hg.inRange).symm.trans h)
  have htop : g.topOf t = l.head? := hl.linked.below_eq
  rw [latest?, htop, List.head?_map]

/-! ## Stacks under a disciplined call -/

theorem Stack.keep (h : g.Stack t l) (hk : g.Keeps g')
    (ho : ∀ j, (g'.node j).owner = (g.node j).owner) : g'.Stack t l :=
  ⟨h.linked.congr (hk.topOf t) (fun j _ => hk.older j) fun j _ => hk.newer j, fun j => by
    rw [ho]
    exact h.mem_iff j⟩

theorem Stacked.keep (hs : g.Stacked) (hk : g.Keeps g')
    (ho : ∀ j, (g'.node j).owner = (g.node j).owner) : g'.Stacked := fun t => by
  obtain ⟨l, hl⟩ := hs t
  exact ⟨l, hl.keep hk ho⟩

/-- A change of one thread's stack. -/
theorem Stacked.change (hs : g.Stacked) (h' : g'.Stack t l')
    (hothers : ∀ t' k, t' ≠ t → g.Stack t' k → g'.Stack t' k) : g'.Stacked := fun t' => by
  by_cases ht : t' = t
  · exact ⟨l', ht ▸ h'⟩
  · obtain ⟨k, hk⟩ := hs t'
    exact ⟨k, hothers t' k ht hk⟩

theorem Stacked.onLock {outcome : Outcome} {report : Option Report} (hs : g.Stacked)
    (hg : g.WellFormed) (hd : g.Permits (.lock m t stack capture))
    (h : g.onLock m t stack capture = some (g', outcome, report)) : g'.Stacked := by
  obtain ⟨ht, hfree⟩ := hd
  cases hg.acquires h with
  | counted _ hk howner => exact hs.keep hk howner
  | pushed ho hp =>
    have hfree := hfree.resolve_right fun hholds => ho ((hs.holds_iff hg).1 hholds).2
    have hi : (g.node (g.internNode m).1).owner = 0 := by
      rw [owner_node_internNode, hs.ownerOf_eq_zero hg hfree]
    obtain ⟨l, hl⟩ := hs t
    exact hs.change (hl.push hp ht hi) fun t' k hne hk => hk.push_other hl hp hi hne

theorem Stacked.onUnlock (hs : g.Stacked) (hg : g.WellFormed) (ht : t ≠ 0)
    (h : g.onUnlock m t = some g') : g'.Stacked := by
  obtain ⟨l, hl⟩ := hs t
  cases hg.releases hl.leads h with
  | ignored _ heq => exact heq ▸ hs
  | counted _ _ _ hk howner => exact hs.keep hk howner
  | lost _ ho _ hil _ => exact absurd ((hl.mem_iff _).2 ⟨ht, ho⟩) hil
  | @removed i _ _ _ hil hr =>
    obtain ⟨a, b, rfl⟩ := List.append_of_mem hil
    exact hs.change (hl.remove hr) fun t' k hne hk => hk.remove_other hl hr hil hne

theorem Stacked.forgetThread (hs : g.Stacked) (hg : g.WellFormed) (t : Tid) :
    (g.forgetThread t).Stacked := by
  obtain ⟨l, hl⟩ := hs t
  obtain ⟨hempty, hothers⟩ := hl.forgetThread hg
  exact hs.change hempty hothers

/-- After a permitted call every thread has a stack. -/
theorem Stacked.handle? {e : Event} {outcome? : Option Outcome} (hs : g.Stacked)
    (hg : g.WellFormed) (hd : g.Permits e) (h : g.handle? e = some (g', outcome?)) :
    g'.Stacked := by
  cases e with
  | lock m t stack capture =>
    obtain ⟨outcome, report, -, hlock⟩ := handle?_lock_iff.1 h
    exact hs.onLock hg hd hlock
  | unlock m t => exact hs.onUnlock hg hd (handle?_unlock_iff.1 h).2
  | forget t =>
    rw [(handle?_forget_iff.1 h).2]
    exact hs.forgetThread hg t

end Graph
end Threading.LockOrder
