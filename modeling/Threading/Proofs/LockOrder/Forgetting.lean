import Threading.Proofs.LockOrder.Stacks

/-!
# Exits that find tangled stacks

The exit of a thread frees the top of its stack until there is none. It comes to an end whatever
the links look like: a stack may be circular, lead into that of another thread, or be linked in
one direction only. After the first turn no top has a newer lock above it, so from then on a turn
that does not empty the stack takes an `older` link away. Nothing but owners, counts, links and
the thread's own top is written.
-/
namespace Threading.LockOrder.Graph

variable {g g₁ g' : Graph} {thread thread' n : Nat} {t t' : Tid} {i j : NodeId}

/-- The turns of an exit: while a thread has a lock on top, the lock is freed and taken out. -/
inductive Empties (thread : Nat) : (turns : Nat) → Graph → Graph → Prop
  | done {g : Graph} : g.top thread = none → Empties thread 0 g g
  | turn {g g₁ g' : Graph} {i : NodeId} {n : Nat} : g.top thread = some i →
      (g.modifyNode i (·.free)).removeHeld thread i = some g₁ → Empties thread n g₁ g' →
      Empties thread (n + 1) g g'

/-- The nodes with an older lock below them. -/
def linkedBelow (g : Graph) : Finset NodeId :=
  {j ∈ Finset.range g.nodes.size | (g.node j).older ≠ none}

theorem card_linkedBelow_le (g : Graph) : g.linkedBelow.card ≤ g.nodes.size :=
  (Finset.card_filter_le _ _).trans (Finset.card_range _).le

/-! ## One turn -/

/-- The graph with the top `i` of a thread freed and taken out. -/
def takeTop (g : Graph) (thread : Nat) (i : NodeId) : Graph :=
  (g.modifyNode i (·.free)).unchain thread i

/-- The walk to the top of a stack ends at once. -/
theorem removeHeld_top (htop : g.top thread = some i) :
    (g.modifyNode i (·.free)).removeHeld thread i = some (g.takeTop thread i) := by
  have htop' : (g.modifyNode i (·.free)).top thread = some i := htop
  have hfound (n : Nat) : (g.modifyNode i (·.free)).reaches? i n (some i) = some true := by
    cases n <;> simp [reaches?]
  rw [removeHeld, htop', hfound]
  rfl

theorem freeTops_succ (htop : g.top thread = some i) (n : Nat) :
    freeTops thread (n + 1) g = freeTops thread n (g.takeTop thread i) := by
  rw [freeTops, htop]
  rfl

theorem lt_of_top (htop : g.top thread = some i) : thread < g.threads.size := by
  by_contra hlt
  rw [top, Array.getD_eq_getD_getElem?, Array.getElem?_eq_none (Nat.le_of_not_lt hlt)] at htop
  exact absurd htop (by simp [default])

/-- What a turn that takes `i` from the top leaves of tops and links. -/
structure Turns (g g₁ : Graph) (thread : Nat) (i : NodeId) : Prop where
  inRange : g₁.InRange
  size : g₁.nodes.size = g.nodes.size
  top : ∀ k, g₁.top k =
    if (g.node i).newer = none ∧ k = thread then (g.node i).older else g.top k
  older : ∀ j, (g₁.node j).older =
    if j = i then none else if (g.node i).newer = some j then (g.node i).older else (g.node j).older
  newer : ∀ j, (g₁.node j).newer =
    if j = i then none else if (g.node i).older = some j then (g.node i).newer else (g.node j).newer

theorem InRange.turns (hg : g.InRange) (htop : g.top thread = some i) :
    g.Turns (g.takeTop thread i) thread i := by
  have hi : i < (g.modifyNode i (·.free)).nodes.size := by
    rw [size_modifyNode]
    exact hg.top thread i htop
  have hthread : thread < (g.modifyNode i (·.free)).threads.size := lt_of_top htop
  have hfree := hg.modifyNode keepsLinks_free i
  have holder (j : NodeId) : ((g.modifyNode i (·.free)).node j).older = (g.node j).older :=
    view_modifyNode g Node.older keepsLinks_free.older i j
  have hnewer (j : NodeId) : ((g.modifyNode i (·.free)).node j).newer = (g.node j).newer :=
    view_modifyNode g Node.newer keepsLinks_free.newer i j
  constructor
  case inRange => exact hfree.unchain hi hthread
  case size => rw [takeTop, size_unchain, size_modifyNode]
  case top =>
    intro k
    rw [takeTop, top_unchain hthread, hnewer, holder]
    rfl
  case older =>
    intro j
    rw [takeTop, older_unchain hi (hfree.newer i), hnewer, holder, holder]
  case newer =>
    intro j
    rw [takeTop, newer_unchain hi (hfree.older i), holder, hnewer, hnewer]

/-- A turn leaves no lock above the new top. -/
theorem Turns.newer_top (h : g.Turns g₁ thread i) (htop : g.top thread = some i)
    (hj : g₁.top thread = some j) : (g₁.node j).newer = none := by
  rw [h.top] at hj
  rw [h.newer]
  by_cases hnewer : (g.node i).newer = none
  · rw [if_pos ⟨hnewer, rfl⟩] at hj
    rw [if_pos hj, hnewer, ite_self]
  · rw [if_neg fun hz => hnewer hz.1, htop] at hj
    rw [if_pos (Option.some.inj hj).symm]

/-- A turn at a top with no lock above it moves the top down and takes a link away, if there is
one. -/
theorem Turns.card_lt (h : g.Turns g₁ thread i) (hi : i < g.nodes.size)
    (hnewer : (g.node i).newer = none) (hmore : g₁.top thread ≠ none) :
    g₁.linkedBelow.card < g.linkedBelow.card := by
  rw [h.top, if_pos ⟨hnewer, rfl⟩] at hmore
  have holder (j : NodeId) : (g₁.node j).older = if j = i then none else (g.node j).older := by
    rw [h.older, hnewer, if_neg (Option.some_ne_none j).symm]
  refine Finset.card_lt_card ⟨fun j hj => ?_, fun hsub => ?_⟩
  · simp only [linkedBelow, Finset.mem_filter, h.size, holder] at hj ⊢
    exact ⟨hj.1, fun hnone => hj.2 (by rw [hnone, ite_self])⟩
  · have hmem : i ∈ g₁.linkedBelow :=
      hsub (Finset.mem_filter.2 ⟨Finset.mem_range.2 hi, hmore⟩)
    exact (Finset.mem_filter.1 hmem).2 ((holder i).trans (if_pos rfl))

/-! ## All turns -/

/-- An exit that has no lock above its top takes one turn for every link at most, and one more. -/
theorem InRange.exists_empties (hg : g.InRange)
    (hnewer : ∀ j, g.top thread = some j → (g.node j).newer = none)
    (hn : g.linkedBelow.card < n) :
    ∃ k ≤ n, Empties thread k g (freeTops thread n g) := by
  induction n generalizing g with
  | zero => exact absurd hn (Nat.not_lt_zero _)
  | succ n ih =>
    cases htop : g.top thread with
    | none =>
      rw [freeTops_of_top htop]
      exact ⟨0, Nat.zero_le _, .done htop⟩
    | some i =>
      have h := hg.turns htop
      rw [freeTops_succ htop]
      by_cases hmore : (g.takeTop thread i).top thread = none
      · rw [freeTops_of_top hmore]
        exact ⟨1, Nat.succ_le_succ (Nat.zero_le n), .turn htop (removeHeld_top htop) (.done hmore)⟩
      · have hcard := h.card_lt (hg.top thread i htop) (hnewer i htop) hmore
        obtain ⟨k, hk, hempties⟩ :=
          ih h.inRange (fun j hj => h.newer_top htop hj) (Nat.lt_of_lt_of_le hcard (by omega))
        exact ⟨k + 1, Nat.succ_le_succ hk, .turn htop (removeHeld_top htop) hempties⟩

/-- The turns of an exit come to an end. -/
theorem InRange.empties_forgetThread (hg : g.InRange) (hthread : g.findThread? t = some thread) :
    ∃ k ≤ g.nodes.size + 2, Empties thread k g (g.forgetThread t) := by
  have heq : g.forgetThread t = freeTops thread (g.nodes.size + 2) g := by
    rw [forgetThread, hthread]
  rw [heq]
  cases htop : g.top thread with
  | none =>
    rw [freeTops_of_top htop]
    exact ⟨0, Nat.zero_le _, .done htop⟩
  | some i =>
    have h := hg.turns htop
    have hcard := card_linkedBelow_le (g.takeTop thread i)
    rw [h.size] at hcard
    obtain ⟨k, hk, hempties⟩ :=
      h.inRange.exists_empties (fun j hj => h.newer_top htop hj) (Nat.lt_succ_of_le hcard)
    rw [freeTops_succ htop]
    exact ⟨k + 1, Nat.succ_le_succ hk, .turn htop (removeHeld_top htop) hempties⟩

/-- The turns of a thread leave its stack empty and the tops of all others where they were. -/
theorem Empties.top_eq (h : Empties thread n g g') (hg : g.InRange) (k : Nat) :
    g'.top k = if k = thread then none else g.top k := by
  induction h with
  | done htop =>
    split
    next hk => rw [hk, htop]
    · rfl
  | @turn g g₁ g' i n htop hremove _ ih =>
    obtain rfl := Option.some.inj ((removeHeld_top htop).symm.trans hremove)
    have hturns := hg.turns htop
    rw [ih hturns.inRange, hturns.top]
    split
    · rfl
    next hk => rw [if_neg fun hz => hk hz.2]

theorem tid_of_findThread? (h : g.findThread? t = some thread) :
    (g.threads.getD thread default).tid = t := by
  have hfound := List.find?_some h
  exact of_decide_eq_true hfound

theorem forgetThread_of_unknown (h : g.findThread? t = none) : g.forgetThread t = g := by
  rw [forgetThread, h]

theorem InRange.topOf_forgetThread (hg : g.InRange) (t t' : Tid) :
    (g.forgetThread t).topOf t' = if t' = t then none else g.topOf t' := by
  cases hthread : g.findThread? t with
  | none =>
    rw [forgetThread_of_unknown hthread]
    split
    next ht => rw [Graph.topOf, ht, hthread, Option.bind_none]
    · rfl
  | some thread =>
    obtain ⟨k, -, hempties⟩ := hg.empties_forgetThread hthread
    rw [Graph.topOf, findThread?_eq_of_orderPart (orderPart_forgetThread g t), Graph.topOf]
    cases hthread' : g.findThread? t' with
    | none => simp
    | some thread' =>
      rw [Option.bind_some, Option.bind_some, hempties.top_eq hg]
      refine if_congr ⟨?_, ?_⟩ rfl rfl
      · rintro rfl
        rw [← tid_of_findThread? hthread', tid_of_findThread? hthread]
      · rintro rfl
        exact Option.some.inj (hthread'.symm.trans hthread)

theorem held?_of_topOf_eq_none (h : g.topOf t = none) : g.held? t = some [] := by
  have hwalk : g.heldPrefix t (g.nodes.size + 1) = [] := by
    rw [heldPrefix]
    split
    · rfl
    next thread hthread =>
      rw [Graph.topOf, hthread, Option.bind_some] at h
      rw [h, walk_none]
  rw [held?, hwalk]
  rfl

/-- What the exit of `t` does to a graph. -/
structure Forgets (g g' : Graph) (t : Tid) : Prop where
  /-- The turns end, however the locks are linked. -/
  ends : ∀ thread, g.findThread? t = some thread →
    ∃ k ≤ g.nodes.size + 2, Empties thread k g g'
  /-- A thread that the graph does not know has no turn. -/
  unknown : g.findThread? t = none → g' = g
  held : g'.held? t = some []
  others : ∀ t', t' ≠ t → g'.topOf t' = g.topOf t'
  edge : ∀ a b, g'.Edge a b ↔ g.Edge a b
  edgeStack : ∀ a b, (g'.node b).edgeStack? a = (g.node b).edgeStack? a
  predicted : g'.predicted = g.predicted
  /-- Edges, marks, tables and counters, all at once. -/
  order : g'.orderPart = g.orderPart

/-- However tangled the stacks are, the exit of a thread ends, leaves it without locks, and
changes no edge and no other thread's stack at its top. -/
theorem InRange.forgets (hg : g.InRange) (t : Tid) : g.Forgets (g.forgetThread t) t := by
  have horder := orderPart_forgetThread g t
  have htop := hg.topOf_forgetThread t
  constructor
  case ends => exact fun thread hthread => hg.empties_forgetThread hthread
  case unknown => exact forgetThread_of_unknown
  case held => exact held?_of_topOf_eq_none ((htop t).trans (if_pos rfl))
  case others => exact fun t' ht' => (htop t').trans (if_neg ht')
  case edge => exact fun a b => edge_iff_of_orderPart horder
  case edgeStack =>
    intro a b
    have hparents := congrArg (·.edgeStack? a) (forgetHolder_node horder b)
    exact hparents
  case predicted =>
    have hcounter := congrArg (·.predicted) horder
    exact hcounter
  case order => exact horder

/-- Mutex 1 goes from thread 1 to thread 2 and, by way of thread 3, to thread 2 again. It was
released by neither of the first two, so the stack of thread 2 runs in a circle, and the stack of
thread 1 leads into it. -/
def sharedCircle : List Event :=
  [.lock 1 1 none false, .lock 1 2 none false, .lock 2 2 none false, .lock 1 3 none false,
    .unlock 1 3, .lock 1 2 none false]

theorem forgets_sharedCircle :
    ∃ calls g, Graph.play .empty [] sharedCircle = some (calls, g) ∧ g.held? 1 = none ∧
      g.held? 2 = none ∧ g.InRange ∧ g.Forgets (g.forgetThread 1) 1 := by
  have hrun : (Graph.play .empty [] sharedCircle).map (fun p => (p.2.held? 1, p.2.held? 2)) =
      some (none, none) := by
    decide +kernel
  obtain ⟨⟨calls, g⟩, hplay, hheld⟩ := Option.map_eq_some_iff.1 hrun
  obtain ⟨hone, htwo⟩ := Prod.mk.inj hheld
  have hg : g.InRange := (Run.nil.of_play hplay).wellFormed.inRange
  exact ⟨calls, g, hplay, hone, htwo, hg, hg.forgets 1⟩

end Threading.LockOrder.Graph
