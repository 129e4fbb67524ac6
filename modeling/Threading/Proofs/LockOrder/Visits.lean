import Threading.Proofs.LockOrder.CycleSearch

/-!
# Which nodes a search comes to

A search taken turn by turn. Every node that it enters gets its number and no other mark
changes, so afterwards the nodes it came to are told by the number, except for those that
carried the number before. If there were none of these, then what the search takes for visited
it has visited itself.
-/
namespace Threading.LockOrder

open Relation

namespace Search

variable {s t : Search} {i c : NodeId}

/-- One turn of a search; none if the path has run out or the next child closes a cycle. -/
def next? (s : Search) : Option Search :=
  match s.path with
  | [] => none
  | ⟨i, []⟩ :: rest => some { s with nodes := s.nodes.modify i (·.leave), path := rest }
  | ⟨i, c :: pending⟩ :: rest =>
    let t := { s with path := ⟨i, pending⟩ :: rest }
    match s.nodes[c]? with
    | none => some t
    | some n =>
      if n.onPath then none
      else if n.visited = s.epoch then some t
      else some (t.enter c)

/-- The search `s` gets to `t`. -/
def Later : Search → Search → Prop := ReflTransGen fun s t => s.next? = some t

/-- The search comes to a node. -/
def Visits (s : Search) (i : NodeId) : Prop := ∃ t, s.Later t ∧ i ∈ t.trail

/-- In its next turn the search takes a child for visited and passes over it. -/
def Skips (s : Search) (c : NodeId) : Prop :=
  ∃ i pending rest n, s.path = ⟨i, c :: pending⟩ :: rest ∧ s.nodes[c]? = some n ∧
    n.onPath = false ∧ n.visited = s.epoch

/-- What the search takes for visited it has come to before. -/
def Careful (s : Search) : Prop :=
  ∀ t c, s.Later t → t.Skips c → ∃ u, s.Later u ∧ u.Later t ∧ c ∈ u.trail

/-- The nodes of the path carry the number of the search. -/
def Marked (s : Search) : Prop :=
  ∀ i ∈ s.trail, i < s.nodes.size ∧ (s.node i).visited = s.epoch

/-! ## One turn -/

/-- What a turn can do. -/
theorem next?_cases (h : s.next? = some t) :
    (∃ i rest, s.path = ⟨i, []⟩ :: rest ∧
      t = { s with nodes := s.nodes.modify i (·.leave), path := rest }) ∨
    (∃ i c pending rest, s.path = ⟨i, c :: pending⟩ :: rest ∧
      t = { s with path := ⟨i, pending⟩ :: rest }) ∨
    ∃ i c pending rest, s.path = ⟨i, c :: pending⟩ :: rest ∧ c < s.nodes.size ∧
      t = Search.enter { s with path := ⟨i, pending⟩ :: rest } c := by
  rw [next?] at h
  split at h
  next => cases h
  next i rest hp => exact .inl ⟨i, rest, hp, (Option.some.inj h).symm⟩
  next i c pending rest hp =>
    simp only at h
    split at h
    next => exact .inr (.inl ⟨i, c, pending, rest, hp, (Option.some.inj h).symm⟩)
    next n hc =>
      split at h
      · cases h
      split at h
      · exact .inr (.inl ⟨i, c, pending, rest, hp, (Option.some.inj h).symm⟩)
      · have hlt := (Array.getElem?_eq_some_iff.1 hc).1
        exact .inr (.inr ⟨i, c, pending, rest, hp, hlt, (Option.some.inj h).symm⟩)

theorem trail_cons {pending : List NodeId} {rest : List Frame}
    (h : s.path = ⟨i, pending⟩ :: rest) : s.trail = i :: rest.map (·.node) := by
  rw [trail, h, List.map_cons]

/-- A turn writes the number of the search on a node that it puts on the path, if any. -/
theorem visited_next? (h : s.next? = some t) :
    t.epoch = s.epoch ∧ (∀ j, (t.node j).visited = (s.node j).visited ∨ j ∈ t.trail) ∧
      (s.Marked → t.Marked) := by
  obtain ⟨i, rest, hp, rfl⟩ | ⟨i, c, pending, rest, hp, rfl⟩ |
    ⟨i, c, pending, rest, hp, hlt, rfl⟩ := next?_cases h
  · have hleave (j : NodeId) : (node { s with nodes := s.nodes.modify i (·.leave), path := rest }
        j).visited = (s.node j).visited :=
      Graph.view_modifyNode { nodes := s.nodes } Node.visited (fun n => by rfl) i j
    refine ⟨rfl, fun j => .inl (hleave j), fun hm j hj => ?_⟩
    rw [hleave, Array.size_modify]
    exact hm j (trail_cons hp ▸ List.mem_cons_of_mem i hj)
  · refine ⟨rfl, fun j => .inl rfl, fun hm j hj => ?_⟩
    exact hm j (trail_cons hp ▸ hj)
  · have hself :
        (node (Search.enter { s with path := ⟨i, pending⟩ :: rest } c) c).visited = s.epoch :=
      congrArg Node.visited (node_modify_self hlt _ _)
    have hother {j : NodeId} (hj : j ≠ c) :
        node (Search.enter { s with path := ⟨i, pending⟩ :: rest } c) j = s.node j :=
      node_modify_of_ne hj _ _
    refine ⟨rfl, fun j => ?_, fun hm j hj => ?_⟩
    · by_cases hj : j = c
      · exact .inr (hj ▸ List.mem_cons_self)
      · exact .inl (by rw [hother hj])
    · by_cases hjc : j = c
      · subst hjc
        exact ⟨by rwa [Search.enter, Array.size_modify], hself⟩
      · rw [hother hjc, Search.enter, Array.size_modify]
        exact hm j (trail_cons hp ▸ (List.mem_cons.1 hj).resolve_left hjc)

theorem run_of_next? (h : s.next? = some t) : s.run = t.run := by
  fun_cases Search.run s with
  | case1 hp => simp [next?, hp] at h
  | case2 i rest hp =>
    simp only [next?, hp, Option.some.injEq] at h
    rw [h]
  | case3 i c pending rest hp u hc =>
    simp only [next?, hp, hc, Option.some.injEq] at h
    rw [← h]
  | case4 i c pending rest hp u n hc hon => simp [next?, hp, hc, hon] at h
  | case5 i c pending rest hp u n hc hon hv =>
    simp only [next?, hp, hc, hon, hv, Bool.false_eq_true, if_true, if_false,
      Option.some.injEq] at h
    rw [← h]
  | case6 i c pending rest hp u n hc hon hv =>
    simp only [next?, hp, hc, hon, hv, Bool.false_eq_true, if_false, Option.some.injEq] at h
    rw [← h]

theorem run_of_path_eq_nil (h : s.path = []) : s.run = (s, none) := by
  fun_cases Search.run s with
  | case1 => rfl
  | case2 i rest hp | case3 i c pending rest hp | case4 i c pending rest hp
  | case5 i c pending rest hp | case6 i c pending rest hp => simp [h] at hp

theorem run_of_onPath {pending : List NodeId} {rest : List Frame} {n : Node}
    (h : s.path = ⟨i, c :: pending⟩ :: rest) (hc : s.nodes[c]? = some n)
    (hon : n.onPath = true) : s.run = ({ s with path := ⟨i, pending⟩ :: rest }, some c) := by
  fun_cases Search.run s with
  | case1 hp => simp [h] at hp
  | case2 i rest hp => simp [h] at hp
  | case3 i c pending rest hp u hnone =>
    cases h.symm.trans hp
    exact absurd (hc.symm.trans hnone) (by simp)
  | case4 i c pending rest hp => cases h.symm.trans hp; rfl
  | case5 i c pending rest hp u m hm hoff | case6 i c pending rest hp u m hm hoff =>
    cases h.symm.trans hp
    obtain rfl : n = m := Option.some.inj (hc.symm.trans hm)
    exact absurd hon hoff

/-! ## A whole search -/

theorem visits_iff (h : s.next? = some t) : s.Visits i ↔ i ∈ s.trail ∨ t.Visits i := by
  constructor
  · rintro ⟨u, hu, hi⟩
    rcases hu.cases_head with rfl | ⟨t', ht', hu⟩
    · exact .inl hi
    · obtain rfl : t = t' := Option.some.inj (h.symm.trans ht')
      exact .inr ⟨u, hu, hi⟩
  · rintro (hi | ⟨u, hu, hi⟩)
    · exact ⟨s, .refl, hi⟩
    · exact ⟨u, .head h hu, hi⟩

theorem visits_iff_of_next?_eq_none (h : s.next? = none) : s.Visits i ↔ i ∈ s.trail := by
  refine ⟨fun ⟨u, hu, hi⟩ => ?_, fun hi => ⟨s, .refl, hi⟩⟩
  rcases hu.cases_head with rfl | ⟨t, ht, -⟩
  · exact hi
  · exact absurd (h.symm.trans ht) (by simp)

/-- A search goes on until it has no next turn. -/
theorem exists_later_run (s : Search) :
    ∃ t, s.Later t ∧ t.next? = none ∧ s.run.1.nodes = t.nodes := by
  fun_induction Search.run s with
  | case1 s hp => exact ⟨s, .refl, by simp [next?, hp], rfl⟩
  | case2 s i rest hp ih =>
    obtain ⟨t, ht, hend⟩ := ih
    exact ⟨t, .head (by simp [next?, hp]) ht, hend⟩
  | case3 s i c pending rest hp u hc ih =>
    obtain ⟨t, ht, hend⟩ := ih
    exact ⟨t, .head (by simp [next?, hp, hc, u]) ht, hend⟩
  | case4 s i c pending rest hp u n hc hon =>
    exact ⟨s, .refl, by simp [next?, hp, hc, hon], rfl⟩
  | case5 s i c pending rest hp u n hc hon hv ih =>
    obtain ⟨t, ht, hend⟩ := ih
    exact ⟨t, .head (by simp [next?, hp, hc, hon, hv, u]) ht, hend⟩
  | case6 s i c pending rest hp u n hc hon hv ih =>
    obtain ⟨t, ht, hend⟩ := ih
    exact ⟨t, .head (by simp [next?, hp, hc, hon, hv, u]) ht, hend⟩

/-- In the end the nodes that the search came to carry its number, and no other mark has
changed. -/
theorem Later.visited_eq (h : s.Later t) (hend : t.next? = none) (hm : s.Marked) (i : NodeId) :
    (s.Visits i → (t.node i).visited = s.epoch) ∧
      (¬ s.Visits i → (t.node i).visited = (s.node i).visited) := by
  induction h using ReflTransGen.head_induction_on with
  | refl =>
    rw [visits_iff_of_next?_eq_none hend]
    exact ⟨fun hi => (hm i hi).2, fun _ => rfl⟩
  | @head s u hu _ ih =>
    obtain ⟨hepoch, hsame, hmarked⟩ := visited_next? hu
    obtain ⟨hvisit, hno⟩ := ih (hmarked hm)
    have hstays (hi : ¬ u.Visits i) : (t.node i).visited = (s.node i).visited := by
      rw [hno hi]
      exact (hsame i).resolve_right fun htrail => hi ⟨u, .refl, htrail⟩
    rw [visits_iff hu]
    refine ⟨fun hi => ?_, fun hi => hstays fun hvisits => hi (.inr hvisits)⟩
    by_cases hvisits : u.Visits i
    · rw [hvisit hvisits, hepoch]
    · rw [hstays hvisits]
      exact (hm i (hi.resolve_right hvisits)).2

/-- A node with the number of the search has it from before or the search came to it. -/
theorem Later.visited_cases (h : s.Later t) (i : NodeId) :
    t.epoch = s.epoch ∧ ((t.node i).visited = (s.node i).visited ∨
      ∃ u, s.Later u ∧ u.Later t ∧ i ∈ u.trail) := by
  induction h with
  | refl => exact ⟨rfl, .inl rfl⟩
  | @tail u t hu hnext ih =>
    obtain ⟨hepoch, hsame, -⟩ := visited_next? hnext
    refine ⟨hepoch.trans ih.1, ?_⟩
    rcases hsame i with hmark | htrail
    · rcases ih.2 with hold | ⟨v, hv, hlater, hi⟩
      · exact .inl (hmark.trans hold)
      · exact .inr ⟨v, hv, hlater.tail hnext, hi⟩
    · exact .inr ⟨t, hu.tail hnext, .refl, htrail⟩

theorem Skips.visited_eq (h : s.Skips c) : (s.node c).visited = s.epoch := by
  obtain ⟨i, pending, rest, n, -, hc, -, hv⟩ := h
  rw [node, Array.getD_eq_getD_getElem?, hc]
  exact hv

end Search

namespace Graph

variable {g g' : Graph} {start : NodeId} {closing : Option NodeId}

/-- The search for a cycle that can be reached from `start`. -/
def searchFrom (g : Graph) (start : NodeId) : Search :=
  Search.enter { nodes := g.nodes, epoch := nextEpoch g.epoch } start

@[simp] theorem epoch_searchFrom (g : Graph) (start : NodeId) :
    (g.searchFrom start).epoch = nextEpoch g.epoch := rfl

/-- A search whose number no node carries is careful. -/
theorem careful_searchFrom (h : ∀ i, (g.node i).visited ≠ nextEpoch g.epoch) :
    (g.searchFrom start).Careful := by
  intro t c ht hskip
  obtain ⟨hepoch, hmark | hvisit⟩ := ht.visited_cases c
  · have hc : ((g.searchFrom start).node c).visited = nextEpoch g.epoch := by
      rw [← hmark, hskip.visited_eq, hepoch]
      rfl
    have hstart : c = start := by
      by_contra hne
      rw [searchFrom, Search.enter, Search.node_modify_of_ne hne] at hc
      exact h c hc
    exact ⟨_, .refl, ht, hstart ▸ List.mem_cons_self⟩
  · exact hvisit

/-- The marks of `g'` are those of `g`, but with the number of the search on the nodes that it
comes to. -/
structure MarkedBy (s : Search) (g g' : Graph) : Prop where
  visits : ∀ i, s.Visits i → (g'.node i).visited = s.epoch
  leaves : ∀ i, ¬ s.Visits i → (g'.node i).visited = (g.node i).visited

theorem MarkedBy.congr {s : Search} {g₁ g₁' : Graph} (h : MarkedBy s g g')
    (hbefore : ∀ i, (g.node i).visited = (g₁.node i).visited)
    (hafter : ∀ i, (g₁'.node i).visited = (g'.node i).visited) : MarkedBy s g₁ g₁' :=
  ⟨fun i hi => (hafter i).trans (h.visits i hi),
    fun i hi => (hafter i).trans ((h.leaves i hi).trans (hbefore i))⟩

theorem markedBy_findCycle (hlt : start < g.nodes.size)
    (h : g.findCycle start = (g', closing)) : MarkedBy (g.searchFrom start) g g' := by
  have hself : ((g.searchFrom start).node start).visited = nextEpoch g.epoch :=
    congrArg Node.visited (Search.node_modify_self hlt _ _)
  have hmarked : (g.searchFrom start).Marked := by
    intro j hj
    obtain rfl := List.mem_singleton.1 hj
    exact ⟨by rwa [searchFrom, Search.enter, Array.size_modify], hself⟩
  obtain ⟨t, hlater, hend, hnodes⟩ := Search.exists_later_run (g.searchFrom start)
  have hfound (i : NodeId) : (g'.node i).visited = (t.node i).visited := by
    obtain rfl : (g.findCycle start).1 = g' := congrArg Prod.fst h
    have hleave := (marks_leaveAll (g.searchFrom start).run.1.trail
      (g.searchFrom start).run.1.nodes i).1
    rw [Search.node, ← hnodes]
    exact hleave
  constructor
  case visits => exact fun i hi => (hfound i).trans ((hlater.visited_eq hend hmarked i).1 hi)
  case leaves =>
    intro i hi
    have hne : i ≠ start := by
      rintro rfl
      exact hi ⟨_, .refl, List.mem_cons_self⟩
    have hother : (g.searchFrom start).node i = g.node i := Search.node_modify_of_ne hne _ _
    rw [hfound, (hlater.visited_eq hend hmarked i).2 hi, hother]

end Graph
end Threading.LockOrder
