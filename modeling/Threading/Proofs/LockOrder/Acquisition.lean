import Threading.Proofs.LockOrder.Origins

/-!
# What one acquisition does

A thread that acquires a mutex which it does not own gets one of three answers, by the lock that
it acquired last and the order recorded so far. Only a new order changes an edge. A rejected
one passes through the lists of its two nodes and leaves no trace there, in contents or in
order. With any answer the mutex goes on top of the locks of the thread.
-/
namespace Threading.LockOrder

open Relation

namespace Graph

/-! ## The answer -/

section Records

variable {α : Type} {r r' : α → α → Prop} {prev? : Option α} {i prev : α} {outcome : Outcome}

/-- Nothing is recorded exactly if nothing was held, or the order was known. -/
theorem Records.acquired_iff (h : Records r r' prev? i outcome) (hfirst : outcome ≠ .reentrant) :
    outcome = .acquired ↔ ∀ prev, prev? = some prev → prev = i ∨ r prev i := by
  cases h with
  | reentrant => exact absurd rfl hfirst
  | acquired hknown => exact iff_of_true rfl hknown
  | newEdge hlast hne hnew =>
    refine iff_of_false (by simp) fun hknown => ?_
    exact (hknown _ hlast).elim hne hnew
  | predicted hlast hne hnew =>
    refine iff_of_false (by simp) fun hknown => ?_
    exact (hknown _ hlast).elim hne hnew

/-- An order that is not known is rejected exactly if the recorded ones lead back. -/
theorem Records.decided (h : Records r r' prev? i outcome) (hfirst : outcome ≠ .reentrant)
    (hprev : prev? = some prev) (hne : prev ≠ i) (hnew : ¬ r prev i) :
    (outcome = .predictedDeadlock ↔ TransGen r i prev) ∧
      (outcome = .newEdge ↔ ¬ TransGen r i prev) := by
  cases h with
  | reentrant => exact absurd rfl hfirst
  | acquired hknown => exact absurd (hknown prev hprev) (not_or.2 ⟨hne, hnew⟩)
  | newEdge hlast _ _ hback =>
    obtain rfl := Option.some.inj (hlast.symm.trans hprev)
    have hno : ¬ TransGen r i _ := fun hpath => hback hpath.to_reflTransGen
    exact ⟨iff_of_false (by simp) hno, iff_of_true rfl hno⟩
  | predicted hlast _ _ hback =>
    obtain rfl := Option.some.inj (hlast.symm.trans hprev)
    have hpath := (reflTransGen_iff_eq_or_transGen.1 hback).resolve_left hne
    exact ⟨iff_of_true rfl hpath, iff_of_false (by simp) fun hno => hno hpath⟩

end Records

/-! ## The edges -/

variable {g g' : Graph} {m : UInt64} {t : Tid} {stack : Option CallStack} {capture : Bool}
variable {outcome : Outcome} {report : Option Report} {es : List NewEdge} {e : NewEdge}

/-- No list of edges changes. -/
structure KeepsEdges (g g' : Graph) : Prop where
  children : ∀ i, (g'.node i).children = (g.node i).children
  parents : ∀ i, (g'.node i).parents = (g.node i).parents
  parentStacks : ∀ i, (g'.node i).parentStacks = (g.node i).parentStacks
  edges : g'.edges = g.edges

/-- One edge comes to the lists, behind all others. -/
structure AddsEdge (g g' : Graph) (e : NewEdge) : Prop where
  children : ∀ i, (g'.node i).children =
    if i = e.parent then (g.node i).children ++ [e.child] else (g.node i).children
  parents : ∀ i, (g'.node i).parents =
    if i = e.child then (g.node i).parents ++ [e.parent] else (g.node i).parents
  parentStacks : ∀ i, (g'.node i).parentStacks =
    if i = e.child then (g.node i).parentStacks ++ [e.stack] else (g.node i).parentStacks
  edges : g'.edges = g.edges + 1

theorem Draws.keepsEdges (h : g.Draws es) (h' : g'.Draws es) : g.KeepsEdges g' where
  children i := by rw [h.children, h'.children]
  parents i := by rw [h.parents, h'.parents]
  parentStacks i := by rw [h.parentStacks, h'.parentStacks]
  edges := by rw [h.edges, h'.edges]

/-- The list that one more edge leaves at a node. -/
theorem map_filter_concat {α : Type} (u : NewEdge → NodeId) (v : NewEdge → α) (es : List NewEdge)
    (e : NewEdge) (i : NodeId) :
    ((es ++ [e]).filter (u · = i)).map v =
      if i = u e then (es.filter (u · = i)).map v ++ [v e] else (es.filter (u · = i)).map v := by
  by_cases hi : i = u e
  · simp [hi]
  · simp [hi, Ne.symm hi]

theorem Draws.addsEdge (h : g.Draws es) (h' : g'.Draws (es ++ [e])) : g.AddsEdge g' e where
  children i := by rw [h'.children, h.children, map_filter_concat]
  parents i := by rw [h'.parents, h.parents, map_filter_concat]
  parentStacks i := by rw [h'.parentStacks, h.parentStacks, map_filter_concat]
  edges := by rw [h'.edges, h.edges, List.length_append, List.length_singleton]

/-! ## The acquisition -/

/-- What an acquisition of `m` by `t` does if `t` is not recorded as the owner. -/
structure Takes (g g' : Graph) (m : UInt64) (t : Tid) (stack : Option CallStack) (capture : Bool)
    (outcome : Outcome) : Prop where
  acquired_iff : outcome = .acquired ↔ ∀ p, g.latest? t = some p → p = m ∨ g.Precedes p m
  decided : ∀ p, g.latest? t = some p → p ≠ m → ¬ g.Precedes p m →
    (outcome = .predictedDeadlock ↔ TransGen g.Precedes m p) ∧
      (outcome = .newEdge ↔ ¬ TransGen g.Precedes m p)
  kept : outcome ≠ .newEdge → g.KeepsEdges g'
  added : outcome = .newEdge → ∃ i j, g.topOf t = some i ∧ g'.findNode? m = some j ∧
    g.AddsEdge g' ⟨i, j, if capture then stack.getD (g.stackOf m) else .empty⟩
  predicted : g'.predicted = g.predicted + if outcome = .predictedDeadlock then 1 else 0
  /-- Whatever the answer, the mutex is on top of the locks of the thread. -/
  held : ∃ j, g'.findNode? m = some j ∧ (g'.node j).owner = t ∧ (g'.node j).count = 0 ∧
    g'.topOf t = some j ∧ (g'.node j).older = g.topOf t
  grows : g.Grows g'

theorem WellFormed.takes (hg : g.WellFormed) (ho : g.Ordered) (hd : g.Draws es)
    (hepoch : g.epoch.toNat < 2 ^ 32 - 1) (howner : g.ownerOf m ≠ t)
    (h : g.onLock m t stack capture = some (g', outcome, report)) :
    g.Takes g' m t stack capture outcome := by
  have hfirst : outcome ≠ .reentrant := fun heq => howner ((onLock_eq_reentrant_iff h).1 heq)
  obtain ⟨-, hr⟩ := hg.onLock_records ho hepoch h
  obtain ⟨hd', hpredicted⟩ := hd.onLock hg h
  have hfind := hg.findNode?_onLock h
  constructor
  case acquired_iff => exact hr.acquired_iff hfirst
  case decided =>
    intro p hp hne hnew
    exact hr.decided hfirst hp hne hnew
  case kept =>
    intro hold
    have hnone : g.newEdge? m t stack capture outcome = none := by
      cases outcome <;> first | rfl | exact absurd rfl hold
    rw [hnone, Option.toList_none, List.append_nil] at hd'
    exact hd.keepsEdges hd'
  case added =>
    intro hnew
    subst hnew
    cases hr with
    | newEdge hlast =>
      obtain ⟨i, htop, -⟩ := Option.map_eq_some_iff.1 hlast
      rw [newEdge?, htop, Option.map_some, Option.toList_some] at hd'
      exact ⟨i, _, htop, hfind, hd.addsEdge hd'⟩
  case predicted => exact hpredicted
  case held =>
    cases hg.acquires h with
    | counted hsame => exact absurd hsame howner
    | pushed _ hpush =>
      refine ⟨_, hfind, ?_, ?_, ?_, ?_⟩
      · rw [hpush.owner, if_pos rfl]
      · rw [hpush.count, if_pos rfl]
      · rw [hpush.topOf, if_pos rfl]
      · rw [hpush.older, if_pos rfl]
  case grows => exact grows_onLock h

end Graph

/-- Every acquisition after every run: the three answers and what each leaves behind. -/
theorem Run.onLock_takes {calls : List Call} {g g' : Graph} {m : UInt64} {t : Tid}
    {stack : Option CallStack} {capture : Bool} {outcome : Outcome} {report : Option Report}
    (h : Run calls g) (hs : searches calls < 2 ^ 32 - 1) (howner : g.ownerOf m ≠ t)
    (hlock : g.onLock m t stack capture = some (g', outcome, report)) :
    g.Takes g' m t stack capture outcome := by
  obtain ⟨ho, hepoch⟩ := h.ordered hs
  exact h.wellFormed.takes ho h.draws.1 (by omega) howner hlock

/-- One thread nests three mutexes; another one then has the innermost. -/
def innermostHeld : List Event :=
  [.lock 1 1 none true, .lock 2 1 (some (.ofFrames [12])) true, .lock 3 1 none true, .forget 1,
    .lock 3 2 (some (.ofFrames [23])) true]

/-- The other thread acquires the outermost. -/
theorem onLock_takes_innermostHeld :
    ∃ calls g g' report, Graph.play .empty [] innermostHeld = some (calls, g) ∧
      searches calls < 2 ^ 32 - 1 ∧ g.ownerOf 1 ≠ 2 ∧
      g.onLock 1 2 none true = some (g', .predictedDeadlock, report) ∧
      g.Takes g' 1 2 none true .predictedDeadlock := by
  have hrun : ((Graph.play .empty [] innermostHeld).bind fun p =>
      (p.2.onLock 1 2 none true).map fun q => (searches p.1, p.2.ownerOf 1, q.2.1)) =
      some (2, 0, .predictedDeadlock) := by
    decide +kernel
  obtain ⟨⟨calls, g⟩, hplay, hlocked⟩ := Option.bind_eq_some_iff.1 hrun
  obtain ⟨⟨g', outcome, report⟩, hlock, hfacts⟩ := Option.map_eq_some_iff.1 hlocked
  obtain ⟨hs, howner, rfl⟩ : searches calls = 2 ∧ g.ownerOf 1 = 0 ∧
      outcome = .predictedDeadlock := by
    simpa only [Prod.mk.injEq] using hfacts
  have hlt : searches calls < 2 ^ 32 - 1 := by omega
  have hne : g.ownerOf 1 ≠ 2 := by
    rw [howner]
    decide
  exact ⟨calls, g, g', report, hplay, hlt, hne, hlock,
    (Run.nil.of_play hplay).onLock_takes hlt hne hlock⟩

end Threading.LockOrder
