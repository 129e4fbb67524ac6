import Threading.Proofs.LockOrder.Precedence

/-!
# Histories of the lock graph

A run is any sequence of acquisitions, releases and exits that returned, by any
callers, from the empty graph on. While fewer than `2 ^ 32 - 1` searches have run,
the recorded order has no cycle and consists of exactly the edges that were
reported as new.
-/
namespace Threading.LockOrder

open Relation

/-- A call of the lock graph. -/
inductive Event where
  | lock (m : UInt64) (t : Tid) (stack : Option CallStack) (capture : Bool)
  | unlock (m : UInt64) (t : Tid)
  | forget (t : Tid)

/-- Carries a call out. Only an acquisition has an outcome, and a call that would
never return has no result. -/
def Graph.handle? (g : Graph) : Event → Option (Graph × Option Outcome)
  | .lock m t stack capture =>
    (g.onLock m t stack capture).map fun (g, outcome, _) => (g, some outcome)
  | .unlock m t => (g.onUnlock m t).map fun g => (g, none)
  | .forget t => some (g.forgetThread t, none)

/-- A call that returned. -/
structure Call where
  before : Graph
  event : Event
  outcome : Option Outcome

/-- The calls that lead from the empty graph to a graph, newest first. -/
inductive Run : List Call → Graph → Prop
  | nil : Run [] .empty
  | cons {calls : List Call} {g g' : Graph} {e : Event} {outcome : Option Outcome} :
      Run calls g → g.handle? e = some (g', outcome) → Run (⟨g, e, outcome⟩ :: calls) g'

/-- Carries calls out one after the other, oldest first. -/
def Graph.play (g : Graph) (calls : List Call) : List Event → Option (List Call × Graph)
  | [] => some (calls, g)
  | e :: events =>
    match g.handle? e with
    | none => none
    | some (g', outcome) => g'.play (⟨g, e, outcome⟩ :: calls) events

/-- The number of cycle searches that have run. -/
def searches (calls : List Call) : Nat := calls.countP fun c => c.outcome.any Outcome.searched

variable {calls : List Call} {g g' : Graph} {e : Event} {outcome? : Option Outcome} {a b : UInt64}
variable {m : UInt64} {t : Tid} {stack : Option CallStack} {capture : Bool}

theorem Run.of_play (h : Run calls g) {events : List Event} {calls' : List Call}
    (hplay : g.play calls events = some (calls', g')) : Run calls' g' := by
  induction events generalizing g calls with
  | nil =>
    obtain ⟨rfl, rfl⟩ : calls = calls' ∧ g = g' := by simpa [Graph.play] using hplay
    exact h
  | cons e events ih =>
    rw [Graph.play] at hplay
    split at hplay
    · exact absurd hplay (by simp)
    next g₁ outcome hstep => exact ih (h.cons hstep) hplay

/-- Carrying calls out adds them to those before. -/
theorem Graph.exists_append_of_play {events : List Event} {calls' : List Call}
    (h : g.play calls events = some (calls', g')) : ∃ newer, calls' = newer ++ calls := by
  induction events generalizing g calls with
  | nil =>
    obtain ⟨rfl, -⟩ : calls = calls' ∧ g = g' := by simpa [Graph.play] using h
    exact ⟨[], rfl⟩
  | cons e events ih =>
    rw [Graph.play] at h
    split at h
    · exact absurd h (by simp)
    next g₁ outcome hstep =>
      obtain ⟨newer, rfl⟩ := ih h
      exact ⟨newer ++ [⟨g, e, outcome⟩], by simp⟩

/-! ## One call -/

namespace Graph

theorem handle?_lock_iff : g.handle? (.lock m t stack capture) = some (g', outcome?) ↔
    ∃ outcome report, outcome? = some outcome ∧
      g.onLock m t stack capture = some (g', outcome, report) := by
  rw [handle?, Option.map_eq_some_iff]
  constructor
  · rintro ⟨⟨g₁, outcome, report⟩, hlock, heq⟩
    obtain ⟨rfl, rfl⟩ := Prod.mk.inj heq
    exact ⟨outcome, report, rfl, hlock⟩
  · rintro ⟨outcome, report, rfl, hlock⟩
    exact ⟨_, hlock, rfl⟩

theorem handle?_unlock_iff : g.handle? (.unlock m t) = some (g', outcome?) ↔
    outcome? = none ∧ g.onUnlock m t = some g' := by
  rw [handle?, Option.map_eq_some_iff]
  constructor
  · rintro ⟨g₁, hunlock, heq⟩
    obtain ⟨rfl, rfl⟩ := Prod.mk.inj heq
    exact ⟨rfl, hunlock⟩
  · rintro ⟨rfl, hunlock⟩
    exact ⟨g', hunlock, rfl⟩

theorem handle?_forget_iff : g.handle? (.forget t) = some (g', outcome?) ↔
    outcome? = none ∧ g' = g.forgetThread t := by
  simp only [handle?, Option.some.injEq, Prod.mk.injEq, eq_comm, and_comm]

theorem WellFormed.handle? (hg : g.WellFormed) (h : g.handle? e = some (g', outcome?)) :
    g'.WellFormed := by
  cases e with
  | lock m t stack capture =>
    obtain ⟨outcome, report, -, hlock⟩ := handle?_lock_iff.1 h
    exact hg.onLock hlock
  | unlock m t => exact hg.onUnlock (handle?_unlock_iff.1 h).2
  | forget t =>
    rw [(handle?_forget_iff.1 h).2]
    exact hg.forgetThread t

theorem grows_handle? (h : g.handle? e = some (g', outcome?)) : g.Grows g' := by
  cases e with
  | lock m t stack capture =>
    obtain ⟨outcome, report, -, hlock⟩ := handle?_lock_iff.1 h
    exact grows_onLock hlock
  | unlock m t => exact grows_of_orderPart (orderPart_onUnlock (handle?_unlock_iff.1 h).2)
  | forget t =>
    obtain ⟨-, rfl⟩ := handle?_forget_iff.1 h
    exact grows_of_orderPart (orderPart_forgetThread g t)

/-- An acquisition records its order, and no other call changes the order. -/
theorem WellFormed.handle?_records (hg : g.WellFormed) (ho : g.Ordered)
    (hepoch : g.epoch.toNat < 2 ^ 32 - 1) (h : g.handle? e = some (g', outcome?)) :
    g'.Ordered ∧
      ((∃ m t stack capture outcome, e = .lock m t stack capture ∧ outcome? = some outcome ∧
          Records g.Precedes g'.Precedes (g.latest? t) m outcome ∧
          g'.epoch = if outcome.searched then nextEpoch g.epoch else g.epoch) ∨
        outcome? = none ∧ g'.orderPart = g.orderPart) := by
  cases e with
  | lock m t stack capture =>
    obtain ⟨outcome, report, rfl, hlock⟩ := handle?_lock_iff.1 h
    obtain ⟨ho', hr⟩ := hg.onLock_records ho hepoch hlock
    exact ⟨ho', .inl ⟨m, t, stack, capture, outcome, rfl, rfl, hr, epoch_onLock hlock⟩⟩
  | unlock m t =>
    obtain ⟨rfl, hunlock⟩ := handle?_unlock_iff.1 h
    have hpart := orderPart_onUnlock hunlock
    exact ⟨ho.congr_orderPart hpart, .inr ⟨rfl, hpart⟩⟩
  | forget t =>
    obtain ⟨rfl, rfl⟩ := handle?_forget_iff.1 h
    have hpart := orderPart_forgetThread g t
    exact ⟨ho.congr_orderPart hpart, .inr ⟨rfl, hpart⟩⟩

end Graph

/-! ## Every run -/

theorem Run.wellFormed (h : Run calls g) : g.WellFormed := by
  induction h with
  | nil => exact Graph.wellFormed_empty
  | cons _ hstep ih => exact ih.handle? hstep

/-- The searches are numbered. -/
theorem Run.ordered (h : Run calls g) (hs : searches calls < 2 ^ 32 - 1) :
    g.Ordered ∧ g.epoch.toNat = searches calls := by
  induction h with
  | nil => exact ⟨Graph.ordered_empty, rfl⟩
  | @cons calls g g' e outcome? hrun hstep ih =>
    have hcount : searches (⟨g, e, outcome?⟩ :: calls) =
        searches calls + if outcome?.any Outcome.searched then 1 else 0 :=
      List.countP_cons
    obtain ⟨ho, hepoch⟩ := ih (by omega)
    obtain ⟨ho', hr⟩ := hrun.wellFormed.handle?_records ho (by omega) hstep
    refine ⟨ho', ?_⟩
    obtain ⟨m, t, stack, capture, outcome, -, rfl, -, he⟩ | ⟨rfl, hpart⟩ := hr
    · rw [he, hcount, Option.any_some]
      split
      · rw [Graph.toNat_nextEpoch (by omega), hepoch]
      · exact hepoch
    · rw [Graph.epoch_eq_of_orderPart hpart, hepoch, hcount]
      rfl

/-- The call reported a new edge from `a` to `b`. -/
def Call.AddsEdge (c : Call) (a b : UInt64) : Prop :=
  ∃ t stack capture, c.event = .lock b t stack capture ∧ c.outcome = some .newEdge ∧
    c.before.latest? t = some a

/-- A recorded order was reported once, and no reported order is lost. -/
theorem Run.precedes_iff (h : Run calls g) (hs : searches calls < 2 ^ 32 - 1) :
    g.Precedes a b ↔ ∃ c ∈ calls, c.AddsEdge a b := by
  induction h with
  | nil => simp [Graph.Precedes, Graph.hasEdge, Graph.findNode?, Graph.empty, Buckets.find?]
  | @cons calls g g' e outcome? hrun hstep ih =>
    have hs' : searches calls < 2 ^ 32 - 1 :=
      Nat.lt_of_le_of_lt (List.Sublist.countP_le (List.sublist_cons_self _ calls)) hs
    obtain ⟨ho, hepoch⟩ := hrun.ordered hs'
    obtain ⟨-, hr⟩ := hrun.wellFormed.handle?_records ho (by omega) hstep
    have hstay (hne : outcome? ≠ some .newEdge) (hsame : g'.Precedes a b ↔ g.Precedes a b) :
        g'.Precedes a b ↔ ∃ c ∈ ⟨g, e, outcome?⟩ :: calls, c.AddsEdge a b := by
      have hno : ¬ Call.AddsEdge ⟨g, e, outcome?⟩ a b := by
        rintro ⟨_, _, _, _, hnew, _⟩
        exact hne hnew
      rw [hsame, ih hs', List.exists_mem_cons_iff, or_iff_right hno]
    obtain ⟨m, t, stack, capture, outcome, rfl, rfl, hr, -⟩ | ⟨rfl, hpart⟩ := hr
    · cases hr with
      | reentrant hsame => exact hstay (by simp) (hsame a b)
      | acquired _ hsame => exact hstay (by simp) (hsame a b)
      | predicted _ _ _ _ hsame => exact hstay (by simp) (hsame a b)
      | @newEdge prev hprev _ _ _ hsame =>
        rw [hsame, ih hs', List.exists_mem_cons_iff, or_comm]
        refine or_congr_left ?_
        constructor
        · rintro ⟨rfl, rfl⟩
          exact ⟨t, stack, capture, rfl, rfl, hprev⟩
        · rintro ⟨_, _, _, heq, -, hlatest⟩
          obtain ⟨rfl, rfl, -⟩ := Event.lock.inj heq
          exact ⟨Option.some.inj (hlatest.symm.trans hprev), rfl⟩
    · exact hstay (by simp) (Graph.precedes_of_orderPart hpart a b)

/-- Whoever calls, the edges never close a cycle, not even from a node to itself, and
an order is recorded exactly if it was once reported as new. -/
theorem Run.acyclic_and_hasEdge_iff (h : Run calls g) (hs : searches calls < 2 ^ 32 - 1) :
    (∀ i, ¬ TransGen (fun a b => b ∈ (g.node a).children) i i) ∧
      (∀ i, i ∉ (g.node i).children) ∧
      ∀ a b, g.hasEdge a b = true ↔ ∃ c ∈ calls, ∃ t stack capture,
        c.event = .lock b t stack capture ∧ c.outcome = some .newEdge ∧
          c.before.latest? t = some a := by
  have hacyc := (h.ordered hs).1.acyclic
  exact ⟨hacyc, fun i hi => hacyc i (.single hi), fun a b => h.precedes_iff hs⟩

/-- Two threads nest two mutexes in opposite orders; a third thread may release. -/
def inversion : List Event :=
  [.lock 1 1 none false, .lock 2 1 none false, .unlock 2 3, .unlock 2 1, .unlock 1 1,
    .lock 2 2 none false, .lock 1 2 none false, .forget 2]

theorem acyclic_and_hasEdge_iff_inversion :
    ∃ calls g, Graph.play .empty [] inversion = some (calls, g) ∧ searches calls < 2 ^ 32 - 1 ∧
      (∀ i, ¬ TransGen (fun a b => b ∈ (g.node a).children) i i) ∧
      (∀ i, i ∉ (g.node i).children) ∧
      ∀ a b, g.hasEdge a b = true ↔ ∃ c ∈ calls, ∃ t stack capture,
        c.event = .lock b t stack capture ∧ c.outcome = some .newEdge ∧
          c.before.latest? t = some a := by
  have hrun : (Graph.play .empty [] inversion).map (fun p => searches p.1) = some 2 := by
    decide +kernel
  obtain ⟨⟨calls, g⟩, hplay, hs⟩ := Option.map_eq_some_iff.1 hrun
  have hlt : searches calls < 2 ^ 32 - 1 := by
    simp only at hs
    omega
  exact ⟨calls, g, hplay, hlt, Run.acyclic_and_hasEdge_iff (Run.nil.of_play hplay) hlt⟩

end Threading.LockOrder
