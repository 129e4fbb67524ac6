import Threading.Proofs.LockOrder.NewEdges
import Threading.Proofs.LockOrder.Ranks
import Threading.Proofs.LockOrder.Reports

/-!
# Two locks in one order

Threads that use no more than two mutexes and always nest the second one in the first leave
a graph with at most one edge, which took one search. An acquisition in the opposite order
is then predicted to deadlock just if this edge is there, and leaves the order as it is;
without the edge it is the opposite order that is recorded.
-/
namespace Threading.LockOrder

open Relation

variable {es : List Event} {g g' : Graph} {a b m : UInt64} {t : Tid} {stack : Option CallStack}
variable {capture : Bool} {outcome : Outcome} {report : Option Report} {r : Report}

/-! ## One acquisition -/

/-- The graph keeps the ledgers and counts what it records. -/
structure Accounts (es : List Event) (g : Graph) : Prop where
  books : Books es g
  ordered : g.Ordered
  draws : ∃ edges, g.Draws edges

theorem accounts_empty : Accounts [] .empty :=
  ⟨books_nil, Graph.ordered_empty, [], Graph.draws_empty⟩

/-- No thread holds the mutex. -/
def Untaken (es : List Event) (m : UInt64) : Prop := ∀ t, m ∉ (ledger UInt32 t es).mutexes

/-- What a first acquisition does to the order, to the tables and to the counters. -/
structure Graph.Acquired (g g' : Graph) (last? : Option UInt64) (m : UInt64) (outcome : Outcome) :
    Prop where
  records : Records g.Precedes g'.Precedes last? m outcome
  first : outcome ≠ .reentrant
  mutexes : g'.mutexes = appendNew g.mutexes m
  edges : g'.edges = g.edges + if outcome = .newEdge then 1 else 0
  predicted : g'.predicted = g.predicted + if outcome = .predictedDeadlock then 1 else 0
  epoch : g'.epoch.toNat = g.epoch.toNat + if outcome.searched then 1 else 0

/-- A report is made of exactly the predicted deadlocks. -/
theorem Graph.isSome_report_iff (h : g.onLock m t stack capture = some (g', outcome, report)) :
    report.isSome = true ↔ outcome = .predictedDeadlock := by
  obtain ⟨-, rfl, rfl, -⟩ | ⟨-, g₁, hrecord, -⟩ := onLock_cases h
  · simp
  obtain ⟨rfl, -, rfl, -⟩ | ⟨-, -, -, -, -, -, -, ⟨-, rfl, -, rfl⟩ | ⟨rfl, -, -, -, -, rfl, -⟩⟩ :=
    recordOrder_cases hrecord <;> simp

/-- The edge of an acquisition starts at a lock that its thread holds. -/
theorem Graph.length_newEdge? (h : outcome = .newEdge → (g.latest? t).isSome = true) :
    (g.newEdge? m t stack capture outcome).toList.length =
      if outcome = .newEdge then 1 else 0 := by
  cases outcome with
  | newEdge =>
    have htop : (g.topOf t).isSome = true := by simpa only [latest?, Option.isSome_map] using h rfl
    obtain ⟨prev, hprev⟩ := Option.isSome_iff_exists.1 htop
    simp [newEdge?, hprev]
  | reentrant | acquired | predictedDeadlock => simp [newEdge?]

/-- A thread with a number acquires a mutex that nobody holds. -/
theorem Accounts.onLock (h : Accounts es g) (ht : t ≠ 0) (hm : Untaken es m)
    (hepoch : g.epoch.toNat < 2 ^ 32 - 1) (stack : Option CallStack) (capture : Bool) :
    ∃ g' outcome report, g.onLock m t stack capture = some (g', outcome, report) ∧
      Accounts (.lock m t stack capture :: es) g' ∧
      g.Acquired g' (ledger UInt32 t es).mutexes.head? m outcome := by
  have hg := h.books.wellFormed
  have hd : Permits es (.lock m t stack capture) := ⟨ht, .inl hm⟩
  obtain ⟨g', outcome, hstep⟩ := h.books.stacked.exists_lock hg m t stack capture
  obtain ⟨_, report, heq, hlock⟩ := Graph.handle?_lock_iff.1 hstep
  obtain rfl := Option.some.inj heq
  obtain ⟨hordered, hrecords⟩ := hg.onLock_records h.ordered hepoch hlock
  obtain ⟨edges, hdraws⟩ := h.draws
  obtain ⟨hdraws', hpredicted⟩ := hdraws.onLock hg hlock
  have hfirst : outcome ≠ .reentrant := fun hre => hm t ((h.books.reentrant_iff hd hstep).1 hre)
  have hlast : outcome = .newEdge → (g.latest? t).isSome = true := by
    rintro rfl
    cases hrecords with
    | newEdge hprev => rw [hprev]; rfl
  refine ⟨g', outcome, report, hlock, ⟨h.books.step hd hstep, hordered, _, hdraws'⟩, ?_⟩
  rw [← h.books.latest?_eq]
  refine ⟨hrecords, hfirst, (hg.indexed.tables_onLock hlock).1, ?_, hpredicted, ?_⟩
  · rw [hdraws'.edges, List.length_append, hdraws.edges, Graph.length_newEdge? hlast]
  · rw [Graph.epoch_onLock hlock]
    split
    · exact Graph.toNat_nextEpoch hepoch
    · rfl

/-- A release and an exit leave the accounts in order. -/
theorem Accounts.onUnlock (h : Accounts es g) (ht : t ≠ 0) (m : UInt64) :
    ∃ g', g.onUnlock m t = some g' ∧ Accounts (.unlock m t :: es) g' ∧
      g'.orderPart = g.orderPart := by
  obtain ⟨g', outcome?, hstep⟩ := h.books.stacked.exists_handle? h.books.wellFormed (.unlock m t)
  have hunlock := (Graph.handle?_unlock_iff.1 hstep).2
  have hpart := Graph.orderPart_onUnlock hunlock
  obtain ⟨edges, hdraws⟩ := h.draws
  exact ⟨g', hunlock, ⟨h.books.step ht hstep, h.ordered.congr_orderPart hpart, edges,
    hdraws.congr_orderPart hpart⟩, hpart⟩

theorem Accounts.forgetThread (h : Accounts es g) (ht : t ≠ 0) :
    Accounts (.forget t :: es) (g.forgetThread t) := by
  have hpart := Graph.orderPart_forgetThread g t
  obtain ⟨edges, hdraws⟩ := h.draws
  exact ⟨h.books.step ht rfl, h.ordered.congr_orderPart hpart, edges, hdraws.congr_orderPart hpart⟩

/-! ## At most one order -/

namespace Graph

/-- There are no mutexes but `a` and `b`, no order but `a` before `b`, and no prediction, and
only the search for the one edge has run. -/
structure OnlyOrder (g : Graph) (a b : UInt64) : Prop where
  mutexes : g.mutexes ⊆ [a, b]
  order : ∀ x y, g.Precedes x y → x = a ∧ y = b
  edges : g.edges = if g.hasEdge a b then 1 else 0
  epoch : g.epoch.toNat = g.edges
  predicted : g.predicted = 0

theorem hasEdge_empty (a b : UInt64) : hasEdge .empty a b = false := by
  simp [hasEdge, findNode?, Graph.empty, Buckets.find?]

theorem onlyOrder_empty (a b : UInt64) : OnlyOrder .empty a b := by
  refine ⟨by simp [mutexes, Graph.empty], fun x y hxy => ?_, ?_, rfl, rfl⟩
  · exact absurd hxy (by simp [Precedes, hasEdge_empty])
  · rw [hasEdge_empty]
    rfl

namespace OnlyOrder

theorem congr_orderPart (h : g.OnlyOrder a b) (hpart : g'.orderPart = g.orderPart) :
    g'.OnlyOrder a b := by
  have hedges : g'.edges = g.edges := (congrArg (·.edges) hpart :)
  have hedge : g'.hasEdge a b = g.hasEdge a b :=
    Bool.eq_iff_iff.2 (precedes_of_orderPart hpart a b)
  refine ⟨?_, fun x y hxy => h.order x y ((precedes_of_orderPart hpart x y).1 hxy), ?_, ?_, ?_⟩
  · rw [mutexes_eq_of_orderPart hpart]
    exact h.mutexes
  · rw [hedges, hedge, h.edges]
  · rw [epoch_eq_of_orderPart hpart, hedges, h.epoch]
  · rw [predicted_eq_of_orderPart hpart, h.predicted]

theorem edges_le (h : g.OnlyOrder a b) : g.edges ≤ 1 := by
  rw [h.edges]
  split <;> omega

theorem epoch_lt (h : g.OnlyOrder a b) : g.epoch.toNat < 2 ^ 32 - 1 := by
  have hle := h.edges_le
  rw [h.epoch]
  omega

theorem mutexes_acquired {last? : Option UInt64} (h : g.OnlyOrder a b)
    (ha : g.Acquired g' last? m outcome) (hm : m ∈ [a, b]) : g'.mutexes ⊆ [a, b] := by
  intro x hx
  rw [ha.mutexes, mem_appendNew] at hx
  rcases hx with hx | rfl
  · exact h.mutexes hx
  · exact hm

/-- A thread that holds nothing acquires one of the two mutexes. -/
theorem alone (h : g.OnlyOrder a b) (ha : g.Acquired g' none m outcome) (hm : m ∈ [a, b]) :
    outcome = .acquired ∧ g'.OnlyOrder a b ∧ g'.hasEdge a b = g.hasEdge a b := by
  have hmutexes := h.mutexes_acquired ha hm
  obtain ⟨hrecords, hfirst, -, hedges, hpredicted, hepoch⟩ := ha
  cases hrecords with
  | reentrant => exact absurd rfl hfirst
  | newEdge hlast => cases hlast
  | predicted hlast => cases hlast
  | acquired _ hsame =>
    have hedge : g'.hasEdge a b = g.hasEdge a b := Bool.eq_iff_iff.2 (hsame a b)
    have hedges' : g'.edges = g.edges := hedges
    refine ⟨rfl, ⟨hmutexes, fun x y hxy => h.order x y ((hsame x y).1 hxy), ?_, ?_, ?_⟩, hedge⟩
    · rw [hedges', hedge, h.edges]
    · rw [hedges', ← h.epoch]
      exact hepoch
    · rw [← h.predicted]
      exact hpredicted

/-- A thread that holds the first mutex acquires the second. -/
theorem nested (h : g.OnlyOrder a b) (ha : g.Acquired g' (some a) b outcome) (hab : a ≠ b) :
    outcome ≠ .predictedDeadlock ∧ g'.OnlyOrder a b ∧ g'.hasEdge a b = true := by
  have hback : ¬ ReflTransGen g.Precedes b a := by
    intro hpath
    rcases hpath.cases_head with rfl | ⟨x, hbx, -⟩
    · exact hab rfl
    · exact hab (h.order b x hbx).1.symm
  have hmutexes := h.mutexes_acquired ha (by simp)
  obtain ⟨hrecords, hfirst, -, hedges, hpredicted, hepoch⟩ := ha
  cases hrecords with
  | reentrant => exact absurd rfl hfirst
  | acquired hknown hsame =>
    have hold : g.hasEdge a b = true := (hknown a rfl).resolve_left hab
    have hedge : g'.hasEdge a b = true := (hsame a b).2 hold
    have hedges' : g'.edges = g.edges := hedges
    refine ⟨by simp, ⟨hmutexes, fun x y hxy => h.order x y ((hsame x y).1 hxy), ?_, ?_, ?_⟩,
      hedge⟩
    · rw [hedges', hedge, h.edges, hold]
    · rw [hedges', ← h.epoch]
      exact hepoch
    · rw [← h.predicted]
      exact hpredicted
  | @newEdge prev hlast _ hnew _ hsame =>
    obtain rfl := Option.some.inj hlast
    have hold : g.hasEdge a b = false := by simpa [Precedes] using hnew
    have hedge : g'.hasEdge a b = true := (hsame a b).2 (.inr ⟨rfl, rfl⟩)
    have hnone : g.edges = 0 := by rw [h.edges, hold]; rfl
    have hedges' : g'.edges = g.edges + 1 := hedges
    refine ⟨by simp, ⟨hmutexes, fun x y hxy => ?_, ?_, ?_, ?_⟩, hedge⟩
    · exact ((hsame x y).1 hxy).elim (h.order x y) id
    · rw [hedges', hedge, hnone]
      rfl
    · rw [hedges', ← h.epoch]
      exact hepoch
    · rw [← h.predicted]
      exact hpredicted
  | @predicted prev hlast _ _ hpath =>
    obtain rfl := Option.some.inj hlast
    exact absurd hpath hback

/-- A thread that holds the second mutex acquires the first. -/
theorem inverted (h : g.OnlyOrder a b) (ha : g.Acquired g' (some b) a outcome) (hab : a ≠ b) :
    (outcome = .predictedDeadlock ↔ g.hasEdge a b = true) ∧
      g'.predicted = (if g.hasEdge a b then 1 else 0) ∧ g'.hasEdge b a = !g.hasEdge a b := by
  have hno : ¬ g.Precedes b a := fun hba => hab (h.order b a hba).1.symm
  obtain ⟨hrecords, hfirst, -, -, hpredicted, -⟩ := ha
  rw [h.predicted] at hpredicted
  cases hrecords with
  | reentrant => exact absurd rfl hfirst
  | acquired hknown => exact absurd (hknown b rfl) (by simp [hab.symm, hno])
  | @newEdge prev hlast _ _ hback hsame =>
    obtain rfl := Option.some.inj hlast
    have hold : g.hasEdge a b = false := by
      rw [← Bool.not_eq_true]
      exact fun hedge => hback (.single hedge)
    have hnew : g'.hasEdge b a = true := (hsame b a).2 (.inr ⟨rfl, rfl⟩)
    simp [hold, hnew, hpredicted]
  | @predicted prev hlast _ _ hpath hsame =>
    obtain rfl := Option.some.inj hlast
    have hold : g.hasEdge a b = true := by
      rcases hpath.cases_head with heq | ⟨x, hax, -⟩
      · exact absurd heq hab
      · obtain ⟨-, rfl⟩ := h.order a x hax
        exact hax
    have hnew : g'.hasEdge b a = false := by
      rw [← Bool.not_eq_true]
      exact fun hedge => hno ((hsame b a).1 hedge)
    simp [hold, hnew, hpredicted]

end OnlyOrder

/-! ## Sizes -/

theorem Indexed.nodes_le (hg : g.Indexed) (h : g.mutexes ⊆ [a, b]) : g.nodes.size ≤ 2 := by
  rw [← length_mutexes]
  exact (List.subperm_of_subset hg.mutexes.nodup h).length_le

/-- Threads are known by their numbers, of which there are fewer than words. -/
theorem Indexed.threads_lt (hg : g.Indexed) : g.threads.size < 2 ^ 64 := by
  have hinj : Function.Injective fun t : Tid => t.toBitVec.toNat := fun t t' heq =>
    Int32.toBitVec_inj.1 (BitVec.eq_of_toNat_eq heq)
  have hsub : g.tids.map (fun t => t.toBitVec.toNat) ⊆ List.range (2 ^ 32) := by
    intro n hn
    obtain ⟨t, -, rfl⟩ := List.mem_map.1 hn
    exact List.mem_range.2 t.toBitVec.isLt
  have hle := (List.subperm_of_subset (hg.tids.nodup.map hinj) hsub).length_le
  rw [List.length_map, length_tids, List.length_range] at hle
  omega

/-- A report names no lock of the held ones twice, nor of the order. -/
theorem WellFormed.report_sizes (hg : g.WellFormed) (ho : g.Ordered)
    (hepoch : g.epoch.toNat < 2 ^ 32 - 1)
    (h : g.onLock m t stack capture = some (g', .predictedDeadlock, some r)) :
    r.held.length ≤ g'.nodes.size ∧ r.order.length ≤ g'.nodes.size := by
  obtain ⟨-, prev, g₁, _, htop, -, hsearch, hpath, heq, hr⟩ := hg.predicted_onLock ho hepoch h
  obtain rfl := Option.some.inj heq
  have hsize : (g.claimed m t stack).nodes.size = g'.nodes.size := by
    rw [← length_mutexes, ← length_mutexes, hg.indexed.mutexes_claimed,
      (hg.indexed.tables_onLock h).1]
  have hsearched : g₁.nodes.size = g'.nodes.size :=
    (size_eq_of_heldPart (heldPart_findCycle_link hsearch)).trans hsize
  have hgrows : g.nodes.size ≤ g'.nodes.size := hsize ▸ (grows_claimed g m t stack).size
  obtain ⟨held, hheld, rfl⟩ := Option.map_eq_some_iff.1 hr
  constructor
  · have hle : held.length ≤ g₁.nodes.size := by
      rw [held?] at hheld
      split at hheld
      next hle => exact Option.some.inj hheld ▸ hle
      next => cases hheld
    simpa [hsearched] using hle
  · have hlt := hpath.lt (hg.inRange.topOf htop)
    have hsub : g₁.trail ⊆ List.range g.nodes.size := fun k hk => List.mem_range.2 (hlt k hk)
    have hle := (List.subperm_of_subset hpath.nodup hsub).length_le
    have hlength := congrArg List.length (g₁.map_mutex_orderSites prev capture g₁.trail)
    rw [List.length_map, List.length_map] at hlength
    rw [List.length_range] at hle
    exact hlength ▸ Nat.le_trans hle hgrows

end Graph

theorem CallStack.length_lines_le (s : CallStack) (symbols : Symbols) :
    (s.lines symbols).length ≤ 16 := by
  rw [lines, List.length_map, List.length_zipIdx]
  exact s.length_le

theorem Report.length_flatMap_siteLines_le (symbols : Symbols) (sites : List Site) :
    (sites.flatMap (siteLines symbols)).length ≤ 17 * sites.length := by
  induction sites with
  | nil => simp
  | cons s sites ih =>
    have hle := s.stack.length_lines_le symbols
    rw [List.flatMap_cons, List.length_append, siteLines, List.length_cons, List.length_cons]
    omega

/-- A report is as long as it names locks, up to call stacks. -/
theorem Report.length_lines_le (r : Report) (pid : Tid) (here : CallStack) (symbols : Symbols) :
    (r.lines pid here symbols).length ≤ 23 + 17 * (r.held.length + r.order.length) := by
  have hhere := here.length_lines_le symbols
  have hheld := length_flatMap_siteLines_le symbols r.held
  have horder := length_flatMap_siteLines_le symbols r.order
  simp only [lines, siteLines, List.length_append, List.length_cons, List.length_nil]
  omega

end Threading.LockOrder
