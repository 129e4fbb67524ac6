import Threading.Proofs.LockOrder.Tracking

/-!
# Nested acquisitions and the recorded order

An acquisition is compared only with the lock its thread acquired last. In a
disciplined run that is enough: the held locks of a thread follow each other in the
recorded order, so a path leads from each of them to the last one. A prediction
breaks the chain, because its edge is not kept; the locks below it are then cut off
from what the thread acquires later.
-/
namespace Threading.LockOrder

open Relation

variable {calls newer older : List Call} {c : Call} {g g' : Graph} {e : Event}
variable {outcome? : Option Outcome} {m x y : UInt64} {t : Tid} {stack : Option CallStack}
variable {capture : Bool} {outcome : Outcome}

/-- The call is an acquisition by `t` that was predicted to deadlock. -/
def Call.Predicts (c : Call) (t : Tid) : Prop :=
  ∃ m stack capture, c.event = .lock m t stack capture ∧ c.outcome = some .predictedDeadlock

/-- Some thread acquired `x` while it held `y`. -/
def Nested (events : List Event) (y x : UInt64) : Prop :=
  ∃ l e, Met events l e ∧ l.Gains x e ∧ y ∈ l.mutexes

/-- Since `t` last acquired `y`, none of its acquisitions was predicted to deadlock. -/
def QuietSince (t : Tid) (y : UInt64) : List Call → Prop
  | [] => True
  | c :: calls =>
    c.event.tid = t ∧ (c.ledger calls).Gains y c.event ∨ ¬ c.Predicts t ∧ QuietSince t y calls

theorem QuietSince.tail (h : QuietSince t y (c :: calls))
    (hnot : ¬ (c.event.tid = t ∧ (c.ledger calls).Gains y c.event)) : QuietSince t y calls :=
  (h.resolve_left hnot).2

namespace Graph

theorem Records.mono {α : Type} {r r' : α → α → Prop} {prev? : Option α} {i a b : α}
    (h : Records r r' prev? i outcome) (hab : r a b) : r' a b := by
  cases h with
  | reentrant hsame => exact (hsame a b).2 hab
  | acquired _ hsame => exact (hsame a b).2 hab
  | newEdge _ _ _ _ hsame => exact (hsame a b).2 (.inl hab)
  | predicted _ _ _ _ hsame => exact (hsame a b).2 hab

/-- Unless a deadlock is predicted, a new lock follows the last one. -/
theorem Records.follows {α : Type} {r r' : α → α → Prop} {prev? : Option α} {i prev : α}
    (h : Records r r' prev? i outcome) (hprev : prev? = some prev) (hne : prev ≠ i)
    (hfirst : outcome ≠ .reentrant) (hno : outcome ≠ .predictedDeadlock) : r' prev i := by
  cases h with
  | reentrant => exact absurd rfl hfirst
  | acquired hknown hsame => exact (hsame prev i).2 ((hknown prev hprev).resolve_left hne)
  | newEdge hlast _ _ _ hsame =>
    exact (hsame prev i).2 (.inr ⟨Option.some.inj (hprev.symm.trans hlast), rfl⟩)
  | predicted => exact absurd rfl hno

theorem precedes_mono (hg : g.WellFormed) (ho : g.Ordered) (hepoch : g.epoch.toNat < 2 ^ 32 - 1)
    (h : g.handle? e = some (g', outcome?)) (hxy : g.Precedes x y) : g'.Precedes x y := by
  obtain ⟨-, ⟨_, _, _, _, _, -, -, hr, -⟩ | ⟨-, hpart⟩⟩ := hg.handle?_records ho hepoch h
  · exact hr.mono hxy
  · exact (precedes_of_orderPart hpart x y).2 hxy

theorem WellFormed.lock_records (hg : g.WellFormed) (ho : g.Ordered)
    (hepoch : g.epoch.toNat < 2 ^ 32 - 1)
    (h : g.handle? (.lock m t stack capture) = some (g', some outcome)) :
    Records g.Precedes g'.Precedes (g.latest? t) m outcome := by
  obtain ⟨outcome', report, hout, hlock⟩ := handle?_lock_iff.1 h
  obtain rfl := Option.some.inj hout
  exact (hg.onLock_records ho hepoch hlock).2

/-- Without cycles, a deadlock is predicted exactly if a path leads from the new lock
to the last one. -/
theorem Records.predicted_iff {α : Type} {r r' : α → α → Prop} {prev? : Option α} {i : α}
    (h : Records r r' prev? i outcome) (hacyc : ∀ a, ¬ TransGen r a a)
    (hfirst : outcome ≠ .reentrant) :
    outcome = .predictedDeadlock ↔ ∃ prev, prev? = some prev ∧ TransGen r i prev := by
  cases h with
  | reentrant => exact absurd rfl hfirst
  | acquired hknown hsame =>
    simp only [reduceCtorEq, false_iff]
    rintro ⟨prev, hprev, hpath⟩
    rcases hknown prev hprev with rfl | hlast
    · exact hacyc _ hpath
    · exact hacyc _ (hpath.tail hlast)
  | newEdge hlast _ _ hback =>
    simp only [reduceCtorEq, false_iff]
    rintro ⟨prev, hprev, hpath⟩
    obtain rfl := Option.some.inj (hlast.symm.trans hprev)
    exact hback hpath.to_reflTransGen
  | predicted hlast hne _ hback =>
    simp only [true_iff]
    exact ⟨_, hlast, (reflTransGen_iff_eq_or_transGen.1 hback).resolve_left hne⟩

end Graph

/-- The held locks of each thread follow each other in the recorded order, except
across a prediction. -/
structure Covered (calls : List Call) (g : Graph) : Prop where
  books : Books (events calls) g
  ordered : g.Ordered
  pairwise : ∀ t, (ledger UInt32 t (events calls)).mutexes.Pairwise fun x y =>
    QuietSince t y calls → TransGen g.Precedes y x

theorem covered_nil : Covered [] .empty :=
  ⟨books_nil, Graph.ordered_empty, fun _ => List.Pairwise.nil⟩

/-- From a held lock a path leads to the one acquired last. -/
theorem Covered.reaches_latest (hc : Covered calls g)
    (hy : y ∈ (ledger UInt32 t (events calls)).mutexes) (hq : QuietSince t y calls) :
    ∃ prev, (ledger UInt32 t (events calls)).mutexes.head? = some prev ∧
      ReflTransGen g.Precedes y prev := by
  have hpair := hc.pairwise t
  generalize (ledger UInt32 t (events calls)).mutexes = held at hy hpair ⊢
  cases held with
  | nil => exact absurd hy List.not_mem_nil
  | cons prev held =>
    refine ⟨prev, rfl, ?_⟩
    rcases List.mem_cons.1 hy with rfl | hy
    · exact .refl
    · exact ((List.pairwise_cons.1 hpair).1 y hy hq).to_reflTransGen

/-- A new lock whose acquisition is not predicted to deadlock follows the last one. -/
theorem Covered.follows {prev : UInt64} (hc : Covered calls g) (hepoch : g.epoch.toNat < 2 ^ 32 - 1)
    (hd : Permits (events calls) (.lock x t stack capture))
    (h : g.handle? (.lock x t stack capture) = some (g', some outcome))
    (hx : x ∉ (ledger UInt32 t (events calls)).mutexes) (hno : outcome ≠ .predictedDeadlock)
    (hprev : (ledger UInt32 t (events calls)).mutexes.head? = some prev) : g'.Precedes prev x := by
  have hne : prev ≠ x := by
    rintro rfl
    exact hx (List.mem_of_head? hprev)
  have hfirst : outcome ≠ .reentrant := fun heq => hx ((hc.books.reentrant_iff hd h).1 heq)
  rw [← hc.books.latest?_eq] at hprev
  exact (hc.books.wellFormed.lock_records hc.ordered hepoch h).follows hprev hne hfirst hno

theorem Covered.precedes_mono (hc : Covered calls g) (hepoch : g.epoch.toNat < 2 ^ 32 - 1)
    (h : g.handle? e = some (g', outcome?)) (a b : UInt64) : g.Precedes a b → g'.Precedes a b :=
  Graph.precedes_mono hc.books.wellFormed hc.ordered hepoch h

/-- It comes after every lock held since the last prediction. -/
theorem Covered.precedes_new (hc : Covered calls g) (hepoch : g.epoch.toNat < 2 ^ 32 - 1)
    (hd : Permits (events calls) (.lock x t stack capture))
    (h : g.handle? (.lock x t stack capture) = some (g', some outcome))
    (hx : x ∉ (ledger UInt32 t (events calls)).mutexes) (hno : outcome ≠ .predictedDeadlock)
    (hy : y ∈ (ledger UInt32 t (events calls)).mutexes) (hq : QuietSince t y calls) :
    TransGen g'.Precedes y x := by
  obtain ⟨prev, hprev, hyp⟩ := hc.reaches_latest hy hq
  have hmono : ReflTransGen g'.Precedes y prev :=
    ReflTransGen.mono (hc.precedes_mono hepoch h) _ _ hyp
  exact .tail' hmono (hc.follows hepoch hd h hx hno hprev)

/-- A disciplined call keeps the held locks of every thread in the recorded order. -/
theorem Covered.step (hc : Covered calls g) (hepoch : g.epoch.toNat < 2 ^ 32 - 1)
    (hd : Permits (events calls) e) (h : g.handle? e = some (g', outcome?)) :
    Covered (⟨g, e, outcome?⟩ :: calls) g' := by
  have hmono (x y : UInt64) : TransGen g.Precedes x y → TransGen g'.Precedes x y :=
    TransGen.mono (hc.precedes_mono hepoch h) x y
  refine ⟨hc.books.step hd h,
    (hc.books.wellFormed.handle?_records hc.ordered hepoch h).1, fun t => ?_⟩
  have hpair := hc.pairwise t
  rw [events_cons]
  by_cases ht : t = e.tid
  case neg =>
    rw [ledger_cons_of_ne ht]
    refine hpair.imp fun {x y} hxy hq => ?_
    exact hmono y x (hxy (QuietSince.tail hq fun hgains => ht hgains.1.symm))
  subst ht
  rw [ledger_cons_self]
  obtain ⟨m, hgains, hpush⟩ | ⟨hnot, hsub⟩ :=
    Ledger.mutexes_settle (ledger UInt32 e.tid (events calls)) e
  · obtain ⟨⟨t, stack, capture, rfl⟩, hm⟩ := Ledger.gains_iff.1 hgains
    rw [hpush]
    obtain ⟨outcome, -, rfl, -⟩ := Graph.handle?_lock_iff.1 h
    -- `m` is new, so a lock below it is quiet only if nothing was predicted just now
    have hquiet (y : UInt64) (hy : y ∈ (ledger UInt32 t (events calls)).mutexes)
        (hq : QuietSince t y (⟨g, .lock m t stack capture, some outcome⟩ :: calls)) :
        outcome ≠ .predictedDeadlock ∧ QuietSince t y calls := by
      obtain ⟨-, -, hnew⟩ | ⟨hno, hq⟩ := hq
      · exact absurd hy hnew
      · exact ⟨fun heq => hno ⟨m, stack, capture, rfl, congrArg some heq⟩, hq⟩
    refine List.pairwise_cons.2 ⟨fun y hy hq => ?_, ?_⟩
    · obtain ⟨hno, hq⟩ := hquiet y hy hq
      exact hc.precedes_new hepoch hd h hm hno hy hq
    · refine hpair.imp_of_mem fun {x y} _ hy hxy hq => ?_
      exact hmono y x (hxy (hquiet y hy hq).2)
  · refine (hpair.sublist hsub).imp fun {x y} hxy hq => ?_
    exact hmono y x (hxy (QuietSince.tail hq fun hgains => hnot y hgains.2))

/-! ## Disciplined runs -/

theorem searches_le_cons (c : Call) (calls : List Call) : searches calls ≤ searches (c :: calls) :=
  List.Sublist.countP_le (List.sublist_cons_self c calls)

/-- In a disciplined run every ledger follows the recorded order. -/
theorem Run.covered (h : Run calls g) (hd : Disciplined (events calls))
    (hs : searches calls < 2 ^ 32 - 1) : Covered calls g := by
  induction h with
  | nil => exact covered_nil
  | @cons calls g g' e outcome? hrun hstep ih =>
    have hs' := Nat.lt_of_le_of_lt (searches_le_cons _ _) hs
    have hepoch : g.epoch.toNat < 2 ^ 32 - 1 := by
      rw [(hrun.ordered hs').2]
      exact hs'
    exact (ih hd.2 hs').step hepoch hd.1 hstep

/-- A run up to one of its calls, the call, and the nodes that stay from there on. -/
theorem Run.at_call (h : Run (newer ++ c :: older) g) :
    Run older c.before ∧
      ∃ g₁, c.before.handle? c.event = some (g₁, c.outcome) ∧ Run (c :: older) g₁ ∧ g₁.Grows g := by
  generalize hcalls : newer ++ c :: older = calls at h
  induction h generalizing newer with
  | nil => exact absurd hcalls (by simp)
  | @cons calls g g' e outcome? hrun hstep ih =>
    cases newer with
    | nil =>
      obtain ⟨rfl, rfl⟩ := List.cons.inj hcalls
      exact ⟨hrun, g', hstep, hrun.cons hstep, Graph.grows_of_orderPart rfl⟩
    | cons d newer =>
      obtain ⟨-, heq⟩ := List.cons.inj hcalls
      obtain ⟨hbefore, g₁, hc, hrun₁, hgrow⟩ := ih heq
      exact ⟨hbefore, g₁, hc, hrun₁, hgrow.trans (Graph.grows_handle? hstep)⟩

end Threading.LockOrder
