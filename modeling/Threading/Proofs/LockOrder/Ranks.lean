import Threading.Proofs.LockOrder.Prediction

/-!
# Locks in ascending order

Threads that acquire their locks in the order of a rank are never predicted to deadlock:
every recorded order ascends, so no path leads back. What a call then records depends only
on the ledger of its thread, hence on the calls of that thread alone, and two runs in which
every thread makes the same calls record the same order.
-/
namespace Threading.LockOrder

open Relation

variable {calls calls' : List Call} {es es' : List Event} {g g' : Graph} {e : Event}
variable {outcome? : Option Outcome} {a b : UInt64} {l : Ledger UInt32}
variable {α : Type*} [Preorder α] {rank : UInt64 → α}

/-! ## Ascending calls -/

/-- A first acquisition finds its thread without a lock, or with a last lock of lower rank. -/
def Ledger.Ascends (l : Ledger UInt32) (rank : UInt64 → α) : Event → Prop
  | .lock m _ _ _ => m ∉ l.mutexes → ∀ last ∈ l.mutexes.head?, rank last < rank m
  | .unlock .. | .forget _ => True

instance [DecidableLT α] (l : Ledger UInt32) (rank : UInt64 → α) :
    (e : Event) → Decidable (l.Ascends rank e)
  | .lock m _ _ _ =>
    have : Decidable (∀ last ∈ l.mutexes.head?, rank last < rank m) := Option.decidableForallMem _
    inferInstanceAs (Decidable (m ∉ l.mutexes → _))
  | .unlock .. | .forget _ => inferInstanceAs (Decidable True)

theorem Ledger.Ascends.rank_lt (h : l.Ascends rank e) (hf : l.Follows a b e) : rank a < rank b := by
  obtain ⟨hgains, hlast⟩ := hf
  obtain ⟨⟨t, stack, capture, rfl⟩, hnot⟩ := Ledger.gains_iff.1 hgains
  exact h hnot a hlast

/-- Every thread makes its calls in ascending order. -/
def Ascending (rank : UInt64 → α) (es : List Event) : Prop :=
  ∀ l e, Met es l e → l.Ascends rank e

theorem ascending_cons : Ascending rank (e :: es) ↔
    (ledger UInt32 e.tid es).Ascends rank e ∧ Ascending rank es := by
  constructor
  · intro h
    exact ⟨h _ e (met_cons.2 (.inl ⟨rfl, rfl⟩)), fun l e' hmet => h l e' (met_cons.2 (.inr hmet))⟩
  · rintro ⟨he, hes⟩ l e' hmet
    obtain ⟨rfl, rfl⟩ | hmet := met_cons.1 hmet
    · exact he
    · exact hes l e' hmet

instance decidableAscending [DecidableLT α] (rank : UInt64 → α) :
    (es : List Event) → Decidable (Ascending rank es)
  | [] => isTrue (by rintro l e ⟨newer, older, heq, -⟩; exact absurd heq (by simp))
  | _ :: es =>
    have := decidableAscending rank es
    decidable_of_iff' _ ascending_cons

/-- Whether the calls ascend does not depend on how they alternate. -/
theorem ascending_congr (h : ∀ t, es'.filter (·.tid = t) = es.filter (·.tid = t)) :
    Ascending rank es' ↔ Ascending rank es := by
  simp only [Ascending, met_congr h]

/-- A recorded order ascends. -/
theorem Run.rank_lt_of_precedes (h : Run calls g) (hd : Disciplined (events calls))
    (hr : Ascending rank (events calls)) (hs : searches calls < 2 ^ 32 - 1)
    (hab : g.Precedes a b) : rank a < rank b := by
  obtain ⟨newer, c, older, hcalls, hfollows, -⟩ := h.exists_follows hd hs hab
  exact (hr _ _ (met_events_iff.2 ⟨newer, c, older, hcalls, rfl, rfl⟩)).rank_lt hfollows

/-- While the calls ascend, the next one is not predicted to deadlock. -/
theorem Run.ne_predictedDeadlock (h : Run calls g) (hd : Disciplined (events calls))
    (hr : Ascending rank (events calls)) (hs : searches calls < 2 ^ 32 - 1)
    (he : Permits (events calls) e) (hre : (ledger UInt32 e.tid (events calls)).Ascends rank e)
    (hstep : g.handle? e = some (g', outcome?)) : outcome? ≠ some .predictedDeadlock := by
  rintro rfl
  have hc := h.covered hd hs
  have hg := hc.books.wellFormed
  have hepoch : g.epoch.toNat < 2 ^ 32 - 1 := by
    rw [(h.ordered hs).2]
    exact hs
  cases e with
  | lock m t stack capture =>
    have hnot : m ∉ (ledger UInt32 t (events calls)).mutexes := fun hheld =>
      absurd ((hc.books.reentrant_iff he hstep).2 hheld) (by simp)
    have hrecords := hg.lock_records hc.ordered hepoch hstep
    obtain ⟨last, hlast, hpath⟩ :=
      (hrecords.predicted_iff (hc.ordered.acyclic_precedes hg.indexed) (by simp)).1 rfl
    have hup : rank m < rank last := TransGen.trans_induction_on (motive := fun {x y} _ =>
      rank x < rank y) hpath (fun hab => h.rank_lt_of_precedes hd hr hs hab)
      fun _ _ hxy hyz => hxy.trans hyz
    rw [hc.books.latest?_eq] at hlast
    exact lt_asymm hup (hre hnot last hlast)
  | unlock m t => exact absurd (Graph.handle?_unlock_iff.1 hstep).1 (by simp)
  | forget t => exact absurd (Graph.handle?_forget_iff.1 hstep).1 (by simp)

theorem Run.forall_ne_predictedDeadlock (h : Run calls g) (hd : Disciplined (events calls))
    (hr : Ascending rank (events calls)) (hs : searches calls < 2 ^ 32 - 1) :
    ∀ c ∈ calls, c.outcome ≠ some .predictedDeadlock := by
  induction h with
  | nil => simp
  | @cons calls g g' e outcome? hrun hstep ih =>
    have hs' := Nat.lt_of_le_of_lt (searches_le_cons _ _) hs
    obtain ⟨hre, hr'⟩ := ascending_cons.1 hr
    exact List.forall_mem_cons.2
      ⟨hrun.ne_predictedDeadlock hd.2 hr' hs' hd.1 hre hstep, ih hd.2 hr' hs'⟩

/-! ## The same calls in another order -/

/-- Without a prediction, the recorded order is what each thread's own calls give. -/
theorem Run.precedes_iff_met (h : Run calls g) (hd : Disciplined (events calls))
    (hs : searches calls < 2 ^ 32 - 1) (hno : ∀ c ∈ calls, c.outcome ≠ some .predictedDeadlock) :
    g.Precedes a b ↔ ∃ l e, Met (events calls) l e ∧ l.Follows a b e := by
  rw [h.precedes_iff_followed hd hs]
  constructor
  · rintro ⟨newer, c, older, hcalls, hfollows, -⟩
    exact ⟨_, _, met_events_iff.2 ⟨newer, c, older, hcalls, rfl, rfl⟩, hfollows⟩
  · rintro ⟨l, e, hmet, hfollows⟩
    obtain ⟨newer, c, older, rfl, rfl, rfl⟩ := met_events_iff.1 hmet
    exact ⟨newer, c, older, rfl, hfollows, hno c (by simp)⟩

/-- Threads that acquire in ascending order are never predicted to deadlock, and the order
they record is the same however their calls alternate. -/
theorem Run.ranked_spec (h : Run calls g) (hd : Disciplined (events calls))
    (hr : Ascending rank (events calls)) (hs : searches calls < 2 ^ 32 - 1) :
    (∀ c ∈ calls, c.outcome ≠ some .predictedDeadlock) ∧
      (∀ e, Permits (events calls) e → (ledger UInt32 e.tid (events calls)).Ascends rank e →
        ∃ g' outcome?, g.handle? e = some (g', outcome?) ∧
          outcome? ≠ some .predictedDeadlock) ∧
      ∀ calls' g', Run calls' g' → Disciplined (events calls') →
        searches calls' < 2 ^ 32 - 1 →
        (∀ t, (events calls').filter (·.tid = t) = (events calls).filter (·.tid = t)) →
        Ascending rank (events calls') ∧
          (∀ c ∈ calls', c.outcome ≠ some .predictedDeadlock) ∧
          ∀ a b, g'.hasEdge a b = g.hasEdge a b := by
  have hno := h.forall_ne_predictedDeadlock hd hr hs
  refine ⟨hno, fun e he hre => ?_, fun calls' g' h' hd' hs' hsame => ?_⟩
  · have hb := h.books hd
    obtain ⟨g', outcome?, hstep⟩ := hb.stacked.exists_handle? hb.wellFormed e
    exact ⟨g', outcome?, hstep, h.ne_predictedDeadlock hd hr hs he hre hstep⟩
  · have hr' := (ascending_congr hsame).2 hr
    have hno' := h'.forall_ne_predictedDeadlock hd' hr' hs'
    refine ⟨hr', hno', fun a b => Bool.eq_iff_iff.2 ?_⟩
    calc g'.Precedes a b ↔ ∃ l e, Met (events calls') l e ∧ l.Follows a b e :=
          h'.precedes_iff_met hd' hs' hno'
      _ ↔ ∃ l e, Met (events calls) l e ∧ l.Follows a b e := by simp only [met_congr hsame]
      _ ↔ g.Precedes a b := (h.precedes_iff_met hd hs hno).symm

/-- Three threads, one after the other: a re-entry and an exit with a lock, a release out of
order, a release of a lock that is not held. -/
def inTurn : List Event :=
  [.lock 1 1 none false, .lock 3 1 none false, .lock 1 1 none false, .unlock 1 1, .unlock 1 1,
    .forget 1, .lock 2 2 none false, .lock 3 2 none false, .unlock 2 2, .unlock 3 2, .unlock 1 3,
    .forget 3]

/-- The same calls of the same threads, alternating. -/
def alternating : List Event :=
  [.lock 2 2 none false, .lock 1 1 none false, .lock 3 2 none false, .unlock 1 3, .unlock 2 2,
    .unlock 3 2, .lock 3 1 none false, .lock 1 1 none false, .forget 3, .unlock 1 1, .unlock 1 1,
    .forget 1]

theorem filter_alternating (t : Tid) : alternating.reverse.filter (·.tid = t) =
    inTurn.reverse.filter (·.tid = t) := by
  by_cases h1 : t = 1
  · simp [alternating, inTurn, Event.tid, h1]
  by_cases h2 : t = 2
  · simp [alternating, inTurn, Event.tid, h2]
  by_cases h3 : t = 3
  · simp [alternating, inTurn, Event.tid, h3]
  simp [alternating, inTurn, Event.tid, Ne.symm h1, Ne.symm h2, Ne.symm h3]

theorem ranked_spec_alternating :
    ∃ calls g calls' g', Graph.play .empty [] inTurn = some (calls, g) ∧
      Graph.play .empty [] alternating = some (calls', g') ∧
      Disciplined (events calls) ∧ Ascending UInt64.toNat (events calls) ∧
      searches calls < 2 ^ 32 - 1 ∧
      (∀ c ∈ calls, c.outcome ≠ some .predictedDeadlock) ∧
      (∀ e, Permits (events calls) e →
        (ledger UInt32 e.tid (events calls)).Ascends UInt64.toNat e →
        ∃ g' outcome?, g.handle? e = some (g', outcome?) ∧
          outcome? ≠ some .predictedDeadlock) ∧
      Ascending UInt64.toNat (events calls') ∧
      (∀ c ∈ calls', c.outcome ≠ some .predictedDeadlock) ∧
      ∀ a b, g'.hasEdge a b = g.hasEdge a b := by
  have hrun : ((Graph.play .empty [] inTurn).bind fun p =>
      (Graph.play .empty [] alternating).map fun q => (searches p.1, searches q.1)) =
      some (2, 2) := by
    decide +kernel
  obtain ⟨⟨calls, g⟩, hplay, hrun⟩ := Option.bind_eq_some_iff.1 hrun
  obtain ⟨⟨calls', g'⟩, hplay', hfacts⟩ := Option.map_eq_some_iff.1 hrun
  obtain ⟨hs, hs'⟩ : searches calls = 2 ∧ searches calls' = 2 := Prod.mk.inj hfacts
  have hevents : events calls = inTurn.reverse := Graph.events_of_play hplay
  have hevents' : events calls' = alternating.reverse := Graph.events_of_play hplay'
  have hd : Disciplined (events calls) := by
    rw [hevents]
    decide +kernel
  have hd' : Disciplined (events calls') := by
    rw [hevents']
    decide +kernel
  have hr : Ascending UInt64.toNat (events calls) := by
    rw [hevents]
    decide +kernel
  have hlt : searches calls < 2 ^ 32 - 1 := by omega
  have hsame (t : Tid) :
      (events calls').filter (·.tid = t) = (events calls).filter (·.tid = t) := by
    rw [hevents, hevents']
    exact filter_alternating t
  obtain ⟨hno, hnext, hother⟩ := (Run.nil.of_play hplay).ranked_spec hd hr hlt
  exact ⟨calls, g, calls', g', hplay, hplay', hd, hr, hlt, hno, hnext,
    hother calls' g' (Run.nil.of_play hplay') hd' (by omega) hsame⟩

end Threading.LockOrder
