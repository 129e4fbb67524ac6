import Threading.Proofs.LockOrder.Nesting

/-!
# When a deadlock is predicted

Up to the first prediction of a disciplined run the recorded order has the same
paths as the nesting of all held locks, and the first prediction is made exactly
when the nesting gets a cycle. Later predictions look only at the acquisitions that
were not predicted, so an inversion is found again as long as no prediction has come
between its two locks. Which locks a thread holds is told by its ledger, from the
calls alone.
-/
namespace Threading.LockOrder

open Relation

variable {calls newer older : List Call} {c : Call} {g g' : Graph} {a b m x y : UInt64} {t : Tid}
variable {stack : Option CallStack} {capture : Bool} {outcome : Outcome}

/-- Some thread acquired `b` with `a` as its last lock, and no deadlock was predicted. -/
def Followed (calls : List Call) (a b : UInt64) : Prop :=
  ∃ newer c older, calls = newer ++ c :: older ∧ (c.ledger older).Follows a b c.event ∧
    c.outcome ≠ some .predictedDeadlock

/-! ## Parts of a run -/

theorem searches_le_append (newer : List Call) (c : Call) (older : List Call) :
    searches older ≤ searches (newer ++ c :: older) :=
  List.Sublist.countP_le ((List.sublist_cons_self c older).trans (List.sublist_append_right _ _))

/-- What holds before a call of a disciplined run, and how the call went. -/
theorem Run.covered_at (h : Run (newer ++ c :: older) g)
    (hd : Disciplined (events (newer ++ c :: older)))
    (hs : searches (newer ++ c :: older) < 2 ^ 32 - 1) :
    Covered older c.before ∧ c.before.epoch.toNat < 2 ^ 32 - 1 ∧
      ∃ g₁, c.before.handle? c.event = some (g₁, c.outcome) ∧
        ∀ a b, g₁.Precedes a b → g.Precedes a b := by
  obtain ⟨hrun, g₁, hstep, hrun₁, -⟩ := h.at_call
  have hs' := Nat.lt_of_le_of_lt (searches_le_append newer c older) hs
  have hs₁ : searches (c :: older) < 2 ^ 32 - 1 :=
    Nat.lt_of_le_of_lt (List.Sublist.countP_le (List.sublist_append_right newer _)) hs
  have hd' : Disciplined (events older) := by
    rw [events_append] at hd
    exact hd.of_append.2
  refine ⟨hrun.covered hd' hs', ?_, g₁, hstep, fun a b hab => ?_⟩
  · rw [(hrun.ordered hs').2]
    exact hs'
  · obtain ⟨d, hmem, hadds⟩ := (hrun₁.precedes_iff hs₁).1 hab
    exact (h.precedes_iff hs).2 ⟨d, List.mem_append_right newer hmem, hadds⟩

/-- The call that recorded an order is an acquisition after the last lock of its ledger. -/
theorem Run.exists_follows (h : Run calls g) (hd : Disciplined (events calls))
    (hs : searches calls < 2 ^ 32 - 1) (hab : g.Precedes a b) :
    ∃ newer c older, calls = newer ++ c :: older ∧ (c.ledger older).Follows a b c.event ∧
      c.outcome = some .newEdge := by
  obtain ⟨c, hmem, t, stack, capture, hevent, hout, hlatest⟩ := (h.precedes_iff hs).1 hab
  obtain ⟨newer, older, rfl⟩ := List.append_of_mem hmem
  obtain ⟨hc, -, g₁, hstep, -⟩ := h.covered_at hd hs
  have hpermits := hd.permits_event
  rw [hevent] at hstep hpermits
  rw [hout] at hstep
  refine ⟨newer, c, older, rfl, ?_, hout⟩
  rw [Call.ledger, hevent]
  refine ⟨⟨rfl, fun hheld => ?_⟩, hc.books.latest?_eq.symm.trans hlatest⟩
  exact absurd ((hc.books.reentrant_iff hpermits hstep).2 hheld) (by simp)

/-! ## Nested acquisitions -/

/-- A recorded order was once a nesting. -/
theorem Run.nested_of_precedes (h : Run calls g) (hd : Disciplined (events calls))
    (hs : searches calls < 2 ^ 32 - 1) (hyx : g.Precedes y x) : Nested (events calls) y x := by
  obtain ⟨newer, c, older, hcalls, ⟨hgains, hlast⟩, -⟩ := h.exists_follows hd hs hyx
  exact ⟨_, _, met_events_iff.2 ⟨newer, c, older, hcalls, rfl, rfl⟩, hgains,
    List.mem_of_head? hlast⟩

/-- A nesting is in the recorded order, unless a prediction has come between. -/
theorem Run.transGen_of_nested (h : Run (newer ++ c :: older) g)
    (hd : Disciplined (events (newer ++ c :: older)))
    (hs : searches (newer ++ c :: older) < 2 ^ 32 - 1) (hx : (c.ledger older).Gains x c.event)
    (hno : c.outcome ≠ some .predictedDeadlock) (hy : y ∈ (c.ledger older).mutexes)
    (hq : QuietSince c.event.tid y older) : TransGen g.Precedes y x := by
  obtain ⟨hc, hepoch, g₁, hstep, hmono⟩ := h.covered_at hd hs
  have hpermits := hd.permits_event
  obtain ⟨⟨t, stack, capture, hevent⟩, hnot⟩ := Ledger.gains_iff.1 hx
  rw [Call.ledger] at hnot hy
  rw [hevent] at hstep hpermits hnot hy hq
  obtain ⟨outcome, -, hout, -⟩ := Graph.handle?_lock_iff.1 hstep
  rw [hout] at hstep hno
  have hnew := hc.precedes_new hepoch hpermits hstep hnot (fun heq => hno (congrArg some heq)) hy hq
  exact TransGen.mono hmono _ _ hnew

theorem quietSince_of_forall (hno : ∀ c ∈ calls, c.outcome ≠ some .predictedDeadlock) :
    QuietSince t y calls := by
  induction calls with
  | nil => trivial
  | cons c calls ih =>
    refine .inr ⟨?_, ih fun d hmem => hno d (List.mem_cons_of_mem c hmem)⟩
    rintro ⟨m, stack, capture, -, hout⟩
    exact hno c List.mem_cons_self hout

theorem Run.transGen_precedes_of_nested (h : Run calls g) (hd : Disciplined (events calls))
    (hs : searches calls < 2 ^ 32 - 1) (hno : ∀ c ∈ calls, c.outcome ≠ some .predictedDeadlock)
    (hyx : Nested (events calls) y x) : TransGen g.Precedes y x := by
  obtain ⟨l, e, hmet, hx, hy⟩ := hyx
  obtain ⟨newer, c, older, rfl, rfl, rfl⟩ := met_events_iff.1 hmet
  exact h.transGen_of_nested hd hs hx (hno c (by simp)) hy
    (quietSince_of_forall fun d hd => hno d (by simp [hd]))

/-- Before the first prediction, the recorded order and the nesting have the same paths. -/
theorem Run.transGen_precedes_iff (h : Run calls g) (hd : Disciplined (events calls))
    (hs : searches calls < 2 ^ 32 - 1) (hno : ∀ c ∈ calls, c.outcome ≠ some .predictedDeadlock) :
    TransGen g.Precedes y x ↔ TransGen (Nested (events calls)) y x := by
  constructor
  · exact TransGen.mono (fun _ _ => h.nested_of_precedes hd hs) _ _
  · exact TransGen.closed (fun _ _ => h.transGen_precedes_of_nested hd hs hno) _ _

theorem Nested.cons {es : List Event} (h : Nested es y x) (e : Event) : Nested (e :: es) y x := by
  obtain ⟨l, e', hmet, hnests⟩ := h
  exact ⟨l, e', met_cons.2 (.inr hmet), hnests⟩

/-- The first prediction is made exactly when the nesting gets a cycle. -/
theorem Run.predicted_iff_cycle (h : Run calls g) (hd : Disciplined (events calls))
    (hs : searches calls < 2 ^ 32 - 1) (hno : ∀ c ∈ calls, c.outcome ≠ some .predictedDeadlock)
    (hlock : Permits (events calls) (.lock m t stack capture))
    (hstep : g.handle? (.lock m t stack capture) = some (g', some outcome)) :
    outcome = .predictedDeadlock ↔
      ∃ a, TransGen (Nested (.lock m t stack capture :: events calls)) a a := by
  have hc := h.covered hd hs
  have hepoch : g.epoch.toNat < 2 ^ 32 - 1 := by
    rw [(h.ordered hs).2]
    exact hs
  constructor
  · rintro rfl
    have hr := hc.books.wellFormed.lock_records hc.ordered hepoch hstep
    obtain ⟨prev, hprev, hpath⟩ :=
      (hr.predicted_iff (hc.ordered.acyclic_precedes hc.books.wellFormed.indexed) (by simp)).1 rfl
    have hback := (h.transGen_precedes_iff hd hs hno).1 hpath
    refine ⟨m, (TransGen.mono (fun a b hab => hab.cons _) _ _ hback).tail ?_⟩
    refine ⟨_, _, met_cons.2 (.inl ⟨rfl, rfl⟩), ⟨rfl, fun hheld => ?_⟩, ?_⟩
    · exact absurd ((hc.books.reentrant_iff hlock hstep).2 hheld) (by simp)
    · exact List.mem_of_head? (hc.books.latest?_eq.symm.trans hprev)
  · rintro ⟨a, hcycle⟩
    by_contra hne
    have hc' := hc.step hepoch hlock hstep
    refine hc'.ordered.acyclic_precedes hc'.books.wellFormed.indexed a
      (TransGen.closed (fun y x hyx => ?_) _ _ hcycle)
    obtain ⟨l, e, hmet, hx, hy⟩ := hyx
    obtain ⟨rfl, rfl⟩ | hmet := met_cons.1 hmet
    · obtain ⟨rfl, hnot⟩ := hx
      exact hc.precedes_new hepoch hlock hstep hnot hne hy (quietSince_of_forall hno)
    · exact TransGen.mono (hc.precedes_mono hepoch hstep) _ _
        (h.transGen_precedes_of_nested hd hs hno ⟨l, e, hmet, hx, hy⟩)

/-- While no deadlock has been predicted, the nesting of locks has no cycle and the
recorded order has its paths; the first prediction is made on the first acquisition
that closes a cycle. -/
theorem Run.nesting_spec (h : Run calls g) (hd : Disciplined (events calls))
    (hs : searches calls < 2 ^ 32 - 1) (hno : ∀ c ∈ calls, c.outcome ≠ some .predictedDeadlock) :
    (∀ a, ¬ TransGen (Nested (events calls)) a a) ∧
      (∀ a b, TransGen (fun a b => g.hasEdge a b = true) a b ↔
        TransGen (Nested (events calls)) a b) ∧
      ∀ m t stack capture, Permits (events calls) (.lock m t stack capture) →
        ∃ g' outcome, g.handle? (.lock m t stack capture) = some (g', some outcome) ∧
          (outcome = .predictedDeadlock ↔
            ∃ a, TransGen (Nested (.lock m t stack capture :: events calls)) a a) := by
  have hc := h.covered hd hs
  refine ⟨fun a hcycle => ?_, fun a b => h.transGen_precedes_iff hd hs hno,
    fun m t stack capture hlock => ?_⟩
  · exact hc.ordered.acyclic_precedes hc.books.wellFormed.indexed a
      ((h.transGen_precedes_iff hd hs hno).2 hcycle)
  · obtain ⟨g', outcome, hstep⟩ := hc.books.stacked.exists_lock hc.books.wellFormed m t stack capture
    exact ⟨g', outcome, hstep, h.predicted_iff_cycle hd hs hno hlock hstep⟩

/-- A thread nests three mutexes and releases the middle one first; another thread
then holds the innermost. -/
def threeNested : List Event :=
  [.lock 1 1 none false, .lock 2 1 none false, .lock 3 1 none false, .unlock 2 1,
    .lock 4 1 none false, .forget 1, .lock 4 2 none false]

theorem nesting_spec_threeNested :
    ∃ calls g, Graph.play .empty [] threeNested = some (calls, g) ∧
      Disciplined (events calls) ∧ searches calls < 2 ^ 32 - 1 ∧
      (∀ c ∈ calls, c.outcome ≠ some .predictedDeadlock) ∧
      (∀ a, ¬ TransGen (Nested (events calls)) a a) ∧
      (∀ a b, TransGen (fun a b => g.hasEdge a b = true) a b ↔
        TransGen (Nested (events calls)) a b) ∧
      ∀ m t stack capture, Permits (events calls) (.lock m t stack capture) →
        ∃ g' outcome, g.handle? (.lock m t stack capture) = some (g', some outcome) ∧
          (outcome = .predictedDeadlock ↔
            ∃ a, TransGen (Nested (.lock m t stack capture :: events calls)) a a) := by
  have hrun : (Graph.play .empty [] threeNested).map (fun p =>
      (searches p.1, p.1.all fun c => c.outcome ≠ some .predictedDeadlock)) = some (3, true) := by
    decide +kernel
  obtain ⟨⟨calls, g⟩, hplay, hfacts⟩ := Option.map_eq_some_iff.1 hrun
  obtain ⟨hs, hno⟩ : searches calls = 3 ∧ _ := Prod.mk.inj hfacts
  have hd : Disciplined (events calls) := by
    rw [Graph.events_of_play hplay]
    decide +kernel
  have hlt : searches calls < 2 ^ 32 - 1 := by omega
  have hno : ∀ c ∈ calls, c.outcome ≠ some .predictedDeadlock := by simpa using hno
  exact ⟨calls, g, hplay, hd, hlt, hno, (Run.nil.of_play hplay).nesting_spec hd hlt hno⟩

/-! ## After a prediction -/

/-- The recorded order consists of the acquisitions that were not predicted. -/
theorem Run.precedes_iff_followed (h : Run calls g) (hd : Disciplined (events calls))
    (hs : searches calls < 2 ^ 32 - 1) : g.Precedes a b ↔ Followed calls a b := by
  constructor
  · intro hab
    obtain ⟨newer, c, older, hcalls, hfollows, hout⟩ := h.exists_follows hd hs hab
    exact ⟨newer, c, older, hcalls, hfollows, by simp [hout]⟩
  · rintro ⟨newer, c, older, rfl, ⟨hgains, hlast⟩, hno⟩
    obtain ⟨hc, hepoch, g₁, hstep, hmono⟩ := h.covered_at hd hs
    have hpermits := hd.permits_event
    obtain ⟨⟨t, stack, capture, hevent⟩, hnot⟩ := Ledger.gains_iff.1 hgains
    rw [Call.ledger] at hnot hlast
    rw [hevent] at hstep hpermits hnot hlast
    obtain ⟨outcome, -, hout, -⟩ := Graph.handle?_lock_iff.1 hstep
    rw [hout] at hstep hno
    have hkept : outcome ≠ .predictedDeadlock := fun heq => hno (congrArg some heq)
    exact hmono a b (hc.follows hepoch hpermits hstep hnot hkept hlast)

/-- A first acquisition of `y` is predicted to deadlock exactly if acquisitions that
were not predicted lead from `y` to the last lock of its thread. So an inversion of `x`
and `y` is found if no prediction came between the two locks in either thread. -/
theorem Run.inversion_spec (h : Run calls g) (hd : Disciplined (events calls))
    (hs : searches calls < 2 ^ 32 - 1) (ht : t ≠ 0)
    (hfree : ∀ t', y ∉ (ledger UInt32 t' (events calls)).mutexes)
    (stack : Option CallStack) (capture : Bool) :
    ∃ g' outcome, g.handle? (.lock y t stack capture) = some (g', some outcome) ∧
      outcome ≠ .reentrant ∧
      (outcome = .predictedDeadlock ↔
        ∃ last, (ledger UInt32 t (events calls)).mutexes.head? = some last ∧
          TransGen (Followed calls) y last) ∧
      ∀ newer c older x, calls = newer ++ c :: older → (c.ledger older).Gains x c.event →
        c.outcome ≠ some .predictedDeadlock → y ∈ (c.ledger older).mutexes →
        QuietSince c.event.tid y older → x ∈ (ledger UInt32 t (events calls)).mutexes →
        QuietSince t x calls → outcome = .predictedDeadlock := by
  have hc := h.covered hd hs
  have hepoch : g.epoch.toNat < 2 ^ 32 - 1 := by
    rw [(h.ordered hs).2]
    exact hs
  have hg := hc.books.wellFormed
  obtain ⟨g', outcome, hstep⟩ := hc.books.stacked.exists_lock hg y t stack capture
  have hfirst : outcome ≠ .reentrant := fun heq =>
    hfree t ((hc.books.reentrant_iff ⟨ht, .inl hfree⟩ hstep).1 heq)
  have hiff := (hg.lock_records hc.ordered hepoch hstep).predicted_iff
    (hc.ordered.acyclic_precedes hg.indexed) hfirst
  have hfollowed : g.Precedes = Followed calls := funext₂ fun a b =>
    propext (h.precedes_iff_followed hd hs)
  rw [hc.books.latest?_eq] at hiff
  refine ⟨g', outcome, hstep, hfirst, hfollowed ▸ hiff, ?_⟩
  rintro newer c older x rfl hx hno hy hq hxt hqx
  have hyx := h.transGen_of_nested hd hs hx hno hy hq
  obtain ⟨last, hlast, hpath⟩ := hc.reaches_latest hxt hqx
  exact hiff.2 ⟨last, hlast, hyx.trans_left hpath⟩

/-- A thread nests 2 in 3; then, holding 2, it acquires 3, which is predicted to
deadlock. -/
def rejected : List Event :=
  [.lock 3 1 none false, .lock 2 1 none false, .unlock 2 1, .unlock 3 1, .lock 2 1 none false,
    .lock 3 1 none false]

theorem inversion_spec_after_rejected :
    ∃ calls g,
      Graph.play .empty [] (rejected ++ [.lock 1 1 none false, .forget 1, .lock 1 2 none false]) =
        some (calls, g) ∧
      Disciplined (events calls) ∧ searches calls < 2 ^ 32 - 1 ∧
      (2 : Tid) ≠ 0 ∧ (∀ t', 3 ∉ (ledger UInt32 t' (events calls)).mutexes) ∧
      ∃ g' outcome, g.handle? (.lock 3 2 none false) = some (g', some outcome) ∧
        outcome ≠ .reentrant ∧
        (outcome = .predictedDeadlock ↔
          ∃ last, (ledger UInt32 2 (events calls)).mutexes.head? = some last ∧
            TransGen (Followed calls) 3 last) ∧
        ∀ newer c older x, calls = newer ++ c :: older → (c.ledger older).Gains x c.event →
          c.outcome ≠ some .predictedDeadlock → 3 ∈ (c.ledger older).mutexes →
          QuietSince c.event.tid 3 older → x ∈ (ledger UInt32 2 (events calls)).mutexes →
          QuietSince 2 x calls → outcome = .predictedDeadlock := by
  have hrun : (Graph.play .empty []
      (rejected ++ [.lock 1 1 none false, .forget 1, .lock 1 2 none false])).map
        (fun p => searches p.1) = some 3 := by
    decide +kernel
  obtain ⟨⟨calls, g⟩, hplay, hs : searches calls = 3⟩ := Option.map_eq_some_iff.1 hrun
  have hevents := Graph.events_of_play hplay
  have hd : Disciplined (events calls) := by
    rw [hevents]
    decide +kernel
  have hlt : searches calls < 2 ^ 32 - 1 := by omega
  have hfree : ∀ t', 3 ∉ (ledger UInt32 t' (events calls)).mutexes := by
    rw [forall_not_mem_ledger_iff, hevents]
    decide +kernel
  exact ⟨calls, g, hplay, hd, hlt, by decide, hfree,
    (Run.nil.of_play hplay).inversion_spec hd hlt (by decide) hfree none false⟩

/-- The edge from 2 to 3 was not kept, so the acquisition of 1 above both leaves no
path from 2 to 1, and the inversion of 1 and 2 is missed. -/
theorem inversion_missed_after_rejected :
    ¬ ∀ newer c older g g' x y t stack capture outcome, Run (newer ++ c :: older) g →
      Disciplined (.lock y t stack capture :: events (newer ++ c :: older)) →
      (c.ledger older).Gains x c.event → c.outcome ≠ some .predictedDeadlock →
      y ∈ (c.ledger older).mutexes →
      y ∉ (ledger UInt32 t (events (newer ++ c :: older))).mutexes →
      x ∈ (ledger UInt32 t (events (newer ++ c :: older))).mutexes →
      g.handle? (.lock y t stack capture) = some (g', some outcome) →
      outcome = .predictedDeadlock := by
  intro hclaim
  have hrun : ((Graph.play .empty [] rejected).bind fun p =>
      (p.2.handle? (.lock 1 1 none false)).bind fun q =>
        (q.1.play (⟨p.2, .lock 1 1 none false, q.2⟩ :: p.1) [.forget 1, .lock 1 2 none false]).bind
          fun r => (r.2.handle? (.lock 2 2 none false)).map fun s => (q.2, s.2)) =
      some (some .newEdge, some .newEdge) := by
    decide +kernel
  obtain ⟨⟨older, g₀⟩, hplay, hrun⟩ := Option.bind_eq_some_iff.1 hrun
  obtain ⟨⟨g₁, outcome₁⟩, hlock, hrun⟩ := Option.bind_eq_some_iff.1 hrun
  obtain ⟨⟨calls, g⟩, hplay', hrun⟩ := Option.bind_eq_some_iff.1 hrun
  obtain ⟨⟨g', outcome'⟩, hlock', hfacts⟩ := Option.map_eq_some_iff.1 hrun
  obtain ⟨rfl, rfl⟩ := Prod.mk.inj hfacts
  obtain ⟨newer, rfl⟩ := Graph.exists_append_of_play hplay'
  have h : Run (newer ++ ⟨g₀, .lock 1 1 none false, some .newEdge⟩ :: older) g :=
    ((Run.nil.of_play hplay).cons hlock).of_play hplay'
  have holder : events older = rejected.reverse := Graph.events_of_play hplay
  have hevents : events (newer ++ ⟨g₀, .lock 1 1 none false, some .newEdge⟩ :: older) =
      [.lock 1 2 none false, .forget 1, .lock 1 1 none false] ++ rejected.reverse := by
    rw [Graph.events_of_play hplay', events_cons, holder]
    rfl
  have hpredicted := hclaim newer _ older g g' 1 2 2 none false .newEdge h
  rw [hevents] at hpredicted
  simp only [Call.ledger, holder] at hpredicted
  exact absurd (hpredicted (by decide +kernel) ⟨rfl, by decide +kernel⟩ (by simp)
    (by decide +kernel) (by decide +kernel) (by decide +kernel) hlock') (by simp)

end Threading.LockOrder
