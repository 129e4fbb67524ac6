import Threading.Proofs.LockOrder.Bookkeeping

/-!
# The graph keeps the ledgers

In a disciplined run the stack of every thread is its ledger, whatever the other threads
do in between. After lawful calls the lists of held locks, the owners and the counts are
those of the ledgers, and what one thread does shows in its own list only.
-/
namespace Threading.LockOrder

variable {calls newer older : List Call} {c : Call} {es : List Event} {g g' : Graph} {e : Event}
variable {outcome? : Option Outcome} {m : UInt64} {t : Tid} {l : Ledger UInt32}

/-- The calls that were made, newest first. -/
def events (calls : List Call) : List Event := calls.map (·.event)

@[simp] theorem events_cons (c : Call) (calls : List Call) :
    events (c :: calls) = c.event :: events calls := rfl

@[simp] theorem events_append (newer older : List Call) :
    events (newer ++ older) = events newer ++ events older := List.map_append

/-- The ledger of the caller when it makes the call, after the calls of `older`. -/
def Call.ledger (c : Call) (older : List Call) : Ledger UInt32 :=
  LockOrder.ledger UInt32 c.event.tid (events older)

theorem met_events_iff : Met (events calls) l e ↔
    ∃ newer c older, calls = newer ++ c :: older ∧ c.event = e ∧ c.ledger older = l := by
  constructor
  · rintro ⟨newer, older, hes, rfl⟩
    obtain ⟨newer', rest, rfl, -, hrest⟩ := List.map_eq_append_iff.1 hes
    obtain ⟨c, older', rfl, rfl, rfl⟩ := List.map_eq_cons_iff.1 hrest
    exact ⟨newer', c, older', rfl, rfl, rfl⟩
  · rintro ⟨newer, c, older, rfl, rfl, rfl⟩
    exact ⟨events newer, events older, by simp, rfl⟩

theorem Disciplined.permits_event (h : Disciplined (events (newer ++ c :: older))) :
    Permits (events older) c.event := by
  rw [events_append] at h
  exact h.of_append.1

theorem Graph.events_of_play {calls' : List Call}
    (h : g.play calls es = some (calls', g')) : events calls' = es.reverse ++ events calls := by
  induction es generalizing g calls with
  | nil =>
    obtain ⟨rfl, -⟩ : calls = calls' ∧ g = g' := by simpa [Graph.play] using h
    rfl
  | cons e es ih =>
    rw [Graph.play] at h
    split at h
    · exact absurd h (by simp)
    next g₁ outcome hstep =>
      rw [ih h, List.reverse_cons, List.append_assoc]
      rfl

/-- Every stack is the ledger of its thread, and free nodes have no count. -/
structure Books (es : List Event) (g : Graph) : Prop where
  wellFormed : g.WellFormed
  stacked : g.Stacked
  entries : ∀ t l, g.Stack t l → l.map g.entry = ledger UInt32 t es
  free : ∀ i, (g.node i).owner = 0 → (g.node i).count = 0

theorem books_nil : Books [] .empty where
  wellFormed := Graph.wellFormed_empty
  stacked := Graph.stacked_empty
  entries := fun t l hl => by
    have hnil : l = [] := List.eq_nil_iff_forall_not_mem.2 fun i hi =>
      absurd (hl.lt Graph.inRange_empty i hi) (by simp [Graph.empty])
    rw [hnil]
    rfl
  free := fun i _ => by rw [Graph.node_eq_default _ (by simp [Graph.empty])]; rfl

namespace Books

theorem heldBy?_eq (hb : Books es g) (t : Tid) :
    g.heldBy? t = some (ledger UInt32 t es).mutexes := by
  obtain ⟨l, hl⟩ := hb.stacked t
  rw [hl.heldBy?_eq hb.wellFormed.inRange, ← hb.entries t l hl, Graph.mutexes_map_entry]

theorem holds_iff (hb : Books es g) : g.Holds t m ↔ m ∈ (ledger UInt32 t es).mutexes := by
  simp [Graph.Holds, hb.heldBy?_eq]

theorem latest?_eq (hb : Books es g) : g.latest? t = (ledger UInt32 t es).mutexes.head? :=
  hb.stacked.latest?_eq hb.wellFormed (hb.heldBy?_eq t)

theorem permits_iff (hb : Books es g) : g.Permits e ↔ Permits es e := by
  cases e with
  | lock m t stack capture => simp only [Graph.Permits, Permits, hb.holds_iff]
  | unlock m t => exact Iff.rfl
  | forget t => exact Iff.rfl

theorem step (hb : Books es g) (hd : Permits es e)
    (h : g.handle? e = some (g', outcome?)) : Books (e :: es) g' := by
  have hpermits := hb.permits_iff.2 hd
  have hsettles := hb.stacked.settles hb.wellFormed hpermits h
  refine ⟨hb.wellFormed.handle? h, hb.stacked.handle? hb.wellFormed hpermits h, fun t l' hl' => ?_,
    hsettles.free hb.free⟩
  obtain ⟨l, hl⟩ := hb.stacked t
  by_cases ht : t = e.tid
  · subst ht
    obtain ⟨k, hk, hentries⟩ := hsettles.own l hl
    obtain rfl := hk.leads.unique hl'.leads
    rw [hentries, hb.entries _ l hl, ledger_cons_self]
  · obtain ⟨hk, hentries⟩ := hsettles.others t l ht hl
    obtain rfl := hk.leads.unique hl'.leads
    rw [hentries, hb.entries t l hl, ledger_cons_of_ne ht]

/-- Exactly the holder of a mutex acquires it again. -/
theorem reentrant_iff {stack : Option CallStack} {capture : Bool} {outcome : Outcome}
    (hb : Books es g) (hd : Permits es (.lock m t stack capture))
    (h : g.handle? (.lock m t stack capture) = some (g', some outcome)) :
    outcome = .reentrant ↔ m ∈ (ledger UInt32 t es).mutexes := by
  obtain ⟨outcome', report, hout, hlock⟩ := Graph.handle?_lock_iff.1 h
  obtain rfl := Option.some.inj hout
  rw [Graph.onLock_eq_reentrant_iff hlock, ← hb.holds_iff, hb.stacked.holds_iff hb.wellFormed]
  exact (and_iff_right hd.1).symm

end Books

/-- A disciplined run keeps the books. -/
theorem Run.books (h : Run calls g) (hd : Disciplined (events calls)) :
    Books (events calls) g := by
  induction h with
  | nil => exact books_nil
  | @cons calls g g' e outcome? hrun hstep ih =>
    exact (ih hd.2).step hd.1 hstep

/-- The lists, owners and counts of a graph are those of the books. -/
structure Graph.Tracks (g : Graph) (books : Tid → Ledger ℕ) : Prop where
  heldBy : ∀ t, g.heldBy? t = some (books t).mutexes
  /-- The links towards older and towards newer locks mirror each other. -/
  linked : ∀ t l, g.held? t = some l → g.Linked t none l
  counts : ∀ t l, g.held? t = some l →
    l.map (fun i => ⟨(g.node i).mutex, (g.node i).count.toNat⟩) = books t
  /-- A node lies in the list of its owner and in no other; a node in no list has owner 0. -/
  owner : ∀ t l, g.held? t = some l → ∀ i, i ∈ l ↔ t ≠ 0 ∧ (g.node i).owner = t
  free : ∀ i, (g.node i).owner = 0 → (g.node i).count = 0

theorem Books.stack_of_held? (hb : Books es g) {l : List NodeId} (h : g.held? t = some l) :
    g.Stack t l := by
  obtain ⟨k, hk⟩ := hb.stacked t
  rwa [hk.leads.unique (hb.wellFormed.inRange.held?_eq_some_iff.1 h)] at hk

theorem Books.tracks (hb : Books es g) (hl : Lawful es) :
    g.Tracks fun t => ledger ℕ t es where
  heldBy := fun t => by rw [hb.heldBy?_eq, ← hl.toNat_ledger, Ledger.mutexes_toNat]
  linked := fun t l h => (hb.stack_of_held? h).linked
  counts := fun t l h => by
    rw [← hl.toNat_ledger, ← hb.entries t l (hb.stack_of_held? h), Ledger.toNat, List.map_map]
    rfl
  owner := fun t l h => (hb.stack_of_held? h).mem_iff
  free := hb.free

/-- A call of one thread leaves the lists of all others alone. -/
theorem Books.held?_eq_of_ne (hb : Books es g) (hd : Permits es e)
    (h : g.handle? e = some (g', outcome?)) (ht : t ≠ e.tid) : g'.held? t = g.held? t := by
  obtain ⟨l, hl⟩ := hb.stacked t
  have hl' := ((hb.stacked.settles hb.wellFormed (hb.permits_iff.2 hd) h).others t l ht hl).1
  rw [hb.wellFormed.inRange.held?_eq_some_iff.2 hl.leads,
    (hb.wellFormed.handle? h).inRange.held?_eq_some_iff.2 hl'.leads]

/-- The exit of a thread empties its list and frees exactly its locks. -/
theorem Books.forgetThread (hb : Books es g) (ht : t ≠ 0) :
    (g.forgetThread t).held? t = some [] ∧
      ∀ i, ((g.forgetThread t).node i).owner =
        if (g.node i).owner = t then 0 else (g.node i).owner := by
  obtain ⟨l, hl⟩ := hb.stacked t
  refine ⟨(hb.wellFormed.forgetThread t).inRange.held?_eq_some_iff.2
    (hl.forgetThread hb.wellFormed).1.leads, fun i => ?_⟩
  simp only [(hl.forgetThread_frees hb.wellFormed i).1, hl.mem_iff, ht, ne_eq, not_false_eq_true,
    true_and]

/-- However the calls of the threads alternate, the graph keeps the ledger of each: the lists
of held locks, their links in both directions, the owners and the counts. A lawful call
always returns and leaves the lists of other threads alone, and an exit frees exactly the
locks of its thread. -/
theorem Run.tracks_ledgers (h : Run calls g) (hl : Lawful (events calls)) :
    g.Tracks (fun t => ledger ℕ t (events calls)) ∧
      ∀ e, Lawful (e :: events calls) → ∃ g' outcome?, g.handle? e = some (g', outcome?) ∧
        (∀ t, t ≠ e.tid → g'.held? t = g.held? t) ∧
        ∀ t, e = .forget t → g'.held? t = some [] ∧
          ∀ i, (g'.node i).owner = if (g.node i).owner = t then 0 else (g.node i).owner := by
  have hb := h.books hl.disciplined
  refine ⟨hb.tracks hl, fun e he => ?_⟩
  obtain ⟨g', outcome?, hstep⟩ := hb.stacked.exists_handle? hb.wellFormed e
  refine ⟨g', outcome?, hstep, fun t => hb.held?_eq_of_ne he.disciplined.1 hstep, ?_⟩
  rintro t rfl
  rw [(Graph.handle?_forget_iff.1 hstep).2]
  exact hb.forgetThread he.1.1

/-- A thread acquires a lock again and releases out of order; another one releases what it
does not hold, takes a lock over and exits. -/
def handedOver : List Event :=
  [.lock 1 1 none false, .lock 2 1 none false, .lock 3 1 none false, .lock 2 1 none false,
    .unlock 3 2, .unlock 1 1, .lock 1 2 none false, .unlock 2 1, .unlock 2 1, .lock 2 2 none false,
    .forget 2, .lock 1 1 none false]

theorem tracks_ledgers_handedOver :
    ∃ calls g, Graph.play .empty [] handedOver = some (calls, g) ∧ Lawful (events calls) ∧
      (ledger ℕ 1 (events calls)).mutexes = [1, 3] ∧
      g.Tracks (fun t => ledger ℕ t (events calls)) ∧
      ∀ e, Lawful (e :: events calls) → ∃ g' outcome?, g.handle? e = some (g', outcome?) ∧
        (∀ t, t ≠ e.tid → g'.held? t = g.held? t) ∧
        ∀ t, e = .forget t → g'.held? t = some [] ∧
          ∀ i, (g'.node i).owner = if (g.node i).owner = t then 0 else (g.node i).owner := by
  have hrun : (Graph.play .empty [] handedOver).isSome = true := by decide +kernel
  obtain ⟨⟨calls, g⟩, hplay⟩ := Option.isSome_iff_exists.1 hrun
  have hevents : events calls = handedOver.reverse := by
    rw [Graph.events_of_play hplay]
    rfl
  have hl : Lawful (events calls) := by
    rw [hevents]
    decide +kernel
  have hheld : (ledger ℕ 1 (events calls)).mutexes = [1, 3] := by
    rw [hevents]
    decide +kernel
  exact ⟨calls, g, hplay, hl, hheld, (Run.nil.of_play hplay).tracks_ledgers hl⟩

end Threading.LockOrder
