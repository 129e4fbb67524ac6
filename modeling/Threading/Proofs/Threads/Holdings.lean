import Mathlib.Logic.Function.Basic
import Threading.Proofs.Threads.Locking

/-!
# Who holds what

The ledgers of all threads at once, as a function of the thread. A mutex is locked just if it is
in some ledger, no two threads have it, and an acquisition or a release changes one entry.
-/
namespace Threading.ThreadGroup

open Function (update)
open LockOrder (CallStack Event Graph Ledger Notice Report Untaken ledger)

variable {p p' : ThreadGroup} {ids : List UInt64} {held : Tid → Ledger UInt32} {id : UInt64}
variable {t t' : Tid} {here : CallStack} {word : UInt32} {rest : Ledger UInt32}

/-- The observer works, and the threads hold what is said, of the given mutexes as well as
their words say. -/
def Holdings (p : ThreadGroup) (ids : List UInt64) (held : Tid → Ledger UInt32) : Prop :=
  ∃ es, p.Watched ids es ∧ ∀ t, ledger UInt32 t es = held t

/-- What an acquisition by a thread that does not hold the mutex yet leads to. -/
structure Gains (p : ThreadGroup) (ids : List UInt64) (held : Tid → Ledger UInt32) (id : UInt64)
    (t : Tid) (here : CallStack) (p' : ThreadGroup) (outcome : LockOrder.Outcome)
    (report : Option Report) : Prop where
  settings : p'.settings = p.settings
  same : p.SameThreads p'
  onLock : ∃ stack capture, p.locks.observer.graph.onLock id t stack capture =
    some (p'.locks.observer.graph, outcome, report)
  holdings : p'.Holdings ids (update held t (⟨id, 0⟩ :: held t))
  order : p.locks.observer.graph.Acquired p'.locks.observer.graph (held t).mutexes.head? id outcome
  announced (level : LockDebugLevel) : (p'.locks.observer.prepare level).2 = []
  pid : p'.pid = p.pid
  symbols : p'.symbolsOn t = p.symbolsOn t
  lines : p'.lines.toList = p.lines.toList ++ Log.delivered p.settings.priority
    (((p.locks.observer.prepare p.settings.level).2 ++
      (report.map Notice.predicted).toList).flatMap (·.lines p.pid t here (p.symbolsOn t)))

namespace Holdings

theorem congr (h : p.Holdings ids held) (hsame : p.SameLocks p') : p'.Holdings ids held := by
  obtain ⟨es, hwatched, hheld⟩ := h
  exact ⟨es, hwatched.congr hsame, hheld⟩

theorem wellFormed (h : p.Holdings ids held) :
    p.locks.observer.graph.WellFormed ∧ p.locks.observer.graph.Ordered := by
  obtain ⟨es, hwatched, -⟩ := h
  exact ⟨hwatched.accounts.books.wellFormed, hwatched.accounts.ordered⟩

theorem kind (h : p.Holdings ids held) (hid : id ∈ ids) :
    (p.locks.mutexes.get id).kind = .normal := by
  obtain ⟨es, hwatched, -⟩ := h
  exact (hwatched.agrees id hid).kind

theorem isLocked_iff (h : p.Holdings ids held) (hid : id ∈ ids) :
    (p.locks.mutexes.get id).isLocked = true ↔ ∃ t, id ∈ (held t).mutexes := by
  obtain ⟨es, hwatched, hheld⟩ := h
  constructor
  · intro hlocked
    by_contra hnone
    have hfree : Untaken es id := fun t ht => hnone ⟨t, hheld t ▸ ht⟩
    rw [(hwatched.agrees id hid).free hfree] at hlocked
    cases hlocked
  · rintro ⟨t, ht⟩
    have hmem : id ∈ (ledger UInt32 t es).mutexes := by rwa [hheld]
    exact hwatched.isLocked_of_held hid hmem

/-- No two threads hold a mutex. -/
theorem unique (h : p.Holdings ids held) (hid : id ∈ ids) (ht : id ∈ (held t).mutexes)
    (ht' : id ∈ (held t').mutexes) : t = t' := by
  obtain ⟨es, hwatched, hheld⟩ := h
  have howner := ((hwatched.agrees id hid).held t (by rwa [hheld])).2.1
  exact howner.symm.trans ((hwatched.agrees id hid).held t' (by rwa [hheld])).2.1

/-- The ledgers after one call, from what it does to that of its thread. -/
theorem cons {es : List Event} {e : Event} {l : Ledger UInt32}
    (hheld : ∀ t, ledger UInt32 t es = held t) (hsettle : (held e.tid).settle e = l) (t : Tid) :
    ledger UInt32 t (e :: es) = update held e.tid l t := by
  rw [LockOrder.ledger_cons, hheld]
  by_cases heq : t = e.tid
  · rw [if_pos heq, heq, hsettle, Function.update_self]
  · rw [if_neg heq, Function.update_of_ne heq]

/-- A mutex that nobody holds can be acquired, at once or after a wait. -/
theorem exists_gains (h : p.Holdings ids held) (hid : id ∈ ids) (ht : t ≠ 0)
    (hfree : (p.locks.mutexes.get id).isLocked = false)
    (hepoch : p.locks.observer.graph.epoch.toNat < 2 ^ 32 - 1) (here : CallStack) :
    (∃ p' outcome report, p.lock id t here = some (p', .done (.ok ())) ∧
        p.Gains ids held id t here p' outcome report) ∧
      ∃ p' outcome report, p.handTo id t here = some p' ∧
        p.Gains ids held id t here p' outcome report := by
  have hnone : ∀ t, id ∉ (held t).mutexes := by
    intro t ht
    rw [(h.isLocked_iff hid).2 ⟨t, ht⟩] at hfree
    cases hfree
  obtain ⟨es, hwatched, hheld⟩ := h
  have huntaken : Untaken es id := fun t => by
    rw [hheld]
    exact hnone t
  have hgains {word : UInt32} {g : Graph} {outcome : LockOrder.Outcome} {report : Option Report}
      (hacquires : p.Acquires ids es id t here word g outcome report) :
      p.Gains ids held id t here (p.acquired id t here word g report) outcome report := by
    refine ⟨rfl, ⟨rfl, rfl⟩, ⟨_, _, hacquires.onLock⟩, ⟨_, hacquires.watched, ?_⟩, ?_,
      p.prepare_acquired id t here word g report, rfl, rfl,
      p.lines_acquired id t here word g report⟩
    · exact Holdings.cons (e := p.lockEvent id t here) hheld
        (Ledger.acquire_of_not_mem (hnone t))
    · rw [← hheld]
      exact hacquires.order
  constructor
  · obtain ⟨g, outcome, report, hacquires⟩ :=
      hwatched.exists_acquires hid ht huntaken hepoch here (by decide : (1 : UInt32) ≠ 0)
    exact ⟨_, outcome, report, hwatched.lock_eq hid huntaken hacquires, hgains hacquires⟩
  · obtain ⟨g, outcome, report, hacquires⟩ :=
      hwatched.exists_acquires hid ht huntaken hepoch here (by decide : (2 : UInt32) ≠ 0)
    exact ⟨_, outcome, report, Watched.handTo_eq hacquires, hgains hacquires⟩

/-- A call for a mutex that is held waits. -/
theorem lock_waits (h : p.Holdings ids held) (hid : id ∈ ids)
    (hlocked : (p.locks.mutexes.get id).isLocked = true) (t : Tid) (here : CallStack) :
    p.lock id t here = some (p, .waits) := by
  obtain ⟨es, hwatched, -⟩ := h
  exact hwatched.lock_waits hid hlocked t here

/-- A thread releases the mutex it has acquired last. -/
theorem exists_unlock (h : p.Holdings ids held) (hid : id ∈ ids) (ht : t ≠ 0)
    (hheld : held t = ⟨id, 0⟩ :: rest) (hrest : id ∉ rest.mutexes) :
    ∃ p', p.unlock id t = some (p', .ok ()) ∧ p'.settings = p.settings ∧ p.SameThreads p' ∧
      p'.Holdings ids (update held t rest) ∧
      p'.locks.observer.graph.orderPart = p.locks.observer.graph.orderPart ∧
      p'.lines = p.lines := by
  obtain ⟨es, hwatched, hledger⟩ := h
  have hmem : ⟨id, 0⟩ ∈ ledger UInt32 t es := by
    rw [hledger, hheld]
    exact List.mem_cons_self
  obtain ⟨g, hunlock, hwatched', hpart⟩ := hwatched.unlock hid ht hmem
  refine ⟨_, hunlock, rfl, ⟨rfl, rfl⟩, ⟨_, hwatched', ?_⟩, hpart, rfl⟩
  refine Holdings.cons (e := .unlock id t) hledger ?_
  have hself : (held t).release id = rest := by
    rw [hheld, Ledger.release_of_mem List.mem_cons_self, Ledger.strike,
      List.filter_cons_of_neg (by simp)]
    refine List.filter_eq_self.2 fun a ha => ?_
    simpa using fun heq : a.mutex = id => hrest (Ledger.mem_mutexes.2 ⟨a, ha, heq⟩)
  exact hself

/-- A thread that holds nothing departs. -/
theorem forgetLocks (h : p.Holdings ids held) (ht : t ≠ 0) (hheld : held t = []) :
    (p.forgetLocks t).Holdings ids held ∧
      (p.forgetLocks t).locks.observer.graph.orderPart =
        p.locks.observer.graph.orderPart := by
  obtain ⟨es, hwatched, hledger⟩ := h
  have hgraph : (p.forgetLocks t).locks.observer.graph =
      p.locks.observer.graph.forgetThread t := by
    simp [ThreadGroup.forgetLocks, LockOrder.Observer.forget, hwatched.enabled]
  refine ⟨⟨_, hwatched.forgetLocks ht ((hledger t).trans hheld), fun t' => ?_⟩, ?_⟩
  · rw [Holdings.cons (e := .forget t) (l := []) hledger rfl]
    by_cases heq : t' = t
    · rw [heq, hheld]
      exact Function.update_self _ _ _
    · exact Function.update_of_ne heq _ _
  · rw [hgraph, Graph.orderPart_forgetThread]

end Holdings
end Threading.ThreadGroup
