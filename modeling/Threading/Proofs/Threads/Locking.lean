import Threading.Proofs.LockOrder.TwoLocks
import Threading.Proofs.Locks.Agreement
import Threading.Proofs.Threads.Deeds

/-!
# Threads that lock

What a call on a mutex does to the process, while the observer works and some normal mutexes
are used by threads that release only what they hold. Every call then succeeds unless
another thread has the mutex, and what the threads hold is in the ledgers of the observer;
nothing is assumed of any other mutex. Threads that are created, end or are joined change
nothing of it.
-/
namespace Threading

open LockOrder (Accounts CallStack Event Graph Notice Report Untaken ledger)

variable {es : List Event} {id id' : UInt64} {t t' : Tid} {ids : List UInt64} {here : CallStack}
variable {g : Graph} {outcome : LockOrder.Outcome} {report : Option Report}

/-! ## One mutex -/

namespace Mutex

variable {m : Mutex} {stack : Option CallStack} {capture : Bool}

/-- A normal mutex is held by the thread whose ledger has it, and free if there is none. -/
structure Agrees (m : Mutex) (id : UInt64) (es : List Event) : Prop where
  kind : m.kind = .normal
  free : Untaken es id → m.isLocked = false
  held : ∀ t, id ∈ (ledger UInt32 t es).mutexes →
    m.isLocked = true ∧ m.owner = t ∧ m.depth = 0

theorem lock_of_free (hkind : m.kind = .normal) (hfree : m.isLocked = false) (t : Tid) :
    m.lock t = .granted (m.acquiredBy t 1) := by
  have hrelock : m.relock? t = none := by simp [relock?, hkind]
  rw [lock_eq hrelock, if_neg (by simp [hfree])]

/-- A normal mutex that is locked makes everyone wait, its owner too. -/
theorem lock_of_locked (hkind : m.kind = .normal) (hlocked : m.isLocked = true) (t : Tid) :
    m.lock t = .waits := by
  have hrelock : m.relock? t = none := by simp [relock?, hkind]
  rw [lock_eq hrelock, if_pos hlocked]

theorem unlock_of_held (hkind : m.kind = .normal) (hlocked : m.isLocked = true)
    (howner : m.owner = t) (hdepth : m.depth = 0) :
    m.unlock t = .ok { m with word := 0, owner := 0 } := by
  simp [unlock, hkind, hlocked, howner, hdepth]

namespace Agrees

theorem lock (h : m.Agrees id es) (hfree : Untaken es id) {word : UInt32} (hword : word ≠ 0) :
    (m.acquiredBy t word).Agrees id (.lock id t stack capture :: es) := by
  refine ⟨h.kind, fun hnot => ?_, fun t' ht' => ?_⟩
  · exact absurd (LockOrder.mem_ledger_lock.2 (.inr ⟨rfl, rfl⟩)) (hnot t)
  · obtain ht' | ⟨rfl, -⟩ := LockOrder.mem_ledger_lock.1 ht'
    · exact absurd ht' (hfree t')
    · exact ⟨bne_iff_ne.2 hword, rfl, rfl⟩

theorem lock_other (h : m.Agrees id' es) (hne : id' ≠ id) :
    m.Agrees id' (.lock id t stack capture :: es) := by
  have hsame (t' : Tid) : id' ∈ (ledger UInt32 t' (.lock id t stack capture :: es)).mutexes ↔
      id' ∈ (ledger UInt32 t' es).mutexes := by
    rw [LockOrder.mem_ledger_lock, or_iff_left fun heq => hne heq.2]
  exact ⟨h.kind, fun hnot => h.free fun t' => mt (hsame t').2 (hnot t'),
    fun t' ht' => h.held t' ((hsame t').1 ht')⟩

theorem unlock (h : m.Agrees id es) (hheld : ⟨id, 0⟩ ∈ ledger UInt32 t es) :
    Mutex.Agrees { m with word := 0, owner := 0 } id (.unlock id t :: es) := by
  refine ⟨h.kind, fun _ => rfl, fun t' ht' => ?_⟩
  obtain ⟨ht', hne⟩ := (LockOrder.mem_ledger_unlock hheld).1 ht'
  have howner := (h.held t (LockOrder.Ledger.mem_mutexes.2 ⟨_, hheld, rfl⟩)).2.1
  exact absurd ⟨(h.held t' ht').2.1.symm.trans howner, rfl⟩ hne

theorem unlock_other (h : m.Agrees id' es) (hheld : ⟨id, 0⟩ ∈ ledger UInt32 t es)
    (hne : id' ≠ id) : m.Agrees id' (.unlock id t :: es) := by
  have hsame (t' : Tid) : id' ∈ (ledger UInt32 t' (.unlock id t :: es)).mutexes ↔
      id' ∈ (ledger UInt32 t' es).mutexes := by
    rw [LockOrder.mem_ledger_unlock hheld, and_iff_left fun heq => hne heq.2]
  exact ⟨h.kind, fun hnot => h.free fun t' => mt (hsame t').2 (hnot t'),
    fun t' ht' => h.held t' ((hsame t').1 ht')⟩

/-- A thread that holds nothing may exit. -/
theorem forget (h : m.Agrees id es) (ht : ledger UInt32 t es = []) :
    m.Agrees id (.forget t :: es) := by
  have hsame (t' : Tid) : ledger UInt32 t' (.forget t :: es) = ledger UInt32 t' es := by
    rw [LockOrder.ledger_cons]
    split
    next heq => rw [heq, Event.tid, ht]; rfl
    next => rfl
  exact ⟨h.kind, fun hnot => h.free fun t' => hsame t' ▸ hnot t', fun t' ht' =>
    h.held t' (hsame t' ▸ ht')⟩

end Agrees
end Mutex

/-! ## One call -/

namespace ThreadGroup

variable {p : ThreadGroup}

/-- The observer works and keeps the ledgers, and these mutexes agree with them. -/
structure Watched (p : ThreadGroup) (ids : List UInt64) (es : List Event) : Prop where
  enabled : p.settings.level.isEnabled = true
  accounts : Accounts es p.locks.observer.graph
  agrees : ∀ id ∈ ids, (p.locks.mutexes.get id).Agrees id es

/-- What the observer is told of an acquisition. -/
def lockEvent (p : ThreadGroup) (id : UInt64) (t : Tid) (here : CallStack) : Event :=
  (Locks.Act.lock id t here).event p.settings.level

/-- The process after the thread `t` has acquired a mutex, which leaves its word so. -/
def acquired (p : ThreadGroup) (id : UInt64) (t : Tid) (here : CallStack) (word : UInt32)
    (g : Graph) (report : Option Report) : ThreadGroup :=
  { p with locks :=
      { observer := ⟨g, true⟩
        mutexes := p.locks.mutexes.set id ((p.locks.mutexes.get id).acquiredBy t word) }
    }.logNotices t here
      ((p.locks.observer.prepare p.settings.level).2 ++ (report.map Notice.predicted).toList)

/-- The process after the thread that holds a mutex has released it. -/
def released (p : ThreadGroup) (id : UInt64) (g : Graph) : ThreadGroup :=
  { p with locks :=
    { observer := { p.locks.observer with graph := g }
      mutexes := p.locks.mutexes.set id { p.locks.mutexes.get id with word := 0, owner := 0 } } }

theorem prepare_of_enabled (o : LockOrder.Observer) {level : LockDebugLevel}
    (hlevel : level.isEnabled = true) :
    o.prepare level = (⟨o.graph, true⟩, (o.prepare level).2) := by
  obtain ⟨graph, announced⟩ := o
  cases announced <;> simp [LockOrder.Observer.prepare, hlevel]

/-- The lines that an acquisition adds to the log. -/
theorem lines_acquired (p : ThreadGroup) (id : UInt64) (t : Tid) (here : CallStack)
    (word : UInt32) (g : Graph) (report : Option Report) :
    (p.acquired id t here word g report).lines.toList = p.lines.toList ++
      Log.delivered p.settings.priority (((p.locks.observer.prepare p.settings.level).2 ++
        (report.map Notice.predicted).toList).flatMap (·.lines p.pid t here (p.symbolsOn t))) := by
  simp only [acquired, logNotices, Array.toList_appendList]
  rfl

/-- After an acquisition the level has been announced. -/
theorem prepare_acquired (p : ThreadGroup) (id : UInt64) (t : Tid) (here : CallStack)
    (word : UInt32) (g : Graph) (report : Option Report) (level : LockDebugLevel) :
    ((p.acquired id t here word g report).locks.observer.prepare level).2 = [] := by
  simp [acquired, logNotices, LockOrder.Observer.prepare]

/-- The acquisition of a mutex by a thread that was granted it with this word. -/
structure Acquires (p : ThreadGroup) (ids : List UInt64) (es : List Event) (id : UInt64) (t : Tid)
    (here : CallStack) (word : UInt32) (g : Graph) (outcome : LockOrder.Outcome)
    (report : Option Report) : Prop where
  onLock : p.locks.observer.graph.onLock id t
      (if p.settings.level.capturesStacks then some here else none)
      p.settings.level.capturesStacks = some (g, outcome, report)
  observed : p.locks.observed p.settings.level id ((p.locks.mutexes.get id).acquiredBy t word) t
      here = some ((p.acquired id t here word g report).locks,
        (p.locks.observer.prepare p.settings.level).2 ++ (report.map Notice.predicted).toList)
  watched : (p.acquired id t here word g report).Watched ids (p.lockEvent id t here :: es)
  order : p.locks.observer.graph.Acquired g (ledger UInt32 t es).mutexes.head? id outcome

namespace Watched

/-- A thread acquires a mutex that nobody holds. -/
theorem exists_acquires (h : p.Watched ids es) (hid : id ∈ ids) (ht : t ≠ 0)
    (hfree : Untaken es id) (hepoch : p.locks.observer.graph.epoch.toNat < 2 ^ 32 - 1)
    (here : CallStack) {word : UInt32} (hword : word ≠ 0) :
    ∃ g outcome report, p.Acquires ids es id t here word g outcome report := by
  obtain ⟨g, outcome, report, hlock, haccounts, hacquired⟩ :=
    h.accounts.onLock ht hfree hepoch (if p.settings.level.capturesStacks then some here else none)
      p.settings.level.capturesStacks
  refine ⟨g, outcome, report, hlock, ?_, ⟨h.enabled, haccounts, fun id' hid' => ?_⟩, hacquired⟩
  · simp only [Locks.observed, LockOrder.Observer.onLock, h.enabled, Bool.not_true,
      Bool.false_eq_true, if_false]
    rw [prepare_of_enabled _ h.enabled]
    simp only [hlock, Option.map_some]
    rfl
  · change (MutexTable.get (MutexTable.set id _ p.locks.mutexes) id').Agrees id' _
    by_cases heq : id' = id
    · rw [heq, MutexTable.get_set_self]
      exact (h.agrees id hid).lock hfree hword
    · rw [MutexTable.get_set_of_ne _ _ heq]
      exact (h.agrees id' hid').lock_other heq

/-- A call to lock a free mutex has it at once. -/
theorem lock_eq (h : p.Watched ids es) (hid : id ∈ ids) (hfree : Untaken es id)
    (hacquires : p.Acquires ids es id t here 1 g outcome report) :
    p.lock id t here = some (p.acquired id t here 1 g report, .done (.ok ())) := by
  have hagrees := h.agrees id hid
  simp only [ThreadGroup.lock, Locks.lock, Mutex.lock_of_free hagrees.kind (hagrees.free hfree),
    Locks.settle, hacquires.observed, Option.map_some]
  rfl

/-- A thread that waited for a mutex that is free now has it. -/
theorem handTo_eq (hacquires : p.Acquires ids es id t here 2 g outcome report) :
    p.handTo id t here = some (p.acquired id t here 2 g report) := by
  have hword : Mutex.handTo (p.locks.mutexes.get id) t =
      (p.locks.mutexes.get id).acquiredBy t 2 := by
    rw [Mutex.handTo]
    rfl
  simp only [ThreadGroup.handTo, Locks.handTo, hword, hacquires.observed, Option.map_some]
  rfl

theorem isLocked_of_held (h : p.Watched ids es) (hid : id ∈ ids)
    (hheld : id ∈ (ledger UInt32 t' es).mutexes) : (p.locks.mutexes.get id).isLocked = true :=
  ((h.agrees id hid).held t' hheld).1

/-- A call to lock a mutex that some thread holds waits, and changes nothing yet. -/
theorem lock_waits (h : p.Watched ids es) (hid : id ∈ ids)
    (hlocked : (p.locks.mutexes.get id).isLocked = true) (t : Tid) (here : CallStack) :
    p.lock id t here = some (p, .waits) := by
  simp only [ThreadGroup.lock, Locks.lock,
    Mutex.lock_of_locked (h.agrees id hid).kind hlocked, Locks.settle, Option.map_some,
    afterLocking, logNotices, List.flatMap_nil, Log.delivered, List.filter_nil,
    Array.appendList_nil]

/-- A thread releases a mutex that it has acquired once. -/
theorem unlock (h : p.Watched ids es) (hid : id ∈ ids) (ht : t ≠ 0)
    (hheld : ⟨id, 0⟩ ∈ ledger UInt32 t es) :
    ∃ g, p.unlock id t = some (p.released id g, .ok ()) ∧
      (p.released id g).Watched ids (.unlock id t :: es) ∧
      g.orderPart = p.locks.observer.graph.orderPart := by
  obtain ⟨g, hunlock, haccounts, hpart⟩ := h.accounts.onUnlock ht id
  have hmem : id ∈ (ledger UInt32 t es).mutexes := LockOrder.Ledger.mem_mutexes.2 ⟨_, hheld, rfl⟩
  obtain ⟨hlocked, howner, hdepth⟩ := (h.agrees id hid).held t hmem
  refine ⟨g, ?_, ⟨h.enabled, haccounts, fun id' hid' => ?_⟩, hpart⟩
  · simp only [ThreadGroup.unlock, Locks.unlock,
      Mutex.unlock_of_held (h.agrees id hid).kind hlocked howner hdepth,
      LockOrder.Observer.onUnlock, h.enabled, Bool.not_true, Bool.false_eq_true, if_false, hunlock,
      Option.map_some]
    rfl
  · change (MutexTable.get (MutexTable.set id _ p.locks.mutexes) id').Agrees id' _
    by_cases heq : id' = id
    · rw [heq, MutexTable.get_set_self]
      exact (h.agrees id hid).unlock hheld
    · rw [MutexTable.get_set_of_ne _ _ heq]
      exact (h.agrees id' hid').unlock_other hheld heq

/-- A thread that holds nothing exits. -/
theorem forgetLocks (h : p.Watched ids es) (ht : t ≠ 0) (hempty : ledger UInt32 t es = []) :
    (p.forgetLocks t).Watched ids (.forget t :: es) := by
  refine ⟨h.enabled, ?_, fun id hid => (h.agrees id hid).forget hempty⟩
  have hgraph : (p.forgetLocks t).locks.observer.graph =
      p.locks.observer.graph.forgetThread t := by
    simp [ThreadGroup.forgetLocks, LockOrder.Observer.forget, h.enabled]
  rw [hgraph]
  exact h.accounts.forgetThread ht

end Watched

/-! ## Threads that come and go -/

/-- Neither the settings nor what the mutexes and the graph say changes. -/
structure SameLocks (p p' : ThreadGroup) : Prop where
  settings : p'.settings = p.settings
  mutexes : p'.locks.mutexes = p.locks.mutexes
  graph : p'.locks.observer.graph = p.locks.observer.graph

theorem SameLocks.trans {p' p₁ : ThreadGroup} (h : p.SameLocks p') (h' : p'.SameLocks p₁) :
    p.SameLocks p₁ :=
  ⟨h'.settings.trans h.settings, h'.mutexes.trans h.mutexes, h'.graph.trans h.graph⟩

theorem Watched.congr {p' : ThreadGroup} (h : p.Watched ids es) (hsame : p.SameLocks p') :
    p'.Watched ids es := by
  obtain ⟨hsettings, hmutexes, hgraph⟩ := hsame
  exact ⟨hsettings ▸ h.enabled, hgraph ▸ h.accounts, fun id hid => hmutexes ▸ h.agrees id hid⟩

theorem sameLocks_releaseRegion (p : ThreadGroup) (region : Region) :
    p.SameLocks (p.releaseRegion region) := by
  rw [releaseRegion]
  split <;> exact ⟨rfl, rfl, rfl⟩

/-- A creation makes the observer announce its level at most. -/
theorem sameLocks_launch (p : ThreadGroup) (t : Tid) (here : CallStack)
    (request : Option Attributes) (launch : Launch) :
    p.SameLocks (p.launch t here request launch).group := by
  have hprepared := Locks.graph_prepare p.locks.observer p.settings.level
  obtain ⟨lines, hlaunch⟩ := p.launch_eq t here request launch
  rw [hlaunch, outcome]
  split
  · exact ⟨rfl, rfl, hprepared⟩
  · split <;> exact ⟨rfl, rfl, hprepared⟩

theorem sameLocks_create {p' : ThreadGroup} {l : List BlockId} {i : BlockId}
    (hl : p.registry.Lists l) {request : Option Attributes} {launch : Launch}
    (h : p.create t here request launch = (.ok i, p')) : p.SameLocks p' := by
  obtain ⟨rfl, -⟩ := create_ok hl h
  exact p.sameLocks_launch t here request launch

theorem sameLocks_reclaim (p : ThreadGroup) (i : BlockId) (c : Control) :
    p.SameLocks (p.reclaim i c) := by
  rw [reclaim]
  refine SameLocks.trans ?_ (sameLocks_releaseRegion _ c.region)
  exact ⟨rfl, rfl, rfl⟩

theorem sameLocks_expire (p : ThreadGroup) (i : BlockId) : p.SameLocks (p.expire i) :=
  ⟨rfl, rfl, rfl⟩

end ThreadGroup
end Threading
