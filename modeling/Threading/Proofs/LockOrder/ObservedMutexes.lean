import Threading.Locks
import Threading.Proofs.LockOrder.Tangles

/-!
# Observed mutexes and their lists

A release by a thread that is not the holder is legal on a normal mutex, but the
observer takes no notice of it, and the mutex stays in the list of its old holder.
What follows says of every run over mutexes of any kinds when the lists of the
observer still have an end, and that every call returns as long as they do.
-/
namespace Threading.Locks

open LockOrder (CallStack Graph)

/-- A call of a thread on a mutex; `resume` is the end of a `lock` that had to wait. -/
inductive Act where
  | lock (id : UInt64) (t : Tid) (here : CallStack)
  | tryLock (id : UInt64) (t : Tid) (here : CallStack)
  | resume (id : UInt64) (t : Tid) (here : CallStack)
  | unlock (id : UInt64) (t : Tid)

variable {level : LockDebugLevel} {l l' : Locks} {a : Act} {calls : List (Locks × Act)}

/-- Carries out a call that succeeds; none if it fails, waits or never returns. -/
def perform? (l : Locks) (level : LockDebugLevel) : Act → Option Locks
  | .lock id t here =>
    match l.lock level id t here with
    | some (l', .done (.ok ()), _) => some l'
    | _ => none
  | .tryLock id t here =>
    match l.tryLock level id t here with
    | some (l', .done (.ok ()), _) => some l'
    | _ => none
  | .resume id t here =>
    if (l.mutexes.get id).isLocked then none else (l.handTo level id t here).map (·.1)
  | .unlock id t =>
    match l.unlock level id t with
    | some (l', .ok ()) => some l'
    | _ => none

/-- What the observer is told of a successful call. -/
def Act.event (level : LockDebugLevel) : Act → LockOrder.Event
  | .lock id t here | .tryLock id t here | .resume id t here =>
    .lock id t (if level.capturesStacks then some here else none) level.capturesStacks
  | .unlock id t => .unlock id t

/-- The successful calls that lead from fresh mutexes to a state, newest first, each
with the state it was made in. -/
inductive Run (level : LockDebugLevel) : List (Locks × Act) → Locks → Prop
  | fresh {mutexes : MutexTable} : (∀ p ∈ mutexes, p.2 = { kind := p.2.kind }) →
      Run level [] { mutexes }
  | step {calls : List (Locks × Act)} {l l' : Locks} {a : Act} : Run level calls l →
      l.perform? level a = some l' → Run level ((l, a) :: calls) l'

/-- Carries calls out one after the other, oldest first. -/
def play (l : Locks) (level : LockDebugLevel) (calls : List (Locks × Act)) :
    List Act → Option (List (Locks × Act) × Locks)
  | [] => some (calls, l)
  | a :: acts =>
    match l.perform? level a with
    | none => none
    | some l' => l'.play level ((l, a) :: calls) acts

theorem Run.of_play (h : Run level calls l) {acts : List Act} {calls' : List (Locks × Act)}
    (hplay : l.play level calls acts = some (calls', l')) : Run level calls' l' := by
  induction acts generalizing l calls with
  | nil =>
    obtain ⟨rfl, rfl⟩ : calls = calls' ∧ l = l' := by simpa [play] using hplay
    exact h
  | cons a acts ih =>
    rw [play] at hplay
    split at hplay
    · exact absurd hplay (by simp)
    next l₁ hstep => exact ih (h.step hstep) hplay

/-- The list of every thread has an end. -/
def Untangled (l : Locks) : Prop := l.observer.graph.Untangled

/-! ## What the observer is told -/

theorem graph_prepare (o : LockOrder.Observer) (level : LockDebugLevel) :
    (o.prepare level).1.graph = o.graph := by
  rw [LockOrder.Observer.prepare]
  split <;> rfl

theorem graph_onLock {o : LockOrder.Observer} {id : UInt64} {t : Tid} {here : CallStack}
    (hlevel : level.isEnabled = true) :
    (o.onLock level id t here).map (·.1.graph) =
      (o.graph.onLock id t (if level.capturesStacks then some here else none)
        level.capturesStacks).map (·.1) := by
  have hgraph := graph_prepare o level
  rw [LockOrder.Observer.onLock, if_neg (by simp [hlevel])]
  generalize o.prepare level = p at hgraph ⊢
  obtain ⟨o', notices⟩ := p
  simp only at hgraph ⊢
  rw [hgraph, Option.map_map]
  rfl

theorem graph_observed (l : Locks) (id : UInt64) (m : Mutex) (t : Tid) (here : CallStack)
    (hlevel : level.isEnabled = true) :
    (l.observed level id m t here).map (·.1.observer.graph) =
      (l.observer.graph.onLock id t (if level.capturesStacks then some here else none)
        level.capturesStacks).map (·.1) := by
  rw [observed, Option.map_map, ← graph_onLock hlevel]
  rfl

theorem handle?_of_observed {id : UInt64} {m : Mutex} {t : Tid} {here : CallStack}
    {notices : List LockOrder.Notice} (hlevel : level.isEnabled = true)
    (h : l.observed level id m t here = some (l', notices)) :
    ∃ outcome?, l.observer.graph.handle? ((Act.lock id t here).event level) =
      some (l'.observer.graph, outcome?) := by
  have hgraph := graph_observed l id m t here hlevel
  rw [h, Option.map_some] at hgraph
  obtain ⟨⟨g, outcome, report⟩, hlock, rfl⟩ := Option.map_eq_some_iff.1 hgraph.symm
  exact ⟨some outcome, Graph.handle?_lock_iff.2 ⟨outcome, report, rfl, hlock⟩⟩

theorem observed_isSome {id : UInt64} {m : Mutex} {t : Tid} {here : CallStack}
    (hlevel : level.isEnabled = true) :
    (l.observed level id m t here).isSome =
      (l.observer.graph.onLock id t (if level.capturesStacks then some here else none)
        level.capturesStacks).isSome := by
  have hgraph := congrArg Option.isSome (graph_observed l id m t here hlevel)
  simpa only [Option.isSome_map] using hgraph

theorem handle?_of_settle {id : UInt64} {t : Tid} {here : CallStack} {attempt : Mutex.Attempt}
    {notices : List LockOrder.Notice} (hlevel : level.isEnabled = true)
    (h : l.settle level id t here attempt = some (l', .done (.ok ()), notices)) :
    ∃ outcome?, l.observer.graph.handle? ((Act.lock id t here).event level) =
      some (l'.observer.graph, outcome?) := by
  cases attempt with
  | granted m =>
    obtain ⟨⟨l₁, notices₁⟩, hobs, heq⟩ := Option.map_eq_some_iff.1 h
    obtain ⟨rfl, -⟩ := Prod.mk.inj heq
    exact handle?_of_observed hlevel hobs
  | refused e => exact absurd h (by simp [settle])
  | waits => exact absurd h (by simp [settle])

theorem handle?_of_unlock {id : UInt64} {t : Tid} (hlevel : level.isEnabled = true)
    (h : l.unlock level id t = some (l', .ok ())) :
    l.observer.graph.handle? (.unlock id t) = some (l'.observer.graph, none) := by
  rw [unlock] at h
  split at h
  · exact absurd h (by simp)
  · obtain ⟨o, ho, heq⟩ := Option.map_eq_some_iff.1 h
    obtain ⟨rfl, -⟩ := Prod.mk.inj heq
    rw [LockOrder.Observer.onUnlock, if_neg (by simp [hlevel])] at ho
    obtain ⟨g, hunlock, rfl⟩ := Option.map_eq_some_iff.1 ho
    exact Graph.handle?_unlock_iff.2 ⟨rfl, hunlock⟩

/-- The observer is told of every successful call. -/
theorem handle?_of_perform? (hlevel : level.isEnabled = true) (h : l.perform? level a = some l') :
    ∃ outcome?, l.observer.graph.handle? (a.event level) = some (l'.observer.graph, outcome?) := by
  cases a with
  | lock id t here =>
    rw [perform?] at h
    split at h
    next l₁ notices hlock => exact Option.some.inj h ▸ handle?_of_settle hlevel hlock
    · exact absurd h (by simp)
  | tryLock id t here =>
    rw [perform?] at h
    split at h
    next l₁ notices hlock => exact Option.some.inj h ▸ handle?_of_settle hlevel hlock
    · exact absurd h (by simp)
  | resume id t here =>
    rw [perform?] at h
    split at h
    · exact absurd h (by simp)
    · obtain ⟨⟨l₁, notices⟩, hobs, rfl⟩ := Option.map_eq_some_iff.1 h
      exact handle?_of_observed hlevel hobs
  | unlock id t =>
    rw [perform?] at h
    split at h
    next l₁ hunlock => exact ⟨none, Option.some.inj h ▸ handle?_of_unlock hlevel hunlock⟩
    · exact absurd h (by simp)

theorem event_ne_forget (a : Act) (t : Tid) : a.event level ≠ .forget t := by
  cases a <;> simp [Act.event]

/-! ## Every run -/

theorem Run.wellFormed (h : Run level calls l) (hlevel : level.isEnabled = true) :
    l.observer.graph.WellFormed := by
  induction h with
  | fresh => exact LockOrder.Graph.wellFormed_empty
  | step _ hstep ih =>
    obtain ⟨outcome?, hhandle⟩ := handle?_of_perform? hlevel hstep
    exact ih.handle? hhandle

theorem Run.untangled_iff (h : Run level calls l) (hlevel : level.isEnabled = true) :
    ((∀ c ∈ calls, c.1.Untangled) ∧ l.Untangled) ↔
      ∀ c ∈ calls, ¬ c.1.observer.graph.Tangles (c.2.event level) := by
  induction h with
  | fresh => exact iff_of_true ⟨by simp, LockOrder.Graph.untangled_empty⟩ (by simp)
  | @step calls l l' a hrun hstep ih =>
    obtain ⟨outcome?, hhandle⟩ := handle?_of_perform? hlevel hstep
    have hiff (hu : l.Untangled) : l'.Untangled ↔ ¬ l.observer.graph.Tangles (a.event level) :=
      LockOrder.Graph.Untangled.handle?_iff hu (hrun.wellFormed hlevel) (event_ne_forget a) hhandle
    rw [List.forall_mem_cons, List.forall_mem_cons, ← ih]
    constructor
    · rintro ⟨⟨hu, hcalls⟩, hu'⟩
      exact ⟨(hiff hu).1 hu', hcalls, hu⟩
    · rintro ⟨hnot, hcalls, hu⟩
      exact ⟨⟨hu, hcalls⟩, (hiff hu).2 hnot⟩

/-! ## Calls that return -/

theorem settle_isSome {id : UInt64} {t : Tid} {here : CallStack} (hlevel : level.isEnabled = true)
    (honLock : (l.observer.graph.onLock id t (if level.capturesStacks then some here else none)
      level.capturesStacks).isSome) (attempt : Mutex.Attempt) :
    (l.settle level id t here attempt).isSome := by
  cases attempt with
  | granted m =>
    rw [settle, Option.isSome_map, observed_isSome hlevel]
    exact honLock
  | refused e => rfl
  | waits => rfl

/-- A call of a thread whose list has an end returns. -/
theorem returns_of_leads {k : List LockOrder.NodeId} {t : Tid} (hlevel : level.isEnabled = true)
    (hg : l.observer.graph.WellFormed)
    (hk : l.observer.graph.Leads (l.observer.graph.topOf t) k) (id : UInt64) (here : CallStack) :
    (l.lock level id t here).isSome ∧ (l.tryLock level id t here).isSome ∧
      (l.handTo level id t here).isSome ∧ (l.unlock level id t).isSome := by
  have honLock := hg.onLock_isSome hk id (if level.capturesStacks then some here else none)
    level.capturesStacks
  refine ⟨settle_isSome hlevel honLock _, settle_isSome hlevel honLock _, ?_, ?_⟩
  · rw [handTo, observed_isSome hlevel]
    exact honLock
  · rw [unlock]
    split
    · rfl
    · obtain ⟨g, hunlock⟩ := hg.exists_onUnlock hk id
      rw [Option.isSome_map, LockOrder.Observer.onUnlock, if_neg (by simp [hlevel]),
        Option.isSome_map, hunlock]
      rfl

/-- While every list has an end, every call returns. -/
theorem Run.returns (h : Run level calls l) (hlevel : level.isEnabled = true) (hu : l.Untangled)
    (id : UInt64) (t : Tid) (here : CallStack) :
    (l.lock level id t here).isSome ∧ (l.tryLock level id t here).isSome ∧
      (l.handTo level id t here).isSome ∧ (l.unlock level id t).isSome ∧
      (l.observer.heldCount? t).isSome := by
  have hg := h.wellFormed hlevel
  obtain ⟨k, hk⟩ := (LockOrder.Graph.untangled_iff hg.inRange).1 hu t
  obtain ⟨hlock, htry, hhand, hunlock⟩ := returns_of_leads hlevel hg hk id here
  refine ⟨hlock, htry, hhand, hunlock, ?_⟩
  rw [LockOrder.Observer.heldCount?, Option.isSome_map, hg.inRange.held?_eq_some_iff.2 hk]
  rfl

/-- All lists have an end after every call exactly if no call of the run tangles one,
and while they have, neither a call nor a count of held locks runs forever. -/
theorem Run.lists_spec (h : Run level calls l) (hlevel : level.isEnabled = true) :
    (((∀ c ∈ calls, c.1.Untangled) ∧ l.Untangled) ↔
        ∀ c ∈ calls, ¬ c.1.observer.graph.Tangles (c.2.event level)) ∧
      (l.Untangled → ∀ id t here,
        (l.lock level id t here).isSome ∧ (l.tryLock level id t here).isSome ∧
          (l.handTo level id t here).isSome ∧ (l.unlock level id t).isSome ∧
          (l.observer.heldCount? t).isSome) :=
  ⟨h.untangled_iff hlevel, fun hu id t here => h.returns hlevel hu id t here⟩

/-- Thread 1 unlocks the mutex that thread 2 has locked, then locks and unlocks it
itself. -/
def foreignUnlock : List Act :=
  [.lock 0x1000 2 .empty, .unlock 0x1000 1, .lock 0x1000 1 .empty, .unlock 0x1000 1]

theorem lists_spec_foreignUnlock :
    ∃ calls l, play {} .enabled [] foreignUnlock = some (calls, l) ∧
      LockDebugLevel.enabled.isEnabled = true ∧
      (((∀ c ∈ calls, c.1.Untangled) ∧ l.Untangled) ↔
        ∀ c ∈ calls, ¬ c.1.observer.graph.Tangles (c.2.event .enabled)) ∧
      (l.Untangled → ∀ id t here,
        (l.lock .enabled id t here).isSome ∧ (l.tryLock .enabled id t here).isSome ∧
          (l.handTo .enabled id t here).isSome ∧ (l.unlock .enabled id t).isSome ∧
          (l.observer.heldCount? t).isSome) := by
  have hrun : (play {} .enabled [] foreignUnlock).isSome = true := by decide +kernel
  obtain ⟨⟨calls, l⟩, hplay⟩ := Option.isSome_iff_exists.1 hrun
  have h : Run .enabled calls l := (Run.fresh (by simp)).of_play hplay
  exact ⟨calls, l, hplay, rfl, h.lists_spec rfl⟩

/-- When thread 2 locks the mutex again, it is pushed onto the list it is still in. -/
theorem circle_after_foreignUnlock :
    ¬ ∀ level calls l, level.isEnabled = true → Run level calls l → l.Untangled := by
  intro hclaim
  have hrun : (play {} .enabled [] (foreignUnlock ++ [.lock 0x1000 2 .empty])).map
      (fun p => p.2.observer.graph.held? 2) = some none := by
    decide +kernel
  obtain ⟨⟨calls, l⟩, hplay, hnone⟩ := Option.map_eq_some_iff.1 hrun
  obtain ⟨held, hheld⟩ := hclaim .enabled calls l rfl ((Run.fresh (by simp)).of_play hplay) 2
  exact absurd (hheld.symm.trans hnone) (by simp)

end Threading.Locks
