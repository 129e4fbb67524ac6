import Threading.Proofs.LockOrder.ObservedMutexes
import Threading.Proofs.LockOrder.Tracking
import Threading.Proofs.Locks.Ownership

/-!
# Mutexes and their observer agree

A mutex and the observer keep track of its holder on their own, at different points of the
same call. As long as a normal mutex is unlocked by its holder only and threads exit without
locks, the two agree after every request of any thread, over mutexes of any kinds and at any
enabled level.
-/
namespace Threading.Locks

open LockOrder (Books CallStack Event Graph Lawful Ledger ledger)

/-! ## Requests -/

def Act.tid : Act → Tid
  | .lock _ t _ | .tryLock _ t _ | .resume _ t _ | .unlock _ t => t

def Act.mutex : Act → UInt64
  | .lock id _ _ | .tryLock id _ _ | .resume id _ _ | .unlock id _ => id

/-- What a thread does: a call on a mutex, or its exit. -/
inductive Request where
  | act (a : Act)
  | exit (t : Tid)

def Request.tid : Request → Tid
  | .act a => a.tid
  | .exit t => t

/-- What the observer is told of a request that succeeds. -/
def Request.event (level : LockDebugLevel) : Request → Event
  | .act a => a.event level
  | .exit t => .forget t

/-- Serves a request; there is no result if that never returns. A lock that had to wait is
acquired once the mutex is free. -/
def serve? (l : Locks) (level : LockDebugLevel) : Request → Option (Locks × Answer)
  | .act (.lock id t here) => (l.lock level id t here).map fun (l', answer, _) => (l', answer)
  | .act (.tryLock id t here) => (l.tryLock level id t here).map fun (l', answer, _) => (l', answer)
  | .act (.resume id t here) =>
    if (l.mutexes.get id).isLocked then some (l, .waits)
    else (l.handTo level id t here).map fun (l', _) => (l', .done (.ok ()))
  | .act (.unlock id t) => (l.unlock level id t).map fun (l', result) => (l', .done result)
  | .exit t => some ({ l with observer := l.observer.forget level t }, .done (.ok ()))

/-- A request that was served. -/
structure Served where
  before : Locks
  level : LockDebugLevel
  request : Request
  answer : Answer

/-- The requests that lead from fresh mutexes to a state, newest first. -/
inductive Session : List Served → Locks → Prop
  | fresh {mutexes : MutexTable} : (∀ p ∈ mutexes, p.2 = { kind := p.2.kind }) →
      Session [] { mutexes }
  | serve {served : List Served} {l l' : Locks} {level : LockDebugLevel} {r : Request}
      {answer : Answer} : Session served l → l.serve? level r = some (l', answer) →
      Session (⟨l, level, r, answer⟩ :: served) l'

/-- Serves requests one after the other, oldest first. -/
def serveAll (l : Locks) (served : List Served) :
    List (LockDebugLevel × Request) → Option (List Served × Locks)
  | [] => some (served, l)
  | (level, r) :: requests =>
    match l.serve? level r with
    | none => none
    | some (l', answer) => l'.serveAll (⟨l, level, r, answer⟩ :: served) requests

/-- The observer is told of a request if it succeeds. -/
def Served.event? (c : Served) : Option Event :=
  match c.answer with
  | .done (.ok ()) => some (c.request.event c.level)
  | _ => none

/-- What the observer was told, newest first. -/
def told (served : List Served) : List Event := served.filterMap (·.event?)

/-- The thread has locked the mutex and not unlocked it. -/
def Holds (l : Locks) (t : Tid) (id : UInt64) : Prop :=
  (l.mutexes.get id).isLocked = true ∧ (l.mutexes.get id).owner = t

/-- The observer is on and the thread has a number. Nobody unlocks a normal mutex that
another thread has locked, and nobody exits with a lock. -/
def Orderly (l : Locks) (level : LockDebugLevel) (r : Request) : Prop :=
  level.isEnabled = true ∧ r.tid ≠ 0 ∧
    match r with
    | .act (.unlock id t) => (l.mutexes.get id).kind = .normal →
        (l.mutexes.get id).isLocked = true → (l.mutexes.get id).owner = t
    | .exit t => ∀ id, ¬ l.Holds t id
    | _ => True

variable {l l' : Locks} {level : LockDebugLevel} {r : Request} {answer : Answer}
variable {served : List Served} {es : List Event} {t : Tid} {id : UInt64}

theorem Session.of_serveAll (h : Session served l) {requests : List (LockDebugLevel × Request)}
    {served' : List Served} (hserved : l.serveAll served requests = some (served', l')) :
    Session served' l' := by
  induction requests generalizing l served with
  | nil =>
    obtain ⟨rfl, rfl⟩ : served = served' ∧ l = l' := by simpa [serveAll] using hserved
    exact h
  | cons p requests ih =>
    rw [serveAll] at hserved
    split at hserved
    · exact absurd hserved (by simp)
    next l₁ answer hs => exact ih (h.serve hs) hserved

instance (l : Locks) (t : Tid) (id : UInt64) : Decidable (l.Holds t id) :=
  inferInstanceAs (Decidable (_ ∧ _))

/-- Only a mutex of the table is held. -/
theorem forall_not_holds_iff : (∀ id, ¬ l.Holds t id) ↔ ∀ p ∈ l.mutexes, ¬ l.Holds t p.1 := by
  refine ⟨fun h p _ => h p.1, fun h id hholds => ?_⟩
  cases hfind : l.mutexes.find? (·.1 = id) with
  | none =>
    have hget : l.mutexes.get id = {} := by rw [MutexTable.get, hfind]; rfl
    exact absurd hholds.1 (by rw [hget]; decide)
  | some p =>
    obtain rfl : p.1 = id := by simpa using List.find?_some hfind
    exact h p (List.mem_of_find?_eq_some hfind) hholds

instance (l : Locks) (level : LockDebugLevel) : (r : Request) → Decidable (l.Orderly level r)
  | .act (.unlock _ _) => inferInstanceAs (Decidable (_ ∧ _ ∧ (_ → _ → _)))
  | .exit t =>
    have : Decidable (∀ id, ¬ l.Holds t id) := decidable_of_iff' _ forall_not_holds_iff
    inferInstanceAs (Decidable (_ ∧ _ ∧ ∀ id, ¬ l.Holds t id))
  | .act (.lock ..) | .act (.tryLock ..) | .act (.resume ..) =>
    inferInstanceAs (Decidable (_ ∧ _ ∧ True))

/-! ## One request -/

theorem settle_cases {here : CallStack} {attempt : Mutex.Attempt} {notices : List LockOrder.Notice}
    (h : l.settle level id t here attempt = some (l', answer, notices)) :
    answer = .done (.ok ()) ∧ (∃ m, attempt = .granted m ∧ l'.mutexes = l.mutexes.set id m) ∨
      answer ≠ .done (.ok ()) ∧ l' = l := by
  cases attempt with
  | granted m =>
    obtain ⟨⟨l₁, notices₁⟩, hobs, heq⟩ := Option.map_eq_some_iff.1 h
    obtain ⟨rfl, hanswer⟩ := Prod.mk.inj heq
    obtain ⟨⟨o, outcome, notices₂⟩, -, hl⟩ := Option.map_eq_some_iff.1 hobs
    obtain ⟨rfl, -⟩ := Prod.mk.inj hl
    exact .inl ⟨(Prod.mk.inj hanswer).1.symm, m, rfl, rfl⟩
  | refused e =>
    obtain ⟨rfl, rfl, -⟩ : l = l' ∧ .done (.error e) = answer ∧ _ := by simpa [settle] using h
    exact .inr ⟨by simp, rfl⟩
  | waits =>
    obtain ⟨rfl, rfl, -⟩ : l = l' ∧ .waits = answer ∧ _ := by simpa [settle] using h
    exact .inr ⟨by simp, rfl⟩

/-- A request that fails or has to wait changes nothing, neither a mutex nor the observer. -/
theorem eq_of_serve? (h : l.serve? level r = some (l', answer)) (hne : answer ≠ .done (.ok ())) :
    l' = l := by
  have hsettle {id : UInt64} {t : Tid} {here : CallStack} {attempt : Mutex.Attempt}
      (h : (l.settle level id t here attempt).map (fun (l', answer, _) => (l', answer)) =
        some (l', answer)) : l' = l := by
    obtain ⟨⟨l₁, answer₁, notices⟩, hs, heq⟩ := Option.map_eq_some_iff.1 h
    obtain ⟨rfl, rfl⟩ := Prod.mk.inj heq
    exact ((settle_cases hs).resolve_left fun hok => hne hok.1).2
  rcases r with (⟨id, t, here⟩ | ⟨id, t, here⟩ | ⟨id, t, here⟩ | ⟨id, t⟩) | t
  · exact hsettle h
  · exact hsettle h
  · rw [serve?] at h
    split at h
    · exact (Prod.mk.inj (Option.some.inj h)).1.symm
    · obtain ⟨_, -, heq⟩ := Option.map_eq_some_iff.1 h
      exact absurd (Prod.mk.inj heq).2.symm hne
  · obtain ⟨⟨l₁, result⟩, hunlock, heq⟩ := Option.map_eq_some_iff.1 h
    obtain ⟨rfl, rfl⟩ := Prod.mk.inj heq
    rw [unlock] at hunlock
    split at hunlock
    · exact (Prod.mk.inj (Option.some.inj hunlock)).1.symm
    · obtain ⟨_, -, heq⟩ := Option.map_eq_some_iff.1 hunlock
      exact absurd (congrArg Answer.done (Prod.mk.inj heq).2.symm) hne
  · exact absurd (Prod.mk.inj (Option.some.inj h)).2.symm hne

theorem perform?_of_serve? {a : Act} (h : l.serve? level (.act a) = some (l', .done (.ok ()))) :
    l.perform? level a = some l' := by
  cases a with
  | lock id t here =>
    obtain ⟨⟨l₁, answer, notices⟩, hlock, heq⟩ := Option.map_eq_some_iff.1 h
    obtain ⟨rfl, rfl⟩ := Prod.mk.inj heq
    rw [perform?, hlock]
  | tryLock id t here =>
    obtain ⟨⟨l₁, answer, notices⟩, hlock, heq⟩ := Option.map_eq_some_iff.1 h
    obtain ⟨rfl, rfl⟩ := Prod.mk.inj heq
    rw [perform?, hlock]
  | resume id t here =>
    rw [serve?] at h
    rw [perform?]
    split at h
    · exact absurd h (by simp)
    next hfree =>
      obtain ⟨⟨l₁, notices⟩, hhand, heq⟩ := Option.map_eq_some_iff.1 h
      rw [if_neg hfree, hhand, Option.map_some, (Prod.mk.inj heq).1]
  | unlock id t =>
    obtain ⟨⟨l₁, result⟩, hunlock, heq⟩ := Option.map_eq_some_iff.1 h
    obtain ⟨rfl, hok⟩ := Prod.mk.inj heq
    obtain rfl := Answer.done.inj hok
    rw [perform?, hunlock]

/-- The observer is told of every request that succeeds. -/
theorem handle?_of_serve? (hlevel : level.isEnabled = true)
    (h : l.serve? level r = some (l', .done (.ok ()))) :
    ∃ outcome?, l.observer.graph.handle? (r.event level) = some (l'.observer.graph, outcome?) := by
  cases r with
  | act a => exact handle?_of_perform? hlevel (perform?_of_serve? h)
  | exit t =>
    obtain ⟨rfl, -⟩ := Prod.mk.inj (Option.some.inj h)
    refine ⟨none, Graph.handle?_forget_iff.2 ⟨rfl, ?_⟩⟩
    simp [LockOrder.Observer.forget, hlevel]

/-- What a request that succeeds does to the mutexes. -/
inductive Succeeds (l l' : Locks) : Request → Prop
  | acquired {a : Act} {m' : Mutex} : (∀ id t, a ≠ .unlock id t) →
      (l.mutexes.get a.mutex).Acquires a.tid m' → l'.mutexes = l.mutexes.set a.mutex m' →
      Succeeds l l' (.act a)
  | unlocked {id : UInt64} {t : Tid} {m' : Mutex} : (l.mutexes.get id).unlock t = .ok m' →
      l'.mutexes = l.mutexes.set id m' → Succeeds l l' (.act (.unlock id t))
  | exited {t : Tid} : l'.mutexes = l.mutexes → Succeeds l l' (.exit t)

theorem succeeds_of_serve? (h : l.serve? level r = some (l', .done (.ok ()))) :
    l.Succeeds l' r := by
  have hsettle {id : UInt64} {t : Tid} {here : CallStack} {attempt : Mutex.Attempt}
      (h : (l.settle level id t here attempt).map (fun (l', answer, _) => (l', answer)) =
        some (l', .done (.ok ()))) :
      ∃ m, attempt = .granted m ∧ l'.mutexes = l.mutexes.set id m := by
    obtain ⟨⟨l₁, answer₁, notices⟩, hs, heq⟩ := Option.map_eq_some_iff.1 h
    obtain ⟨rfl, rfl⟩ := Prod.mk.inj heq
    exact ((settle_cases hs).resolve_right fun hno => hno.1 rfl).2
  rcases r with (⟨id, t, here⟩ | ⟨id, t, here⟩ | ⟨id, t, here⟩ | ⟨id, t⟩) | t
  · obtain ⟨m, hgranted, hset⟩ := hsettle h
    exact .acquired (by simp) (Mutex.acquires_of_lock hgranted) hset
  · obtain ⟨m, hgranted, hset⟩ := hsettle h
    exact .acquired (by simp) (Mutex.acquires_of_tryLock hgranted) hset
  · rw [serve?] at h
    split at h
    · exact absurd h (by simp)
    next hfree =>
      obtain ⟨⟨l₁, notices⟩, hhand, heq⟩ := Option.map_eq_some_iff.1 h
      obtain ⟨⟨o, outcome, notices'⟩, -, hl⟩ := Option.map_eq_some_iff.1 hhand
      obtain ⟨rfl, -⟩ := Prod.mk.inj hl
      obtain ⟨rfl, -⟩ := Prod.mk.inj heq
      exact .acquired (by simp) (Mutex.acquires_handTo (by simpa [Act.mutex] using hfree) t) rfl
  · obtain ⟨⟨l₁, result⟩, hunlock, heq⟩ := Option.map_eq_some_iff.1 h
    obtain ⟨rfl, hok⟩ := Prod.mk.inj heq
    obtain rfl := Answer.done.inj hok
    rw [unlock] at hunlock
    split at hunlock
    · exact absurd hunlock (by simp)
    next m hm =>
      obtain ⟨o, -, heq⟩ := Option.map_eq_some_iff.1 hunlock
      obtain ⟨rfl, -⟩ := Prod.mk.inj heq
      exact .unlocked hm rfl
  · obtain ⟨rfl, -⟩ := Prod.mk.inj (Option.some.inj h)
    exact .exited rfl

/-- What an orderly request that succeeds does to the mutexes. -/
inductive Changes (l l' : Locks) : Event → Prop
  | acquired {id : UInt64} {t : Tid} {stack : Option CallStack} {capture : Bool} {m' : Mutex} :
      t ≠ 0 → (l.mutexes.get id).Acquires t m' → l'.mutexes = l.mutexes.set id m' →
      Changes l l' (.lock id t stack capture)
  | released {id : UInt64} {t : Tid} {m' : Mutex} : t ≠ 0 → (l.mutexes.get id).Releases t m' →
      l'.mutexes = l.mutexes.set id m' → Changes l l' (.unlock id t)
  | exited {t : Tid} : t ≠ 0 → (∀ id, ¬ l.Holds t id) → l'.mutexes = l.mutexes →
      Changes l l' (.forget t)

theorem changes_of_serve? (ho : l.Orderly level r)
    (h : l.serve? level r = some (l', .done (.ok ()))) : l.Changes l' (r.event level) := by
  obtain ⟨-, ht, hr⟩ := ho
  cases succeeds_of_serve? h with
  | @acquired a m' hnot hacquires hset =>
    cases a with
    | unlock id t => exact absurd rfl (hnot id t)
    | _ => exact .acquired ht hacquires hset
  | unlocked hunlock hset => exact .released ht (Mutex.releases_of_unlock hunlock hr) hset
  | exited hsame => exact .exited ht hr hsame

/-! ## Every session -/

/-- The observer keeps the ledgers of what it was told, and they match the mutexes. -/
structure Agreeing (l : Locks) (es : List Event) : Prop where
  books : Books es l.observer.graph
  lawful : Lawful es
  sound : ∀ id, (l.mutexes.get id).Sound
  table : l.mutexes.Matches fun t => ledger ℕ t es

namespace Agreeing

theorem free_iff (h : l.Agreeing es) :
    (∀ t, id ∉ (ledger ℕ t es).mutexes) ↔ (l.mutexes.get id).isLocked = false := by
  rw [← Bool.not_eq_true, (h.sound id).isLocked_iff, not_not]
  simp only [h.table.mem_mutexes_iff]
  constructor
  · intro hnot
    by_contra hne
    exact hnot _ ⟨hne, rfl⟩
  · rintro howner t ⟨ht, rfl⟩
    exact ht howner

/-- The ledgers admit what the mutexes grant. -/
theorem lawful_cons (h : l.Agreeing es) {e : Event} (hc : l.Changes l' e) : Lawful (e :: es) := by
  refine ⟨?_, h.lawful⟩
  cases hc with
  | @acquired id t stack capture m' ht ha hset =>
    refine ⟨ht, ?_⟩
    generalize hm : l.mutexes.get id = m at ha
    cases ha with
    | first hfree _ =>
      have hnot := h.free_iff.2 (hm ▸ hfree)
      exact ⟨.inl hnot, fun x hx heq => absurd (Ledger.mem_mutexes.2 ⟨x, hx, heq⟩) (hnot t)⟩
    | again _ howner hdepth =>
      refine ⟨.inr (h.table.mem_mutexes_iff.2 ⟨ht, hm ▸ howner⟩), ?_⟩
      rintro ⟨id', c⟩ hx heq
      obtain rfl : id' = id := heq
      obtain ⟨-, -, hcount⟩ := (h.table t id' c).1 hx
      have hlt := m.depth.toNat_lt
      have hne : m.depth.toNat ≠ 2 ^ 32 - 1 := fun heq => hdepth (UInt32.toNat_inj.1 heq)
      rw [hm] at hcount
      simp only at hcount ⊢
      omega
  | released ht => exact ⟨ht, trivial⟩
  | exited ht => exact ⟨ht, trivial⟩

theorem sound_of_changes (h : l.Agreeing es) {e : Event} (hc : l.Changes l' e) (id : UInt64) :
    (l'.mutexes.get id).Sound := by
  have hset {id' : UInt64} {m' : Mutex} (hset : l'.mutexes = l.mutexes.set id' m')
      (hm' : m'.Sound) : (l'.mutexes.get id).Sound := by
    rw [hset]
    by_cases hid : id = id'
    · rwa [hid, MutexTable.get_set_self]
    · rw [MutexTable.get_set_of_ne _ _ hid]
      exact h.sound id
  cases hc with
  | acquired ht ha heq => exact hset heq ((h.sound _).acquires ht ha)
  | released _ hr heq => exact hset heq ((h.sound _).releases hr)
  | exited _ _ hsame => exact hsame ▸ h.sound id

theorem table_of_changes (h : l.Agreeing es) {e : Event} (hc : l.Changes l' e) :
    l'.mutexes.Matches fun t => ledger ℕ t (e :: es) := by
  simp only [LockOrder.ledger_cons]
  cases hc with
  | @acquired id t stack capture m' ht ha hset => exact hset ▸ h.table.acquires (h.sound id) ht ha
  | released ht hr hset => exact hset ▸ h.table.releases ht hr
  | @exited t ht hno hsame =>
    rw [hsame]
    intro t' id c
    by_cases htt : t' = t
    · rw [← h.table t' id c, htt]
      refine iff_of_false (by simp [Event.tid, Ledger.settle]) fun hmem => ?_
      obtain ⟨-, howner, -⟩ := (h.table t id c).1 hmem
      exact hno id ⟨(h.sound id).2 (howner ▸ ht), howner⟩
    · rw [← h.table t' id c]
      simp [Event.tid, htt]

theorem succeed (h : l.Agreeing es) (ho : l.Orderly level r)
    (hs : l.serve? level r = some (l', .done (.ok ()))) : l'.Agreeing (r.event level :: es) := by
  obtain ⟨outcome?, hhandle⟩ := handle?_of_serve? ho.1 hs
  have hc := changes_of_serve? ho hs
  have hlawful := h.lawful_cons hc
  exact ⟨h.books.step hlawful.disciplined.1 hhandle, hlawful, h.sound_of_changes hc,
    h.table_of_changes hc⟩

end Agreeing

/-- Every mutex of fresh mutexes is fresh. -/
theorem exists_get_eq_fresh {mutexes : MutexTable}
    (hfresh : ∀ p ∈ mutexes, p.2 = { kind := p.2.kind }) (id : UInt64) :
    ∃ kind, mutexes.get id = { kind } := by
  rw [MutexTable.get]
  cases hfind : mutexes.find? (·.1 = id) with
  | none => exact ⟨.normal, rfl⟩
  | some p => exact ⟨_, hfresh p (List.mem_of_find?_eq_some hfind)⟩

/-- In an orderly session the observer and the mutexes agree. -/
theorem Session.agreeing (h : Session served l)
    (ho : ∀ c ∈ served, c.before.Orderly c.level c.request) : l.Agreeing (told served) := by
  induction h with
  | @fresh mutexes hfresh =>
    refine ⟨LockOrder.books_nil, trivial, fun id => ?_, fun t id c => ?_⟩ <;>
      obtain ⟨kind, hkind⟩ := exists_get_eq_fresh hfresh id
    · exact hkind ▸ Mutex.sound_fresh kind
    · rw [hkind]
      exact iff_of_false List.not_mem_nil fun hmem => hmem.1 hmem.2.1.symm
  | @serve served l l' level r answer hsession hs ih =>
    have hold := ih fun c hc => ho c (List.mem_cons_of_mem _ hc)
    by_cases hok : answer = .done (.ok ())
    · subst hok
      exact hold.succeed (ho _ List.mem_cons_self) hs
    · have hnone : Served.event? ⟨l, level, r, answer⟩ = none := by
        rw [Served.event?]
        split
        next hanswer => exact absurd hanswer hok
        · rfl
      rw [told, List.filterMap_cons_none hnone, eq_of_serve? hs hok]
      exact hold

/-- The mutexes and the observer say the same, and the lists of held locks are those of the
books. -/
structure Agrees (l : Locks) (books : Tid → Ledger ℕ) : Prop where
  locked : ∀ id, (l.mutexes.get id).isLocked = true ↔ ∃! t, l.observer.graph.Holds t id
  unlocked : ∀ id, (l.mutexes.get id).isLocked = false ↔ ∀ t, ¬ l.observer.graph.Holds t id
  holder : ∀ t id, l.observer.graph.Holds t id → (l.mutexes.get id).owner = t ∧
    ∃ i, l.observer.graph.findNode? id = some i ∧ (l.observer.graph.node i).owner = t ∧
      (l.observer.graph.node i).count = (l.mutexes.get id).depth
  lists : ∀ t, l.observer.graph.heldBy? t = some (books t).mutexes

theorem Agreeing.agrees (h : l.Agreeing es) : l.Agrees fun t => ledger ℕ t es := by
  have htracks := h.books.tracks h.lawful
  have hholds (t : Tid) (id : UInt64) : l.observer.graph.Holds t id ↔
      t ≠ 0 ∧ (l.mutexes.get id).owner = t := by
    rw [h.books.holds_iff, ← Ledger.mutexes_toNat, h.lawful.toNat_ledger, h.table.mem_mutexes_iff]
  refine ⟨fun id => ?_, fun id => ?_, fun t id hheld => ?_, htracks.heldBy⟩
  · rw [(h.sound id).isLocked_iff]
    constructor
    · intro hne
      exact ⟨_, (hholds _ id).2 ⟨hne, rfl⟩, fun t ht => ((hholds t id).1 ht).2.symm⟩
    · rintro ⟨t, ht, -⟩
      obtain ⟨hne, rfl⟩ := (hholds t id).1 ht
      exact hne
  · rw [← h.free_iff]
    simp only [hholds, h.table.mem_mutexes_iff]
  · obtain ⟨ht, howner⟩ := (hholds t id).1 hheld
    obtain ⟨k, hk⟩ := h.books.stacked t
    have hmem : _ ∈ ledger ℕ t es := (h.table t id _).2 ⟨ht, howner, rfl⟩
    rw [← h.lawful.toNat_ledger, ← h.books.entries t k hk, Ledger.toNat, List.map_map,
      List.mem_map] at hmem
    obtain ⟨i, hi, heq⟩ := hmem
    obtain ⟨rfl, hcount⟩ := LockOrder.Holding.mk.inj heq
    have hg := h.books.wellFormed
    exact ⟨howner, i, hg.indexed.findNode?_eq_some_iff.2 ⟨hk.lt hg.inRange i hi, rfl⟩,
      ((hk.mem_iff i).1 hi).2, UInt32.toNat_inj.1 hcount⟩

/-- While they agree, every request is served. -/
theorem Agreeing.exists_serve? (h : l.Agreeing es) (hlevel : level.isEnabled = true) (r : Request) :
    ∃ l' answer, l.serve? level r = some (l', answer) := by
  have hreturns (id : UInt64) (t : Tid) (here : CallStack) :
      (l.lock level id t here).isSome ∧ (l.tryLock level id t here).isSome ∧
        (l.handTo level id t here).isSome ∧ (l.unlock level id t).isSome := by
    obtain ⟨k, hk⟩ := h.books.stacked t
    exact returns_of_leads hlevel h.books.wellFormed hk.leads id here
  have hsome : (l.serve? level r).isSome := by
    rcases r with (⟨id, t, here⟩ | ⟨id, t, here⟩ | ⟨id, t, here⟩ | ⟨id, t⟩) | t
    · simpa [serve?] using (hreturns id t here).1
    · simpa [serve?] using (hreturns id t here).2.1
    · rw [serve?]
      split
      · rfl
      · simpa using (hreturns id t here).2.2.1
    · simpa [serve?] using (hreturns id t .empty).2.2.2
    · rfl
  obtain ⟨⟨l', answer⟩, heq⟩ := Option.isSome_iff_exists.1 hsome
  exact ⟨l', answer, heq⟩

/-- After every request of an orderly session, the locked mutexes are those that are in the
list of exactly one thread, their owner; owners and depths are the same on both sides, and
the lists are in the order of first acquisition. A request that fails or waits changes
neither side, and every request is served. -/
theorem Session.observer_agrees (h : Session served l)
    (ho : ∀ c ∈ served, c.before.Orderly c.level c.request) :
    l.Agrees (fun t => ledger ℕ t (told served)) ∧
      ∀ level r, l.Orderly level r → ∃ l' answer, l.serve? level r = some (l', answer) ∧
        (answer ≠ .done (.ok ()) → l' = l) := by
  have hag := h.agreeing ho
  refine ⟨hag.agrees, fun level r hr => ?_⟩
  obtain ⟨l', answer, hs⟩ := hag.exists_serve? hr.1 r
  exact ⟨l', answer, hs, eq_of_serve? hs⟩

/-- Two threads use a recursive, a normal and an error-checking mutex: a further acquisition,
a busy mutex, a wait, a refused relock and a foreign unlock; then one of them exits. -/
def threeKinds : List (LockDebugLevel × Request) :=
  [(.enabled, .act (.lock 0x1000 1 .empty)), (.captureCallStacks, .act (.lock 0x1000 1 .empty)),
    (.enabled, .act (.tryLock 0x1000 2 .empty)), (.enabled, .act (.lock 0x2000 1 .empty)),
    (.enabled, .act (.lock 0x2000 2 .empty)), (.enabled, .act (.unlock 0x1000 1)),
    (.enabled, .act (.unlock 0x2000 1)), (.enabled, .act (.resume 0x2000 2 .empty)),
    (.enabled, .act (.lock 0x3000 2 .empty)), (.enabled, .act (.lock 0x3000 2 .empty)),
    (.enabled, .act (.unlock 0x3000 1)), (.enabled, .act (.unlock 0x1000 1)), (.enabled, .exit 1)]

theorem observer_agrees_threeKinds :
    ∃ served l, serveAll { mutexes := [(0x1000, { kind := .recursive }), (0x2000, {}),
        (0x3000, { kind := .errorCheck })] } [] threeKinds = some (served, l) ∧
      (∀ c ∈ served, c.before.Orderly c.level c.request) ∧
      l.observer.graph.heldBy? 2 = some [0x3000, 0x2000] ∧
      l.Agrees (fun t => ledger ℕ t (told served)) ∧
      ∀ level r, l.Orderly level r → ∃ l' answer, l.serve? level r = some (l', answer) ∧
        (answer ≠ .done (.ok ()) → l' = l) := by
  have hrun : (serveAll { mutexes := [(0x1000, { kind := .recursive }), (0x2000, {}),
      (0x3000, { kind := .errorCheck })] } [] threeKinds).map (fun p =>
        (p.1.all (fun c => decide (c.before.Orderly c.level c.request)),
          p.2.observer.graph.heldBy? 2)) = some (true, some [0x3000, 0x2000]) := by
    decide +kernel
  obtain ⟨⟨served, l⟩, hserved, hfacts⟩ := Option.map_eq_some_iff.1 hrun
  obtain ⟨hall, hheld⟩ := Prod.mk.inj hfacts
  have ho : ∀ c ∈ served, c.before.Orderly c.level c.request := by
    simpa only [List.all_eq_true, decide_eq_true_eq] using hall
  have h : Session served l := (Session.fresh (by decide)).of_serveAll hserved
  exact ⟨served, l, hserved, ho, hheld, h.observer_agrees ho⟩

end Threading.Locks
