import Threading.Proofs.Locks.Agreement

/-!
# The three kinds of mutexes

What a mutex answers is fixed by its kind and by the acquisitions that last: those of the
calls so far that no unlock has ended. An unlock ends an acquisition of the caller, and on a
normal mutex, if the caller has none, the acquisition of another thread. Word, owner and
depth represent these acquisitions; the owner that a foreign unlock leaves behind does not
count, since nothing reads the owner of a normal mutex that is free.
-/
namespace Threading

namespace Mutex

variable {m m' : Mutex} {t : Tid}

/-- The acquisitions that last, as the mutex represents them. -/
def holders (m : Mutex) : List Tid :=
  if m.isLocked then List.replicate (m.depth.toNat + 1) m.owner else []

/-- A mutex has an owner while it is locked. One that is free may have an owner only if it is
normal, and only a recursive one counts. -/
structure Steady (m : Mutex) : Prop where
  owned : m.isLocked = true → m.owner ≠ 0
  unowned : m.kind ≠ .normal → m.isLocked = false → m.owner = 0
  shallow : m.kind ≠ .recursive → m.depth = 0

theorem steady_fresh (kind : MutexKind) : Steady { kind } :=
  ⟨by simp [isLocked, Futex.Mutex.isLocked], fun _ _ => rfl, fun _ => rfl⟩

theorem isLocked_acquiredBy {word : UInt32} (hword : word ≠ 0) :
    (m.acquiredBy t word).isLocked = true := by
  simpa [isLocked, Futex.Mutex.isLocked, acquiredBy] using hword

theorem holders_of_isLocked (h : m.isLocked = true) :
    m.holders = m.owner :: List.replicate m.depth.toNat m.owner := by
  simp [holders, h, List.replicate_succ]

theorem holders_recounted (h : m.isLocked = true) (depth : UInt32) :
    holders { m with depth } = m.owner :: List.replicate depth.toNat m.owner :=
  holders_of_isLocked h

@[simp] theorem holders_eq_nil_iff : m.holders = [] ↔ m.isLocked = false := by
  cases h : m.isLocked <;> simp [holders, h]

@[simp] theorem mem_holders : t ∈ m.holders ↔ m.isLocked = true ∧ t = m.owner := by
  cases h : m.isLocked <;> simp [holders, h]

theorem length_holders (h : m.isLocked = true) : m.holders.length = m.depth.toNat + 1 := by
  simp [holders_of_isLocked h]

namespace Steady

/-! ## Acquisitions and unlocks -/

theorem isLocked_of_owner (h : m.Steady) (ht : t ≠ 0) (hkind : m.kind ≠ .normal)
    (howner : m.owner = t) : m.isLocked = true := by
  by_contra hfree
  exact ht (howner ▸ h.unowned hkind (by simpa using hfree))

theorem acquires (h : m.Steady) (ht : t ≠ 0) (ha : m.Acquires t m') :
    m'.Steady ∧ m'.holders = t :: m.holders ∧ m'.kind = m.kind := by
  cases ha with
  | @first word hfree hword =>
    have hlocked : (m.acquiredBy t word).isLocked = true := isLocked_acquiredBy hword
    refine ⟨⟨fun _ => ht, fun _ hnot => ?_, fun _ => rfl⟩, ?_, rfl⟩
    · exact absurd hlocked (by simp [hnot])
    · rw [holders_of_isLocked hlocked, holders_eq_nil_iff.2 hfree]
      rfl
  | again hkind howner hdepth =>
    have hlocked := h.isLocked_of_owner ht (by simp [hkind]) howner
    refine ⟨⟨h.owned, h.unowned, fun hnot => absurd hkind hnot⟩, ?_, rfl⟩
    rw [holders_recounted hlocked, holders_of_isLocked hlocked, toNat_depth_add_one hdepth, howner,
      List.replicate_succ]

theorem isLocked_of_unlock (h : m.Steady) (ht : t ≠ 0) (hunlock : m.unlock t = .ok m') :
    m.isLocked = true := by
  rcases releases_or_foreign_of_unlock hunlock with hr | ⟨-, hlocked, -⟩
  · by_cases hkind : m.kind = .normal
    · by_contra hfree
      simp [unlock, hkind, hfree] at hunlock
    · exact h.isLocked_of_owner ht hkind (by cases hr <;> assumption)
  · exact hlocked

theorem unlocks (h : m.Steady) (ht : t ≠ 0) (hunlock : m.unlock t = .ok m') :
    m'.Steady ∧ m'.holders = (if t ∈ m.holders then m.holders.erase t else m.holders.tail) ∧
      m'.kind = m.kind := by
  have hlocked := h.isLocked_of_unlock ht hunlock
  rcases releases_or_foreign_of_unlock hunlock with hr | ⟨hkind, -, hne, rfl⟩
  · cases hr with
    | further howner hdepth =>
      obtain ⟨n, hn⟩ : ∃ n, m.depth.toNat = n + 1 :=
        Nat.exists_eq_succ_of_ne_zero fun heq => hdepth (UInt32.toNat_inj.1 heq)
      refine ⟨⟨h.owned, h.unowned, fun hkind => absurd (h.shallow hkind) hdepth⟩, ?_, rfl⟩
      rw [if_pos (mem_holders.2 ⟨hlocked, howner.symm⟩), holders_recounted hlocked,
        holders_of_isLocked hlocked, toNat_depth_sub_one hdepth, hn, howner, List.erase_cons_head]
      rfl
    | last howner hdepth =>
      refine ⟨⟨by simp [isLocked, Futex.Mutex.isLocked], fun _ _ => rfl, fun _ => hdepth⟩, ?_, rfl⟩
      rw [if_pos (mem_holders.2 ⟨hlocked, howner.symm⟩), holders_of_isLocked hlocked, howner,
        List.erase_cons_head, hdepth]
      rfl
  · have hdepth : m.depth = 0 := h.shallow (by simp [hkind])
    refine ⟨⟨by simp [isLocked, Futex.Mutex.isLocked], fun hnot => absurd hkind hnot,
      fun _ => hdepth⟩, ?_, rfl⟩
    rw [if_neg fun hmem => hne (mem_holders.1 hmem).2.symm, holders_of_isLocked hlocked, hdepth]
    rfl

end Steady
end Mutex

namespace Locks

open LockOrder (CallStack)

/-- What a caller learns of an attempt. -/
def Answer.of : Mutex.Attempt → Answer
  | .granted _ => .done (.ok ())
  | .refused e => .done (.error e)
  | .waits => .waits

/-! ## What a mutex has to answer -/

/-- The answer to the thread that made all `count` acquisitions and locks the mutex again. -/
def relockAnswer (count : ℕ) : MutexKind → Answer
  | .normal => .waits
  | .recursive =>
    if count = 2 ^ 32 then .done (.error (.resourceExhausted "recursion depth"))
    else .done (.ok ())
  | .errorCheck => .done (.error .deadlock)

/-- The answer to a thread that locks a mutex. -/
def lockAnswer (kind : MutexKind) (holders : List Tid) (t : Tid) : Answer :=
  if holders = [] then .done (.ok ())
  else if t ∈ holders then relockAnswer holders.length kind
  else .waits

/-- The answer to an attempt: where locking would wait, or wait for the caller itself, the
mutex is busy. -/
def tryLockAnswer (kind : MutexKind) (holders : List Tid) (t : Tid) : Answer :=
  match lockAnswer kind holders t with
  | .waits | .done (.error .deadlock) => .done (.error .busy)
  | answer => answer

/-- The answer to a thread that unlocks a mutex. -/
def unlockAnswer (kind : MutexKind) (holders : List Tid) (t : Tid) : Answer :=
  match kind with
  | .normal => if holders = [] then .done (.error .notOwner) else .done (.ok ())
  | .recursive | .errorCheck =>
    if t ∈ holders then .done (.ok ()) else .done (.error .notOwner)

/-- The answer to a call on a mutex of a kind. -/
def Act.dueAnswer (kind : MutexKind) (holders : List Tid) : Act → Answer
  | .lock _ t _ => lockAnswer kind holders t
  | .tryLock _ t _ => tryLockAnswer kind holders t
  | .resume .. => if holders = [] then .done (.ok ()) else .waits
  | .unlock _ t => unlockAnswer kind holders t

def Act.isUnlock : Act → Bool
  | .unlock .. => true
  | _ => false

@[simp] theorem Act.isUnlock_lock (id : UInt64) (t : Tid) (here : CallStack) :
    (Act.lock id t here).isUnlock = false := rfl

@[simp] theorem Act.isUnlock_tryLock (id : UInt64) (t : Tid) (here : CallStack) :
    (Act.tryLock id t here).isUnlock = false := rfl

@[simp] theorem Act.isUnlock_resume (id : UInt64) (t : Tid) (here : CallStack) :
    (Act.resume id t here).isUnlock = false := rfl

@[simp] theorem Act.isUnlock_unlock (id : UInt64) (t : Tid) :
    (Act.unlock id t).isUnlock = true := rfl

/-- The acquisitions that last after a successful call. -/
def Act.settle : Act → List Tid → List Tid
  | .lock _ t _, holders | .tryLock _ t _, holders | .resume _ t _, holders => t :: holders
  | .unlock _ t, holders => if t ∈ holders then holders.erase t else holders.tail

/-- An unlock ends one acquisition. -/
theorem length_settle_unlock {holders : List Tid} (h : holders ≠ []) (id : UInt64) (t : Tid) :
    (Act.settle (.unlock id t) holders).length + 1 = holders.length := by
  have hpos := List.length_pos_of_ne_nil h
  rw [Act.settle]
  split
  next hmem =>
    rw [List.length_erase_of_mem hmem]
    omega
  · rw [List.length_tail]
    omega

/-- The call, if it is one on the mutex and succeeded. -/
def Served.success? (id : UInt64) (c : Served) : Option Act :=
  match c.request, c.answer with
  | .act a, .done (.ok ()) => if a.mutex = id then some a else none
  | _, _ => none

/-- The calls on a mutex that succeeded, newest first. -/
def successes (id : UInt64) (served : List Served) : List Act :=
  served.filterMap (·.success? id)

/-- The acquisitions of a mutex that last, by the thread that made each. -/
def holders (id : UInt64) (served : List Served) : List Tid :=
  (successes id served).foldr Act.settle []

end Locks

/-! ## What it answers -/

namespace Mutex.Steady

open Locks (Answer lockAnswer tryLockAnswer unlockAnswer)

variable {m m' : Mutex} {t : Tid}

theorem relock?_eq_none (h : m.Steady) (ht : t ≠ 0) (hnot : m.kind ≠ .normal → t ∉ m.holders) :
    m.relock? t = none := by
  rw [relock?]
  split
  · rfl
  next howner =>
    cases hkind : m.kind with
    | normal => rfl
    | _ =>
      have hne : m.kind ≠ .normal := by simp [hkind]
      have hlocked := h.isLocked_of_owner ht hne (not_not.1 howner)
      exact absurd (mem_holders.2 ⟨hlocked, (not_not.1 howner).symm⟩) (hnot hne)

theorem relock?_holder (hmem : t ∈ m.holders) (hne : m.kind ≠ .normal) :
    ∃ attempt, m.relock? t = some attempt ∧ attempt ≠ .waits ∧
      .of attempt = lockAnswer m.kind m.holders t := by
  obtain ⟨hlocked, rfl⟩ := mem_holders.1 hmem
  have hlength : m.holders.length = 2 ^ 32 ↔ m.depth = maxDepth := by
    rw [length_holders hlocked, ← UInt32.toNat_inj]
    exact Nat.succ_inj (a := m.depth.toNat) (b := 2 ^ 32 - 1)
  rw [relock?, if_neg (not_not.2 rfl), lockAnswer, if_neg (List.ne_nil_of_mem hmem), if_pos hmem]
  cases hkind : m.kind with
  | normal => exact absurd hkind hne
  | errorCheck => exact ⟨_, rfl, by simp, rfl⟩
  | recursive =>
    simp only [Locks.relockAnswer, hlength]
    split
    · exact ⟨_, rfl, by simp, rfl⟩
    · exact ⟨_, rfl, by simp, rfl⟩

/-- Where no relock decides, a mutex is acquired if it is free and waited for if it is not. -/
theorem lockAnswer_eq (hnot : m.kind ≠ .normal → t ∉ m.holders) :
    lockAnswer m.kind m.holders t = if m.isLocked then .waits else .done (.ok ()) := by
  cases hlocked : m.isLocked with
  | false => simp [lockAnswer, hlocked]
  | true =>
    have hne : m.holders ≠ [] := by simp [hlocked]
    rw [lockAnswer, if_neg hne]
    split
    next hmem =>
      cases hkind : m.kind with
      | normal => rfl
      | _ => exact absurd hmem (hnot (by simp [hkind]))
    · rfl

theorem answer_lock (h : m.Steady) (ht : t ≠ 0) :
    .of (m.lock t) = lockAnswer m.kind m.holders t := by
  by_cases hrelock : m.kind ≠ .normal ∧ t ∈ m.holders
  · obtain ⟨attempt, heq, -, hanswer⟩ := relock?_holder hrelock.2 hrelock.1
    rw [← hanswer, lock, heq]
  · have hnot : m.kind ≠ .normal → t ∉ m.holders := not_and.1 hrelock
    rw [lock_eq (h.relock?_eq_none ht hnot), lockAnswer_eq hnot]
    split <;> rfl

theorem answer_tryLock (h : m.Steady) (ht : t ≠ 0) :
    .of (m.tryLock t) = tryLockAnswer m.kind m.holders t := by
  by_cases hrelock : m.kind ≠ .normal ∧ t ∈ m.holders
  · obtain ⟨attempt, heq, hwaits, hanswer⟩ := relock?_holder hrelock.2 hrelock.1
    rw [tryLockAnswer, ← hanswer, tryLock, heq]
    cases attempt with
    | granted m' => rfl
    | refused e => cases e <;> rfl
    | waits => exact absurd rfl hwaits
  · have hnot : m.kind ≠ .normal → t ∉ m.holders := not_and.1 hrelock
    rw [tryLock_eq (h.relock?_eq_none ht hnot), tryLockAnswer, lockAnswer_eq hnot]
    cases m.isLocked <;> rfl

theorem exists_unlock (hnormal : m.kind = .normal → m.isLocked = true)
    (hother : m.kind ≠ .normal → m.owner = t) : ∃ m', m.unlock t = .ok m' := by
  rw [unlock, if_neg fun hnot => hnot.2 (hother hnot.1), if_neg fun hnot => hnot.2 (hnormal hnot.1)]
  split <;> exact ⟨_, rfl⟩

theorem answer_unlock (h : m.Steady) (ht : t ≠ 0) :
    .done ((m.unlock t).map fun _ => ()) = unlockAnswer m.kind m.holders t := by
  by_cases hkind : m.kind = .normal
  · cases hlocked : m.isLocked with
    | false => simp [unlock, unlockAnswer, hkind, hlocked, Except.map]
    | true =>
      obtain ⟨m', hok⟩ := exists_unlock (t := t) (fun _ => hlocked) (fun hne => absurd hkind hne)
      simp [unlockAnswer, hkind, hlocked, hok, Except.map]
  · have hanswer : unlockAnswer m.kind m.holders t =
        if t ∈ m.holders then .done (.ok ()) else .done (.error .notOwner) := by
      cases hk : m.kind with
      | normal => exact absurd hk hkind
      | _ => rfl
    rw [hanswer]
    by_cases howner : m.owner = t
    · obtain ⟨m', hok⟩ := exists_unlock (fun hk => absurd hk hkind) fun _ => howner
      rw [if_pos (mem_holders.2 ⟨h.isLocked_of_owner ht hkind howner, howner.symm⟩), hok]
      rfl
    · rw [if_neg fun hmem => howner (mem_holders.1 hmem).2.symm, unlock, if_pos ⟨hkind, howner⟩]
      rfl

end Mutex.Steady

/-! ## Every session -/

namespace Locks

open LockOrder (CallStack Notice)

/-- The answer of a mutex to a call. -/
def Act.answer (m : Mutex) : Act → Answer
  | .lock _ t _ => .of (m.lock t)
  | .tryLock _ t _ => .of (m.tryLock t)
  | .resume .. => if m.isLocked then .waits else .done (.ok ())
  | .unlock _ t => .done ((m.unlock t).map fun _ => ())

variable {l l' : Locks} {level : LockDebugLevel} {answer : Answer} {served : List Served}
variable {id : UInt64}

theorem answer_eq_dueAnswer {m : Mutex} (h : m.Steady) (a : Act) (ht : a.tid ≠ 0) :
    a.answer m = a.dueAnswer m.kind m.holders := by
  cases a with
  | lock => exact h.answer_lock ht
  | tryLock => exact h.answer_tryLock ht
  | resume =>
    cases hlocked : m.isLocked <;> simp [Act.answer, Act.dueAnswer, hlocked]
  | unlock => exact h.answer_unlock ht

theorem answer_of_settle {t : Tid} {here : CallStack} {attempt : Mutex.Attempt}
    {notices : List Notice} (h : l.settle level id t here attempt = some (l', answer, notices)) :
    answer = .of attempt := by
  cases attempt with
  | granted m =>
    obtain ⟨⟨l₁, notices₁⟩, -, heq⟩ := Option.map_eq_some_iff.1 h
    exact (Prod.mk.inj (Prod.mk.inj heq).2).1.symm
  | refused e => exact (Prod.mk.inj (Prod.mk.inj (Option.some.inj h)).2).1.symm
  | waits => exact (Prod.mk.inj (Prod.mk.inj (Option.some.inj h)).2).1.symm

/-- The answer to a call is that of the mutex, whatever the observer does. -/
theorem answer_of_serve? {a : Act} (h : l.serve? level (.act a) = some (l', answer)) :
    answer = a.answer (l.mutexes.get a.mutex) := by
  have hsettle {id : UInt64} {t : Tid} {here : CallStack} {attempt : Mutex.Attempt}
      (h : (l.settle level id t here attempt).map (fun p => (p.1, p.2.1)) =
        some (l', answer)) : answer = .of attempt := by
    obtain ⟨⟨l₁, answer₁, notices⟩, hs, heq⟩ := Option.map_eq_some_iff.1 h
    obtain ⟨rfl, rfl⟩ := Prod.mk.inj heq
    exact answer_of_settle hs
  cases a with
  | lock => exact hsettle h
  | tryLock => exact hsettle h
  | resume id t here =>
    rw [serve?] at h
    split at h
    next hlocked => simp [Act.answer, Act.mutex, hlocked, ← (Prod.mk.inj (Option.some.inj h)).2]
    next hfree =>
      obtain ⟨⟨l₁, notices⟩, -, heq⟩ := Option.map_eq_some_iff.1 h
      simp [Act.answer, Act.mutex, hfree, ← (Prod.mk.inj heq).2]
  | unlock id t =>
    obtain ⟨⟨l₁, result⟩, hunlock, heq⟩ := Option.map_eq_some_iff.1 h
    obtain ⟨rfl, rfl⟩ := Prod.mk.inj heq
    rw [unlock] at hunlock
    rw [Act.answer, Act.mutex]
    split at hunlock
    next e herror =>
      rw [herror]
      exact congrArg Answer.done (Prod.mk.inj (Option.some.inj hunlock)).2.symm
    next m hok =>
      obtain ⟨o, -, heq⟩ := Option.map_eq_some_iff.1 hunlock
      rw [hok]
      exact congrArg Answer.done (Prod.mk.inj heq).2.symm

/-- Without an observer every call returns. -/
theorem exists_serve?_disabled (l : Locks) (a : Act) :
    ∃ l', l.serve? .disabled (.act a) = some (l', a.answer (l.mutexes.get a.mutex)) := by
  have hsettle (id : UInt64) (t : Tid) (here : CallStack) (attempt : Mutex.Attempt) :
      (l.settle .disabled id t here attempt).isSome := by
    cases attempt <;> rfl
  have hsome : (l.serve? .disabled (.act a)).isSome := by
    cases a with
    | lock =>
      rw [serve?, Option.isSome_map]
      exact hsettle _ _ _ _
    | tryLock =>
      rw [serve?, Option.isSome_map]
      exact hsettle _ _ _ _
    | resume id t here =>
      rw [serve?]
      split <;> rfl
    | unlock id t =>
      rw [serve?, Option.isSome_map, unlock]
      split <;> rfl
  obtain ⟨⟨l', answer⟩, heq⟩ := Option.isSome_iff_exists.1 hsome
  exact ⟨l', answer_of_serve? heq ▸ heq⟩

theorem successes_cons_act {a : Act} (h : a.mutex = id) :
    successes id (⟨l, level, .act a, .done (.ok ())⟩ :: served) = a :: successes id served := by
  simp [successes, Served.success?, h]

theorem successes_cons_of_ne {a : Act} (h : a.mutex ≠ id) :
    successes id (⟨l, level, .act a, answer⟩ :: served) = successes id served := by
  refine List.filterMap_cons_none ?_
  rw [Served.success?]
  split
  next a' heq _ =>
    obtain rfl := Request.act.inj heq
    simp [h]
  · rfl

theorem successes_cons_of_refused {r : Request} (h : answer ≠ .done (.ok ())) :
    successes id (⟨l, level, r, answer⟩ :: served) = successes id served := by
  refine List.filterMap_cons_none ?_
  rw [Served.success?]
  split
  next heq => exact absurd heq h
  · rfl

/-- A mutex represents the acquisitions that last; each unlock ended one. -/
structure Kept (served : List Served) (l : Locks) (id : UInt64) : Prop where
  steady : (l.mutexes.get id).Steady
  holders : holders id served = (l.mutexes.get id).holders
  balanced : (successes id served).countP (!·.isUnlock) =
    (successes id served).countP (·.isUnlock) + (Locks.holders id served).length
  kind : ∀ c ∈ served, (c.before.mutexes.get id).kind = (l.mutexes.get id).kind

namespace Kept

/-- A request that leaves the mutex as it is and does not count among its successes. -/
theorem idle {r : Request} (h : Kept served l id)
    (hget : l'.mutexes.get id = l.mutexes.get id)
    (hsame : successes id (⟨l, level, r, answer⟩ :: served) = successes id served) :
    Kept (⟨l, level, r, answer⟩ :: served) l' id := by
  refine ⟨hget ▸ h.steady, ?_, ?_, fun c hc => ?_⟩
  · rw [Locks.holders, hsame, hget]
    exact h.holders
  · rw [Locks.holders, hsame]
    exact h.balanced
  · rw [hget]
    rcases List.mem_cons.1 hc with rfl | hc
    · rfl
    · exact h.kind c hc

/-- A call on the mutex that succeeds. -/
theorem call {a : Act} {m' : Mutex} (h : Kept served l id) (ha : a.mutex = id)
    (hset : l'.mutexes = l.mutexes.set id m') (hsteady : m'.Steady)
    (hholders : m'.holders = a.settle (l.mutexes.get id).holders)
    (hkind : m'.kind = (l.mutexes.get id).kind)
    (hcount : a.isUnlock = true → (l.mutexes.get id).holders ≠ []) :
    Kept (⟨l, level, .act a, .done (.ok ())⟩ :: served) l' id := by
  have hget : l'.mutexes.get id = m' := by rw [hset, MutexTable.get_set_self]
  have hlast : Locks.holders id (⟨l, level, .act a, .done (.ok ())⟩ :: served) =
      a.settle (Locks.holders id served) := by
    rw [Locks.holders, successes_cons_act ha]
    rfl
  refine ⟨hget ▸ hsteady, ?_, ?_, fun c hc => ?_⟩
  · rw [hlast, hget, hholders, h.holders]
  · have hbalanced := h.balanced
    rw [hlast, successes_cons_act ha]
    cases a with
    | unlock id' t =>
      have hlength := length_settle_unlock (h.holders ▸ hcount rfl) id' t
      simp [List.countP_cons]
      omega
    | _ =>
      simp [Act.settle]
      omega
  · rw [hget, hkind]
    rcases List.mem_cons.1 hc with rfl | hc
    · rfl
    · exact h.kind c hc

theorem succeed {r : Request} (h : Kept served l id) (ht : r.tid ≠ 0)
    (hs : l.serve? level r = some (l', .done (.ok ()))) :
    Kept (⟨l, level, r, .done (.ok ())⟩ :: served) l' id := by
  cases succeeds_of_serve? hs with
  | @acquired a m' hnot hacquires hset =>
    by_cases ha : a.mutex = id
    · rw [ha] at hacquires hset
      obtain ⟨hsteady, hholders, hkind⟩ := h.steady.acquires ht hacquires
      cases a with
      | unlock id' t => exact absurd rfl (hnot id' t)
      | _ => exact h.call ha hset hsteady hholders hkind (fun hu => absurd hu (by simp))
    · have hget : l'.mutexes.get id = l.mutexes.get id := by
        rw [hset, MutexTable.get_set_of_ne _ _ (Ne.symm ha)]
      exact h.idle hget (successes_cons_of_ne ha)
  | @unlocked id' t m' hunlock hset =>
    by_cases ha : id' = id
    · subst ha
      obtain ⟨hsteady, hholders, hkind⟩ := h.steady.unlocks ht hunlock
      have hlocked := h.steady.isLocked_of_unlock ht hunlock
      exact h.call rfl hset hsteady hholders hkind fun _ => by simp [hlocked]
    · have hget : l'.mutexes.get id = l.mutexes.get id := by
        rw [hset, MutexTable.get_set_of_ne _ _ (Ne.symm ha)]
      exact h.idle hget (successes_cons_of_ne ha)
  | exited hsame => exact h.idle (by rw [hsame]) rfl

end Kept

theorem Session.kept (h : Session served l) (ht : ∀ c ∈ served, c.request.tid ≠ 0) (id : UInt64) :
    Kept served l id := by
  induction h with
  | @fresh mutexes hfresh =>
    obtain ⟨kind, hkind⟩ := exists_get_eq_fresh hfresh id
    refine ⟨hkind ▸ Mutex.steady_fresh kind, ?_, rfl, fun c hc => absurd hc List.not_mem_nil⟩
    rw [hkind]
    rfl
  | @serve served l l' level r answer hsession hs ih =>
    have hold := ih fun c hc => ht c (List.mem_cons_of_mem _ hc)
    by_cases hok : answer = .done (.ok ())
    · subst hok
      exact hold.succeed (ht _ List.mem_cons_self) hs
    · exact hold.idle (by rw [eq_of_serve? hs hok]) (successes_cons_of_refused hok)

/-- A mutex and its kind: at most one thread has acquisitions that last, the mutex is locked
while there are any and free once every acquisition was unlocked, and the kind and these
acquisitions fix every answer. -/
structure Honours (served : List Served) (l : Locks) (id : UInt64) : Prop where
  exclusive : ∀ t ∈ holders id served, ∀ u ∈ holders id served, t = u
  locked : (l.mutexes.get id).isLocked = true ↔ holders id served ≠ []
  counted : holders id served ≠ [] → (l.mutexes.get id).owner ∈ holders id served ∧
    (l.mutexes.get id).depth.toNat + 1 = (holders id served).length
  single : (l.mutexes.get id).kind ≠ .recursive → (holders id served).length ≤ 1
  balanced : (successes id served).countP (!·.isUnlock) =
    (successes id served).countP (·.isUnlock) + (holders id served).length
  kind : ∀ c ∈ served, (c.before.mutexes.get id).kind = (l.mutexes.get id).kind
  due : ∀ level a l' answer, a.mutex = id → a.tid ≠ 0 →
    l.serve? level (.act a) = some (l', answer) →
      answer = a.dueAnswer (l.mutexes.get id).kind (holders id served)
  returns : ∀ a, a.mutex = id → a.tid ≠ 0 → ∃ l', l.serve? .disabled (.act a) =
    some (l', a.dueAnswer (l.mutexes.get id).kind (holders id served))
  refused : ∀ level r l' answer, l.serve? level r = some (l', answer) →
    answer ≠ .done (.ok ()) → l' = l
  freed : ∀ level t l', t ≠ 0 → l.serve? level (.act (.unlock id t)) = some (l', .done (.ok ())) →
    ((l'.mutexes.get id).isLocked = false ↔ (holders id served).length = 1)

theorem Kept.isLocked_iff (h : Kept served l id) :
    (l.mutexes.get id).isLocked = true ↔ Locks.holders id served ≠ [] := by
  simp [h.holders]

/-- Any session, over mutexes of any kinds, by any threads, with or without the observer and
with locks that wait, however often a normal mutex is unlocked by a thread that did not lock
it. -/
theorem Session.honours_kind (h : Session served l) (ht : ∀ c ∈ served, c.request.tid ≠ 0)
    (id : UInt64) : Honours served l id := by
  have hkept := h.kept ht id
  have hlocked (hne : holders id served ≠ []) : (l.mutexes.get id).isLocked = true :=
    hkept.isLocked_iff.2 hne
  have hcounted (hne : holders id served ≠ []) :
      (holders id served).length = (l.mutexes.get id).depth.toNat + 1 := by
    rw [hkept.holders, Mutex.length_holders (hlocked hne)]
  have hdue (a : Act) (ha : a.mutex = id) (hat : a.tid ≠ 0) : a.answer (l.mutexes.get a.mutex) =
      a.dueAnswer (l.mutexes.get id).kind (holders id served) := by
    rw [ha, answer_eq_dueAnswer hkept.steady a hat, hkept.holders]
  constructor
  case exclusive =>
    intro t htmem u humem
    rw [hkept.holders, Mutex.mem_holders] at htmem humem
    rw [htmem.2, humem.2]
  case locked => exact hkept.isLocked_iff
  case counted =>
    intro hne
    refine ⟨?_, (hcounted hne).symm⟩
    rw [hkept.holders]
    exact Mutex.mem_holders.2 ⟨hlocked hne, rfl⟩
  case single =>
    intro hkind
    by_cases hne : holders id served = []
    · simp [hne]
    · rw [hcounted hne, hkept.steady.shallow hkind]
      rfl
  case balanced => exact hkept.balanced
  case kind => exact hkept.kind
  case due =>
    intro level a l' answer ha hat hs
    rw [answer_of_serve? hs, hdue a ha hat]
  case returns =>
    intro a ha hat
    rw [← hdue a ha hat]
    exact exists_serve?_disabled l a
  case refused =>
    intro level r l' answer hs hne
    exact eq_of_serve? hs hne
  case freed =>
    intro level t l' htid hs
    have hnext : Kept (⟨l, level, .act (.unlock id t), .done (.ok ())⟩ :: served) l' id :=
      hkept.succeed htid hs
    -- One more unlock on the scales, so one acquisition fewer lasts.
    have hbefore := hkept.balanced
    have hafter := hnext.balanced
    have hacts : successes id (⟨l, level, .act (.unlock id t), .done (.ok ())⟩ :: served) =
        .unlock id t :: successes id served := successes_cons_act rfl
    rw [← Bool.not_eq_true, hnext.isLocked_iff, not_not, ← List.length_eq_zero_iff]
    simp [hacts, List.countP_cons] at hafter
    omega

/-- A recursive mutex locked three times, with a lock that waits for the third unlock; a
normal mutex unlocked by another thread, then free, then locked again; an error-checking
mutex that refuses to be locked again and to be unlocked by another thread. -/
def kindsAtWork : List (LockDebugLevel × Request) :=
  [(.enabled, .act (.lock 0x1000 1 .empty)), (.enabled, .act (.lock 0x1000 1 .empty)),
    (.disabled, .act (.tryLock 0x1000 1 .empty)), (.disabled, .act (.tryLock 0x1000 2 .empty)),
    (.disabled, .act (.lock 0x1000 2 .empty)), (.disabled, .act (.unlock 0x1000 1)),
    (.disabled, .act (.unlock 0x1000 1)), (.disabled, .act (.unlock 0x1000 1)),
    (.disabled, .act (.resume 0x1000 2 .empty)), (.disabled, .act (.lock 0x1000 2 .empty)),
    (.disabled, .act (.lock 0x2000 1 .empty)), (.disabled, .act (.unlock 0x2000 2)),
    (.disabled, .act (.unlock 0x2000 1)), (.disabled, .act (.lock 0x2000 1 .empty)),
    (.disabled, .act (.lock 0x3000 1 .empty)), (.disabled, .act (.tryLock 0x3000 1 .empty)),
    (.disabled, .act (.unlock 0x3000 2)), (.disabled, .act (.unlock 0x3000 1))]

theorem honours_kind_kindsAtWork :
    ∃ served l, serveAll { mutexes := [(0x1000, { kind := .recursive }), (0x2000, {}),
        (0x3000, { kind := .errorCheck })] } [] kindsAtWork = some (served, l) ∧
      (∀ c ∈ served, c.request.tid ≠ 0) ∧
      [0x1000, 0x2000, 0x3000].map (fun id => holders id served) = [[2, 2], [1], []] ∧
      ∀ id, Honours served l id := by
  have hrun : (serveAll { mutexes := [(0x1000, { kind := .recursive }), (0x2000, {}),
      (0x3000, { kind := .errorCheck })] } [] kindsAtWork).map (fun p =>
        (p.1.all (fun c => decide (c.request.tid ≠ 0)),
          [0x1000, 0x2000, 0x3000].map (fun id => holders id p.1))) =
      some (true, [[2, 2], [1], []]) := by
    decide +kernel
  obtain ⟨⟨served, l⟩, hserved, hfacts⟩ := Option.map_eq_some_iff.1 hrun
  obtain ⟨hall, hholders⟩ := Prod.mk.inj hfacts
  have ht : ∀ c ∈ served, c.request.tid ≠ 0 := by
    simpa only [List.all_eq_true, decide_eq_true_eq] using hall
  have h : Session served l := (Session.fresh (by decide)).of_serveAll hserved
  exact ⟨served, l, hserved, ht, hholders, fun id => h.honours_kind ht id⟩

end Locks
end Threading
