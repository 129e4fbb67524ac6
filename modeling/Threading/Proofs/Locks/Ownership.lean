import Threading.Locks
import Threading.Proofs.LockOrder.Ledger

/-!
# Mutexes and ledgers

A successful call changes owner and depth of a mutex in one of four ways: a first
acquisition, a further one, a release of a further one, and the release that frees the
mutex. While a normal mutex is unlocked by its holder only, a mutex is locked as long as it
has an owner, and owners and depths are what the ledgers of the threads say.
-/
namespace Threading

open LockOrder (Holding Ledger)

variable {m m' : Mutex} {mutexes : MutexTable} {books books' : Tid → Ledger ℕ} {id : UInt64}
variable {t : Tid}

namespace Mutex

/-- A mutex is locked exactly while it has an owner. -/
def Sound (m : Mutex) : Prop := m.isLocked = true ↔ m.owner ≠ 0

theorem toNat_depth_add_one (h : m.depth ≠ maxDepth) :
    (m.depth + 1).toNat = m.depth.toNat + 1 := by
  have hlt := m.depth.toNat_lt
  have hne : m.depth.toNat ≠ 2 ^ 32 - 1 := fun heq => h (UInt32.toNat_inj.1 heq)
  rw [UInt32.toNat_add]
  exact Nat.mod_eq_of_lt (show m.depth.toNat + 1 < 2 ^ 32 by omega)

theorem toNat_depth_sub_one (h : m.depth ≠ 0) : (m.depth - 1).toNat = m.depth.toNat - 1 := by
  have hne : m.depth.toNat ≠ 0 := fun heq => h (UInt32.toNat_inj.1 heq)
  exact UInt32.toNat_sub_of_le _ _ (UInt32.le_iff_toNat_le.2 (Nat.one_le_iff_ne_zero.2 hne))

/-- A mutex is acquired while it is free, and a recursive one again by its owner. -/
inductive Acquires (m : Mutex) (t : Tid) : Mutex → Prop
  | first {word : UInt32} : m.isLocked = false → word ≠ 0 → Acquires m t (m.acquiredBy t word)
  | again : m.kind = .recursive → m.owner = t → m.depth ≠ maxDepth →
      Acquires m t { m with depth := m.depth + 1 }

/-- The holder releases a mutex; the last release frees it. -/
inductive Releases (m : Mutex) (t : Tid) : Mutex → Prop
  | further : m.owner = t → m.depth ≠ 0 → Releases m t { m with depth := m.depth - 1 }
  | last : m.owner = t → m.depth = 0 → Releases m t { m with word := 0, owner := 0 }

theorem Sound.isLocked_iff (h : m.Sound) : m.isLocked = true ↔ m.owner ≠ 0 := h

theorem sound_fresh (kind : MutexKind) : Sound { kind } := by
  simp [Sound, isLocked, Futex.Mutex.isLocked]

theorem Sound.acquires (h : m.Sound) (ht : t ≠ 0) (ha : m.Acquires t m') : m'.Sound := by
  cases ha with
  | first _ hword => simpa [Sound, isLocked, Futex.Mutex.isLocked, acquiredBy, hword] using ht
  | again => exact h

theorem Sound.releases (h : m.Sound) (hr : m.Releases t m') : m'.Sound := by
  cases hr with
  | further => exact h
  | last => simp [Sound, isLocked, Futex.Mutex.isLocked]

theorem acquires_of_relock? (h : m.relock? t = some (.granted m')) : m.Acquires t m' := by
  rw [relock?] at h
  split at h
  · exact absurd h (by simp)
  next howner =>
    split at h
    · exact absurd h (by simp)
    · exact absurd h (by simp)
    next hkind =>
      split at h
      · exact absurd h (by simp)
      next hdepth =>
        obtain rfl := Attempt.granted.inj (Option.some.inj h)
        exact .again hkind (not_not.1 howner) hdepth

theorem word_eq_zero_iff : m.word = 0 ↔ m.isLocked = false := by
  simp [isLocked, Futex.Mutex.isLocked]

/-- Where no relock decides, the word does. -/
theorem lock_eq (h : m.relock? t = none) :
    m.lock t = if m.isLocked then .waits else .granted (m.acquiredBy t 1) := by
  simp only [lock, h]
  by_cases hword : m.word = 0
  · simp [hword, word_eq_zero_iff.1 hword]
  · have hlocked : m.isLocked = true := by simpa using mt word_eq_zero_iff.2 hword
    split
    next word hlock => exact absurd (congrArg Prod.fst hlock) (Futex.Mutex.lock_of_ne hword)
    · simp [hlocked]

theorem tryLock_eq (h : m.relock? t = none) :
    m.tryLock t = if m.isLocked then .refused .busy else .granted (m.acquiredBy t 1) := by
  simp only [tryLock, h]
  by_cases hword : m.word = 0
  · simp [hword, word_eq_zero_iff.1 hword]
  · have hlocked : m.isLocked = true := by simpa using mt word_eq_zero_iff.2 hword
    simp [Futex.Mutex.tryLock?_of_ne hword, hlocked]

theorem acquires_acquiredBy (h : m.isLocked = false) (t : Tid) : m.Acquires t (m.acquiredBy t 1) :=
  .first h (by decide)

theorem acquires_of_lock (h : m.lock t = .granted m') : m.Acquires t m' := by
  cases hrelock : m.relock? t with
  | some attempt =>
    rw [lock, hrelock] at h
    exact acquires_of_relock? (hrelock.trans (congrArg some h))
  | none =>
    rw [lock_eq hrelock] at h
    split at h
    · exact absurd h (by simp)
    next hfree =>
      obtain rfl := Attempt.granted.inj h
      exact acquires_acquiredBy (by simpa using hfree) t

theorem acquires_of_tryLock (h : m.tryLock t = .granted m') : m.Acquires t m' := by
  cases hrelock : m.relock? t with
  | some attempt =>
    rw [tryLock, hrelock] at h
    split at h
    · exact absurd h (by simp)
    next attempt' _ heq =>
      obtain rfl := Option.some.inj heq
      exact acquires_of_relock? (hrelock.trans (congrArg some h))
    next heq => exact absurd heq (by simp)
  | none =>
    rw [tryLock_eq hrelock] at h
    split at h
    · exact absurd h (by simp)
    next hfree =>
      obtain rfl := Attempt.granted.inj h
      exact acquires_acquiredBy (by simpa using hfree) t

theorem acquires_handTo (h : m.isLocked = false) (t : Tid) : m.Acquires t (m.handTo t) :=
  .first h (by decide)

/-- A successful unlock is the owner's, or another thread's of a locked normal mutex. -/
theorem releases_or_foreign_of_unlock (h : m.unlock t = .ok m') :
    m.Releases t m' ∨
      m.kind = .normal ∧ m.isLocked = true ∧ m.owner ≠ t ∧ m' = { m with word := 0 } := by
  rw [unlock] at h
  split at h
  · exact absurd h (by simp)
  next hnotOwner =>
    split at h
    · exact absurd h (by simp)
    next hfree =>
      by_cases howner : m.owner = t
      · refine .inl ?_
        split at h
        next hdepth =>
          obtain rfl := Except.ok.inj h
          exact .further howner (UInt32.pos_iff_ne_zero.1 hdepth.2)
        next hdepth =>
          obtain rfl := Except.ok.inj h
          have hzero : m.depth = 0 := by
            by_contra hne
            exact hdepth ⟨howner, UInt32.pos_iff_ne_zero.2 hne⟩
          simpa [howner] using Releases.last howner hzero
      · have hkind : m.kind = .normal := by simpa [howner] using hnotOwner
        simp only [howner, false_and, if_false, Futex.Mutex.unlock_eq] at h
        exact .inr ⟨hkind, by simpa [hkind] using hfree, howner, (Except.ok.inj h).symm⟩

/-- A successful unlock is the holder's, as long as nobody else unlocks a normal mutex. -/
theorem releases_of_unlock (h : m.unlock t = .ok m')
    (hholder : m.kind = .normal → m.isLocked = true → m.owner = t) : m.Releases t m' :=
  (releases_or_foreign_of_unlock h).resolve_right fun ⟨hkind, hlocked, hne, _⟩ =>
    hne (hholder hkind hlocked)

end Mutex

/-! ## All mutexes -/

namespace MutexTable

/-- The ledgers name the owner and the depth of every mutex. -/
def Matches (mutexes : MutexTable) (books : Tid → Ledger ℕ) : Prop :=
  ∀ t id c, (⟨id, c⟩ : Holding ℕ) ∈ books t ↔
    t ≠ 0 ∧ (mutexes.get id).owner = t ∧ c = (mutexes.get id).depth.toNat

theorem Matches.mem_mutexes_iff (h : mutexes.Matches books) :
    id ∈ (books t).mutexes ↔ t ≠ 0 ∧ (mutexes.get id).owner = t := by
  rw [Ledger.mem_mutexes]
  constructor
  · rintro ⟨⟨_, c⟩, hmem, rfl⟩
    obtain ⟨ht, howner, -⟩ := (h t _ c).1 hmem
    exact ⟨ht, howner⟩
  · rintro ⟨ht, howner⟩
    exact ⟨_, (h t id _).2 ⟨ht, howner, rfl⟩, rfl⟩

/-- A change of one mutex and of what the ledgers say of it. -/
theorem Matches.set (h : mutexes.Matches books)
    (hothers : ∀ t id' c, id' ≠ id → ((⟨id', c⟩ : Holding ℕ) ∈ books' t ↔ ⟨id', c⟩ ∈ books t))
    (hself : ∀ t c, (⟨id, c⟩ : Holding ℕ) ∈ books' t ↔
      t ≠ 0 ∧ m'.owner = t ∧ c = m'.depth.toNat) :
    Matches (MutexTable.set id m' mutexes) books' := by
  intro t id' c
  by_cases hid : id' = id
  · rw [hid, get_set_self]
    exact hself t c
  · rw [get_set_of_ne _ _ hid, hothers t id' c hid]
    exact h t id' c

theorem Matches.acquires (h : mutexes.Matches books) (hsound : (mutexes.get id).Sound) (ht : t ≠ 0)
    (ha : (mutexes.get id).Acquires t m') :
    Matches (MutexTable.set id m' mutexes)
      fun t' => if t' = t then (books t').acquire id else books t' := by
  refine h.set (fun t' id' c hid => ?_) fun t' c => ?_
  · split
    · exact Ledger.mem_acquire_of_ne hid
    · exact Iff.rfl
  · generalize hm : mutexes.get id = m at ha hsound
    cases ha with
    | first hfree _ =>
      have howner : (mutexes.get id).owner = 0 := by
        rw [hm]
        by_contra hne
        exact absurd (hsound.2 hne) (by simp [hfree])
      have hnot (t' : Tid) : id ∉ (books t').mutexes := by
        rw [h.mem_mutexes_iff, howner]
        exact fun hmem => hmem.1 hmem.2.symm
      have hno : (⟨id, c⟩ : Holding ℕ) ∉ books t' := fun hmem =>
        hnot t' (Ledger.mem_mutexes.2 ⟨_, hmem, rfl⟩)
      by_cases htt : t' = t
      · simp [htt, Ledger.acquire_of_not_mem (hnot t), htt ▸ hno, ht, Mutex.acquiredBy]
      · simp [htt, hno, Mutex.acquiredBy, Ne.symm htt]
    | again _ howner hdepth =>
      have hiff := h t' id c
      rw [hm, howner] at hiff
      by_cases htt : t' = t
      · have hmem : id ∈ (books t).mutexes := h.mem_mutexes_iff.2 ⟨ht, hm ▸ howner⟩
        have hcount (c : ℕ) : (⟨id, c⟩ : Holding ℕ) ∈ books t ↔ c = m.depth.toNat := by
          rw [h t id c, hm]
          simp [ht, howner]
        simp [htt, Ledger.acquire_of_mem hmem, Ledger.mem_recount, hcount,
          Mutex.toNat_depth_add_one hdepth, ht, howner]
      · simpa [htt, Ne.symm htt, howner] using hiff

theorem Matches.releases (h : mutexes.Matches books) (ht : t ≠ 0)
    (hr : (mutexes.get id).Releases t m') :
    Matches (MutexTable.set id m' mutexes)
      fun t' => if t' = t then (books t').release id else books t' := by
  refine h.set (fun t' id' c hid => ?_) fun t' c => ?_
  · split
    · exact Ledger.mem_release_of_ne hid
    · exact Iff.rfl
  · generalize hm : mutexes.get id = m at hr
    have howner : m.owner = t := by cases hr <;> assumption
    have hiff := h t' id c
    rw [hm, howner] at hiff
    have hcount (c : ℕ) : (⟨id, c⟩ : Holding ℕ) ∈ books t ↔ c = m.depth.toNat := by
      rw [h t id c, hm]
      simp [ht, howner]
    cases hr with
    | further _ hdepth =>
      have hne : m.depth.toNat ≠ 0 := fun heq => hdepth (UInt32.toNat_inj.1 heq)
      by_cases htt : t' = t
      · have hzero : (⟨id, 0⟩ : Holding ℕ) ∉ books t := fun hmem => hne ((hcount 0).1 hmem).symm
        simp [htt, Ledger.release_of_not_mem hzero, Ledger.mem_recount, hcount,
          Mutex.toNat_depth_sub_one hdepth, ht, howner]
      · simpa [htt, Ne.symm htt, howner] using hiff
    | last _ hdepth =>
      by_cases htt : t' = t
      · have hzero : (⟨id, 0⟩ : Holding ℕ) ∈ books t := (hcount 0).2 (by simp [hdepth])
        simp [htt, Ledger.release_of_mem hzero, Ledger.mem_strike, Ne.symm ht]
      · have hnot : (⟨id, c⟩ : Holding ℕ) ∉ books t' := fun hmem => htt (hiff.1 hmem).2.1.symm
        simp only [htt, if_false, hnot, false_iff]
        rintro ⟨ht', rfl, -⟩
        exact ht' rfl

end MutexTable
end Threading
