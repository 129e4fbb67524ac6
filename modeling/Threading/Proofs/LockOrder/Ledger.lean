import Threading.Proofs.LockOrder.History

/-!
# Ledgers of held locks

The ledger of a thread is what its calls say it holds, most recent lock first: a first
acquisition writes a lock down, repeated ones are counted, and the release that balances
the first one strikes it out. A ledger reads only the calls of its thread, so it does
not depend on how threads are interleaved. Counts are words, as in the nodes of the
graph, or natural numbers, which do not wrap. The discipline of a run and the orders in
which locks are acquired are told from ledgers, that is, from the calls alone.
-/
namespace Threading.LockOrder

/-- The thread that makes a call. -/
def Event.tid : Event → Tid
  | .lock _ t _ _ | .unlock _ t | .forget t => t

/-- A lock in a ledger. -/
structure Holding (κ : Type) where
  mutex : UInt64
  /-- Acquisitions beyond the first that no release has balanced. -/
  extra : κ
  deriving DecidableEq

abbrev Ledger (κ : Type) := List (Holding κ)

namespace Ledger

variable {κ : Type}

/-- The locks of a ledger, most recent first. -/
def mutexes (l : Ledger κ) : List UInt64 := l.map (·.mutex)

/-- Changes the count of a lock. -/
def recount (l : Ledger κ) (m : UInt64) (f : κ → κ) : Ledger κ :=
  l.map fun h => if h.mutex = m then { h with extra := f h.extra } else h

/-- Strikes a lock out. -/
def strike (l : Ledger κ) (m : UInt64) : Ledger κ := l.filter fun h => h.mutex ≠ m

section Calls

variable [Zero κ] [One κ] [Add κ] [Sub κ] [DecidableEq κ]

/-- A thread with this ledger has acquired a lock. -/
def acquire (l : Ledger κ) (m : UInt64) : Ledger κ :=
  if m ∈ l.mutexes then l.recount m (· + 1) else ⟨m, 0⟩ :: l

/-- A thread with this ledger releases a lock; a lock it does not hold makes no
difference. -/
def release (l : Ledger κ) (m : UInt64) : Ledger κ :=
  if ⟨m, 0⟩ ∈ l then l.strike m else l.recount m (· - 1)

/-- What a call does to the ledger of its thread. -/
def settle (l : Ledger κ) : Event → Ledger κ
  | .lock m _ _ _ => l.acquire m
  | .unlock m _ => l.release m
  | .forget _ => []

/-- The ledger that the calls of one thread, newest first, lead to. -/
def ofEvents : List Event → Ledger κ
  | [] => []
  | e :: events => (ofEvents events).settle e

end Calls

@[simp] theorem mutexes_nil : mutexes ([] : Ledger κ) = [] := rfl

@[simp] theorem mutexes_cons (h : Holding κ) (l : Ledger κ) :
    mutexes (h :: l) = h.mutex :: mutexes l := rfl

theorem mem_mutexes {l : Ledger κ} {m : UInt64} : m ∈ l.mutexes ↔ ∃ h ∈ l, h.mutex = m := by
  simp [mutexes]

@[simp] theorem mutexes_recount (l : Ledger κ) (m : UInt64) (f : κ → κ) :
    (l.recount m f).mutexes = l.mutexes := by
  rw [mutexes, recount, List.map_map, mutexes]
  refine List.map_congr_left fun h _ => ?_
  by_cases hm : h.mutex = m <;> simp [hm]

theorem recount_of_not_mem {l : Ledger κ} {m : UInt64} (hm : m ∉ l.mutexes) (f : κ → κ) :
    l.recount m f = l := by
  refine (List.map_congr_left fun h hl => ?_).trans (List.map_id l)
  exact if_neg fun heq => hm (mem_mutexes.2 ⟨h, hl, heq⟩)

theorem acquire_of_mem [Zero κ] [One κ] [Add κ] {l : Ledger κ} {m : UInt64} (h : m ∈ l.mutexes) :
    l.acquire m = l.recount m (· + 1) := if_pos h

theorem acquire_of_not_mem [Zero κ] [One κ] [Add κ] {l : Ledger κ} {m : UInt64}
    (h : m ∉ l.mutexes) : l.acquire m = ⟨m, 0⟩ :: l := if_neg h

theorem release_of_mem [Zero κ] [One κ] [Sub κ] [DecidableEq κ] {l : Ledger κ} {m : UInt64}
    (h : ⟨m, 0⟩ ∈ l) : l.release m = l.strike m := if_pos h

theorem release_of_not_mem [Zero κ] [One κ] [Sub κ] [DecidableEq κ] {l : Ledger κ} {m : UInt64}
    (h : ⟨m, 0⟩ ∉ l) : l.release m = l.recount m (· - 1) := if_neg h

theorem mem_recount {l : Ledger κ} {m : UInt64} {f : κ → κ} {h : Holding κ} :
    h ∈ l.recount m f ↔ h.mutex ≠ m ∧ h ∈ l ∨ ∃ c, ⟨m, c⟩ ∈ l ∧ h = ⟨m, f c⟩ := by
  simp only [recount, List.mem_map]
  constructor
  · rintro ⟨⟨m', c⟩, hmem, rfl⟩
    by_cases hm : m' = m
    · exact .inr ⟨c, hm ▸ hmem, by simp [hm]⟩
    · exact .inl ⟨by simp [hm], by simpa [hm] using hmem⟩
  · rintro (⟨hm, hmem⟩ | ⟨c, hmem, rfl⟩)
    · exact ⟨h, hmem, if_neg hm⟩
    · exact ⟨_, hmem, if_pos rfl⟩

theorem mem_strike {l : Ledger κ} {m : UInt64} {h : Holding κ} :
    h ∈ l.strike m ↔ h ∈ l ∧ h.mutex ≠ m := by
  simp [strike]

/-- A call leaves other locks in a ledger alone. -/
theorem mem_acquire_of_ne [Zero κ] [One κ] [Add κ] {l : Ledger κ} {m : UInt64} {h : Holding κ}
    (hm : h.mutex ≠ m) : h ∈ l.acquire m ↔ h ∈ l := by
  rw [acquire]
  split
  · simp only [mem_recount, hm, ne_eq, not_false_eq_true, true_and, or_iff_left_iff_imp]
    rintro ⟨c, -, rfl⟩
    exact absurd rfl hm
  · rw [List.mem_cons, or_iff_right]
    rintro rfl
    exact hm rfl

theorem mem_release_of_ne [Zero κ] [One κ] [Sub κ] [DecidableEq κ] {l : Ledger κ} {m : UInt64}
    {h : Holding κ} (hm : h.mutex ≠ m) : h ∈ l.release m ↔ h ∈ l := by
  rw [release]
  split
  · rw [mem_strike, and_iff_left hm]
  · simp only [mem_recount, hm, ne_eq, not_false_eq_true, true_and, or_iff_left_iff_imp]
    rintro ⟨c, -, rfl⟩
    exact absurd rfl hm

/-- The call acquires a lock that is not in the ledger. -/
def Gains (l : Ledger κ) (m : UInt64) : Event → Prop
  | .lock m' _ _ _ => m' = m ∧ m ∉ l.mutexes
  | .unlock .. | .forget _ => False

theorem gains_iff {l : Ledger κ} {m : UInt64} {e : Event} :
    l.Gains m e ↔ (∃ t stack capture, e = .lock m t stack capture) ∧ m ∉ l.mutexes := by
  cases e <;> simp [Gains]

/-- The call acquires `b` after `a`, the last lock of the ledger. -/
def Follows (l : Ledger κ) (a b : UInt64) (e : Event) : Prop :=
  l.Gains b e ∧ l.mutexes.head? = some a

/-- A call puts the lock that it gains on top, or only takes locks away. -/
theorem mutexes_settle [Zero κ] [One κ] [Add κ] [Sub κ] [DecidableEq κ] (l : Ledger κ)
    (e : Event) : (∃ m, l.Gains m e ∧ (l.settle e).mutexes = m :: l.mutexes) ∨
      (∀ m, ¬ l.Gains m e) ∧ (l.settle e).mutexes.Sublist l.mutexes := by
  cases e with
  | lock m t stack capture =>
    by_cases hm : m ∈ l.mutexes
    · refine .inr ⟨fun m' h => h.2 (h.1 ▸ hm), ?_⟩
      rw [settle, acquire_of_mem hm, mutexes_recount]
    · refine .inl ⟨m, ⟨rfl, hm⟩, ?_⟩
      rw [settle, acquire_of_not_mem hm, mutexes_cons]
  | unlock m t =>
    refine .inr ⟨fun m' h => h, ?_⟩
    rw [settle, release]
    split
    · exact List.filter_sublist.map _
    · rw [mutexes_recount]
  | forget t => exact .inr ⟨fun m' h => h, List.nil_sublist _⟩

/-! ## Counts in natural numbers -/

/-- A ledger of words with its counts as natural numbers. -/
def toNat (l : Ledger UInt32) : Ledger ℕ := l.map fun h => ⟨h.mutex, h.extra.toNat⟩

@[simp] theorem mutexes_toNat (l : Ledger UInt32) : l.toNat.mutexes = l.mutexes := by
  simp [toNat, mutexes]

theorem mem_toNat_zero {l : Ledger UInt32} {m : UInt64} :
    (⟨m, 0⟩ : Holding ℕ) ∈ l.toNat ↔ ⟨m, 0⟩ ∈ l := by
  simp only [toNat, List.mem_map, Holding.mk.injEq]
  constructor
  · rintro ⟨⟨m', c⟩, hmem, rfl, hc⟩
    have hzero : c = 0 := UInt32.toNat_inj.1 hc
    rwa [← hzero]
  · intro hmem
    exact ⟨_, hmem, rfl, rfl⟩

theorem toNat_recount {l : Ledger UInt32} {m : UInt64} {f : UInt32 → UInt32} {f' : ℕ → ℕ}
    (hf : ∀ h ∈ l, h.mutex = m → (f h.extra).toNat = f' h.extra.toNat) :
    (l.recount m f).toNat = l.toNat.recount m f' := by
  simp only [toNat, recount, List.map_map]
  refine List.map_congr_left fun h hl => ?_
  by_cases hm : h.mutex = m
  · simp [hm, hf h hl hm]
  · simp [hm]

theorem toNat_strike (l : Ledger UInt32) (m : UInt64) : (l.strike m).toNat = l.toNat.strike m := by
  simp only [toNat, strike, List.filter_map]
  rfl

/-- An acquisition counts the same in words while the count is not full. -/
theorem toNat_acquire {l : Ledger UInt32} {m : UInt64}
    (hm : ∀ h ∈ l.toNat, h.mutex = m → h.extra + 1 < 2 ^ 32) :
    (l.acquire m).toNat = l.toNat.acquire m := by
  simp only [acquire, mutexes_toNat]
  split
  · refine toNat_recount fun h hl heq => ?_
    have hlt := hm ⟨h.mutex, h.extra.toNat⟩ (List.mem_map_of_mem hl) heq
    have hsum : (h.extra + 1).toNat = (h.extra.toNat + 1) % 2 ^ 32 := UInt32.toNat_add _ _
    rw [hsum, Nat.mod_eq_of_lt hlt]
  · rfl

theorem toNat_release (l : Ledger UInt32) (m : UInt64) :
    (l.release m).toNat = l.toNat.release m := by
  simp only [release, mem_toNat_zero]
  split
  · exact toNat_strike l m
  next hzero =>
    refine toNat_recount fun h hl heq => ?_
    have hne : h.extra.toNat ≠ 0 := fun h0 => hzero (by
      rw [← heq, ← (UInt32.toNat_inj.1 h0 : h.extra = 0)]
      exact hl)
    exact UInt32.toNat_sub_of_le _ _ (UInt32.le_iff_toNat_le.2 (Nat.one_le_iff_ne_zero.2 hne))

end Ledger

/-! ## The ledgers of all threads -/

section Ledgers

variable (κ : Type) [Zero κ] [One κ] [Add κ] [Sub κ] [DecidableEq κ]

/-- The ledger of a thread after calls of all threads, newest first. -/
def ledger (t : Tid) (events : List Event) : Ledger κ :=
  Ledger.ofEvents (events.filter (·.tid = t))

variable {κ}

@[simp] theorem ledger_nil (t : Tid) : ledger κ t [] = [] := rfl

/-- A call changes the ledger of its own thread only. -/
theorem ledger_cons (t : Tid) (e : Event) (events : List Event) :
    ledger κ t (e :: events) =
      if t = e.tid then (ledger κ t events).settle e else ledger κ t events := by
  by_cases ht : t = e.tid
  · simp [ledger, ht, Ledger.ofEvents]
  · simp [ledger, ht, Ne.symm ht]

theorem ledger_cons_self (e : Event) (events : List Event) :
    ledger κ e.tid (e :: events) = (ledger κ e.tid events).settle e := by
  rw [ledger_cons, if_pos rfl]

theorem ledger_cons_of_ne {t : Tid} {e : Event} (h : t ≠ e.tid) (events : List Event) :
    ledger κ t (e :: events) = ledger κ t events := by
  rw [ledger_cons, if_neg h]

/-- After an acquisition the thread has the lock as well. -/
theorem mem_ledger_lock {t t' : Tid} {m m' : UInt64} {stack : Option CallStack} {capture : Bool}
    {events : List Event} : m' ∈ (ledger κ t' (.lock m t stack capture :: events)).mutexes ↔
      m' ∈ (ledger κ t' events).mutexes ∨ t' = t ∧ m' = m := by
  rw [ledger_cons]
  by_cases ht : t' = t
  · by_cases hm : m ∈ (ledger κ t events).mutexes
    · simp only [ht, Event.tid, if_true, Ledger.settle, Ledger.acquire_of_mem hm,
        Ledger.mutexes_recount, true_and, iff_self_or]
      rintro rfl
      exact hm
    · simp [ht, Event.tid, Ledger.settle, Ledger.acquire_of_not_mem hm, or_comm]
  · simp [ht, Event.tid]

/-- A release that balances the first acquisition takes the lock away. -/
theorem mem_ledger_unlock {t t' : Tid} {m m' : UInt64} {events : List Event}
    (hm : ⟨m, 0⟩ ∈ ledger κ t events) : m' ∈ (ledger κ t' (.unlock m t :: events)).mutexes ↔
      m' ∈ (ledger κ t' events).mutexes ∧ ¬ (t' = t ∧ m' = m) := by
  rw [ledger_cons]
  by_cases ht : t' = t
  · subst ht
    rw [Event.tid, if_pos rfl, Ledger.settle, Ledger.release_of_mem hm]
    simp only [Ledger.mem_mutexes, Ledger.mem_strike, true_and]
    constructor
    · rintro ⟨h, ⟨hmem, hne⟩, rfl⟩
      exact ⟨⟨h, hmem, rfl⟩, hne⟩
    · rintro ⟨⟨h, hmem, rfl⟩, hne⟩
      exact ⟨h, ⟨hmem, hne⟩, rfl⟩
  · simp [ht, Event.tid]

/-- A thread that has made no call has an empty ledger. -/
theorem ledger_eq_nil {t : Tid} {events : List Event} (h : ∀ e ∈ events, e.tid ≠ t) :
    ledger κ t events = [] := by
  rw [ledger, List.filter_eq_nil_iff.2 fun e he => by simpa using h e he]
  rfl

/-- Only the threads that have made calls hold anything. -/
theorem forall_not_mem_ledger_iff {events : List Event} {m : UInt64} :
    (∀ t, m ∉ (ledger κ t events).mutexes) ↔
      ∀ e ∈ events, m ∉ (ledger κ e.tid events).mutexes := by
  refine ⟨fun h e _ => h e.tid, fun h t => ?_⟩
  by_cases ht : ∃ e ∈ events, e.tid = t
  · obtain ⟨e, he, rfl⟩ := ht
    exact h e he
  · rw [ledger_eq_nil fun e he heq => ht ⟨e, he, heq⟩]
    exact List.not_mem_nil

end Ledgers

variable {t : Tid} {e e' : Event} {events events' : List Event} {l : Ledger UInt32}

/-! ## What a thread meets -/

/-- After calls of all threads, newest first: a call, and the ledger its thread had then. -/
def Met (events : List Event) (l : Ledger UInt32) (e : Event) : Prop :=
  ∃ newer older, events = newer ++ e :: older ∧ ledger UInt32 e.tid older = l

theorem met_cons : Met (e' :: events) l e ↔
    e = e' ∧ ledger UInt32 e'.tid events = l ∨ Met events l e := by
  constructor
  · rintro ⟨_ | ⟨_, newer⟩, older, heq, hl⟩
    · obtain ⟨rfl, rfl⟩ := List.cons.inj heq
      exact .inl ⟨rfl, hl⟩
    · exact .inr ⟨newer, older, (List.cons.inj heq).2, hl⟩
  · rintro (⟨rfl, hl⟩ | ⟨newer, older, rfl, hl⟩)
    · exact ⟨[], events, rfl, hl⟩
    · exact ⟨e' :: newer, older, rfl, hl⟩

/-- Only the calls of the thread matter. -/
theorem met_iff : Met events l e ↔ ∃ newer older,
    events.filter (·.tid = e.tid) = newer ++ e :: older ∧ Ledger.ofEvents older = l := by
  constructor
  · rintro ⟨newer, older, rfl, rfl⟩
    refine ⟨newer.filter (·.tid = e.tid), older.filter (·.tid = e.tid), ?_, rfl⟩
    rw [List.filter_append, List.filter_cons_of_pos (by simp)]
  · rintro ⟨newer, older, hes, rfl⟩
    obtain ⟨newer', rest, rfl, -, hrest⟩ := List.filter_eq_append_iff.1 hes
    obtain ⟨skipped, older', rfl, -, -, rfl⟩ := List.filter_eq_cons_iff.1 hrest
    exact ⟨newer' ++ skipped, older', by simp, rfl⟩

theorem met_congr (h : ∀ t, events'.filter (·.tid = t) = events.filter (·.tid = t)) :
    Met events' l e ↔ Met events l e := by
  rw [met_iff, met_iff, h]

/-! ## Disciplined calls -/

/-- After the earlier calls, a thread with a number makes the call, and acquires a mutex only
while it is free or the caller's own. -/
def Permits (events : List Event) : Event → Prop
  | .lock m t _ _ => t ≠ 0 ∧
    ((∀ t', m ∉ (ledger UInt32 t' events).mutexes) ∨ m ∈ (ledger UInt32 t events).mutexes)
  | .unlock _ t | .forget t => t ≠ 0

/-- Every call was permitted. -/
def Disciplined : List Event → Prop
  | [] => True
  | e :: events => Permits events e ∧ Disciplined events

instance (events : List Event) : (e : Event) → Decidable (Permits events e)
  | .lock m _ _ _ =>
    have : Decidable (∀ t', m ∉ (ledger UInt32 t' events).mutexes) :=
      decidable_of_iff' _ forall_not_mem_ledger_iff
    inferInstanceAs (Decidable (_ ∧ (_ ∨ _)))
  | .unlock .. | .forget _ => inferInstanceAs (Decidable (_ ≠ _))

instance decidableDisciplined : (events : List Event) → Decidable (Disciplined events)
  | [] => inferInstanceAs (Decidable True)
  | _ :: events =>
    have := decidableDisciplined events
    inferInstanceAs (Decidable (_ ∧ _))

theorem Disciplined.of_append {newer older : List Event} (h : Disciplined (newer ++ older)) :
    Disciplined older := by
  induction newer with
  | nil => exact h
  | cons e newer ih => exact ih h.2

/-! ## Lawful calls -/

/-- The ledgers after the earlier calls admit a call: a mutex is acquired only while it is
free or the caller's own, and not so often that its count overflows. -/
def Admits (events : List Event) : Event → Prop
  | .lock m t _ _ =>
    ((∀ t', m ∉ (ledger ℕ t' events).mutexes) ∨ m ∈ (ledger ℕ t events).mutexes) ∧
      ∀ h ∈ ledger ℕ t events, h.mutex = m → h.extra + 1 < 2 ^ 32
  | .unlock .. | .forget _ => True

/-- Every call was made by a thread with a number, and admitted. -/
def Lawful : List Event → Prop
  | [] => True
  | e :: events => (e.tid ≠ 0 ∧ Admits events e) ∧ Lawful events

instance (events : List Event) : (e : Event) → Decidable (Admits events e)
  | .lock m _ _ _ =>
    have : Decidable (∀ t', m ∉ (ledger ℕ t' events).mutexes) :=
      decidable_of_iff' _ forall_not_mem_ledger_iff
    inferInstanceAs (Decidable ((_ ∨ _) ∧ ∀ h ∈ ledger ℕ _ events, _ → _))
  | .unlock .. | .forget _ => inferInstanceAs (Decidable True)

instance decidableLawful : (events : List Event) → Decidable (Lawful events)
  | [] => inferInstanceAs (Decidable True)
  | _ :: events =>
    have := decidableLawful events
    inferInstanceAs (Decidable (_ ∧ _))

theorem Ledger.toNat_settle {l : Ledger UInt32} (h : Admits events e)
    (hl : l.toNat = ledger ℕ e.tid events) : (l.settle e).toNat = l.toNat.settle e := by
  cases e with
  | lock m t stack capture => exact toNat_acquire (hl ▸ h.2)
  | unlock m t => exact toNat_release l m
  | forget t => rfl

/-- After lawful calls no count has wrapped. -/
theorem Lawful.toNat_ledger (h : Lawful events) (t : Tid) :
    (ledger UInt32 t events).toNat = ledger ℕ t events := by
  induction events with
  | nil => rfl
  | cons e events ih =>
    have hold := ih h.2
    by_cases ht : t = e.tid
    · subst ht
      rw [ledger_cons_self, ledger_cons_self, Ledger.toNat_settle h.1.2 hold, hold]
    · rw [ledger_cons_of_ne ht, ledger_cons_of_ne ht, hold]

theorem Lawful.disciplined (h : Lawful events) : Disciplined events := by
  induction events with
  | nil => trivial
  | cons e events ih =>
    obtain ⟨⟨ht, hadmits⟩, hold⟩ := h
    refine ⟨?_, ih hold⟩
    cases e with
    | lock m t stack capture =>
      simp only [Permits, ← Ledger.mutexes_toNat, hold.toNat_ledger]
      exact ⟨ht, hadmits.1⟩
    | unlock m t => exact ht
    | forget t => exact ht

end Threading.LockOrder
