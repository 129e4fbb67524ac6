import Threading.Proofs.Scenario.Performance
import Threading.Proofs.Threads.Holdings
import Threading.Proofs.Threads.Phases
import Threading.Scenario.Inversion

/-!
# The workers of the lock-order scenario

A worker takes the inner lock only while it holds the outer one, so whoever has the outer lock
finds the inner one free, and whenever no worker has the outer lock each of them can go on. No
order but the established one is ever recorded, and it is recorded once a worker has had both
locks. So no schedule makes a call of a worker fail or a worker wait for ever.
-/
namespace Threading.Scenario

open Function (update)
open LockOrder (Ledger)

namespace Worker

variable (k : Kernel) (w : Worker)

/-- The locks that a worker holds, the latest first. -/
def held : Ledger UInt32 :=
  match w.position with
  | .apart | .awaitsOuter | .departed => []
  | .holdsOuter | .awaitsInner | .releases => [⟨k.locks.outer, 0⟩]
  | .holdsBoth => [⟨k.locks.inner, 0⟩, ⟨k.locks.outer, 0⟩]

def phase : Phase := if w.position = .departed then .departed else .running

theorem phase_ne_ended : w.phase ≠ .ended := by
  rw [phase]
  split <;> exact nofun

/-- The rounds in which a worker has yet to take the inner lock. -/
def ahead : Nat :=
  match w.position with
  | .apart | .holdsBoth | .releases => w.rounds
  | .awaitsOuter | .holdsOuter | .awaitsInner => w.rounds + 1
  | .departed => 0

end Worker

namespace Inversion

variable {c : Inversion} {k : Kernel} {s : Settings} {p p' : ThreadGroup} {w w' : Worker}
variable {us vs ws : List Worker} {held : Tid → Ledger UInt32} {t : Tid} {m : UInt64} {point : Nat}

/-! ## Who holds what -/

/-- What a thread holds as one of these workers. -/
def heldBy (k : Kernel) (ws : List Worker) (t : Tid) : Ledger UInt32 :=
  ws.flatMap fun w => if w.tid = t then w.held k else []

theorem mem_mutexes_heldBy :
    m ∈ (heldBy k ws t).mutexes ↔ ∃ w ∈ ws, w.tid = t ∧ m ∈ (w.held k).mutexes := by
  simp only [heldBy, Ledger.mem_mutexes, List.mem_flatMap]
  constructor
  · rintro ⟨holding, ⟨w, hw, hmem⟩, rfl⟩
    split at hmem
    next heq => exact ⟨w, hw, heq, holding, hmem, rfl⟩
    next => exact absurd hmem List.not_mem_nil
  · rintro ⟨w, hw, heq, holding, hmem, rfl⟩
    exact ⟨holding, ⟨w, hw, by rwa [if_pos heq]⟩, rfl⟩

theorem heldBy_eq_nil (h : ∀ w ∈ ws, w.tid ≠ t) : heldBy k ws t = [] := by
  refine List.flatMap_eq_nil_iff.2 fun w hw => ?_
  rw [if_neg (h w hw)]

/-- The ledgers of the workers when one of them has other locks. -/
theorem heldBy_update (hdistinct : ((us ++ w :: vs).map (·.tid)).Nodup) (htid : w'.tid = w.tid) :
    heldBy k (us ++ w' :: vs) = update (heldBy k (us ++ w :: vs)) w.tid (w'.held k) := by
  have hothers : ∀ u ∈ us ++ vs, u.tid ≠ w.tid := by
    intro u hu heq
    rw [List.map_append, List.map_cons, List.nodup_middle, List.nodup_cons, ← List.map_append]
      at hdistinct
    exact hdistinct.1 (heq ▸ List.mem_map_of_mem hu)
  have hus : heldBy k us w.tid = [] := heldBy_eq_nil fun u hu =>
    hothers u (List.mem_append_left vs hu)
  have hvs : heldBy k vs w.tid = [] := heldBy_eq_nil fun u hu =>
    hothers u (List.mem_append_right us hu)
  have hsplit (w : Worker) (t : Tid) : heldBy k (us ++ w :: vs) t =
      heldBy k us t ++ ((if w.tid = t then w.held k else []) ++ heldBy k vs t) := by
    rw [heldBy, List.flatMap_append, List.flatMap_cons]
    rfl
  funext t
  rw [hsplit]
  by_cases heq : t = w.tid
  · rw [heq, Function.update_self, hus, hvs, if_pos htid, List.append_nil, List.nil_append]
  · rw [Function.update_of_ne heq, hsplit, if_neg (htid ▸ Ne.symm heq), if_neg (Ne.symm heq)]

theorem heldBy_self (hdistinct : ((us ++ w :: vs).map (·.tid)).Nodup) :
    heldBy k (us ++ w :: vs) w.tid = w.held k := by
  rw [heldBy_update (w := w) hdistinct rfl, Function.update_self]

/-- The inner lock is taken within the outer one. -/
theorem outer_mem_held (h : k.locks.inner ∈ (w.held k).mutexes) :
    k.locks.outer ∈ (w.held k).mutexes := by
  rw [Worker.held] at h ⊢
  cases hposition : w.position <;> simp [hposition, k.locks.distinct.symm] at h ⊢

/-! ## Calls on the locks -/

/-- The two locks. -/
def ids (k : Kernel) : List UInt64 := [k.locks.outer, k.locks.inner]

theorem outer_mem_ids (k : Kernel) : k.locks.outer ∈ ids k := List.mem_cons_self

theorem inner_mem_ids (k : Kernel) : k.locks.inner ∈ ids k := List.mem_cons_of_mem _ List.mem_cons_self

/-- The established order has been recorded. -/
def Recorded (k : Kernel) (p : ThreadGroup) : Prop :=
  (graph p).hasEdge k.locks.outer k.locks.inner = true

theorem recorded_congr (h : (graph p').orderPart = (graph p).orderPart) :
    Recorded k p' ↔ Recorded k p :=
  LockOrder.Graph.precedes_of_orderPart h _ _

/-- A worker calls for a lock, goes on with it or releases it. -/
structure Shifts (k : Kernel) (held : Tid → Ledger UInt32) (p p' : ThreadGroup) (w w' : Worker) :
    Prop where
  block : w'.block = w.block
  tid : w'.tid = w.tid
  failed : w'.failed = w.failed
  running : w'.position ≠ .departed
  position : w'.position ≠ .awaitsInner
  ahead_le : w'.ahead ≤ w.ahead
  settings : p'.settings = p.settings
  same : p.SameThreads p'
  holdings : p'.Holdings (ids k) (update held w.tid (w'.held k))
  order : (graph p').OnlyOrder k.locks.outer k.locks.inner
  /-- A round gets the worker ahead as the order is recorded. -/
  recorded : Recorded k p' ↔ Recorded k p ∨ w'.ahead < w.ahead

section Calls

variable {here : LockOrder.CallStack} {outcome : LockOrder.Outcome}
variable {report : Option LockOrder.Report}
variable (hholdings : p.Holdings (ids k) held)
variable (horder : (graph p).OnlyOrder k.locks.outer k.locks.inner) (ht : w.tid ≠ 0)
variable (hheld : held w.tid = w.held k)

include horder hheld in
/-- A worker that holds nothing gets the outer lock. -/
theorem shifts_outer (hnone : w.held k = [])
    (hgains : p.Gains (ids k) held k.locks.outer w.tid here p' outcome report) {rounds : Nat}
    (hahead : rounds + 1 = w.ahead) :
    Shifts k held p p' w { w with rounds, position := .holdsOuter } := by
  have hacquired := hgains.order
  rw [hheld, hnone] at hacquired
  obtain ⟨-, horder', hedge⟩ := horder.alone hacquired (by simp)
  have hholds := hgains.holdings
  rw [hheld, hnone] at hholds
  exact ⟨rfl, rfl, rfl, by simp, by simp, Nat.le_of_eq hahead, hgains.settings, hgains.same, hholds,
    horder', (iff_of_eq (congrArg (· = true) hedge)).trans
      (or_iff_left (Nat.not_lt_of_le (Nat.le_of_eq hahead.symm))).symm⟩

include horder hheld in
/-- A worker that has the outer lock gets the inner one. -/
theorem shifts_inner (hposition : w.position = .holdsOuter)
    (hgains : p.Gains (ids k) held k.locks.inner w.tid here p' outcome report) :
    Shifts k held p p' w { w with position := .holdsBoth } := by
  have houter : w.held k = [⟨k.locks.outer, 0⟩] := by rw [Worker.held, hposition]
  have hahead : w.rounds < w.ahead := by
    rw [Worker.ahead, hposition]
    exact Nat.lt_succ_self _
  have hacquired := hgains.order
  rw [hheld, houter] at hacquired
  obtain ⟨-, horder', hedge⟩ := horder.nested hacquired k.locks.distinct
  have hholds := hgains.holdings
  rw [hheld, houter] at hholds
  exact ⟨rfl, rfl, rfl, by simp, by simp, Nat.le_of_lt hahead, hgains.settings, hgains.same, hholds,
    horder', iff_of_true hedge (.inr hahead)⟩

include hholdings horder ht hheld in
/-- A worker releases the lock it has acquired last. -/
theorem exists_shifts_unlock {rest : Ledger UInt32} (hm : m ∈ ids k)
    (hlast : w.held k = ⟨m, 0⟩ :: rest) (hrest : m ∉ rest.mutexes) (next : Worker.Position)
    (hnext : ({ w with position := next } : Worker).held k = rest)
    (hahead : ({ w with position := next } : Worker).ahead = w.ahead)
    (hplain : next ≠ .departed ∧ next ≠ .awaitsInner) :
    ∃ p', w.callUnlock p m next = some ({ w with position := next }, p') ∧
      Shifts k held p p' w { w with position := next } := by
  obtain ⟨p', hunlock, hsettings, hsame, hholds, hpart, -⟩ :=
    hholdings.exists_unlock hm ht (hheld.trans hlast) hrest
  refine ⟨p', by rw [Worker.callUnlock, hunlock]; rfl, rfl, rfl, rfl, hplain.1, hplain.2,
    Nat.le_of_eq hahead, hsettings, hsame, hnext ▸ hholds, horder.congr_orderPart hpart, ?_⟩
  exact (recorded_congr hpart).trans
    (or_iff_left (Nat.not_lt_of_le (Nat.le_of_eq hahead.symm))).symm

include hholdings horder ht hheld in
/-- No step of a worker that has rounds to do or locks to release fails or is the last one. -/
theorem exists_shifts (point : Nat) (hable : w.able k p = true) (hrunning : w.position ≠ .departed)
    (hposition : w.position ≠ .awaitsInner) (hrounds : w.position = .apart → w.rounds ≠ 0)
    (hinner : w.position = .holdsOuter → (p.locks.mutexes.get k.locks.inner).isLocked = false) :
    ∃ w' p', w.act k point p = some (some w', p') ∧ Shifts k held p p' w w' := by
  have hepoch := horder.epoch_lt
  rw [Worker.able] at hable
  cases hp : w.position with
  | apart =>
    obtain ⟨n, hn⟩ := Nat.exists_eq_succ_of_ne_zero (hrounds hp)
    have hnone : w.held k = [] := by rw [Worker.held, hp]
    have hahead : n + 1 = w.ahead := by rw [Worker.ahead, hp, hn]
    cases hlocked : (p.locks.mutexes.get k.locks.outer).isLocked with
    | true =>
      have hwaits := hholdings.lock_waits (outer_mem_ids k) hlocked w.tid (k.here point)
      refine ⟨{ w with rounds := n, position := .awaitsOuter }, p, ?_, rfl, rfl, rfl, by simp, by simp,
        Nat.le_of_eq hahead, rfl, ⟨rfl, rfl⟩, ?_, horder,
        (or_iff_left (Nat.not_lt_of_le (Nat.le_of_eq hahead.symm))).symm⟩
      · simp [Worker.act, hp, hn, Worker.callLock, hwaits]
      · have hsame : update held w.tid [] = held :=
          Function.update_eq_self_iff.2 (hheld.trans hnone).symm
        exact hsame.symm ▸ hholdings
    | false =>
      obtain ⟨⟨p', outcome, report, hlock, hgains⟩, -⟩ :=
        hholdings.exists_gains (outer_mem_ids k) ht hlocked hepoch (k.here point)
      refine ⟨_, p', ?_, shifts_outer horder hheld hnone hgains hahead⟩
      simp [Worker.act, hp, hn, Worker.callLock, hlock]
  | awaitsOuter =>
    have hnone : w.held k = [] := by rw [Worker.held, hp]
    have hahead : w.rounds + 1 = w.ahead := by rw [Worker.ahead, hp]
    have hfree : (p.locks.mutexes.get k.locks.outer).isLocked = false := by simpa [hp] using hable
    obtain ⟨-, p', outcome, report, hhand, hgains⟩ :=
      hholdings.exists_gains (outer_mem_ids k) ht hfree hepoch (k.here point)
    refine ⟨_, p', ?_, shifts_outer horder hheld hnone hgains hahead⟩
    simp [Worker.act, hp, Worker.resumeLock, hhand]
  | holdsOuter =>
    obtain ⟨⟨p', outcome, report, hlock, hgains⟩, -⟩ :=
      hholdings.exists_gains (inner_mem_ids k) ht (hinner hp) hepoch (k.here point)
    refine ⟨_, p', ?_, shifts_inner horder hheld hp hgains⟩
    simp [Worker.act, hp, Worker.callLock, hlock]
  | awaitsInner => exact absurd hp hposition
  | holdsBoth =>
    have hlast : w.held k = ⟨k.locks.inner, 0⟩ :: [⟨k.locks.outer, 0⟩] := by rw [Worker.held, hp]
    obtain ⟨p', hcall, hshifts⟩ := exists_shifts_unlock hholdings horder ht hheld
      (inner_mem_ids k) hlast (by simpa using k.locks.distinct.symm) .releases rfl
      (by rw [Worker.ahead, Worker.ahead, hp]) (by decide)
    exact ⟨_, p', by simp [Worker.act, hp, hcall], hshifts⟩
  | releases =>
    have hlast : w.held k = ⟨k.locks.outer, 0⟩ :: [] := by rw [Worker.held, hp]
    obtain ⟨p', hcall, hshifts⟩ := exists_shifts_unlock hholdings horder ht hheld
      (outer_mem_ids k) hlast List.not_mem_nil .apart rfl
      (by rw [Worker.ahead, Worker.ahead, hp]) (by decide)
    exact ⟨_, p', by simp [Worker.act, hp, hcall], hshifts⟩
  | departed => exact absurd hp hrunning

end Calls

end Inversion
end Threading.Scenario
