import Mathlib.Data.List.Basic
import Threading.Thread.JoinState
import Threading.Word

/-!
# The life of a thread

A thread is created, it ends once by returning or exiting, and then the kernel takes its task
away. One party may claim it, a caller that joins it or one that detaches it, and a caller that
comes before the task is gone waits for that. The party that finds all of it done reclaims the
thread, and its life is over. The story of a thread is what happened to it, newest first.
-/
namespace Threading

/-- What can happen to a thread. -/
inductive Milestone where
  /-- It is created, from the start detached or not. -/
  | created (detached : Bool)
  /-- A caller that joins it has claimed it and waits. -/
  | awaited
  /-- It has ended, and a caller that detaches it has claimed it and waits. -/
  | dismissed
  /-- A detachment has returned. -/
  | detached
  /-- It has returned or exited. -/
  | ended (value : UInt64)
  /-- Its task is gone. -/
  | expired
  /-- A join has returned. -/
  | joined (value : UInt64)
  deriving DecidableEq, Repr

def Milestone.isJoined : Milestone → Bool
  | joined _ => true
  | _ => false

def Milestone.isEnded : Milestone → Bool
  | ended _ => true
  | _ => false

abbrev Story := List Milestone

namespace Story

def Created (ms : Story) : Prop := ∃ d, .created d ∈ ms

def Ended (ms : Story) : Prop := ∃ v, .ended v ∈ ms

def Expired (ms : Story) : Prop := .expired ∈ ms

def Awaited (ms : Story) : Prop := .awaited ∈ ms

def Dismissed (ms : Story) : Prop := .dismissed ∈ ms

/-- A join has returned. -/
def Joined (ms : Story) : Prop := ∃ v, .joined v ∈ ms

/-- The thread was created detached or has been detached. -/
def Detached (ms : Story) : Prop := .detached ∈ ms ∨ .created true ∈ ms

variable {m : Milestone} {ms : Story}

instance (ms : Story) : Decidable ms.Created :=
  decidable_of_iff (.created true ∈ ms ∨ .created false ∈ ms) <| by simp [Created, or_comm]

instance (ms : Story) : Decidable ms.Expired := inferInstanceAs (Decidable (_ ∈ _))

instance (ms : Story) : Decidable ms.Awaited := inferInstanceAs (Decidable (_ ∈ _))

instance (ms : Story) : Decidable ms.Dismissed := inferInstanceAs (Decidable (_ ∈ _))

instance (ms : Story) : Decidable ms.Detached := inferInstanceAs (Decidable (_ ∨ _))

instance (ms : Story) : Decidable ms.Ended :=
  decidable_of_iff (∃ m ∈ ms, m.isEnded = true) <| by
    constructor
    · rintro ⟨m, hm, hended⟩
      cases m with
      | ended v => exact ⟨v, hm⟩
      | _ => exact absurd hended (by simp [Milestone.isEnded])
    · rintro ⟨v, hv⟩
      exact ⟨_, hv, rfl⟩

@[simp] theorem created_cons : Created (m :: ms) ↔ (∃ d, m = .created d) ∨ ms.Created := by
  simp only [Created, List.mem_cons, exists_or, eq_comm]

@[simp] theorem ended_cons : Ended (m :: ms) ↔ (∃ v, m = .ended v) ∨ ms.Ended := by
  simp only [Ended, List.mem_cons, exists_or, eq_comm]

@[simp] theorem joined_cons : Joined (m :: ms) ↔ (∃ v, m = .joined v) ∨ ms.Joined := by
  simp only [Joined, List.mem_cons, exists_or, eq_comm]

@[simp] theorem expired_cons : Expired (m :: ms) ↔ m = .expired ∨ ms.Expired := by
  simp only [Expired, List.mem_cons, eq_comm]

@[simp] theorem awaited_cons : Awaited (m :: ms) ↔ m = .awaited ∨ ms.Awaited := by
  simp only [Awaited, List.mem_cons, eq_comm]

@[simp] theorem dismissed_cons : Dismissed (m :: ms) ↔ m = .dismissed ∨ ms.Dismissed := by
  simp only [Dismissed, List.mem_cons, eq_comm]

@[simp] theorem detached_cons :
    Detached (m :: ms) ↔ (m = .detached ∨ m = .created true) ∨ ms.Detached := by
  simp only [Detached, List.mem_cons, eq_comm, or_or_or_comm]

theorem countP_isJoined_eq_zero (h : ¬ ms.Joined) : ms.countP (·.isJoined) = 0 := by
  refine List.countP_eq_zero.2 fun m hm hjoined => ?_
  cases m with
  | joined v => exact h ⟨v, hm⟩
  | _ => exact absurd hjoined (by simp [Milestone.isJoined])

end Story

/-- Who has claimed a running thread. -/
inductive Claim where
  | free
  | awaited
  | detached
  deriving DecidableEq

def Claim.joinState : Claim → JoinState
  | free => .joinable
  | awaited => .joined
  | detached => .detached

/-- Who waits for the task of a thread that has ended to go. -/
inductive Waiter where
  | nobody
  /-- A caller that joins the thread. -/
  | joiner
  /-- A caller that detaches it. -/
  | detacher
  deriving DecidableEq

def Waiter.joinState : Waiter → JoinState
  | nobody => .exitedNotJoined
  | joiner | detacher => .joined

inductive Standing where
  | unborn
  | running (claim : Claim)
  /-- It has ended, and its task may still be there. -/
  | ended (value : UInt64) (waiter : Waiter) (there : Bool)
  | gone
  deriving DecidableEq

namespace Standing

/-- What can happen next, and where it leads. -/
inductive Next : Standing → Milestone → Standing → Prop
  | created (d : Bool) : Next unborn (.created d) (running (if d then .detached else .free))
  | awaited : Next (running .free) .awaited (running .awaited)
  | detached : Next (running .free) .detached (running .detached)
  | ended (v : UInt64) : Next (running .free) (.ended v) (ended v .nobody true)
  | endedAwaited (v : UInt64) : Next (running .awaited) (.ended v) (ended v .joiner true)
  | endedDetached (v : UInt64) : Next (running .detached) (.ended v) gone
  | awaitedLate (v : UInt64) : Next (ended v .nobody true) .awaited (ended v .joiner true)
  | dismissed (v : UInt64) : Next (ended v .nobody true) .dismissed (ended v .detacher true)
  | expired (v : UInt64) (w : Waiter) : Next (ended v w true) .expired (ended v w false)
  | joined (v : UInt64) {w : Waiter} (hw : w ≠ .detacher) : Next (ended v w false) (.joined v) gone
  | detachedLate (v : UInt64) {w : Waiter} (hw : w ≠ .joiner) :
      Next (ended v w false) .detached gone

/-- What the story of a thread says of where it stands. -/
def Describes : Standing → Story → Prop
  | unborn, ms => ms = []
  | running claim, ms => ms.Created ∧ ¬ ms.Ended ∧ ¬ ms.Joined ∧
      (ms.Awaited ↔ claim = .awaited) ∧ (ms.Detached ↔ claim = .detached) ∧
      ¬ ms.Dismissed ∧ ¬ ms.Expired
  | ended v w there, ms => ms.Created ∧ (∀ u, .ended u ∈ ms ↔ u = v) ∧ ¬ ms.Joined ∧
      (ms.Awaited ↔ w = .joiner) ∧ ¬ ms.Detached ∧
      (ms.Dismissed ↔ w = .detacher) ∧ (ms.Expired ↔ there = false)
  | gone, ms => ms.Created ∧ (∃ v, (∀ w, .ended w ∈ ms ↔ w = v) ∧ ∀ w, .joined w ∈ ms → w = v) ∧
      (ms.Joined ∧ ¬ ms.Dismissed ∧ ms.Expired ∨ ¬ ms.Awaited ∧ ms.Detached) ∧
      ms.countP (·.isJoined) ≤ 1

/-- The thread has a control block. -/
def Live : Standing → Prop
  | running _ | ended .. => True
  | unborn | gone => False

end Standing

/-- The story leads from before the creation to a standing. -/
inductive Life : Story → Standing → Prop
  | unborn : Life [] .unborn
  | next {ms : Story} {s s' : Standing} {m : Milestone} : Life ms s → s.Next m s' →
      Life (m :: ms) s'

variable {ms : Story} {s s' : Standing} {m : Milestone}

theorem Standing.Describes.next (h : s.Describes ms) (hn : s.Next m s') :
    s'.Describes (m :: ms) := by
  cases hn with
  | created d =>
    obtain rfl : ms = [] := h
    cases d <;> simp [Describes, Story.Created, Story.Ended, Story.Joined, Story.Awaited,
      Story.Detached, Story.Dismissed, Story.Expired]
  | awaited =>
    obtain ⟨hc, he, hj, -, hd, hm, hx⟩ := h
    simp [Describes, hc, he, hj, hd, hm, hx]
  | detached =>
    obtain ⟨hc, he, hj, ha, -, hm, hx⟩ := h
    simp [Describes, hc, he, hj, ha, hm, hx]
  | ended v | endedAwaited v =>
    obtain ⟨hc, he, hj, ha, hd, hm, hx⟩ := h
    have hno (w : UInt64) : .ended w ∉ ms := fun hw => he ⟨w, hw⟩
    simp [Describes, hc, hno, hj, ha, hd, hm, hx]
  | endedDetached v =>
    obtain ⟨hc, he, hj, ha, hd, -⟩ := h
    have hno (w : UInt64) : .ended w ∉ ms := fun hw => he ⟨w, hw⟩
    have hnot (w : UInt64) : .joined w ∉ ms := fun hw => hj ⟨w, hw⟩
    have hcount : List.countP Milestone.isJoined (.ended v :: ms) ≤ 1 := by
      rw [List.countP_cons, Story.countP_isJoined_eq_zero hj]
      simp [Milestone.isJoined]
    exact ⟨by simp [hc], ⟨v, by simp [hno], by simp [hnot]⟩, by simp [ha, hd], hcount⟩
  | awaitedLate v | dismissed v | expired v w =>
    obtain ⟨hc, he, hj, ha, hd, hm, hx⟩ := h
    simp [Describes, hc, he, hj, ha, hd, hm, hx]
  | joined v hw =>
    obtain ⟨hc, he, hj, -, -, hm, hx⟩ := h
    have hnot (w : UInt64) : .joined w ∉ ms := fun hw => hj ⟨w, hw⟩
    have hcount : List.countP Milestone.isJoined (.joined v :: ms) ≤ 1 := by
      rw [List.countP_cons, Story.countP_isJoined_eq_zero hj]
      simp [Milestone.isJoined]
    exact ⟨by simp [hc], ⟨v, by simp [he], by simp [hnot]⟩, by simp [hm, hw, hx], hcount⟩
  | detachedLate v hw =>
    obtain ⟨hc, he, hj, ha, -, -, -⟩ := h
    have hnot (w : UInt64) : .joined w ∉ ms := fun hw => hj ⟨w, hw⟩
    have hcount : List.countP Milestone.isJoined (.detached :: ms) ≤ 1 := by
      rw [List.countP_cons, Story.countP_isJoined_eq_zero hj]
      simp [Milestone.isJoined]
    exact ⟨by simp [hc], ⟨v, by simp [he], by simp [hnot]⟩, by simp [ha, hw], hcount⟩

/-- Only a creation happens to a thread that has no control block. -/
theorem Standing.Next.live (h : s.Next m s') (hm : ∀ d, m ≠ .created d) : s.Live := by
  cases h with
  | created d => exact absurd rfl (hm d)
  | _ => trivial

/-- The control block goes when the life is over. -/
theorem Standing.Next.eq_gone_iff (h : s.Next m s') : s' = .gone ↔ s.Live ∧ ¬ s'.Live := by
  cases h <;> simp [Standing.Live]

theorem Standing.Next.ne_gone (h : s.Next m s') : s ≠ .gone := by
  cases h <;> simp

theorem Standing.Next.unique {t : Standing} (h : s.Next m s') (ht : s.Next m t) : s' = t := by
  cases h <;> cases ht <;> rfl

/-- A story tells where a thread stands. -/
theorem Life.unique (h : Life ms s) (h' : Life ms s') : s = s' := by
  induction h generalizing s' with
  | unborn =>
    cases h'
    rfl
  | next _ hn ih =>
    cases h' with
    | next hlife hn' =>
      obtain rfl := ih hlife
      exact hn.unique hn'

theorem Life.describes (h : Life ms s) : s.Describes ms := by
  induction h with
  | unborn => rfl
  | next _ hn ih => exact ih.next hn

/-! ## Reading a story -/

namespace Standing.Describes

/-- A thread has a control block from its creation until it has ended and has been joined or
detached. -/
theorem live_iff (h : s.Describes ms) :
    s.Live ↔ ms.Created ∧ (¬ ms.Ended ∨ ¬ ms.Joined ∧ ¬ ms.Detached) := by
  cases s with
  | unborn =>
    obtain rfl : ms = [] := h
    simp [Live, Story.Created]
  | running claim =>
    obtain ⟨hc, he, -⟩ := h
    exact iff_of_true trivial ⟨hc, .inl he⟩
  | ended v w there =>
    obtain ⟨hc, -, hj, -, hd, -⟩ := h
    exact iff_of_true trivial ⟨hc, .inr ⟨hj, hd⟩⟩
  | gone =>
    obtain ⟨-, ⟨v, he, -⟩, hclaimed, -⟩ := h
    refine iff_of_false id ?_
    rintro ⟨-, hno | ⟨hj, hd⟩⟩
    · exact hno ⟨v, (he v).2 rfl⟩
    · exact hclaimed.elim (fun h => hj h.1) fun h => hd h.2

/-- A thread that has been created and has not ended runs. -/
theorem exists_running (h : s.Describes ms) (hc : ms.Created) (he : ¬ ms.Ended) :
    ∃ claim, s = running claim := by
  cases s with
  | unborn =>
    obtain rfl : ms = [] := h
    exact absurd hc (by simp [Story.Created])
  | running claim => exact ⟨claim, rfl⟩
  | ended v w there => exact absurd ⟨v, (h.2.1 v).2 rfl⟩ he
  | gone =>
    obtain ⟨v, hv, -⟩ := h.2.1
    exact absurd ⟨v, (hv v).2 rfl⟩ he

/-- A thread that has ended and has not been detached has its task for a while. -/
theorem exists_ended (h : s.Describes ms) (he : ms.Ended) (hx : ¬ ms.Expired)
    (hd : ¬ ms.Detached) : ∃ v w, s = ended v w true := by
  cases s with
  | unborn =>
    obtain rfl : ms = [] := h
    exact absurd he (by simp [Story.Ended])
  | running claim => exact absurd he h.2.1
  | ended v w there =>
    obtain ⟨-, -, -, -, -, -, hthere⟩ := h
    cases there with
    | false => exact absurd (hthere.2 rfl) hx
    | true => exact ⟨v, w, rfl⟩
  | gone =>
    obtain ⟨-, -, hclaimed, -⟩ := h
    exact hclaimed.elim (fun h => absurd h.2.2 hx) fun h => absurd h.2 hd

/-- A join returns the value the thread ended with, and at most one does. -/
theorem joined_spec (h : s.Describes ms) :
    ms.countP (·.isJoined) ≤ 1 ∧ ∀ v, .joined v ∈ ms → .ended v ∈ ms := by
  have hnone (hj : ¬ ms.Joined) :
      ms.countP (·.isJoined) ≤ 1 ∧ ∀ v, .joined v ∈ ms → .ended v ∈ ms :=
    ⟨by rw [Story.countP_isJoined_eq_zero hj]; exact Nat.zero_le 1, fun v hv => absurd ⟨v, hv⟩ hj⟩
  cases s with
  | unborn =>
    obtain rfl : ms = [] := h
    exact hnone (by simp [Story.Joined])
  | running claim => exact hnone h.2.2.1
  | ended v w there => exact hnone h.2.2.1
  | gone =>
    obtain ⟨-, ⟨v, he, hj⟩, -, hcount⟩ := h
    exact ⟨hcount, fun w hw => (he w).2 (hj w hw)⟩

theorem eq_of_ended (h : s.Describes ms) {v w : UInt64} (hv : .ended v ∈ ms) (hw : .ended w ∈ ms) :
    v = w := by
  cases s with
  | unborn =>
    obtain rfl : ms = [] := h
    exact absurd hv List.not_mem_nil
  | running claim => exact absurd ⟨v, hv⟩ h.2.1
  | ended u _ _ => exact ((h.2.1 v).1 hv).trans ((h.2.1 w).1 hw).symm
  | gone =>
    obtain ⟨u, hu, -⟩ := h.2.1
    exact ((hu v).1 hv).trans ((hu w).1 hw).symm

/-- What ends the life of a thread: the join that returns, the detachment of a thread that has
ended, or the end of one that is detached. -/
theorem next_gone_iff (h : s.Describes ms) (hn : s.Next m s') :
    s' = gone ↔ (∃ v, m = .joined v) ∨ m = .detached ∧ ms.Ended ∨
      (∃ v, m = .ended v) ∧ ms.Detached := by
  cases hn with
  | created d | awaited | awaitedLate v | dismissed v | expired v w => simp
  | detached => simp [h.2.1]
  | ended v => simp [h.2.2.2.2.1]
  | endedAwaited v => simp [h.2.2.2.2.1]
  | endedDetached v => simp [h.2.2.2.2.1]
  | joined v hw => simp
  | detachedLate v hw =>
    have he : ms.Ended := ⟨v, (h.2.1 v).2 rfl⟩
    simp [he]

/-- Nobody but the thread itself ends its life while its task is there. -/
theorem expired_of_next_gone (h : s.Describes ms) (hn : s.Next m gone) :
    (∃ v, m = .ended v) ∨ ms.Expired := by
  cases hn with
  | endedDetached v => exact .inl ⟨v, rfl⟩
  | joined v hw | detachedLate v hw => exact .inr (h.2.2.2.2.2.2.2 rfl)

end Standing.Describes
end Threading
