import Mathlib.Tactic.ByContra
import Threading.Futex.Mutex

/-!
# Exclusion and wakes of the futex mutex

However the threads are interleaved, one of them at most holds the mutex, and the word
says whether one does. A sleeper never depends on a wake that nobody owes: the word is
marked, or an awake thread is about to wake a sleeper or to look at the word again.
Fairness is not assumed, so nothing is said of how long a thread waits.
-/
namespace Threading.Futex.Mutex

/-- The thread is between an acquisition and its release. -/
def Point.isHolding : Point → Bool
  | holding | releasing => true
  | _ => false

/-- The thread is awake, and will wake a sleeper or look at the word again. -/
def Point.attends (p : Point) : Prop := p = waking ∨ p.isLooking = true

variable {word word' : UInt32} {p q : Point} {i j : Nat}

/-! ## One operation -/

/-- The operations one by one: the word and the point before, the point and the word after. -/
inductive Point.Goes : UInt32 → Point → Point → UInt32 → Prop
  | enterFree : Goes 0 entering holding 1
  | enterTaken {word : UInt32} : word ≠ 0 → Goes word entering looking word
  | lookFree : Goes 0 looking claiming 0
  | lookUnmarked : Goes 1 looking marking 1
  | lookMarked {word : UInt32} : word ≠ 0 → word ≠ 1 → Goes word looking waiting word
  | claimFree : Goes 0 claiming holding 2
  | claimTaken {word : UInt32} : word ≠ 0 → Goes word claiming looking word
  | mark : Goes 1 marking waiting 2
  | markLate {word : UInt32} : word ≠ 1 → Goes word marking waiting word
  | sleep : Goes 2 waiting asleep 2
  | stayAwake {word : UInt32} : word ≠ 2 → Goes word waiting looking word
  | tryFree : Goes 0 trying holding 1
  | tryTaken {word : UInt32} : word ≠ 0 → Goes word trying idle word
  | releaseMarked : Goes 2 releasing waking 0
  | releaseUnmarked {word : UInt32} : word ≠ 2 → Goes word releasing idle 0
  | wake {word : UInt32} : Goes word waking idle word

theorem Point.goes_of_next (h : p.next word = some (q, word')) : Goes word p q word' := by
  cases p with
  | idle | asleep | holding => simp [next] at h
  | entering =>
    by_cases hword : word = 0 <;> simp [next, hword] at h <;> obtain ⟨rfl, rfl⟩ := h
    · exact hword ▸ .enterFree
    · exact .enterTaken hword
  | looking =>
    by_cases hfree : word = 0
    · simp [next, hfree] at h
      obtain ⟨rfl, rfl⟩ := h
      exact hfree ▸ .lookFree
    by_cases hunmarked : word = 1 <;> simp [next, hfree, hunmarked] at h <;> obtain ⟨rfl, rfl⟩ := h
    · exact hunmarked ▸ .lookUnmarked
    · exact .lookMarked hfree hunmarked
  | claiming =>
    by_cases hword : word = 0 <;> simp [next, hword] at h <;> obtain ⟨rfl, rfl⟩ := h
    · exact hword ▸ .claimFree
    · exact .claimTaken hword
  | marking =>
    by_cases hword : word = 1 <;> simp [next, hword] at h <;> obtain ⟨rfl, rfl⟩ := h
    · exact hword ▸ .mark
    · exact .markLate hword
  | waiting =>
    by_cases hword : word = 2 <;> simp [next, hword] at h <;> obtain ⟨rfl, rfl⟩ := h
    · exact hword ▸ .sleep
    · exact .stayAwake hword
  | trying =>
    by_cases hword : word = 0 <;> simp [next, hword] at h <;> obtain ⟨rfl, rfl⟩ := h
    · exact hword ▸ .tryFree
    · exact .tryTaken hword
  | releasing =>
    by_cases hword : word = 2 <;> simp [next, hword] at h <;> obtain ⟨rfl, rfl⟩ := h
    · exact hword ▸ .releaseMarked
    · exact .releaseUnmarked hword
  | waking =>
    simp [next] at h
    obtain ⟨rfl, rfl⟩ := h
    exact .wake

/-- An operation takes the free mutex, gives it up, or leaves the holders and the word
being free alone. -/
theorem Point.Goes.holding (h : Goes word p q word') :
    (word = 0 ∧ word' ≠ 0 ∧ q.isHolding = true) ∨
      (word' = 0 ∧ p.isHolding = true ∧ q.isHolding = false) ∨
        ((word' = 0 ↔ word = 0) ∧ q.isHolding = p.isHolding) := by
  cases h <;> simp [isHolding]

/-- A thread goes to sleep only if it finds the word marked. -/
theorem Point.Goes.marked_of_asleep (h : Goes word p asleep word') : word' = 2 := by
  cases h
  rfl

/-- The mark stays, unless it turns into the debt of a wake. -/
theorem Point.Goes.of_marked (h : Goes 2 p q word') : word' = 2 ∨ q = waking := by
  cases h <;> simp_all

/-- A thread leaves the slow path only with the word marked. -/
theorem Point.Goes.of_looking (hp : p.isLooking = true) (h : Goes word p q word') :
    q.isLooking = true ∨ word' = 2 := by
  cases h <;> simp_all [isLooking]

/-- A thread in the slow path that is awake has an operation to do. -/
theorem Point.exists_next_of_looking (hp : p.isLooking = true) (word : UInt32) :
    ∃ q word', p.next word = some (q, word') := by
  cases p <;> simp only [isLooking, Bool.false_eq_true] at hp <;> exact ⟨_, _, rfl⟩

/-- No operation leads back to its own place. -/
theorem Point.Goes.ne (h : Goes word p q word') : q ≠ p := by
  cases h <;> simp

namespace System

variable {s t : System}

@[simp] theorem word_move (s : System) (i : Nat) (p : Point) : (s.move i p).word = s.word := rfl

theorem point_move (s : System) (i j : Nat) (p : Point) :
    (s.move i p).point j = if j = i then p else s.point j := rfl

@[simp] theorem point_move_self (s : System) (i : Nat) (p : Point) : (s.move i p).point i = p := by
  rw [point_move, if_pos rfl]

theorem point_move_of_ne (h : j ≠ i) : (s.move i p).point j = s.point j := by
  rw [point_move, if_neg h]

/-! ## Who holds the mutex -/

/-- What a step does to the word and to the threads that hold the mutex. -/
inductive Changes (s t : System) : Prop
  | taken (i : Nat) : s.word = 0 → t.word ≠ 0 →
      (∀ j, (t.point j).isHolding = if j = i then true else (s.point j).isHolding) → Changes s t
  | given (i : Nat) : (s.point i).isHolding = true → t.word = 0 →
      (∀ j, (t.point j).isHolding = if j = i then false else (s.point j).isHolding) → Changes s t
  | kept : (t.word = 0 ↔ s.word = 0) → (∀ j, (t.point j).isHolding = (s.point j).isHolding) →
      Changes s t

theorem isHolding_move (s : System) (i j : Nat) (p : Point) :
    ((s.move i p).point j).isHolding = if j = i then p.isHolding else (s.point j).isHolding := by
  rw [point_move, apply_ite Point.isHolding]

/-- A thread may move as it likes outside of the mutex, or inside of it. -/
theorem isHolding_move_of_eq (h : p.isHolding = (s.point i).isHolding) (j : Nat) :
    ((s.move i p).point j).isHolding = (s.point j).isHolding := by
  rw [isHolding_move]
  split
  next hj => rw [h, hj]
  · rfl

theorem Step.changes (h : Step s t) : s.Changes t := by
  cases h with
  | callLock i hi | callTryLock i hi | callUnlock i hi | wakeSpuriously i hi =>
    exact .kept Iff.rfl (isHolding_move_of_eq (by rw [hi]; rfl))
  | wakeNobody i hi _ => exact .kept Iff.rfl (isHolding_move_of_eq (by rw [hi]; rfl))
  | wake i k hi hk =>
    refine .kept Iff.rfl fun j => ?_
    have hne : k ≠ i := by
      rintro rfl
      rw [hi] at hk
      exact absurd hk (by decide)
    rw [isHolding_move_of_eq (by rw [point_move_of_ne hne, hk]; rfl),
      isHolding_move_of_eq (by rw [hi]; rfl)]
  | operate i p word _ hnext =>
    rcases (Point.goes_of_next hnext).holding with
      ⟨hword, hword', hp⟩ | ⟨hword', hi, hp⟩ | ⟨hword, hp⟩
    · exact .taken i hword hword' fun j => by rw [← hp]; exact isHolding_move s i j p
    · exact .given i hi hword' fun j => by rw [← hp]; exact isHolding_move s i j p
    · exact .kept hword (isHolding_move_of_eq hp)

/-- One thread at most holds the mutex, and the word is 0 as long as none does. -/
structure Exclusive (s : System) : Prop where
  unique : ∀ i j, (s.point i).isHolding = true → (s.point j).isHolding = true → i = j
  free_iff : s.word = 0 ↔ ∀ i, (s.point i).isHolding = false

theorem exclusive_initial : Exclusive initial where
  unique := by
    intro i j hi
    exact absurd hi (by simp [initial, Point.isHolding])
  free_iff := by simp [initial, Point.isHolding]

theorem Exclusive.step (h : s.Exclusive) (hs : Step s t) : t.Exclusive := by
  cases hs.changes with
  | taken i hword hword' hholding =>
    have hnone := h.free_iff.1 hword
    have honly (j : Nat) (hj : (t.point j).isHolding = true) : j = i := by
      rw [hholding] at hj
      by_contra hne
      simp [hne, hnone j] at hj
    refine ⟨fun j k hj hk => (honly j hj).trans (honly k hk).symm, iff_of_false hword' ?_⟩
    intro hall
    simpa [hholding] using hall i
  | given i hi hword' hholding =>
    have hnone (j : Nat) : (t.point j).isHolding = false := by
      rw [hholding]
      by_cases hj : j = i
      · rw [if_pos hj]
      · rw [if_neg hj, ← Bool.not_eq_true]
        intro hholds
        exact hj (h.unique j i hholds hi)
    refine ⟨fun j k hj => ?_, iff_of_true hword' hnone⟩
    exact absurd hj (by simp [hnone j])
  | kept hword hholding =>
    refine ⟨fun j k => ?_, ?_⟩
    · rw [hholding, hholding]
      exact h.unique j k
    · simp only [hholding, hword, h.free_iff]

/-! ## Who will look after a sleeper -/

/-- The word is marked, or an awake thread will wake a sleeper or look at the word again. -/
def Attended (s : System) : Prop := s.word = 2 ∨ ∃ j, (s.point j).attends

/-- While a thread sleeps, somebody looks after it. -/
def Watched (s : System) : Prop := ∀ i, s.point i = .asleep → s.Attended

theorem watched_initial : Watched initial := by
  intro i hi
  exact absurd hi (by simp [initial])

/-- A thread that was not under way moves without falling asleep. -/
theorem Watched.move (h : s.Watched) (hi : ¬ (s.point i).attends) (hp : p ≠ .asleep) :
    (s.move i p).Watched := by
  intro j hj
  have hji : j ≠ i := by
    rintro rfl
    exact hp ((point_move_self s j p).symm.trans hj)
  rw [point_move_of_ne hji] at hj
  rcases h j hj with hword | ⟨k, hk⟩
  · exact .inl hword
  · have hki : k ≠ i := by
      rintro rfl
      exact hi hk
    exact .inr ⟨k, by rwa [point_move_of_ne hki]⟩

theorem attended_move (s : System) (i : Nat) (hp : p.attends) : (s.move i p).Attended :=
  .inr ⟨i, by rwa [point_move_self]⟩

/-- An operation of a thread that owes no wake leaves the sleepers attended. -/
theorem Watched.operate (h : s.Watched) (hi : s.point i ≠ .waking)
    (hnext : (s.point i).next s.word = some (p, word)) :
    Watched { s.move i p with word } := by
  intro j hj
  by_cases hji : j = i
  · -- the thread has gone to sleep just now
    obtain rfl : p = .asleep := by
      rw [← hj, hji]
      exact (point_move_self s i p).symm
    exact .inl (Point.goes_of_next hnext).marked_of_asleep
  · have hj : s.point j = .asleep := (point_move_of_ne hji).symm.trans hj
    rcases h j hj with hword | ⟨k, hk⟩
    · rw [hword] at hnext
      rcases (Point.goes_of_next hnext).of_marked with hword' | hp
      · exact .inl hword'
      · exact .inr ⟨i, .inl ((point_move_self s i p).trans hp)⟩
    · by_cases hki : k = i
      · subst hki
        rcases (Point.goes_of_next hnext).of_looking (hk.resolve_left hi) with hp | hword'
        · exact .inr ⟨k, .inr (by rwa [show System.point _ k = p from point_move_self s k p])⟩
        · exact .inl hword'
      · exact .inr ⟨k, by rwa [show System.point _ k = s.point k from point_move_of_ne hki]⟩

theorem Watched.step (h : s.Watched) (hs : Step s t) : t.Watched := by
  cases hs with
  | callLock i hi | callTryLock i hi | callUnlock i hi =>
    exact h.move (by simp [hi, Point.attends, Point.isLooking]) (by decide)
  | operate i p word hi hnext => exact h.operate hi hnext
  | wake i k _ _ => exact fun _ _ => attended_move _ k (.inr rfl)
  | wakeNobody i _ hnone =>
    intro j hj
    rw [point_move] at hj
    split at hj
    · exact absurd hj (by decide)
    · exact absurd hj (hnone j)
  | wakeSpuriously i _ => exact fun _ _ => attended_move s i (.inr rfl)

/-- A thread that looks after the sleepers can go on. -/
theorem exists_step_of_attends (h : (s.point j).attends) :
    ∃ t, Step s t ∧ t.point j ≠ s.point j := by
  rcases h with hj | hj
  · by_cases hsleeper : ∃ k, s.point k = .asleep
    · obtain ⟨k, hk⟩ := hsleeper
      have hjk : j ≠ k := by
        rintro rfl
        rw [hj] at hk
        exact absurd hk (by decide)
      refine ⟨_, .wake s j k hj hk, ?_⟩
      rw [point_move_of_ne hjk, point_move_self, hj]
      decide
    · refine ⟨_, .wakeNobody s j hj (not_exists.1 hsleeper), ?_⟩
      rw [point_move_self, hj]
      decide
  · obtain ⟨p, word, hnext⟩ := Point.exists_next_of_looking hj s.word
    refine ⟨_, .operate s j p word ?_ hnext, ?_⟩
    · intro hwaking
      simp [hwaking, Point.isLooking] at hj
    · rw [show System.point _ j = p from point_move_self s j p]
      exact (Point.goes_of_next hnext).ne

/-! ## Every reachable state -/

theorem Reachable.exclusive (h : Reachable s) : s.Exclusive := by
  induction h with
  | initial => exact exclusive_initial
  | step _ hs ih => exact ih.step hs

theorem Reachable.watched (h : Reachable s) : s.Watched := by
  induction h with
  | initial => exact watched_initial
  | step _ hs ih => exact ih.step hs

/-- At most one thread is between an acquisition and its release, and the word is 0 exactly
while none is. While some thread sleeps the word is 2, or an unlocker still owes its wake, or
some thread is awake in the slow path; so if the mutex is free, a thread that is not asleep
is about to run. -/
theorem Reachable.exclusive_and_watched (h : Reachable s) :
    (∀ i j, (s.point i).isHolding = true → (s.point j).isHolding = true → i = j) ∧
      (s.word = 0 ↔ ∀ i, (s.point i).isHolding = false) ∧
      ∀ i, s.point i = .asleep →
        (s.word = 2 ∨ (∃ j, s.point j = .waking) ∨ ∃ j, (s.point j).isLooking = true) ∧
          (s.word = 0 → ∃ j t, s.point j ≠ .asleep ∧ Step s t ∧ t.point j ≠ s.point j) := by
  refine ⟨h.exclusive.unique, h.exclusive.free_iff, fun i hi => ⟨?_, fun hfree => ?_⟩⟩
  · rcases h.watched i hi with hword | ⟨j, hj | hj⟩
    · exact .inl hword
    · exact .inr (.inl ⟨j, hj⟩)
    · exact .inr (.inr ⟨j, hj⟩)
  · rcases h.watched i hi with hword | ⟨j, hj⟩
    · rw [hfree] at hword
      exact absurd hword (by decide)
    · obtain ⟨t, hs, hne⟩ := exists_step_of_attends hj
      refine ⟨j, t, ?_, hs, hne⟩
      intro hasleep
      simp [hasleep, Point.attends, Point.isLooking] at hj

theorem exclusive_and_watched_handover :
    ∃ s, Reachable s ∧ s.word = 0 ∧ s.point 0 = .waking ∧ s.point 1 = .asleep ∧
      (∀ i j, (s.point i).isHolding = true → (s.point j).isHolding = true → i = j) ∧
      (s.word = 0 ↔ ∀ i, (s.point i).isHolding = false) ∧
      ∀ i, s.point i = .asleep →
        (s.word = 2 ∨ (∃ j, s.point j = .waking) ∨ ∃ j, (s.point j).isLooking = true) ∧
          (s.word = 0 → ∃ j t, s.point j ≠ .asleep ∧ Step s t ∧ t.point j ≠ s.point j) := by
  -- thread 0 locks; thread 1 marks the mutex and sleeps; thread 0 swaps the mark out
  have hlocked := (Reachable.initial.step (.callLock _ 0 rfl)).step
    (.operate _ 0 .holding 1 (by decide) rfl)
  have hlooking := (hlocked.step (.callLock _ 1 rfl)).step (.operate _ 1 .looking 1 (by decide) rfl)
  have hmarked := (hlooking.step (.operate _ 1 .marking 1 (by decide) rfl)).step
    (.operate _ 1 .waiting 2 (by decide) rfl)
  have hasleep := hmarked.step (.operate _ 1 .asleep 2 (by decide) rfl)
  have hfreed := (hasleep.step (.callUnlock _ 0 rfl)).step
    (.operate _ 0 .waking 0 (by decide) rfl)
  exact ⟨_, hfreed, rfl, rfl, rfl, hfreed.exclusive_and_watched⟩

end System
end Threading.Futex.Mutex
