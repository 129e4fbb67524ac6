import Mathlib.Algebra.BigOperators.Group.Finset.Piecewise
import Threading.Futex.RwLock

/-!
# Admission and wakes of the reader-writer lock

A finite set of threads uses the lock, interleaved in any order. The word tells who is
inside: it counts the readers, or holds the writer's value while a writer is inside alone.
A sleeper that could get in is never forgotten: a thread that has changed the word is about
to find it among the waiters and to wake everybody. Two threads fewer than there are values
of the word keep a count of readers apart from the writer's value.
-/
namespace Threading.Futex.RwLock

/-- The thread is between getting in on this side and leaving. -/
def Point.isInside (side : Side) : Point → Bool
  | inside own | releasing own => own = side
  | _ => false

/-- The thread has counted itself as a waiter and has not counted itself out. -/
def Point.isCounted : Point → Bool
  | waiting .. | asleep _ | leaving _ => true
  | _ => false

/-- What the thread has read gives it reason to do what it is about to do. -/
def Point.Founded : Point → Prop
  | joining seen | tryJoining seen => seen < writer - 1
  | counting .shared seen | waiting .shared seen => seen = writer
  | counting .exclusive seen | waiting .exclusive seen => seen ≠ 0
  | _ => True

@[simp] theorem Point.isInside_inside (side own : Side) :
    (inside own).isInside side = decide (own = side) := rfl

@[simp] theorem Point.isInside_releasing (side own : Side) :
    (releasing own).isInside side = decide (own = side) := rfl

variable {w w' : Words} {p q : Point} {i j : Nat} {side : Side} {f : Point → Bool}

/-! ## One operation -/

/-- The operations one by one: the words and the point before, the point and the words after. -/
inductive Point.Goes (w : Words) : Point → Point → Words → Prop
  | seeRoom : w.word < writer - 1 → Goes w (looking .shared) (joining w.word) w
  | seeNoRoom : ¬ w.word < writer - 1 → Goes w (looking .shared) (counting .shared w.word) w
  | take : w.word = 0 →
      Goes w (looking .exclusive) (inside .exclusive) { w with word := writer }
  | seeTaken : w.word ≠ 0 → Goes w (looking .exclusive) (counting .exclusive w.word) w
  | join : Goes w (joining w.word) (inside .shared) { w with word := w.word + 1 }
  | joinLate {seen : UInt32} : w.word ≠ seen → Goes w (joining seen) (looking .shared) w
  | countIn {side : Side} {seen : UInt32} :
      Goes w (counting side seen) (waiting side seen) { w with waiters := w.waiters + 1 }
  | sleep {side : Side} : Goes w (waiting side w.word) (asleep side) w
  | stayAwake {side : Side} {seen : UInt32} : w.word ≠ seen →
      Goes w (waiting side seen) (leaving side) w
  | countOut {side : Side} : Goes w (leaving side) (looking side) { w with waiters := w.waiters - 1 }
  | trySeeRoom : w.word < writer - 1 → Goes w (trying .shared) (tryJoining w.word) w
  | trySeeNoRoom : ¬ w.word < writer - 1 → Goes w (trying .shared) idle w
  | tryTake : w.word = 0 →
      Goes w (trying .exclusive) (inside .exclusive) { w with word := writer }
  | trySeeTaken : w.word ≠ 0 → Goes w (trying .exclusive) idle w
  | tryJoin : Goes w (tryJoining w.word) (inside .shared) { w with word := w.word + 1 }
  | tryJoinLate {seen : UInt32} : w.word ≠ seen → Goes w (tryJoining seen) idle w
  | leaveLast : w.word = 1 → Goes w (releasing .shared) checking { w with word := w.word - 1 }
  | leave : w.word ≠ 1 → Goes w (releasing .shared) idle { w with word := w.word - 1 }
  | giveUp : Goes w (releasing .exclusive) checking { w with word := 0 }
  | findWaiters : w.waiters ≠ 0 → Goes w checking waking w
  | findNobody : w.waiters = 0 → Goes w checking idle w
  | wake : Goes w waking idle w

theorem Point.goes_of_next (h : p.next w = some (q, w')) : Goes w p q w' := by
  cases p with
  | idle | asleep | inside => simp [next] at h
  | looking side =>
    cases side with
    | shared =>
      by_cases hroom : w.word < writer - 1 <;> simp [next, hroom] at h <;> obtain ⟨rfl, rfl⟩ := h
      · exact .seeRoom hroom
      · exact .seeNoRoom hroom
    | exclusive =>
      by_cases hfree : w.word = 0 <;> simp [next, hfree] at h <;> obtain ⟨rfl, rfl⟩ := h
      · exact .take hfree
      · exact .seeTaken hfree
  | joining seen =>
    by_cases hseen : w.word = seen <;> simp [next, hseen] at h <;> obtain ⟨rfl, rfl⟩ := h
    · exact hseen ▸ .join
    · exact .joinLate hseen
  | counting side seen =>
    obtain ⟨rfl, rfl⟩ := Prod.mk.inj (Option.some.inj h)
    exact .countIn
  | waiting side seen =>
    by_cases hseen : w.word = seen <;> simp [next, hseen] at h <;> obtain ⟨rfl, rfl⟩ := h
    · exact hseen ▸ .sleep
    · exact .stayAwake hseen
  | leaving side =>
    obtain ⟨rfl, rfl⟩ := Prod.mk.inj (Option.some.inj h)
    exact .countOut
  | trying side =>
    cases side with
    | shared =>
      by_cases hroom : w.word < writer - 1 <;> simp [next, hroom] at h <;> obtain ⟨rfl, rfl⟩ := h
      · exact .trySeeRoom hroom
      · exact .trySeeNoRoom hroom
    | exclusive =>
      by_cases hfree : w.word = 0 <;> simp [next, hfree] at h <;> obtain ⟨rfl, rfl⟩ := h
      · exact .tryTake hfree
      · exact .trySeeTaken hfree
  | tryJoining seen =>
    by_cases hseen : w.word = seen <;> simp [next, hseen] at h <;> obtain ⟨rfl, rfl⟩ := h
    · exact hseen ▸ .tryJoin
    · exact .tryJoinLate hseen
  | releasing side =>
    cases side with
    | shared =>
      by_cases hlast : w.word = 1
      · simp only [next, if_pos hlast] at h
        obtain ⟨rfl, rfl⟩ := Prod.mk.inj (Option.some.inj h)
        exact .leaveLast hlast
      · simp only [next, if_neg hlast] at h
        obtain ⟨rfl, rfl⟩ := Prod.mk.inj (Option.some.inj h)
        exact .leave hlast
    | exclusive =>
      obtain ⟨rfl, rfl⟩ := Prod.mk.inj (Option.some.inj h)
      exact .giveUp
  | checking =>
    by_cases hnobody : w.waiters = 0 <;> simp [next, hnobody] at h <;> obtain ⟨rfl, rfl⟩ := h
    · exact .findNobody hnobody
    · exact .findWaiters hnobody
  | waking =>
    obtain ⟨rfl, rfl⟩ := Prod.mk.inj (Option.some.inj h)
    exact .wake

/-- As long as the word is the writer's value or leaves room for a reader, a thread acts on
what it has read for a reason only. -/
theorem Point.Goes.founded (hw : w.word = writer ∨ w.word < writer - 1) (hp : p.Founded)
    (h : Goes w p q w') : q.Founded := by
  cases h with
  | seeRoom hroom | trySeeRoom hroom => exact hroom
  | seeNoRoom hroom => exact hw.resolve_right hroom
  | seeTaken htaken => exact htaken
  | countIn => rename_i side seen; cases side <;> exact hp
  | _ => trivial

/-- A thread falls asleep on a word that keeps it out, and leaves the words alone. -/
theorem Point.Goes.asleep (hp : p.Founded) (h : Goes w p (asleep side) w') :
    w' = w ∧ match side with
      | .shared => w.word = writer
      | .exclusive => w.word ≠ 0 := by
  cases h
  cases side <;> exact ⟨rfl, hp⟩

/-- What an operation does to the words, and which part of them the thread accounts for. -/
inductive Point.Effect (w : Words) : Point → Point → Words → Prop
  | kept {p q : Point} : (∀ side, q.isInside side = p.isInside side) →
      q.isCounted = p.isCounted → Effect w p q w
  | joined {p : Point} : w.word < writer - 1 → (∀ side, p.isInside side = false) →
      p.isCounted = false → Effect w p (inside .shared) { w with word := w.word + 1 }
  | taken {p : Point} : w.word = 0 → (∀ side, p.isInside side = false) →
      p.isCounted = false → Effect w p (inside .exclusive) { w with word := writer }
  | left {q : Point} : (∀ side, q.isInside side = false) → q.isCounted = false →
      (w.word = 1 → q = checking) → Effect w (releasing .shared) q { w with word := w.word - 1 }
  | givenUp : Effect w (releasing .exclusive) checking { w with word := 0 }
  | countedIn {side : Side} {seen : UInt32} :
      Effect w (counting side seen) (waiting side seen) { w with waiters := w.waiters + 1 }
  | countedOut {side : Side} :
      Effect w (leaving side) (looking side) { w with waiters := w.waiters - 1 }

theorem Point.Goes.effect (hp : p.Founded) (h : Goes w p q w') : Effect w p q w' := by
  cases h with
  | take hfree | tryTake hfree => exact .taken hfree (fun _ => rfl) rfl
  | join | tryJoin => exact .joined hp (fun _ => rfl) rfl
  | leaveLast hlast => exact .left (fun _ => rfl) rfl fun _ => rfl
  | leave hlast => exact .left (fun _ => rfl) rfl fun h => absurd h hlast
  | giveUp => exact .givenUp
  | countIn => exact .countedIn
  | countOut => exact .countedOut
  | _ => exact .kept (fun _ => rfl) rfl

/-! ## The words as accounts -/

/-- The words say how many readers and writers are inside and how many threads wait. -/
structure Words.Accounts (w : Words) (readers writers waiting : Nat) : Prop where
  word : (w.word = writer ∧ writers = 1 ∧ readers = 0) ∨ (w.word.toNat = readers ∧ writers = 0)
  waiters : w.waiters.toNat = waiting

theorem toNat_lastRoom : (writer - 1).toNat = 2 ^ 32 - 2 := rfl

/-- With fewer readers than the word has room for, it is the writer's value or leaves room. -/
theorem Words.Accounts.room {readers writers waiting : Nat}
    (h : w.Accounts readers writers waiting) (hlt : readers < 2 ^ 32 - 2) :
    w.word = writer ∨ w.word < writer - 1 := by
  refine h.word.imp And.left fun hword => UInt32.lt_iff_toNat_lt.2 ?_
  rwa [hword.1, toNat_lastRoom]

theorem Words.Accounts.eq_writer_iff {readers writers waiting : Nat}
    (h : w.Accounts readers writers waiting) (hlt : readers < 2 ^ 32 - 2) :
    w.word = writer ↔ writers = 1 ∧ readers = 0 := by
  rcases h.word with hword | ⟨hword, hnone⟩
  · exact iff_of_true hword.1 hword.2
  · refine iff_of_false (fun heq => ?_) (fun hone => ?_)
    · have hmax : writer.toNat = 2 ^ 32 - 1 := rfl
      rw [← hword, heq, hmax] at hlt
      exact absurd hlt (by decide)
    · omega

theorem Words.Accounts.of_ne_writer {readers writers waiting : Nat}
    (h : w.Accounts readers writers waiting) (hne : w.word ≠ writer) :
    writers = 0 ∧ w.word.toNat = readers :=
  (h.word.resolve_left fun hword => hne hword.1).symm

/-- A reader that finds room finds it for one more. -/
theorem toNat_joined {word : UInt32} (h : word < writer - 1) :
    (word + 1).toNat = word.toNat + 1 := by
  have hlt : word.toNat < 2 ^ 32 - 2 := UInt32.lt_iff_toNat_lt.1 h
  rw [UInt32.toNat_add]
  exact Nat.mod_eq_of_lt (Nat.lt_trans (Nat.succ_lt_succ hlt) (by decide))

/-- An operation keeps the accounts, if each number changes by the thread's own part in it. -/
theorem Point.Effect.accounts {readers writers waiting readers' writers' waiting' : Nat}
    (he : Effect w p q w') (h : w.Accounts readers writers waiting)
    (hreaders : readers' + (p.isInside .shared).toNat = readers + (q.isInside .shared).toNat)
    (hwriters : writers' + (p.isInside .exclusive).toNat =
      writers + (q.isInside .exclusive).toNat)
    (hwaiting : waiting' + p.isCounted.toNat = waiting + q.isCounted.toNat)
    (hlt : waiting' < 2 ^ 32) : w'.Accounts readers' writers' waiting' := by
  obtain ⟨hword, hwaiters⟩ := h
  cases he with
  | kept hinside hsame =>
    rw [hinside, Nat.add_right_cancel_iff] at hreaders hwriters
    rw [hsame, Nat.add_right_cancel_iff] at hwaiting
    exact hreaders ▸ hwriters ▸ hwaiting ▸ ⟨hword, hwaiters⟩
  | joined hroom hout hno =>
    rw [hout] at hreaders hwriters
    rw [hno] at hwaiting
    rcases hword with ⟨heq, -⟩ | ⟨heq, hnone⟩
    · rw [heq] at hroom
      exact absurd hroom (by decide)
    · have hnext := (toNat_joined hroom).trans (heq ▸ hreaders.symm)
      refine ⟨.inr ⟨hnext, ?_⟩, hwaiters.trans hwaiting.symm⟩
      exact hwriters.trans hnone
  | taken hfree hout hno =>
    rw [hout] at hreaders hwriters
    rw [hno] at hwaiting
    rcases hword with ⟨heq, -⟩ | ⟨heq, hnone⟩
    · exact absurd (hfree.symm.trans heq) (by decide)
    · rw [hfree] at heq
      refine ⟨.inl ⟨rfl, ?_, hreaders.trans heq.symm⟩, hwaiters.trans hwaiting.symm⟩
      exact hwriters.trans (by rw [hnone]; rfl)
  | left hout hno _ =>
    rw [hout] at hreaders hwriters
    rw [hno] at hwaiting
    have hone : readers' + 1 = readers := hreaders
    rcases hword with ⟨-, -, hnone⟩ | ⟨heq, hnone⟩
    · omega
    · have hprev : (w.word - 1).toNat = w.word.toNat - 1 :=
        UInt32.toNat_sub_of_le _ _ (UInt32.le_iff_toNat_le.2 (heq ▸ hone ▸ Nat.le_add_left 1 _))
      refine ⟨.inr ⟨hprev.trans (by omega), ?_⟩, hwaiters.trans hwaiting.symm⟩
      exact hwriters.trans hnone
  | givenUp =>
    have hone : writers' + 1 = writers := hwriters
    rcases hword with ⟨-, hwriter, hnone⟩ | ⟨-, hnone⟩
    · refine ⟨.inr ⟨(hreaders.trans hnone).symm, ?_⟩, hwaiters.trans hwaiting.symm⟩
      omega
    · omega
  | countedIn =>
    have hone : waiting' = waiting + 1 := hwaiting
    subst hreaders hwriters
    refine ⟨hword, ?_⟩
    rw [UInt32.toNat_add, hwaiters, hone]
    exact Nat.mod_eq_of_lt (hone ▸ hlt)
  | countedOut =>
    have hone : waiting' + 1 = waiting := hwaiting
    subst hreaders hwriters
    refine ⟨hword, ?_⟩
    have hle : 1 ≤ w.waiters := UInt32.le_iff_toNat_le.2 (hwaiters ▸ hone ▸ Nat.le_add_left 1 _)
    rw [UInt32.toNat_sub_of_le _ _ hle, hwaiters, ← hone]
    rfl

/-- The lock would let a thread in on this side. -/
def Words.Admits (w : Words) : Side → Prop
  | .shared => w.word ≠ writer
  | .exclusive => w.word = 0

/-- An operation after which the lock would let somebody in leads to a check for waiters. -/
theorem Point.Effect.checking_of_admits (he : Effect w p q w')
    (hreader : p.isInside .shared = true → w.word ≠ writer) (hbefore : ¬ w.Admits side)
    (hafter : w'.Admits side) : q = checking := by
  cases he with
  | kept | countedIn | countedOut => exact absurd hafter hbefore
  | givenUp => rfl
  | taken =>
    cases side with
    | shared => exact absurd rfl hafter
    | exclusive => exact absurd (show writer = 0 from hafter) (by decide)
  | joined hroom =>
    cases side with
    | shared =>
      rw [not_not.1 hbefore] at hroom
      exact absurd hroom (by decide)
    | exclusive =>
      have hnext := toNat_joined hroom
      rw [show w.word + 1 = 0 from hafter] at hnext
      exact absurd hnext (Nat.succ_ne_zero _).symm
  | left _ _ hlast =>
    cases side with
    | shared => exact absurd (hreader rfl) hbefore
    | exclusive => exact hlast (UInt32.sub_eq_iff_eq_add.1 hafter)

namespace System

variable {s t : System} {u : Finset Nat}

theorem point_moved (s : System) (i j : Nat) (p : Point) :
    (s.move i p).point j = if j = i then p else s.point j := rfl

/-! ## Counting threads -/

/-- How many threads of a set stand at a point of a kind. -/
def among (s : System) (u : Finset Nat) (f : Point → Bool) : Nat :=
  (u.filter fun i => f (s.point i)).card

theorem among_eq_sum (s : System) (u : Finset Nat) (f : Point → Bool) :
    s.among u f = ∑ i ∈ u, (f (s.point i)).toNat := by
  rw [among, Finset.card_filter]
  exact Finset.sum_congr rfl fun i _ => by cases f (s.point i) <;> rfl

theorem among_pos (hi : i ∈ u) (hf : f (s.point i) = true) : 0 < s.among u f :=
  Finset.card_pos.2 ⟨i, Finset.mem_filter.2 ⟨hi, hf⟩⟩

theorem among_eq_zero (h : ∀ i, f (s.point i) = false) : s.among u f = 0 := by
  rw [among, Finset.card_eq_zero, Finset.filter_eq_empty_iff]
  intro i _
  simp [h i]

theorem among_le (s : System) (u : Finset Nat) (f : Point → Bool) : s.among u f ≤ u.card :=
  Finset.card_filter_le _ _

theorem among_congr (h : ∀ j, f (t.point j) = f (s.point j)) : t.among u f = s.among u f := by
  rw [among, among]
  exact congrArg Finset.card (Finset.filter_congr fun j _ => by rw [h])

/-- One thread that changes its place changes a count by its own part in it. -/
theorem among_of_change (f : Point → Bool) (hi : i ∈ u)
    (hstay : ∀ j ≠ i, t.point j = s.point j) :
    t.among u f + (f (s.point i)).toNat = s.among u f + (f (t.point i)).toNat := by
  have hrest : ∑ j ∈ u.erase i, (f (t.point j)).toNat = ∑ j ∈ u.erase i, (f (s.point j)).toNat :=
    Finset.sum_congr rfl fun j hj => by rw [hstay j (Finset.ne_of_mem_erase hj)]
  rw [among_eq_sum, among_eq_sum, ← Finset.add_sum_erase _ _ hi, ← Finset.add_sum_erase _ _ hi,
    hrest]
  omega

/-! ## Who is inside -/

/-- The states that interleavings of calls by these threads lead to. -/
inductive ReachableBy (u : Finset Nat) : System → Prop where
  | initial : ReachableBy u initial
  | step {s t : System} : ReachableBy u s → Step s t → (∀ i ∉ u, t.point i = .idle) →
      ReachableBy u t

theorem ReachableBy.outside (h : ReachableBy u s) : ∀ i ∉ u, s.point i = .idle := by
  cases h with
  | initial => exact fun _ _ => rfl
  | step _ _ hout => exact hout

theorem ReachableBy.moved (h : ReachableBy u s) (hi : i ∈ u) (hs : Step s (s.move i p)) :
    ReachableBy u (s.move i p) := by
  refine h.step hs fun j hj => ?_
  have hji : j ≠ i := fun hji => hj (hji ▸ hi)
  exact (if_neg hji).trans (h.outside j hj)

theorem ReachableBy.operated (h : ReachableBy u s) (hi : i ∈ u) (hwaking : s.point i ≠ .waking)
    (hnext : (s.point i).next s.words = some (p, w')) :
    ReachableBy u { s.move i p with words := w' } := by
  refine h.step (.operate s i p w' hwaking hnext) fun j hj => ?_
  have hji : j ≠ i := fun hji => hj (hji ▸ hi)
  exact (if_neg hji).trans (h.outside j hj)

/-- What a step does: a thread moves without touching the words, a thread does its next
operation, or a thread wakes all sleepers. -/
inductive Changes (s : System) : System → Prop
  | moved (i : Nat) (p : Point) : p ≠ s.point i →
      (∀ side, p.isInside side = (s.point i).isInside side) →
      p.isCounted = (s.point i).isCounted → p.Founded → (∀ side, p ≠ .asleep side) →
      s.point i ≠ .checking → s.point i ≠ .waking → Changes s (s.move i p)
  | operated (i : Nat) (p : Point) (words : Words) : s.point i ≠ .waking →
      (s.point i).Goes s.words p words → Changes s { s.move i p with words }
  | wokeAll (i : Nat) : s.point i = .waking → Changes s (s.wakeAll.move i .idle)

theorem Step.changes (h : Step s t) : s.Changes t := by
  cases h with
  | operate i p words hi hnext => exact .operated i p words hi (Point.goes_of_next hnext)
  | wake i hi => exact .wokeAll i hi
  | call i side hi | callTry i side hi | callUnlock i side hi | wakeSpuriously i side hi =>
    refine .moved i _ ?_ (fun _ => ?_) ?_ trivial nofun ?_ ?_ <;> rw [hi] <;> first | rfl | nofun
  | failSwap i seen hi =>
    refine .moved i _ ?_ (fun _ => ?_) ?_ trivial nofun ?_ ?_ <;> rw [hi] <;> first | rfl | nofun

/-- The words account for the threads, and no thread does anything without reason. -/
structure Counted (u : Finset Nat) (s : System) : Prop where
  outside : ∀ i ∉ u, s.point i = .idle
  founded : ∀ i, (s.point i).Founded
  accounts : s.words.Accounts (s.among u (Point.isInside .shared))
    (s.among u (Point.isInside .exclusive)) (s.among u Point.isCounted)

theorem counted_initial (u : Finset Nat) : Counted u initial where
  outside := fun _ _ => rfl
  founded := fun _ => trivial
  accounts := by
    refine ⟨.inr ⟨?_, ?_⟩, ?_⟩ <;> simp [among, initial, Point.isInside, Point.isCounted]

theorem Counted.mem_of_ne_idle (h : Counted u s) (hi : s.point i ≠ .idle) : i ∈ u := by
  by_contra hiu
  exact hi (h.outside i hiu)

theorem Counted.room (hu : u.card < 2 ^ 32 - 2) (h : Counted u s) :
    s.words.word = writer ∨ s.words.word < writer - 1 :=
  h.accounts.room (Nat.lt_of_le_of_lt (among_le s u _) hu)

/-- One thread does something that has its effect on the words. -/
theorem Counted.effect (hu : u.card < 2 ^ 32 - 2) (h : Counted u s) (hi : i ∈ u)
    (hstay : ∀ j ≠ i, t.point j = s.point j) (hfounded : (t.point i).Founded)
    (he : (s.point i).Effect s.words (t.point i) t.words) : Counted u t where
  outside := by
    intro j hj
    rw [hstay j (fun hji => hj (hji ▸ hi)), h.outside j hj]
  founded := by
    intro j
    by_cases hj : j = i
    · exact hj ▸ hfounded
    · rw [hstay j hj]
      exact h.founded j
  accounts := by
    refine he.accounts h.accounts (among_of_change _ hi hstay) (among_of_change _ hi hstay)
      (among_of_change _ hi hstay) ?_
    have hle := among_le t u Point.isCounted
    omega

/-- All sleepers wake up and one thread has done so. -/
theorem Counted.wokeAll (h : Counted u s) (hi : s.point i = .waking)
    (hout : ∀ j ∉ u, (s.wakeAll.move i .idle).point j = .idle) :
    Counted u (s.wakeAll.move i .idle) where
  outside := hout
  founded := by
    intro j
    rw [point_moved]
    split
    · trivial
    · have hj := h.founded j
      rw [wakeAll]
      cases hp : s.point j <;> simp only [hp] at hj ⊢ <;> exact hj
  accounts := by
    have hkeep (f : Point → Bool) (hidle : f .idle = f .waking)
        (hsleep : ∀ side, f (.leaving side) = f (.asleep side)) :
        (s.wakeAll.move i .idle).among u f = s.among u f := by
      refine among_congr fun j => ?_
      rw [point_moved]
      split
      next hj => rw [hj, hi, hidle]
      next =>
        rw [wakeAll]
        cases hp : s.point j <;> simp only [hp, hsleep]
    rw [hkeep _ rfl fun _ => rfl, hkeep _ rfl fun _ => rfl, hkeep _ rfl fun _ => rfl]
    exact h.accounts

theorem Counted.step (hu : u.card < 2 ^ 32 - 2) (h : Counted u s) (hs : Step s t)
    (hout : ∀ i ∉ u, t.point i = .idle) : Counted u t := by
  cases hs.changes with
  | moved i p hne hinside hcounted hfounded _ _ _ =>
    have hp : (s.move i p).point i = p := if_pos rfl
    have hi : i ∈ u := by
      by_contra hi
      exact hne ((hp.symm.trans (hout i hi)).trans (h.outside i hi).symm)
    exact h.effect hu hi (fun j hj => if_neg hj) (hp.symm ▸ hfounded)
      (hp.symm ▸ .kept hinside hcounted)
  | operated i p words _ hgoes =>
    have hp : (s.move i p).point i = p := if_pos rfl
    have hi : i ∈ u := h.mem_of_ne_idle fun hidle => by
      rw [hidle] at hgoes
      cases hgoes
    exact h.effect hu hi (fun j hj => if_neg hj)
      (hp.symm ▸ hgoes.founded (h.room hu) (h.founded i)) (hp.symm ▸ hgoes.effect (h.founded i))
  | wokeAll i hi => exact h.wokeAll hi hout

/-- While a thread waits, the words say so. -/
theorem Counted.waiters_ne_zero (h : Counted u s) (hi : (s.point i).isCounted = true) :
    s.words.waiters ≠ 0 := by
  have hiu := h.mem_of_ne_idle (i := i) fun hidle => by
    rw [hidle] at hi
    cases hi
  have hpos := among_pos hiu hi
  rw [← h.accounts.waiters] at hpos
  intro hzero
  rw [hzero] at hpos
  exact Nat.lt_irrefl 0 hpos

/-- The word is not the writer's value while a reader is inside. -/
theorem Counted.ne_writer (hu : u.card < 2 ^ 32 - 2) (h : Counted u s)
    (hi : (s.point i).isInside .shared = true) : s.words.word ≠ writer := by
  have hiu := h.mem_of_ne_idle (i := i) fun hidle => by
    rw [hidle] at hi
    cases hi
  intro heq
  have hlt := Nat.lt_of_le_of_lt (among_le s u (Point.isInside .shared)) hu
  exact Nat.ne_of_gt (among_pos hiu hi) ((h.accounts.eq_writer_iff hlt).1 heq).2

/-! ## Who is about to wake the sleepers -/

/-- The thread has changed the word and will wake all sleepers: it is about to, or about to
find that somebody waits. -/
def Owes (s : System) (i : Nat) : Prop :=
  s.point i = .waking ∨ (s.point i = .checking ∧ s.words.waiters ≠ 0)

/-- A sleeper that could get in will be woken. -/
def Watched (s : System) : Prop :=
  ∀ i side, s.point i = .asleep side → s.words.Admits side → ∃ j, s.Owes j

theorem watched_initial : Watched initial := by
  intro i side hi
  exact absurd hi nofun

/-- A thread that neither falls asleep nor was about to wake others moves. -/
theorem Watched.moved (h : s.Watched) (hp : ∀ side, p ≠ .asleep side)
    (hchecking : s.point i ≠ .checking) (hwaking : s.point i ≠ .waking) :
    (s.move i p).Watched := by
  intro j side hj hadmits
  have hji : j ≠ i := by
    rintro rfl
    exact hp side ((if_pos rfl).symm.trans hj)
  obtain ⟨k, hk⟩ := h j side ((if_neg hji).symm.trans hj) hadmits
  have hki : k ≠ i := by
    rintro rfl
    exact hk.elim hwaking fun hk => hchecking hk.1
  have hsame : (s.move i p).point k = s.point k := if_neg hki
  exact ⟨k, hk.imp hsame.trans (And.imp_left hsame.trans)⟩

/-- An operation of a thread that owes no wake leaves the sleepers watched. -/
theorem Watched.operated (h : s.Watched) (hu : u.card < 2 ^ 32 - 2) (hs : Counted u s)
    (ht : Counted u { s.move i p with words := w' }) (hwaking : s.point i ≠ .waking)
    (hgoes : (s.point i).Goes s.words p w') : Watched { s.move i p with words := w' } := by
  intro j side hj hadmits
  have hwaiters : w'.waiters ≠ 0 := ht.waiters_ne_zero (congrArg Point.isCounted hj)
  by_cases hji : j = i
  · -- the thread has gone to sleep just now
    obtain rfl : p = .asleep side := by
      rw [← hj, hji]
      exact (if_pos rfl).symm
    obtain ⟨rfl, hout⟩ := hgoes.asleep (hs.founded i)
    cases side with
    | shared => exact absurd hout hadmits
    | exclusive => exact absurd hadmits hout
  · have hasleep : s.point j = .asleep side := (if_neg hji).symm.trans hj
    by_cases hbefore : s.words.Admits side
    · obtain ⟨k, hk⟩ := h j side hasleep hbefore
      by_cases hki : k = i
      · obtain ⟨hchecking, hsome⟩ := (hki ▸ hk).resolve_left hwaking
        rw [hchecking] at hgoes
        cases hgoes with
        | findWaiters => exact ⟨i, .inl (if_pos rfl)⟩
        | findNobody hnone => exact absurd hnone hsome
      · have hsame : (s.move i p).point k = s.point k := if_neg hki
        exact ⟨k, hk.imp hsame.trans fun hk => ⟨hsame.trans hk.1, hwaiters⟩⟩
    · have hchecking := (hgoes.effect (hs.founded i)).checking_of_admits (hs.ne_writer hu)
        hbefore hadmits
      exact ⟨i, .inr ⟨hchecking ▸ if_pos rfl, hwaiters⟩⟩

theorem Watched.step (hu : u.card < 2 ^ 32 - 2) (h : s.Watched) (hs : Counted u s)
    (hstep : Step s t) (hout : ∀ i ∉ u, t.point i = .idle) : t.Watched := by
  have ht := hs.step hu hstep hout
  cases hstep.changes with
  | moved i p _ _ _ _ hp hchecking hwaking => exact h.moved hp hchecking hwaking
  | operated i p words hwaking hgoes => exact h.operated hu hs ht hwaking hgoes
  | wokeAll i hi =>
    intro j side hj
    rw [point_moved] at hj
    split at hj
    · exact absurd hj nofun
    · rw [wakeAll] at hj
      dsimp only at hj
      split at hj
      next => exact absurd hj nofun
      next hne => exact absurd hj (hne side)

/-! ## Every reachable state -/

theorem ReachableBy.counted (hu : u.card < 2 ^ 32 - 2) (h : ReachableBy u s) : Counted u s := by
  induction h with
  | initial => exact counted_initial u
  | step _ hs hout ih => exact ih.step hu hs hout

theorem ReachableBy.watched (hu : u.card < 2 ^ 32 - 2) (h : ReachableBy u s) : s.Watched := by
  induction h with
  | initial => exact watched_initial
  | step hreach hs hout ih => exact ih.step hu (hreach.counted hu) hs hout

/-- The word is the writer's value exactly while one writer and no reader is inside, and else
no writer is inside and the word is the number of readers. While a thread sleeps that the lock
would let in, an unlocker that has changed the word owes a wake to all sleepers. -/
theorem ReachableBy.counts_and_wakes (hu : u.card < 2 ^ 32 - 2) (h : ReachableBy u s) :
    (s.words.word = writer ↔ s.among u (Point.isInside .exclusive) = 1 ∧
        s.among u (Point.isInside .shared) = 0) ∧
      (s.words.word ≠ writer → s.among u (Point.isInside .exclusive) = 0 ∧
        s.words.word.toNat = s.among u (Point.isInside .shared)) ∧
      (∀ i, s.point i = .asleep .shared →
        (∀ j, (s.point j).isInside .exclusive = false) → ∃ j, s.Owes j) ∧
      ∀ i, s.point i = .asleep .exclusive → s.words.word = 0 → ∃ j, s.Owes j := by
  have hcounted := h.counted hu
  have hwatched := h.watched hu
  have hwriter := hcounted.accounts.eq_writer_iff (Nat.lt_of_le_of_lt (among_le s u _) hu)
  refine ⟨hwriter, hcounted.accounts.of_ne_writer, fun i hi hnone => ?_,
    fun i hi hfree => hwatched i .exclusive hi hfree⟩
  refine hwatched i .shared hi fun heq => ?_
  have hzero : s.among u (Point.isInside .exclusive) = 0 := among_eq_zero hnone
  exact absurd ((hwriter.1 heq).1.symm.trans hzero) Nat.one_ne_zero

theorem counts_and_wakes_writerLeaving :
    ∃ s, ReachableBy {0, 1, 2} s ∧ Finset.card {0, 1, 2} < 2 ^ 32 - 2 ∧ s.words = ⟨0, 2⟩ ∧
      s.point 0 = .checking ∧ s.point 1 = .asleep .shared ∧ s.point 2 = .asleep .exclusive ∧
      (s.words.word = writer ↔ s.among {0, 1, 2} (Point.isInside .exclusive) = 1 ∧
        s.among {0, 1, 2} (Point.isInside .shared) = 0) ∧
      (s.words.word ≠ writer → s.among {0, 1, 2} (Point.isInside .exclusive) = 0 ∧
        s.words.word.toNat = s.among {0, 1, 2} (Point.isInside .shared)) ∧
      (∀ i, s.point i = .asleep .shared →
        (∀ j, (s.point j).isInside .exclusive = false) → ∃ j, s.Owes j) ∧
      ∀ i, s.point i = .asleep .exclusive → s.words.word = 0 → ∃ j, s.Owes j := by
  -- thread 0 writes, thread 1 wants to read and thread 2 to write, then thread 0 leaves
  have hwriting := (ReachableBy.initial.moved (by decide : 0 ∈ {0, 1, 2})
    (.call _ 0 .exclusive rfl)).operated (by decide : 0 ∈ {0, 1, 2}) nofun rfl
  have hreader := (((hwriting.moved (by decide : 1 ∈ {0, 1, 2}) (.call _ 1 .shared rfl)).operated
    (by decide : 1 ∈ {0, 1, 2}) nofun rfl).operated (by decide : 1 ∈ {0, 1, 2}) nofun rfl).operated
      (by decide : 1 ∈ {0, 1, 2}) nofun rfl
  have hasleep := (((hreader.moved (by decide : 2 ∈ {0, 1, 2}) (.call _ 2 .exclusive rfl)).operated
    (by decide : 2 ∈ {0, 1, 2}) nofun rfl).operated (by decide : 2 ∈ {0, 1, 2}) nofun rfl).operated
      (by decide : 2 ∈ {0, 1, 2}) nofun rfl
  have hleaving := (hasleep.moved (by decide : 0 ∈ {0, 1, 2})
    (.callUnlock _ 0 .exclusive rfl)).operated (by decide : 0 ∈ {0, 1, 2}) nofun rfl
  exact ⟨_, hleaving, by decide, rfl, rfl, rfl, rfl, hleaving.counts_and_wakes (by decide)⟩

end System
end Threading.Futex.RwLock
