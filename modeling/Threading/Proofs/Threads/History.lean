import Threading.Proofs.Threads.Placement

/-!
# Histories of a process

Threads are created, end, lose their tasks, and are joined and detached by anyone in any order.
Memory for a new thread is apart from that of the registered ones, only a thread that runs can
end, and only a caller that waits goes on later. Then what is registered of a thread and how
often it was taken out follow from its story alone.
-/
namespace Threading.ThreadGroup

/-! ## Histories -/

/-- A deed that was done. -/
structure Record where
  before : ThreadGroup
  deed : Deed
  reply : Reply
  after : ThreadGroup

namespace Record

def milestone? (r : Record) : Option (BlockId × Milestone) :=
  ThreadGroup.milestone? r.deed r.reply

/-- The control block of the thread leaves the registry. -/
def Removes (r : Record) (i : BlockId) : Prop :=
  (r.before.registry.get? i).isSome = true ∧ (r.after.registry.get? i).isNone = true

instance (r : Record) (i : BlockId) : Decidable (r.Removes i) := inferInstanceAs (Decidable (_ ∧ _))

end Record

/-- What has happened to a thread, newest first. -/
def story (i : BlockId) (records : List Record) : Story :=
  records.filterMap fun r => (r.milestone?.filter (·.1 = i)).map (·.2)

/-- A new task has an id, and a thread that comes of it is given memory that is not in use.
Only a thread that runs ends, and one that has nothing to run does so by returning 0. The task
of a thread goes once, after it has ended and unless it took care of itself. Anyone may join
and detach, and who waits looks again. -/
def Allows (p : ThreadGroup) (records : List Record) : Deed → Prop
  | .create t here request launch => launch.tid ≠ 0 ∧
      ((p.launch t here request launch).launched.isSome = true →
        ∀ region ∈ provided? (request.getD {}) launch, p.Spares region)
  | .finish i v => ((story i records).Created ∧ ¬ (story i records).Ended) ∧
      ∀ c ∈ p.registry.get? i, c.routine.Returns v
  | .exit i _ => ((story i records).Created ∧ ¬ (story i records).Ended) ∧
      ∀ c ∈ p.registry.get? i, c.routine = .given
  | .expire i => (story i records).Ended ∧ ¬ (story i records).Expired ∧
      ¬ (story i records).Detached
  | .complete i => (story i records).Awaited
  | .release i => (story i records).Dismissed
  | .join .. | .detach _ => True

instance (p : ThreadGroup) (records : List Record) : (d : Deed) → Decidable (p.Allows records d)
  | .create .. => inferInstanceAs (Decidable (_ ∧ (_ → ∀ region ∈ _, _)))
  | .finish .. | .exit .. => inferInstanceAs (Decidable ((_ ∧ ¬ _) ∧ ∀ c ∈ _, _))
  | .expire _ => inferInstanceAs (Decidable (_ ∧ ¬ _ ∧ ¬ _))
  | .complete i => inferInstanceAs (Decidable (story i records).Awaited)
  | .release i => inferInstanceAs (Decidable (story i records).Dismissed)
  | .join .. | .detach _ => inferInstanceAs (Decidable True)

/-- The deeds that lead from a new process to a state, newest first. -/
inductive Lives (pid : Tid) (settings : Settings) : List Record → ThreadGroup → Prop
  | start : Lives pid settings [] (initial pid settings)
  | next {records : List Record} {p p' : ThreadGroup} {d : Deed} {reply : Reply} :
      Lives pid settings records p → p.Allows records d → p.perform? d = some (reply, p') →
      Lives pid settings (⟨p, d, reply, p'⟩ :: records) p'

/-- Does deeds one after the other, oldest first, if they are allowed. -/
def live? (p : ThreadGroup) (records : List Record) : List Deed → Option (List Record × ThreadGroup)
  | [] => some (records, p)
  | d :: deeds =>
    if p.Allows records d then
      match p.perform? d with
      | none => none
      | some (reply, p') => p'.live? (⟨p, d, reply, p'⟩ :: records) deeds
    else none

variable {pid : Tid} {settings : Settings} {p p' : ThreadGroup} {records : List Record}
variable {r : Record} {i j : BlockId} {d : Deed} {reply : Reply} {m : Milestone} {v : UInt64}
variable {s : Standing} {me : Tid}

theorem Lives.of_live? (h : Lives pid settings records p) {deeds : List Deed}
    {records' : List Record} (hlive : p.live? records deeds = some (records', p')) :
    Lives pid settings records' p' := by
  induction deeds generalizing p records with
  | nil =>
    obtain ⟨rfl, rfl⟩ : records = records' ∧ p = p' := by simpa [live?] using hlive
    exact h
  | cons d deeds ih =>
    rw [live?] at hlive
    split at hlive
    next hallows =>
      split at hlive
      · exact absurd hlive (by simp)
      next reply p₁ hperform => exact ih (h.next hallows hperform) hlive
    · exact absurd hlive (by simp)

theorem story_cons_self (h : r.milestone? = some (i, m)) (records : List Record) :
    story i (r :: records) = m :: story i records := by
  simp [story, h]

theorem story_cons_of_ne (h : r.milestone? = some (i, m)) (hne : j ≠ i) (records : List Record) :
    story j (r :: records) = story j records := by
  simp [story, h, hne.symm]

theorem story_cons_of_none (h : r.milestone? = none) (i : BlockId) (records : List Record) :
    story i (r :: records) = story i records := by
  simp [story, h]

/-- A thread that has just been created may return 0. -/
theorem allows_finish_of_created {detached : Bool} (h : r.milestone? = some (i, .created detached))
    (hnew : story i records = []) (p : ThreadGroup) : p.Allows (r :: records) (.finish i 0) := by
  have hstory : story i (r :: records) = [.created detached] := by
    rw [story_cons_self h, hnew]
  refine ⟨?_, fun c _ => ?_⟩
  · rw [hstory]
    constructor
    · exact ⟨detached, List.mem_singleton_self _⟩
    · rintro ⟨w, hw⟩
      exact absurd hw (by simp)
  · cases c.routine <;> simp [Routine.Returns]

/-! ## What the states of the threads say of their stories -/

/-- The registry, the mapped regions and the history go together. -/
structure Kept (pid : Tid) (records : List Record) (p : ThreadGroup) : Prop where
  lists : ∃ l, p.registry.Lists l
  placed : Placed pid p
  main : story 0 records = []
  fresh : ∀ i, p.registry.cells.size ≤ i → story i records = []
  life : ∀ i ≠ 0, ∃ s, Life (story i records) s ∧ Matches s (p.registry.get? i) ∧
    records.countP (·.Removes i) = if s = .gone then 1 else 0

theorem kept_initial (pid : Tid) (settings : Settings) : Kept pid [] (initial pid settings) := by
  have hl : (Registry.empty : Registry Control).Lists [] := Registry.lists_empty
  refine ⟨⟨_, hl.add (mainControl pid)⟩, placed_initial pid settings, rfl, fun _ _ => rfl, ?_⟩
  intro i hne
  refine ⟨.unborn, .unborn, ?_, rfl⟩
  rw [get?_initial, if_neg hne]
  rfl

/-- The memory that is mapped by a deed and unmapped again because no thread comes of it. -/
def Deed.unused : Deed → List Region
  | create _ _ request launch => (unused? (request.getD {}) launch).toList
  | _ => []

/-- A deed about a created thread takes it on from where its story left it; a thread that comes
of it finds its memory unused. -/
structure Advances (records : List Record) (r : Record) (i : BlockId) (s : Standing)
    (m : Milestone) : Prop where
  ne_zero : i ≠ 0
  life : Life (story i records) s
  matches_before : Matches s (r.before.registry.get? i)
  milestone? : r.milestone? = some (i, m)
  turns : r.before.Turns r.after i s m
  arrives : r.before.Arrives i (r.after.registry.get? i)
  unused : r.deed.unused = []

theorem unused_eq_nil (h : ThreadGroup.milestone? d reply = some (i, m))
    (hm : ∀ d, m ≠ .created d) : d.unused = [] := by
  cases d with
  | create t here request launch =>
    cases reply with
    | created j | degraded j e => exact absurd (Prod.mk.inj (Option.some.inj h)).2.symm (hm _)
    | _ => exact absurd h (by simp [ThreadGroup.milestone?])
  | _ => rfl

namespace Kept

theorem ne_zero (h : Kept pid records p) (hc : (story i records).Created) : i ≠ 0 := by
  rintro rfl
  rw [h.main] at hc
  exact absurd hc (by simp [Story.Created])

/-- A thread that has been created and has not ended is registered as running. -/
theorem runs (h : Kept pid records p) (hc : (story i records).Created)
    (he : ¬ (story i records).Ended) :
    ∃ claim, Life (story i records) (.running claim) ∧
      Matches (.running claim) (p.registry.get? i) := by
  obtain ⟨s, hlife, hs, -⟩ := h.life i (h.ne_zero hc)
  obtain ⟨claim, rfl⟩ := hlife.describes.exists_running hc he
  exact ⟨claim, hlife, hs⟩

/-- A running thread can end, by returning and by exiting. -/
theorem perform?_ending (h : Kept pid records p) (hc : (story i records).Created)
    (he : ¬ (story i records).Ended) (v : UInt64) :
    p.perform? (.finish i v) = some (.ended, p.depart i v) ∧
      p.perform? (.exit i v) = some (.ended, p.depart i v) := by
  have hne := h.ne_zero hc
  obtain ⟨l, hl⟩ := h.lists
  obtain ⟨claim, -, c, hi, -⟩ := h.runs hc he
  have hhoused := h.placed.housed i c hne hi
  have hreturn := returnWith_eq hi hhoused.starts hhoused.cleanupTop v
  have hleave := leave_eq hi hhoused.cleanupTop v
  have hcontrol : p.control i = .ok c := by rw [control, hi]
  constructor
  · rw [perform?, hreturn, Option.map_some]
  · simp only [perform?, hcontrol, h.placed.exiting_eq hl hne hi, hleave, Option.map_some]

/-- What a deed does to a registered thread takes it on. -/
theorem advances_of_turns (h : Kept pid records p) (hne : i ≠ 0)
    (hmilestone : ThreadGroup.milestone? d reply = some (i, m)) (hm : ∀ d, m ≠ .created d)
    (hturns : ∀ s, Life (story i records) s → Matches s (p.registry.get? i) → p.Turns p' i s m) :
    ∃ i s m, Advances records ⟨p, d, reply, p'⟩ i s m := by
  obtain ⟨s, hlife, hs, -⟩ := h.life i hne
  have hturns := hturns s hlife hs
  exact ⟨i, s, m, hne, hlife, hs, hmilestone, hturns, hturns.arrives hs hm _,
    unused_eq_nil hmilestone hm⟩

theorem advances_create (h : Kept pid records p) {t : Tid} {here : LockOrder.CallStack}
    {request : Option Attributes} {launch : Launch}
    (hallows : p.Allows records (.create t here request launch)) :
    (ThreadGroup.milestone? (.create t here request launch)
          (p.launch t here request launch).reply = none ∧
        p.SameThreads (p.launch t here request launch).group) ∨
      ∃ i s m, Advances records ⟨p, .create t here request launch,
        (p.launch t here request launch).reply, (p.launch t here request launch).group⟩ i s m := by
  obtain ⟨l, hl⟩ := h.lists
  obtain ⟨htid, hspares⟩ := hallows
  obtain ⟨e, hreply, hsame⟩ | ⟨region, c, m, hregion, hlaunched, hmilestone, hturns, hget, hc,
    hhoused⟩ := turns_launch hl t here request htid
  · exact .inl ⟨by rw [hreply]; rfl, hsame⟩
  have hpos : p.registry.cells.size ≠ 0 := Nat.ne_zero_of_lt (hl.lt_of_get? h.placed.main)
  have hunused : (Deed.create t here request launch).unused = [] := by
    obtain ⟨place, hhousing⟩ :=
      (p.isSome_launched_iff t here request launch).1 (by rw [hlaunched]; rfl)
    rw [Deed.unused, unused?_of_housing hhousing]
    rfl
  refine .inr ⟨_, .unborn, m, hpos, h.fresh _ (Nat.le_refl _) ▸ .unborn,
    hl.get?_eq_none (Nat.le_refl _), hmilestone, hturns, ?_, hunused⟩
  intro _ c' hc'
  obtain rfl := Option.some.inj (hget.symm.trans hc')
  refine ⟨hhoused, ?_⟩
  intro j d hj
  rw [hc]
  exact (hspares (by rw [hlaunched]; rfl) region hregion).apart hj

theorem advances_ending (h : Kept pid records p) (hc : (story i records).Created)
    (he : ¬ (story i records).Ended)
    (hmilestone : ThreadGroup.milestone? d .ended = some (i, .ended v)) :
    ∃ j s m, Advances records ⟨p, d, .ended, p.depart i v⟩ j s m := by
  obtain ⟨l, hl⟩ := h.lists
  refine h.advances_of_turns (h.ne_zero hc) hmilestone (by simp) ?_
  intro s hlife hs
  obtain ⟨claim, rfl⟩ := hlife.describes.exists_running hc he
  exact turns_depart hl hs v

/-- A call that waits goes on and reclaims the thread. -/
theorem advances_completeJoin? (h : Kept pid records p) (hcomplete : p.completeJoin? i = some (v, p'))
    (hmilestone : ThreadGroup.milestone? d reply = some (i, m))
    (hclaimed : (story i records).Awaited ∧ m = .joined v ∨
      (story i records).Dismissed ∧ m = .detached) :
    ∃ j s m, Advances records ⟨p, d, reply, p'⟩ j s m := by
  obtain ⟨l, hl⟩ := h.lists
  have hne : i ≠ 0 := by
    rintro rfl
    exact absurd (hcomplete.symm.trans h.placed.completeJoin?_main) (by simp)
  have hm (d : Bool) : m ≠ .created d := by
    obtain ⟨-, rfl⟩ | ⟨-, rfl⟩ := hclaimed <;> simp
  refine h.advances_of_turns hne hmilestone hm fun s hlife hs => ?_
  obtain ⟨w, c, -, rfl, hc, rfl⟩ := exists_of_completeJoin? hs hcomplete
  obtain ⟨-, -, -, hawaited, -, hdismissed, -⟩ := hlife.describes
  -- who waits is the one the story tells of
  obtain ⟨hclaim, rfl⟩ | ⟨hclaim, rfl⟩ := hclaimed
  · obtain rfl := hawaited.1 hclaim
    exact (touches_reclaim hl hc).turns (.joined v (by simp)) rfl
  · obtain rfl := hdismissed.1 hclaim
    exact (touches_reclaim hl hc).turns (.detachedLate v (by simp)) rfl

theorem advances_expire (h : Kept pid records p) (hallows : p.Allows records (.expire i))
    (hperform : p.perform? (.expire i) = some (reply, p')) :
    ∃ j s m, Advances records ⟨p, .expire i, reply, p'⟩ j s m := by
  obtain ⟨l, hl⟩ := h.lists
  obtain ⟨rfl, rfl⟩ := Prod.mk.inj (Option.some.inj hperform)
  obtain ⟨he, hx, hd⟩ := hallows
  have hne : i ≠ 0 := by
    rintro rfl
    rw [h.main] at he
    exact absurd he (by simp [Story.Ended])
  refine h.advances_of_turns hne rfl (by simp) fun s hlife hs => ?_
  obtain ⟨v, w, rfl⟩ := hlife.describes.exists_ended he hx hd
  exact turns_expire hl hs

theorem advances_join (h : Kept pid records p)
    (hperform : p.perform? (.join me i) = some (reply, p')) :
    (ThreadGroup.milestone? (.join me i) reply = none ∧ p.SameThreads p' ∧
        p'.unmapped = p.unmapped) ∨
      ∃ j s m, Advances records ⟨p, .join me i, reply, p'⟩ j s m := by
  obtain ⟨l, hl⟩ := h.lists
  rw [perform?] at hperform
  cases hjoin : p.join me i with
  | error e =>
    simp only [hjoin] at hperform
    obtain ⟨rfl, rfl⟩ := Prod.mk.inj (Option.some.inj hperform)
    exact .inl ⟨rfl, ⟨rfl, rfl⟩, rfl⟩
  | ok answer =>
    obtain ⟨j, p₁⟩ := answer
    have hne : i ≠ 0 := by
      rintro rfl
      exact absurd (hjoin.symm.trans (h.placed.join_main me)) (by simp)
    have hturns (s : Standing) (_ : Life (story i records) s)
        (hs : Matches s (p.registry.get? i)) : p.Turns p₁ i s j.milestone :=
      turns_join hl hs (fun c => h.placed.isMain_eq_false hne) hjoin
    simp only [hjoin] at hperform
    cases j with
    | value v =>
      obtain ⟨rfl, rfl⟩ := Prod.mk.inj (Option.some.inj hperform)
      exact .inr (h.advances_of_turns hne rfl (by simp) hturns)
    | waits =>
      obtain ⟨rfl, rfl⟩ := Prod.mk.inj (Option.some.inj hperform)
      exact .inr (h.advances_of_turns hne rfl (by simp) hturns)

theorem advances_detach (h : Kept pid records p)
    (hperform : p.perform? (.detach i) = some (reply, p')) :
    (ThreadGroup.milestone? (.detach i) reply = none ∧ p.SameThreads p' ∧
        p'.unmapped = p.unmapped) ∨
      ∃ j s m, Advances records ⟨p, .detach i, reply, p'⟩ j s m := by
  obtain ⟨l, hl⟩ := h.lists
  rw [perform?] at hperform
  cases hdetach : p.detach i with
  | error e =>
    simp only [hdetach] at hperform
    obtain ⟨rfl, rfl⟩ := Prod.mk.inj (Option.some.inj hperform)
    exact .inl ⟨rfl, ⟨rfl, rfl⟩, rfl⟩
  | ok answer =>
    obtain ⟨answer, p₁⟩ := answer
    have hne : i ≠ 0 := by
      rintro rfl
      exact absurd (hdetach.symm.trans h.placed.detach_main) (by simp)
    have hturns (s : Standing) (_ : Life (story i records) s)
        (hs : Matches s (p.registry.get? i)) : p.Turns p₁ i s answer.milestone :=
      turns_detach hl hs (fun c => h.placed.isMain_eq_false hne) hdetach
    simp only [hdetach] at hperform
    cases answer with
    | done =>
      obtain ⟨rfl, rfl⟩ := Prod.mk.inj (Option.some.inj hperform)
      exact .inr (h.advances_of_turns hne rfl (by simp) hturns)
    | waits =>
      obtain ⟨rfl, rfl⟩ := Prod.mk.inj (Option.some.inj hperform)
      exact .inr (h.advances_of_turns hne rfl (by simp) hturns)

/-- A deed leaves the threads alone, or it is about one created thread. -/
theorem advances (h : Kept pid records p) (hallows : p.Allows records d)
    (hperform : p.perform? d = some (reply, p')) :
    (ThreadGroup.milestone? d reply = none ∧ p.SameThreads p' ∧
        p'.unmapped = d.unused ++ p.unmapped) ∨
      ∃ i s m, Advances records ⟨p, d, reply, p'⟩ i s m := by
  cases d with
  | create t here request launch =>
    obtain ⟨rfl, rfl⟩ := Prod.mk.inj (Option.some.inj hperform)
    refine (h.advances_create hallows).imp_left fun hfailed => ?_
    exact ⟨hfailed.1, hfailed.2, p.unmapped_launch t here request launch⟩
  | finish i v =>
    obtain ⟨⟨hc, he⟩, -⟩ := hallows
    rw [(h.perform?_ending hc he v).1] at hperform
    obtain ⟨rfl, rfl⟩ := Prod.mk.inj (Option.some.inj hperform)
    exact .inr (h.advances_ending hc he rfl)
  | exit i v =>
    obtain ⟨⟨hc, he⟩, -⟩ := hallows
    rw [(h.perform?_ending hc he v).2] at hperform
    obtain ⟨rfl, rfl⟩ := Prod.mk.inj (Option.some.inj hperform)
    exact .inr (h.advances_ending hc he rfl)
  | expire i => exact .inr (h.advances_expire hallows hperform)
  | join me i => exact h.advances_join hperform
  | complete i =>
    obtain ⟨⟨v, p₁⟩, hcomplete, heq⟩ := Option.map_eq_some_iff.1 hperform
    obtain ⟨rfl, rfl⟩ := Prod.mk.inj heq
    exact .inr (h.advances_completeJoin? hcomplete rfl (.inl ⟨hallows, rfl⟩))
  | detach i => exact h.advances_detach hperform
  | release i =>
    obtain ⟨⟨v, p₁⟩, hcomplete, heq⟩ := Option.map_eq_some_iff.1 hperform
    obtain ⟨rfl, rfl⟩ := Prod.mk.inj heq
    exact .inr (h.advances_completeJoin? hcomplete rfl (.inr ⟨hallows, rfl⟩))

end Kept

theorem Advances.removes_self_iff (h : Advances records r i s m) :
    ∃ s', s.Next m s' ∧ Matches s' (r.after.registry.get? i) ∧ (r.Removes i ↔ s' = .gone) := by
  obtain ⟨s', hnext, hs', -⟩ := h.turns
  refine ⟨s', hnext, hs', ?_⟩
  rw [hnext.eq_gone_iff, ← h.matches_before.isSome_iff, ← hs'.isSome_iff, Record.Removes,
    Option.isNone_iff_eq_none, Option.not_isSome_iff_eq_none]

theorem Advances.get?_of_ne (h : Advances records r i s m) (hj : j ≠ i) :
    r.after.registry.get? j = r.before.registry.get? j := by
  obtain ⟨_, _, _, htouches⟩ := h.turns
  rw [htouches.get?_of_ne hj]

theorem not_removes_of_eq (h : r.after.registry.get? i = r.before.registry.get? i) :
    ¬ r.Removes i := by
  rintro ⟨hbefore, hafter⟩
  rw [h, Option.isNone_iff_eq_none] at hafter
  exact absurd hbefore (by simp [hafter])

namespace Kept

/-- A deed that leaves the threads alone. -/
theorem of_sameThreads (h : Kept pid records r.before) (hnone : r.milestone? = none)
    (hsame : r.before.SameThreads r.after) : Kept pid (r :: records) r.after := by
  have hget (i : BlockId) : r.after.registry.get? i = r.before.registry.get? i := by
    rw [hsame.registry]
  refine ⟨?_, ?_, ?_, ?_, ?_⟩
  · rw [hsame.registry]
    exact h.lists
  · exact h.placed.sameThreads hsame
  · rw [story_cons_of_none hnone, h.main]
  · intro i hi
    rw [hsame.registry] at hi
    rw [story_cons_of_none hnone, h.fresh i hi]
  · intro i hne
    obtain ⟨s, hlife, hs, hcount⟩ := h.life i hne
    refine ⟨s, ?_, ?_, ?_⟩
    · rwa [story_cons_of_none hnone]
    · rwa [hget]
    · have hremoves : ¬ r.Removes i := not_removes_of_eq (hget i)
      rw [List.countP_cons_of_neg (by simpa using hremoves), hcount]

/-- A deed about one thread. -/
theorem of_advances (h : Kept pid records r.before) (hr : Advances records r i s m) :
    Kept pid (r :: records) r.after := by
  obtain ⟨s', hnext, hs', hremoves⟩ := hr.removes_self_iff
  obtain ⟨_, -, -, htouches⟩ := hr.turns
  refine ⟨htouches.lists, h.placed.touches htouches hr.ne_zero hr.arrives, ?_, ?_, ?_⟩
  · rw [story_cons_of_ne hr.milestone? hr.ne_zero.symm, h.main]
  · intro j hj
    have hji : j ≠ i := Nat.ne_of_gt (Nat.lt_of_lt_of_le htouches.lt_size hj)
    rw [story_cons_of_ne hr.milestone? hji, h.fresh j (Nat.le_trans htouches.size_le hj)]
  · intro j hj
    obtain ⟨s₀, hlife₀, hs₀, hcount⟩ := h.life j hj
    by_cases hji : j = i
    · subst hji
      -- the story so far is the same, so the standing the counts speak of is the one left
      obtain rfl := hr.life.unique hlife₀
      refine ⟨s', ?_, hs', ?_⟩
      · rw [story_cons_self hr.milestone?]
        exact hr.life.next hnext
      · rw [List.countP_cons, hcount, if_neg hnext.ne_gone, Nat.zero_add]
        simp only [hremoves, decide_eq_true_eq]
    · refine ⟨s₀, ?_, ?_, ?_⟩
      · rwa [story_cons_of_ne hr.milestone? hji]
      · rwa [hr.get?_of_ne hji]
      · have hno : ¬ r.Removes j := not_removes_of_eq (hr.get?_of_ne hji)
        rw [List.countP_cons_of_neg (by simpa using hno), hcount]

end Kept

end Threading.ThreadGroup
