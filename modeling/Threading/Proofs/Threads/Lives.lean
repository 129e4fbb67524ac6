import Threading.Proofs.Threads.History

/-!
# The lives of the threads of a process

A control block is registered exactly while its thread runs or has ended and has not been
joined or detached. It is removed once, by whoever finds the thread both ended and claimed and
its task gone, or by the thread itself; its memory is unmapped then and never else. At most one
join returns, with the value the thread ended with, and a refused join or detachment leaves
everything as it was.
-/
namespace Threading.ThreadGroup

variable {pid : Tid} {settings : Settings} {p p' : ThreadGroup} {records earlier : List Record}
variable {r : Record} {i : BlockId} {d : Deed} {reply : Reply} {m : Milestone} {me : Tid}
variable {s : Standing}

/-! ## One deed -/

/-- The memory of the threads that a deed removes, as far as it is their own. -/
def Record.vacates (r : Record) : List Region :=
  r.before.registry.ids.flatMap fun i =>
    vacated (r.before.registry.get? i) (r.after.registry.get? i)

@[simp] theorem vacated_self (o : Option Control) : vacated o o = [] := by
  cases o <;> rfl

/-- Where only one thread is touched, the memory is that of this thread. -/
theorem Record.vacates_eq (h : ∀ j ≠ i, r.after.registry.get? j = r.before.registry.get? j)
    {l : List BlockId} (hl : r.before.registry.Lists l) :
    r.vacates = vacated (r.before.registry.get? i) (r.after.registry.get? i) := by
  have hother (j : BlockId) (hj : j ≠ i) :
      vacated (r.before.registry.get? j) (r.after.registry.get? j) = [] := by
    rw [h j hj, vacated_self]
  have hunlisted (hi : i ∉ l) :
      vacated (r.before.registry.get? i) (r.after.registry.get? i) = [] := by
    have hnone : r.before.registry.get? i = none :=
      Option.eq_none_iff_forall_ne_some.2 fun c hc => hi (hl.get?_eq_some_iff.1 hc).1
    rw [hnone]
    rfl
  rw [vacates, hl.ids_eq]
  have hnodup := hl.nodup
  clear hl
  induction l with
  | nil => exact (hunlisted List.not_mem_nil).symm
  | cons j l ih =>
    obtain ⟨hj, hnodup⟩ := List.nodup_cons.1 hnodup
    rw [List.flatMap_cons]
    by_cases hji : j = i
    · subst hji
      have hrest : (l.flatMap fun k =>
          vacated (r.before.registry.get? k) (r.after.registry.get? k)) = [] :=
        List.flatMap_eq_nil_iff.2 fun k hk => hother k fun heq => hj (heq ▸ hk)
      rw [hrest, List.append_nil]
    · rw [hother j hji, List.nil_append]
      exact ih (fun hi => hunlisted fun hmem => hi ((List.mem_cons.1 hmem).resolve_left
        (Ne.symm hji))) hnodup

/-- What a deed does to control blocks and memory, going by the stories before it. -/
structure Record.Sound (r : Record) (earlier : List Record) : Prop where
  /-- A control block is removed by the join that returns, by the detachment of a thread that
  has ended or by the end of one that is detached. -/
  removes_iff : ∀ i, r.Removes i ↔
    (∃ v, r.milestone? = some (i, .joined v)) ∨
      r.milestone? = some (i, .detached) ∧ (story i earlier).Ended ∨
        (∃ v, r.milestone? = some (i, .ended v)) ∧ (story i earlier).Detached
  /-- Nobody else removes a thread whose task is there. -/
  expired : ∀ i, r.Removes i →
    (∃ v, r.milestone? = some (i, .ended v)) ∨ (story i earlier).Expired
  /-- What is unmapped is the memory of the threads that are removed, each region once and only
  if it is their own, or was mapped for a thread that did not come to be. -/
  unmapped : r.after.unmapped = r.vacates ++ r.deed.unused ++ r.before.unmapped
  /-- A region is unmapped when the thread that owns it is removed. -/
  unmaps_iff : ∀ region, region ∈ r.before.mapped ∧ region ∉ r.after.mapped ↔
    region.owned = true ∧ ∃ i c, r.before.registry.get? i = some c ∧ r.Removes i ∧ c.region = region
  failed : ∀ e, r.reply = .failed e → r.before.SameThreads r.after
  refused : ∀ e me i, r.reply = .failed e → r.deed = .join me i ∨ r.deed = .detach i →
    r.after = r.before

/-- A join or detachment that fails has no effect at all. -/
theorem eq_of_refused {e : Error} (hperform : p.perform? d = some (.failed e, p'))
    (hd : d = .join me i ∨ d = .detach i) : p' = p := by
  obtain rfl | rfl := hd
  · rw [perform?] at hperform
    cases hjoin : p.join me i with
    | error e' =>
      simp only [hjoin] at hperform
      exact (Prod.mk.inj (Option.some.inj hperform)).2.symm
    | ok answer =>
      obtain ⟨_ | _, _⟩ := answer <;> simp [hjoin] at hperform
  · rw [perform?] at hperform
    cases hdetach : p.detach i with
    | error e' =>
      simp only [hdetach] at hperform
      exact (Prod.mk.inj (Option.some.inj hperform)).2.symm
    | ok answer =>
      obtain ⟨_ | _, _⟩ := answer <;> simp [hdetach] at hperform

theorem Record.sound_of_sameThreads (hnone : r.milestone? = none)
    (hsame : r.before.SameThreads r.after)
    (hunmapped : r.after.unmapped = r.deed.unused ++ r.before.unmapped)
    (hrefused : ∀ e me i, r.reply = .failed e → r.deed = .join me i ∨ r.deed = .detach i →
      r.after = r.before) : r.Sound earlier := by
  have hno (i : BlockId) : ¬ r.Removes i := not_removes_of_eq (by rw [hsame.registry])
  constructor
  case removes_iff =>
    intro i
    refine iff_of_false (hno i) ?_
    simp [hnone]
  case expired => exact fun i hremoves => absurd hremoves (hno i)
  case unmapped =>
    have hvacates : r.vacates = [] := by
      rw [vacates, hsame.registry]
      exact List.flatMap_eq_nil_iff.2 fun i _ => vacated_self _
    rw [hvacates, hunmapped, List.nil_append]
  case unmaps_iff =>
    intro region
    refine iff_of_false ?_ ?_
    · rintro ⟨hmem, hnot⟩
      exact hnot (hsame.mapped ▸ hmem)
    · rintro ⟨-, i, c, -, hremoves, -⟩
      exact hno i hremoves
  case failed => exact fun _ _ => hsame
  case refused => exact hrefused

theorem Kept.sound_of_advances (h : Kept pid records r.before) (hr : Advances records r i s m)
    (hrefused : ∀ e me i, r.reply = .failed e → r.deed = .join me i ∨ r.deed = .detach i →
      r.after = r.before) : r.Sound records := by
  obtain ⟨l, hl⟩ := h.lists
  obtain ⟨s', hnext, -, hremoves⟩ := hr.removes_self_iff
  obtain ⟨_, -, -, htouches⟩ := hr.turns
  have hother (j : BlockId) (hj : j ≠ i) : ¬ r.Removes j := not_removes_of_eq (hr.get?_of_ne hj)
  constructor
  case removes_iff =>
    intro j
    by_cases hj : j = i
    · subst hj
      rw [hremoves, hr.life.describes.next_gone_iff hnext, hr.milestone?]
      simp
    · refine iff_of_false (hother j hj) ?_
      rw [hr.milestone?]
      simp [Ne.symm hj]
  case expired =>
    intro j hj
    obtain rfl : j = i := by
      by_contra hne
      exact hother j hne hj
    obtain rfl := hremoves.1 hj
    rw [hr.milestone?]
    exact (hr.life.describes.expired_of_next_gone hnext).imp_left fun ⟨v, hv⟩ => ⟨v, by rw [hv]⟩
  case unmapped =>
    rw [htouches.unmapped, Record.vacates_eq (fun j => hr.get?_of_ne) hl, hr.unused,
      List.append_nil]
  case unmaps_iff =>
    intro region
    rw [h.placed.unmapped_iff htouches hr.ne_zero hr.arrives]
    refine and_congr_right fun _ => exists_congr fun j => exists_congr fun c => ?_
    constructor
    · rintro ⟨hj, hgone, hc⟩
      exact ⟨hj, ⟨by rw [hj]; rfl, by rw [hgone]; rfl⟩, hc⟩
    · rintro ⟨hj, ⟨-, hgone⟩, hc⟩
      exact ⟨hj, Option.isNone_iff_eq_none.1 hgone, hc⟩
  case failed =>
    intro e hreply
    have hnone : r.milestone? = none := by
      rw [Record.milestone?, hreply]
      cases r.deed <;> rfl
    exact absurd (hnone.symm.trans hr.milestone?) (by simp)
  case refused => exact hrefused

theorem Kept.sound (h : Kept pid records p) (hallows : p.Allows records d)
    (hperform : p.perform? d = some (reply, p')) :
    Record.Sound ⟨p, d, reply, p'⟩ records ∧ Kept pid (⟨p, d, reply, p'⟩ :: records) p' := by
  have hrefused (e : Error) (me : Tid) (i : BlockId) (hreply : reply = .failed e)
      (hd : d = .join me i ∨ d = .detach i) : p' = p := eq_of_refused (hreply ▸ hperform) hd
  obtain ⟨hnone, hsame, hunmapped⟩ | ⟨i, s, m, hr⟩ := h.advances hallows hperform
  · exact ⟨Record.sound_of_sameThreads hnone hsame hunmapped hrefused,
      h.of_sameThreads hnone hsame⟩
  · exact ⟨h.sound_of_advances hr hrefused, h.of_advances hr⟩

/-! ## A whole history -/

theorem Lives.kept (h : Lives pid settings records p) : Kept pid records p := by
  induction h with
  | start => exact kept_initial pid settings
  | next _ hallows hperform ih => exact (ih.sound hallows hperform).2

theorem Lives.sound (h : Lives pid settings records p) (hr : r :: earlier <:+ records) :
    r.Sound earlier := by
  induction h with
  | start => exact absurd (List.suffix_nil.1 hr) (List.cons_ne_nil r earlier)
  | next hlives hallows hperform ih =>
    obtain heq | hsuffix := List.suffix_cons_iff.1 hr
    · obtain ⟨rfl, rfl⟩ := List.cons.inj heq
      exact (hlives.kept.sound hallows hperform).1
    · exact ih hsuffix

/-- What has been unmapped is what the deeds have unmapped, newest first. -/
theorem Lives.unmapped (h : Lives pid settings records p) :
    p.unmapped = records.flatMap fun r => r.vacates ++ r.deed.unused := by
  induction h with
  | start => rfl
  | next hlives hallows hperform ih =>
    have hsound := (hlives.kept.sound hallows hperform).1.unmapped
    rw [List.flatMap_cons, ← ih]
    exact hsound

namespace Kept

/-- A join fails if it is of the initial or an unknown thread, if the thread is claimed or
detached, or if it is the caller. -/
theorem join_error_iff (h : Kept pid records p) (me : Tid) (i : BlockId) :
    (∃ e, p.join me i = .error e) ↔
      i = 0 ∨ p.registry.get? i = none ∨ (story i records).Awaited ∨
        (story i records).Dismissed ∨ (story i records).Detached ∨
        ∃ c, p.registry.get? i = some c ∧ c.runsAs me = true := by
  by_cases hne : i = 0
  · subst hne
    exact iff_of_true ⟨_, h.placed.join_main me⟩ (.inl rfl)
  obtain ⟨s, hlife, hs, -⟩ := h.life i hne
  have hdescribes := hlife.describes
  cases s with
  | unborn | gone =>
    have hnone : p.registry.get? i = none := hs
    exact iff_of_true ⟨.noSuchThread, by rw [join, hnone]⟩ (.inr (.inl hnone))
  | running claim =>
    obtain ⟨c, hi, htid, hjoin⟩ := hs
    obtain ⟨-, -, -, hawaited, hdetached, hdismissed, -⟩ := hdescribes
    rw [join_running hi (h.placed.isMain_eq_false hne hi) htid hjoin, hawaited, hdetached, hi]
    cases hruns : c.runsAs me <;> cases claim <;> simp [hne, hruns, hdismissed]
  | ended v w there =>
    obtain ⟨c, hi, htid, -, hjoin⟩ := hs
    obtain ⟨-, -, -, hawaited, hdetached, hdismissed, -⟩ := hdescribes
    rw [join_ended hi (h.placed.isMain_eq_false hne hi) htid hjoin, hawaited, hdismissed, hi]
    cases hruns : c.runsAs me <;> cases w <;> cases there <;> simp [hne, hruns, hdetached]

theorem detach_error_iff (h : Kept pid records p) (i : BlockId) :
    (∃ e, p.detach i = .error e) ↔
      i = 0 ∨ p.registry.get? i = none ∨ (story i records).Awaited ∨
        (story i records).Dismissed ∨ (story i records).Detached := by
  by_cases hne : i = 0
  · subst hne
    exact iff_of_true ⟨_, h.placed.detach_main⟩ (.inl rfl)
  obtain ⟨s, hlife, hs, -⟩ := h.life i hne
  have hdescribes := hlife.describes
  cases s with
  | unborn | gone =>
    have hnone : p.registry.get? i = none := hs
    exact iff_of_true ⟨.noSuchThread, by rw [detach, hnone]⟩ (.inr (.inl hnone))
  | running claim =>
    obtain ⟨c, hi, -, hjoin⟩ := hs
    obtain ⟨-, -, -, hawaited, hdetached, hdismissed, -⟩ := hdescribes
    rw [detach_running hi (h.placed.isMain_eq_false hne hi) hjoin, hawaited, hdetached, hi]
    cases claim <;> simp [hne, hdismissed]
  | ended v w there =>
    obtain ⟨c, hi, htid, -, hjoin⟩ := hs
    obtain ⟨-, -, -, hawaited, hdetached, hdismissed, -⟩ := hdescribes
    rw [detach_ended hi (h.placed.isMain_eq_false hne hi) htid hjoin, hawaited, hdismissed, hi]
    cases w <;> cases there <;> simp [hne, hdetached]

/-- Where someone waits for a thread that has not been joined or detached yet. -/
theorem exists_waited (h : Kept pid records p)
    (hclaimed : (story i records).Awaited ∧ ¬ (story i records).Joined ∨
      (story i records).Dismissed ∧ ¬ (story i records).Detached) :
    (¬ (story i records).Ended ∧ ¬ (story i records).Expired ∧ p.completeJoin? i = none) ∨
      ∃ v w there c, w ≠ Waiter.nobody ∧ Life (story i records) (.ended v w there) ∧
        p.completeJoin? i = if there = false then some (v, p.reclaim i c) else none := by
  have hne : i ≠ 0 := by
    rintro rfl
    rw [h.main] at hclaimed
    simp [Story.Awaited, Story.Dismissed] at hclaimed
  obtain ⟨s, hlife, hs, -⟩ := h.life i hne
  have hdescribes := hlife.describes
  cases s with
  | unborn =>
    rw [show story i records = [] from hdescribes] at hclaimed
    simp [Story.Awaited, Story.Dismissed] at hclaimed
  | running claim =>
    obtain ⟨c, hi, htid, -⟩ := hs
    exact .inl ⟨hdescribes.2.1, hdescribes.2.2.2.2.2.2, completeJoin?_running hi htid⟩
  | ended v w there =>
    obtain ⟨c, hi, htid, rfl, hjoin⟩ := hs
    obtain ⟨-, -, -, hawaited, -, hdismissed, -⟩ := hdescribes
    have hw : w ≠ .nobody := by
      rintro rfl
      simp [hawaited, hdismissed] at hclaimed
    refine .inr ⟨_, w, there, c, hw, hlife, ?_⟩
    rw [completeJoin?_ended hi htid hjoin]
    simp [hw]
  | gone =>
    obtain ⟨-, -, hjoined | hdetached, -⟩ := hdescribes
    · exact absurd hclaimed (by simp [hjoined.1, hjoined.2.1])
    · exact absurd hclaimed (by simp [hdetached.1, hdetached.2])

/-- A join that waits goes on once the thread has ended and its task is gone, and with the value
of the thread. -/
theorem complete_iff (h : Kept pid records p) (hawaited : (story i records).Awaited)
    (hjoined : ¬ (story i records).Joined) (v : UInt64) :
    (∃ p', p.perform? (.complete i) = some (.value v, p')) ↔
      .ended v ∈ story i records ∧ (story i records).Expired := by
  rw [perform?]
  obtain ⟨-, hx, hnone⟩ | ⟨u, w, there, c, -, hlife, hcomplete⟩ :=
    h.exists_waited (.inl ⟨hawaited, hjoined⟩)
  · refine iff_of_false ?_ fun hended => hx hended.2
    rw [hnone]
    simp
  · obtain ⟨-, hended, -, -, -, -, hexpired⟩ := hlife.describes
    rw [hcomplete, hended, hexpired]
    cases there <;> simp [eq_comm]

/-- So does a detachment that waits. -/
theorem release_iff (h : Kept pid records p) (hdismissed : (story i records).Dismissed)
    (hdetached : ¬ (story i records).Detached) :
    (∃ p', p.perform? (.release i) = some (.detached, p')) ↔ (story i records).Expired := by
  rw [perform?]
  obtain ⟨-, hx, hnone⟩ | ⟨u, w, there, c, -, hlife, hcomplete⟩ :=
    h.exists_waited (.inr ⟨hdismissed, hdetached⟩)
  · refine iff_of_false ?_ hx
    rw [hnone]
    simp
  · obtain ⟨-, -, -, -, -, -, hexpired⟩ := hlife.describes
    rw [hcomplete, hexpired]
    cases there <;> simp

end Kept

/-- What the stories of the threads say of a process. -/
structure Accounted (pid : Tid) (records : List Record) (p : ThreadGroup) : Prop where
  main : p.registry.get? 0 = some (mainControl pid)
  /-- A control block is registered from the creation of its thread until that has ended and
  has been joined or detached. -/
  registered_iff : ∀ i ≠ 0, (p.registry.get? i).isSome = true ↔
    (story i records).Created ∧ (¬ (story i records).Ended ∨
      ¬ (story i records).Joined ∧ ¬ (story i records).Detached)
  /-- The control block of a created thread is registered or has been removed, and only once. -/
  removals : ∀ i ≠ 0, records.countP (·.Removes i) + (p.registry.get? i).toList.length =
    if (story i records).Created then 1 else 0
  sound : ∀ r earlier, r :: earlier <:+ records → r.Sound earlier
  nodup : p.mapped.Nodup
  /-- All that has been unmapped, newest first. -/
  unmapped : p.unmapped = records.flatMap fun r => r.vacates ++ r.deed.unused
  /-- The mapped regions are those that registered threads own. -/
  mem_mapped_iff : ∀ region, region ∈ p.mapped ↔ region.owned = true ∧ p.Uses region
  /-- No two registered threads have the same handle. -/
  address : ∀ i j c d, p.registry.get? i = some c → p.registry.get? j = some d →
    c.address = d.address → i = j
  joined_le : ∀ i, (story i records).countP (·.isJoined) ≤ 1
  ended_of_joined : ∀ i v, .joined v ∈ story i records → .ended v ∈ story i records
  eq_of_ended : ∀ i v w, .ended v ∈ story i records → .ended w ∈ story i records → v = w
  ending : ∀ i v, (story i records).Created → ¬ (story i records).Ended →
    p.perform? (.finish i v) = some (.ended, p.depart i v) ∧
      p.perform? (.exit i v) = some (.ended, p.depart i v)
  complete_iff : ∀ i v, (story i records).Awaited → ¬ (story i records).Joined →
    ((∃ p', p.perform? (.complete i) = some (.value v, p')) ↔
      .ended v ∈ story i records ∧ (story i records).Expired)
  release_iff : ∀ i, (story i records).Dismissed → ¬ (story i records).Detached →
    ((∃ p', p.perform? (.release i) = some (.detached, p')) ↔ (story i records).Expired)
  join_error_iff : ∀ me i, (∃ e, p.join me i = .error e) ↔
    i = 0 ∨ p.registry.get? i = none ∨ (story i records).Awaited ∨
      (story i records).Dismissed ∨ (story i records).Detached ∨
      ∃ c, p.registry.get? i = some c ∧ c.runsAs me = true
  detach_error_iff : ∀ i, (∃ e, p.detach i = .error e) ↔
    i = 0 ∨ p.registry.get? i = none ∨ (story i records).Awaited ∨
      (story i records).Dismissed ∨ (story i records).Detached

namespace Kept

/-- The story of a thread is the beginning of a life. -/
theorem exists_life (h : Kept pid records p) (i : BlockId) : ∃ s, Life (story i records) s := by
  by_cases hne : i = 0
  · exact ⟨.unborn, hne ▸ h.main ▸ .unborn⟩
  · obtain ⟨s, hlife, -⟩ := h.life i hne
    exact ⟨s, hlife⟩

theorem registered_iff (h : Kept pid records p) (hne : i ≠ 0) :
    (p.registry.get? i).isSome = true ↔ (story i records).Created ∧
      (¬ (story i records).Ended ∨ ¬ (story i records).Joined ∧ ¬ (story i records).Detached) := by
  obtain ⟨s, hlife, hs, -⟩ := h.life i hne
  rw [hs.isSome_iff, hlife.describes.live_iff]

theorem removals (h : Kept pid records p) (hne : i ≠ 0) :
    records.countP (·.Removes i) + (p.registry.get? i).toList.length =
      if (story i records).Created then 1 else 0 := by
  obtain ⟨s, hlife, hs, hcount⟩ := h.life i hne
  have hdescribes := hlife.describes
  rw [hcount]
  cases s with
  | unborn =>
    rw [show p.registry.get? i = none from hs, show story i records = [] from hdescribes]
    rfl
  | gone =>
    rw [show p.registry.get? i = none from hs, if_pos rfl, if_pos hdescribes.1]
    rfl
  | running claim =>
    obtain ⟨c, hi, -⟩ := hs
    rw [hi, if_neg (by simp), if_pos hdescribes.1]
    rfl
  | ended v w there =>
    obtain ⟨c, hi, -⟩ := hs
    rw [hi, if_neg (by simp), if_pos hdescribes.1]
    rfl

end Kept

/-- A request for a thread, done as one call, is a history too. -/
theorem Lives.exists_create (h : Lives pid settings records p) {t : Tid}
    {here : LockOrder.CallStack} {request : Option Attributes} {launch : Launch}
    (hallows : p.Allows records (.create t here request launch)) :
    ∃ newer, Lives pid settings (newer ++ records) (p.create t here request launch).2 := by
  obtain ⟨l, hl⟩ := h.kept.lists
  have hcreate := create_spec hl t here request launch
  have hadvances := h.kept.advances_create hallows
  have hlaunched := h.next hallows rfl
  generalize (p.launch t here request launch).reply = reply at hcreate hadvances hlaunched
  generalize (p.launch t here request launch).group = p₁ at hcreate hadvances hlaunched
  cases reply with
  | degraded i e =>
    -- the story of the new thread is its creation alone, so it may end
    obtain ⟨hnone, -⟩ | ⟨j, s, m, hadvances⟩ := hadvances
    · exact absurd hnone (by simp [ThreadGroup.milestone?])
    have hmilestone := hadvances.milestone?
    obtain ⟨rfl, rfl⟩ : i = j ∧ .created true = m := by
      simpa [Record.milestone?, ThreadGroup.milestone?] using hmilestone
    obtain ⟨s', hnext, -⟩ := hadvances.turns
    cases hnext
    have hends := allows_finish_of_created hmilestone hadvances.life.describes p₁
    exact ⟨[_, _], hlaunched.next hends hcreate⟩
  | _ => exact ⟨[_], by rw [hcreate]; exact hlaunched⟩

theorem Lives.accounts (h : Lives pid settings records p) : Accounted pid records p where
  main := h.kept.placed.main
  registered_iff i hne := h.kept.registered_iff hne
  removals i hne := h.kept.removals hne
  sound r earlier hr := h.sound hr
  nodup := h.kept.placed.nodup
  unmapped := h.unmapped
  mem_mapped_iff := h.kept.placed.mem_mapped_iff
  address i j c d hi hj := h.kept.placed.toSited.eq_of_address_eq hi hj
  joined_le i := by
    obtain ⟨s, hlife⟩ := h.kept.exists_life i
    exact hlife.describes.joined_spec.1
  ended_of_joined i v hv := by
    obtain ⟨s, hlife⟩ := h.kept.exists_life i
    exact hlife.describes.joined_spec.2 v hv
  eq_of_ended i v w hv hw := by
    obtain ⟨s, hlife⟩ := h.kept.exists_life i
    exact hlife.describes.eq_of_ended hv hw
  ending i v hc he := h.kept.perform?_ending hc he v
  complete_iff i v hawaited hjoined := h.kept.complete_iff hawaited hjoined v
  release_iff i hdismissed hdetached := h.kept.release_iff hdismissed hdetached
  join_error_iff := h.kept.join_error_iff
  detach_error_iff := h.kept.detach_error_iff

/-- In every history, control blocks are registered, memory is mapped and joins return as the
stories of the threads say. A request for a thread done as one call continues the history. -/
theorem Lives.accounted (h : Lives pid settings records p) :
    Accounted pid records p ∧
      ∀ t here request launch, p.Allows records (.create t here request launch) →
        ∃ newer, Lives pid settings (newer ++ records) (p.create t here request launch).2 :=
  ⟨h.accounts, fun _ _ _ _ => h.exists_create⟩

/-- Threads that are joinable, detached, on a borrowed stack and degraded; a thread that joins
itself, one that waits for another, further claims of it, a detachment that waits for the task
to go and one that need not, a join of the initial thread, and a new thread where the first one
was. -/
def fiveThreads : List Deed :=
  [.create 100 .empty none { map := mapAt 0x10000000, tid := 101 },
    .create 100 .empty (some { detachState := .detached }) { map := mapAt 0x20000000, tid := 102 },
    .create 101 .empty (some { stackBase := 0x30000000, stackSize := 0x10000 })
      { map := mapAt 0, tid := 103 },
    .create 100 .empty (some { explicitSched := true })
      { map := mapAt 0x40000000, tid := 104, scheduler := some 1 },
    .join 101 1, .join 102 1, .join 100 1, .detach 1, .exit 1 7, .expire 1, .complete 1,
    .finish 2 9, .finish 3 5, .detach 3, .join 100 3, .expire 3, .release 3, .finish 4 0,
    .join 103 0, .create 100 .empty none { map := mapAt 0x10000000, tid := 105 }, .finish 5 1,
    .expire 5, .detach 5]

theorem accounted_fiveThreads :
    ∃ records p, (initial 100 { policy := .fail }).live? [] fiveThreads = some (records, p) ∧
      records.reverse.map (·.reply) =
        [.created 1, .created 2, .created 3, .degraded 4 (.ofErrno 1), .failed .deadlock, .waits,
          .failed notJoinable, .failed notJoinable, .ended, .expired, .value 7, .ended, .ended,
          .waits, .failed notJoinable, .expired, .detached, .ended,
          .failed (.invalidArgument "initial thread cannot be joined"), .created 5, .ended,
          .expired, .detached] ∧
      p.registry.ids = [0] ∧ Accounted 100 records p ∧
      ∀ t here request launch, p.Allows records (.create t here request launch) →
        ∃ newer, Lives 100 { policy := .fail } (newer ++ records)
          (p.create t here request launch).2 := by
  have hrun : ((initial 100 { policy := .fail }).live? [] fiveThreads).map (fun (records, p) =>
      (records.reverse.map (·.reply), p.registry.ids)) =
        some ([.created 1, .created 2, .created 3, .degraded 4 (.ofErrno 1), .failed .deadlock,
          .waits, .failed notJoinable, .failed notJoinable, .ended, .expired, .value 7, .ended,
          .ended, .waits, .failed notJoinable, .expired, .detached, .ended,
          .failed (.invalidArgument "initial thread cannot be joined"), .created 5, .ended,
          .expired, .detached], [0]) := by
    decide +kernel
  obtain ⟨⟨records, p⟩, hlive, hfacts⟩ := Option.map_eq_some_iff.1 hrun
  obtain ⟨hreplies, hids⟩ := Prod.mk.inj hfacts
  have h : Lives 100 { policy := .fail } records p := Lives.start.of_live? hlive
  exact ⟨records, p, hlive, hreplies, hids, h.accounted⟩

end Threading.ThreadGroup
