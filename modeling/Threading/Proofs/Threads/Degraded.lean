import Threading.Proofs.Threads.Effects
import Threading.Proofs.Threads.Guests

/-!
# Threads whose creation failed

If its scheduling is refused, a creation fails with the thread already there. The thread is
detached and runs nothing, so nobody can join it and it goes when it ends. A history with such
threads is compared with the one in which each of them ends as soon as it is there: everything
else gets the same answers, and once they have all ended the registry and the mapped regions
are the same.
-/
namespace Threading.ThreadGroup

open LockOrder (CallStack)
open Registry (Omits)

variable {pid : Tid} {settings : Settings} {p p' q q' : ThreadGroup}
variable {records records' : List Record} {r r' : Record} {i j : BlockId} {d : Deed}
variable {reply : Reply} {t : Tid} {e : Error} {l : List BlockId} {here : CallStack}
variable {request : Option Attributes} {launch : Launch} {region : Region} {layout : Layout}
variable {c : Control} {m : Milestone} {s : Standing} {omitted : List BlockId}

/-! ## Degraded threads -/

def Reply.degraded? : Reply → Option BlockId
  | .degraded i _ => some i
  | _ => none

/-- The threads whose creation failed, newest first. -/
def degraded (records : List Record) : List BlockId := records.filterMap (·.reply.degraded?)

/-- What is done and answered if the threads whose creation failed are gone at once: each ends
right after its creation, and later calls on it are left out. -/
def settled : List Record → List (Deed × Reply)
  | [] => []
  | r :: records =>
    match r.reply.degraded? with
    | some i => (.finish i 0, .ended) :: (r.deed, r.reply) :: settled records
    | none =>
      if ∃ i ∈ r.deed.target?, i ∈ degraded records then settled records
      else (r.deed, r.reply) :: settled records

theorem degraded_cons (r : Record) (records : List Record) :
    degraded (r :: records) = (r.reply.degraded?).toList ++ degraded records := by
  rw [degraded, List.filterMap_cons]
  cases r.reply.degraded? <;> rfl

theorem settled_cons_degraded (hreply : r.reply = .degraded i e) (records : List Record) :
    settled (r :: records) = (.finish i 0, .ended) :: (r.deed, r.reply) :: settled records := by
  simp [settled, hreply, Reply.degraded?]

/-- A call on no such thread stays. -/
theorem settled_cons_kept (hreply : r.reply.degraded? = none)
    (hd : ∀ i ∈ r.deed.target?, i ∉ degraded records) :
    settled (r :: records) = (r.deed, r.reply) :: settled records := by
  rw [settled, hreply]
  exact if_neg fun ⟨i, hi, hmem⟩ => hd i hi hmem

theorem settled_cons_leftOut (hreply : r.reply.degraded? = none) (hd : r.deed.target? = some i)
    (hi : i ∈ degraded records) : settled (r :: records) = settled records := by
  rw [settled, hreply]
  exact if_pos ⟨i, hd, hi⟩

theorem story_cons_congr (h : r'.milestone? = r.milestone?)
    (hstory : story i records' = story i records) :
    story i (r' :: records') = story i (r :: records) := by
  simp only [story, List.filterMap_cons, h] at hstory ⊢
  split
  · exact hstory
  · rw [hstory]

theorem mem_story_cons (r : Record) (h : m ∈ story i records) : m ∈ story i (r :: records) := by
  simp only [story, List.filterMap_cons] at h ⊢
  split
  · exact h
  · exact List.mem_cons_of_mem _ h

/-- Calls on a thread only tell of that thread. -/
theorem target?_of_milestone? (h : ThreadGroup.milestone? d reply = some (j, m))
    (hd : d.target? = some i) : j = i := by
  cases d <;> cases reply <;> simp_all [ThreadGroup.milestone?, Deed.target?]

theorem degraded?_eq_none (hd : d.target? = some i) (h : p.perform? d = some (reply, p')) :
    reply.degraded? = none := by
  cases d with
  | create t here request launch => exact absurd hd (by simp [Deed.target?])
  | finish i v | complete i | release i =>
    obtain ⟨answer, -, heq⟩ := Option.map_eq_some_iff.1 h
    cases heq
    rfl
  | expire i =>
    cases h
    rfl
  | exit i v =>
    rw [perform?] at h
    split at h
    · cases h
      rfl
    split at h
    · cases h
      rfl
    · obtain ⟨answer, -, heq⟩ := Option.map_eq_some_iff.1 h
      cases heq
      rfl
  | join me i | detach i =>
    rw [perform?] at h
    split at h <;> cases h <;> rfl

/-- A detached thread goes with whatever happens to it next. -/
theorem Advances.gone_of_detached (h : Advances records r i s m)
    (hdetached : (story i records).Detached) : r.after.registry.get? i = none := by
  obtain ⟨s', hnext, hs', -⟩ := h.turns
  have hdescribes := h.life.describes
  cases hnext with
  | endedDetached v | joined v hw | detachedLate v hw => exact hs'
  | created d =>
    rw [show story i records = [] from hdescribes] at hdetached
    exact absurd hdetached (by simp [Story.Detached])
  | awaited | detached | ended v | endedAwaited v =>
    exact absurd (hdescribes.2.2.2.2.1.1 hdetached) (by simp)
  | awaitedLate v | dismissed v | expired v w => exact absurd hdetached hdescribes.2.2.2.2.1

/-- A thread whose scheduling is refused may end as soon as it is there, and is gone then. -/
theorem Lives.next_degraded (h : Lives pid settings records p)
    (hallows : p.Allows records (.create t here request launch))
    (hhousing : housing (request.getD {}) launch = .ok (region, layout))
    (hrefused : failure? settings.policy (refusal? (request.getD {}) launch) = some e)
    (hi : p.registry.cells.size = i) :
    ∃ p₁ p₂, Lives pid settings (⟨p₁, .finish i 0, .ended, p₂⟩ ::
        ⟨p, .create t here request launch, .degraded i e, p₁⟩ :: records) p₂ ∧
      p₂.registry = ((p.registry.add
        (ready (idle (newControl (request.getD {}) region layout launch.tid)))).remove i).2 := by
  obtain ⟨l, hl⟩ := h.kept.lists
  obtain ⟨hresult, hregisters⟩ :=
    launch_of_refused hl hhousing (h.settings_eq ▸ hrefused) t here
  have hreply := Creation.reply_of_launched hresult hregisters.launched
  have hget := hregisters.get? hl
  rw [hi] at hreply hget
  have hlaunched := h.next hallows rfl
  rw [hreply] at hlaunched
  have hends := allows_finish_of_created (r := ⟨p, .create t here request launch, .degraded i e,
    (p.launch t here request launch).group⟩) rfl (h.kept.fresh i (Nat.le_of_eq hi))
    (p.launch t here request launch).group
  have hended := (hlaunched.kept.perform?_ending hends.1.1 hends.1.2 0).1
  refine ⟨_, _, hlaunched.next hends hended, ?_⟩
  rw [(depart_detached hget rfl 0).1, hregisters.registry]

/-! ## The settled history -/

/-- A process after a history, and one after the settled history. -/
structure Settles (pid : Tid) (settings : Settings) (records : List Record) (p : ThreadGroup)
    (records' : List Record) (q : ThreadGroup) : Prop where
  lives : Lives pid settings records' q
  history : records'.map (fun r => (r.deed, r.reply)) = settled records
  omits : Omits (degraded records) p.registry q.registry
  story : ∀ i ∉ degraded records, story i records' = story i records
  detached : ∀ i ∈ degraded records, .created true ∈ ThreadGroup.story i records
  nothing : ∀ i ∈ degraded records, ∀ c, p.registry.get? i = some c → c.routine = .nothing

theorem settles_initial (pid : Tid) (settings : Settings) :
    Settles pid settings [] (initial pid settings) [] (initial pid settings) := by
  obtain ⟨l, hl⟩ := (kept_initial pid settings).lists
  constructor
  case lives => exact .start
  case history => rfl
  case omits => exact Registry.omits_nil hl
  case story => exact fun i _ => rfl
  all_goals exact fun i hi => absurd hi List.not_mem_nil

theorem Spares.omits (h : p.Spares region) (homits : Omits omitted p.registry q.registry) :
    q.Spares region := by
  intro i _ c hc
  refine h.apart (i := i) ?_
  by_cases hi : i ∈ omitted
  · rw [homits.get?_of_mem hi] at hc
    exact absurd hc (by simp)
  · rw [← homits.get? i hi, hc]

namespace Settles

theorem allows_create (h : Settles pid settings records p records' q)
    (hallows : p.Allows records (.create t here request launch)) :
    q.Allows records' (.create t here request launch) := by
  obtain ⟨htid, hspares⟩ := hallows
  refine ⟨htid, fun hlaunched region hregion => ?_⟩
  rw [isSome_launched_iff, ← p.isSome_launched_iff t here] at hlaunched
  exact (hspares hlaunched region hregion).omits h.omits

theorem allows_call (h : Settles pid settings records p records' q) (hd : d.target? = some i)
    (hi : i ∉ degraded records) (hallows : p.Allows records d) : q.Allows records' d := by
  cases d with
  | create t here request launch => exact absurd hd (by simp [Deed.target?])
  | finish j v | exit j v =>
    obtain rfl := Option.some.inj hd
    rw [Allows, h.story j hi, h.omits.get? j hi]
    exact hallows
  | expire j | complete j | release j =>
    obtain rfl := Option.some.inj hd
    rw [Allows, h.story j hi]
    exact hallows
  | join me j | detach j => trivial

/-- The same is done in both, and it is not about a degraded thread. -/
theorem same (h : Settles pid settings records p records' q) (hallows : q.Allows records' d)
    (hperform : q.perform? d = some (reply, q')) (hreply : reply.degraded? = none)
    (hd : ∀ i ∈ d.target?, i ∉ degraded records)
    (homits : Omits (degraded records) p'.registry q'.registry)
    (hget : ∀ i ∈ degraded records, p'.registry.get? i = p.registry.get? i) :
    Settles pid settings (⟨p, d, reply, p'⟩ :: records) p' (⟨q, d, reply, q'⟩ :: records') q' := by
  have hdegraded : degraded (⟨p, d, reply, p'⟩ :: records) = degraded records := by
    rw [degraded_cons, hreply]
    rfl
  constructor
  case lives => exact h.lives.next hallows hperform
  case history => rw [List.map_cons, h.history, settled_cons_kept hreply hd]
  case omits => rwa [hdegraded]
  case story =>
    intro i hi
    rw [hdegraded] at hi
    exact story_cons_congr rfl (h.story i hi)
  case detached =>
    intro i hi
    rw [hdegraded] at hi
    exact mem_story_cons _ (h.detached i hi)
  case nothing =>
    intro i hi c hc
    rw [hdegraded] at hi
    rw [hget i hi] at hc
    exact h.nothing i hi c hc

/-- A creation fails with the thread there. In the settled history it ends at once. -/
theorem degrade (h : Settles pid settings records p records' q) (hl : p.registry.Lists l)
    (hallows : p.Allows records (.create t here request launch))
    (hhousing : housing (request.getD {}) launch = .ok (region, layout))
    (hrefused : failure? settings.policy (refusal? (request.getD {}) launch) = some e)
    (hp : p.settings = settings) :
    ∃ records'' q', Settles pid settings (⟨p, .create t here request launch,
      (p.launch t here request launch).reply, (p.launch t here request launch).group⟩ :: records)
      (p.launch t here request launch).group records'' q' := by
  obtain ⟨hresult, hregisters⟩ := launch_of_refused hl hhousing (hp ▸ hrefused) t here
  have hreply := Creation.reply_of_launched hresult hregisters.launched
  have hregistry := hregisters.registry
  generalize (p.launch t here request launch).reply = reply at hreply ⊢
  generalize (p.launch t here request launch).group = p₁ at hregistry ⊢
  subst hreply
  obtain ⟨q₁, q₂, hlives, hregistry'⟩ :=
    h.lives.next_degraded (h.allows_create hallows) hhousing hrefused h.omits.size
  have hdegraded : degraded (⟨p, .create t here request launch,
      .degraded p.registry.cells.size e, p₁⟩ :: records) =
        p.registry.cells.size :: degraded records := degraded_cons _ _
  refine ⟨⟨q₁, .finish p.registry.cells.size 0, .ended, q₂⟩ ::
    ⟨q, .create t here request launch, .degraded p.registry.cells.size e, q₁⟩ :: records',
    q₂, ?_⟩
  constructor
  case lives => exact hlives
  case history =>
    rw [List.map_cons, List.map_cons, h.history]
    exact (settled_cons_degraded rfl records).symm
  case omits =>
    rw [hdegraded, hregistry, hregistry']
    exact h.omits.add_gone _
  case story =>
    intro i hi
    rw [hdegraded, List.mem_cons, not_or] at hi
    rw [story_cons_of_ne rfl hi.1, story_cons_of_ne rfl hi.1, story_cons_of_ne rfl hi.1,
      h.story i hi.2]
  case detached =>
    intro i hi
    rw [hdegraded] at hi
    obtain rfl | hi := List.mem_cons.1 hi
    · rw [story_cons_self rfl]
      exact List.mem_cons_self
    · exact mem_story_cons _ (h.detached i hi)
  case nothing =>
    intro i hi c hc
    rw [hdegraded] at hi
    rw [hregistry, hl.get?_add] at hc
    obtain rfl | hi := List.mem_cons.1 hi
    · rw [if_pos rfl] at hc
      rw [← Option.some.inj hc]
      rfl
    · rw [if_neg (Nat.ne_of_lt (h.omits.lt i hi))] at hc
      exact h.nothing i hi c hc

/-- Any creation. -/
theorem create (h : Settles pid settings records p records' q)
    (hlives : Lives pid settings records p)
    (hallows : p.Allows records (.create t here request launch)) :
    ∃ records'' q', Settles pid settings (⟨p, .create t here request launch,
      (p.launch t here request launch).reply, (p.launch t here request launch).group⟩ :: records)
      (p.launch t here request launch).group records'' q' := by
  obtain ⟨l, hl⟩ := hlives.kept.lists
  have hallows' := h.allows_create hallows
  have htarget : ∀ i ∈ (Deed.create t here request launch).target?, i ∉ degraded records :=
    fun i hi => absurd hi (by simp [Deed.target?])
  cases hhousing : housing (request.getD {}) launch with
  | error e =>
    obtain ⟨hresult, hnone, hsame⟩ := launch_of_error hhousing p t here
    obtain ⟨hresult', hnone', hsame'⟩ := launch_of_error hhousing q t here
    have hreply := Creation.reply_of_none hresult hnone
    have hreply' := Creation.reply_of_none hresult' hnone'
    have hperform : q.perform? (.create t here request launch) =
        some ((p.launch t here request launch).reply, (q.launch t here request launch).group) := by
      rw [perform?, hreply, hreply']
    refine ⟨_, _, h.same hallows' hperform (by rw [hreply]; rfl) htarget ?_ fun i _ => ?_⟩
    · rw [hsame.registry, hsame'.registry]
      exact h.omits
    · rw [hsame.registry]
  | ok place =>
    obtain ⟨region, layout⟩ := place
    cases hverdict : failure? settings.policy (refusal? (request.getD {}) launch) with
    | some e => exact h.degrade hl hallows hhousing hverdict hlives.settings_eq
    | none =>
      obtain ⟨hresult, hregisters⟩ :=
        launch_of_granted hl hhousing (hlives.settings_eq ▸ hverdict) t here
      obtain ⟨l', hl'⟩ := h.lives.kept.lists
      obtain ⟨hresult', hregisters'⟩ :=
        launch_of_granted hl' hhousing (h.lives.settings_eq ▸ hverdict) t here
      have hreply := Creation.reply_of_ok hresult
      have hreply' := Creation.reply_of_ok hresult'
      have hperform : q.perform? (.create t here request launch) =
          some ((p.launch t here request launch).reply,
            (q.launch t here request launch).group) := by
        rw [perform?, hreply, hreply', h.omits.size]
      refine ⟨_, _, h.same hallows' hperform (by rw [hreply]; rfl) htarget ?_ fun i hi => ?_⟩
      · rw [hregisters.registry, hregisters'.registry]
        exact h.omits.add _
      · rw [hregisters.registry, hl.get?_add, if_neg (Nat.ne_of_lt (h.omits.lt i hi))]

/-- A call on a degraded thread does nothing in the settled history: it is refused, or it is the
end of the thread. -/
theorem leaveOut (h : Settles pid settings records p records' q)
    (hlives : Lives pid settings records p) (hd : d.target? = some i) (hi : i ∈ degraded records)
    (hallows : p.Allows records d) (hperform : p.perform? d = some (reply, p')) :
    Settles pid settings (⟨p, d, reply, p'⟩ :: records) p' records' q := by
  obtain ⟨l, hl⟩ := hlives.kept.lists
  obtain ⟨e, -, -, hedit, -⟩ :=
    hlives.kept.exists_edit hlives.kept hd rfl hallows hallows hperform
  have hreply : reply.degraded? = none := degraded?_eq_none hd hperform
  have hdegraded : degraded (⟨p, d, reply, p'⟩ :: records) = degraded records := by
    rw [degraded_cons, hreply]
    rfl
  constructor
  case lives => exact h.lives
  case history =>
    rw [h.history]
    exact (settled_cons_leftOut (r := ⟨p, d, reply, p'⟩) hreply hd hi).symm
  case omits =>
    rw [hdegraded, hedit]
    exact h.omits.edit_gone hi e
  case story =>
    intro j hj
    rw [hdegraded] at hj
    rw [h.story j hj]
    cases hm : Record.milestone? ⟨p, d, reply, p'⟩ with
    | none => exact (story_cons_of_none hm j records).symm
    | some told =>
      obtain ⟨k, m⟩ := told
      obtain rfl := target?_of_milestone? hm hd
      have hne : j ≠ k := fun heq => hj (heq ▸ hi)
      exact (story_cons_of_ne hm hne records).symm
  case detached =>
    intro j hj
    rw [hdegraded] at hj
    exact mem_story_cons _ (h.detached j hj)
  case nothing =>
    intro j hj c hc
    rw [hdegraded] at hj
    by_cases hji : j = i
    · subst hji
      obtain ⟨-, hsame, -⟩ | ⟨k, s, m, hadvances⟩ := hlives.kept.advances hallows hperform
      · rw [hsame.registry] at hc
        exact h.nothing j hj c hc
      · obtain rfl := target?_of_milestone? hadvances.milestone? hd
        rw [hadvances.gone_of_detached (.inr (h.detached k hj))] at hc
        exact absurd hc (by simp)
    · rw [hedit, hl.get?_edit, if_neg hji] at hc
      exact h.nothing j hj c hc

/-- Any call on a thread. -/
theorem call (h : Settles pid settings records p records' q)
    (hlives : Lives pid settings records p) (hd : d.target? = some i)
    (hallows : p.Allows records d) (hperform : p.perform? d = some (reply, p')) :
    ∃ records'' q', Settles pid settings (⟨p, d, reply, p'⟩ :: records) p' records'' q' := by
  by_cases hi : i ∈ degraded records
  · exact ⟨_, _, h.leaveOut hlives hd hi hallows hperform⟩
  obtain ⟨l, hl⟩ := hlives.kept.lists
  have hallows' := h.allows_call hd hi hallows
  obtain ⟨e, q', hperform', hedit, hedit'⟩ := hlives.kept.exists_edit h.lives.kept hd
    (h.omits.get? i hi) hallows hallows' hperform
  refine ⟨_, _, h.same hallows' hperform' (degraded?_eq_none hd hperform) ?_ ?_ fun j hj => ?_⟩
  · intro j hj
    obtain rfl := Option.some.inj (hd.symm.trans hj)
    exact hi
  · rw [hedit, hedit']
    exact h.omits.edit hi e
  · have hji : j ≠ i := fun heq => hi (heq ▸ hj)
    rw [hedit, hl.get?_edit, if_neg hji]

end Settles

/-- Every history has a settled one. -/
theorem Lives.exists_settles (h : Lives pid settings records p) :
    ∃ records' q, Settles pid settings records p records' q := by
  induction h with
  | start => exact ⟨_, _, settles_initial pid settings⟩
  | @next records p p' d reply hlives hallows hperform ih =>
    obtain ⟨records', q, hsettles⟩ := ih
    cases htarget : d.target? with
    | some i => exact hsettles.call hlives htarget hallows hperform
    | none =>
      cases d with
      | create t here request launch =>
        obtain ⟨rfl, rfl⟩ := Prod.mk.inj (Option.some.inj hperform)
        exact hsettles.create hlives hallows
      | _ => exact absurd htarget (by simp [Deed.target?])

namespace Settles

variable (h : Settles pid settings records p records' q) (hlives : Lives pid settings records p)

include h hlives

/-- A degraded thread that is still registered is detached, has nothing to run and may return 0. -/
theorem registered (hi : i ∈ degraded records) (hc : p.registry.get? i = some c) :
    c.joinState = .detached ∧ c.routine = .nothing ∧
      p.perform? (.finish i 0) = some (.ended, p.letGo i) := by
  have hdetached : (ThreadGroup.story i records).Detached := .inr (h.detached i hi)
  have hnothing := h.nothing i hi c hc
  have hne := hlives.kept.ne_zero ⟨true, h.detached i hi⟩
  obtain ⟨s, hlife, hs, -⟩ := hlives.kept.life i hne
  have hdescribes := hlife.describes
  cases s with
  | unborn | gone => exact absurd (hs.symm.trans hc) (by simp)
  | ended v w there => exact absurd hdetached hdescribes.2.2.2.2.1
  | running claim =>
    obtain ⟨c', hc', -, hjoin⟩ := hs
    obtain rfl := Option.some.inj (hc'.symm.trans hc)
    obtain rfl := hdescribes.2.2.2.2.1.1 hdetached
    have hhoused := hlives.kept.placed.housed i c' hne hc
    refine ⟨hjoin, hnothing, ?_⟩
    rw [(hlives.kept.perform?_ending hdescribes.1 hdescribes.2.1 0).1, letGo, hc]
    simp only [hnothing, returnWith_eq hc hhoused.starts hhoused.cleanupTop, Option.map_some,
      Option.getD_some]

theorem get?_of_ended (hi : i ∈ degraded records)
    (hended : (ThreadGroup.story i records).Ended) : p.registry.get? i = none := by
  have hdetached : (ThreadGroup.story i records).Detached := .inr (h.detached i hi)
  have hne := hlives.kept.ne_zero ⟨true, h.detached i hi⟩
  rw [← Option.not_isSome_iff_eq_none, hlives.kept.registered_iff hne]
  rintro ⟨-, hrunning | ⟨-, hfree⟩⟩
  · exact hrunning hended
  · exact hfree hdetached

/-- Once the degraded threads have ended, nothing is left of them. -/
theorem restored (hended : ∀ i ∈ degraded records, (ThreadGroup.story i records).Ended) :
    q.Restored p := by
  have hgone (i : BlockId) (hi : i ∈ degraded records) : p.registry.get? i = none :=
    h.get?_of_ended hlives hi (hended i hi)
  have hget (i : BlockId) : p.registry.get? i = q.registry.get? i := by
    by_cases hi : i ∈ degraded records
    · rw [hgone i hi, h.omits.get?_of_mem hi]
    · exact (h.omits.get? i hi).symm
  constructor
  case lists => exact h.omits.lists_of_get?_eq_none hgone
  case get? => exact hget
  case mapped =>
    have hp := hlives.kept.placed
    have hq := h.lives.kept.placed
    refine (List.perm_ext_iff_of_nodup hp.nodup hq.nodup).2 fun region => ?_
    rw [hp.mem_mapped_iff, hq.mem_mapped_iff]
    simp only [Uses, hget]

end Settles

end Threading.ThreadGroup
