import Threading.Proofs.Registry.Edits
import Threading.Proofs.Threads.Launches
import Threading.Proofs.Threads.Lives

/-!
# What a call on a thread depends on

How a thread ends, and how it is joined and detached, depends on its control block alone. So two
processes that have registered the same of a thread answer a call on it alike, and what becomes
of its control block is the same in both. No call changes the settings.
-/
namespace Threading.ThreadGroup

open Registry (Edit)

variable {pid : Tid} {settings : Settings} {p p' q : ThreadGroup}
variable {records records' : List Record} {i j : BlockId} {d : Deed} {reply : Reply}
variable {v : UInt64} {me : Tid}

/-- The thread that a call is about. -/
def Deed.target? : Deed → Option BlockId
  | .create .. => none
  | .finish i _ | .exit i _ | .expire i | .join _ i | .complete i | .detach i | .release i => some i

/-- The end of a thread is known from its control block. -/
theorem exists_edit_depart (o : Option Control) (i : BlockId) (v : UInt64) :
    ∃ e : Edit Control, ∀ p : ThreadGroup, p.registry.get? i = o →
      (p.depart i v).registry = e.apply p.registry i := by
  cases o with
  | none =>
    refine ⟨.keep, fun p hi => ?_⟩
    rw [depart, hi]
    rfl
  | some c =>
    have hreclaims (hs : c.joinState = .exitedNotJoined ∨ c.joinState = .detached)
        (p : ThreadGroup) (hi : p.registry.get? i = some c) :
        (p.depart i v).registry = (Edit.takeOut id).apply p.registry i := by
      rw [depart_reclaims hi hs, Edit.apply, Registry.modify_id]
      exact registry_reclaim _ _ _
    cases hs : c.joinState with
    | joinable =>
      exact ⟨.write (leavesAs · v .exitedNotJoined), fun p hi => by rw [depart_joinable hi hs]; rfl⟩
    | joined => exact ⟨.write (leavesAs · v .joined), fun p hi => by rw [depart_joined hi hs]; rfl⟩
    | detached => exact ⟨.takeOut id, hreclaims (.inr hs)⟩
    | exitedNotJoined => exact ⟨.takeOut id, hreclaims (.inl hs)⟩

/-- What a call on a thread answers and does to its control block, if that is registered so. -/
def Effects (d : Deed) (i : BlockId) (o : Option Control)
    (effect : Option (Reply × Edit Control)) : Prop :=
  ∀ p : ThreadGroup, p.registry.get? i = o → (p.perform? d).map (·.map id ThreadGroup.registry) =
    effect.map (·.map id (Edit.apply · p.registry i))

theorem Effects.exists_edit {effect : Option (Reply × Edit Control)}
    (h : Effects d i (p.registry.get? i) effect)
    (hget : q.registry.get? i = p.registry.get? i) (hperform : p.perform? d = some (reply, p')) :
    ∃ e q', q.perform? d = some (reply, q') ∧ p'.registry = Edit.apply e p.registry i ∧
      q'.registry = Edit.apply e q.registry i := by
  have hp := h p rfl
  have hq := h q hget
  rw [hperform, Option.map_some] at hp
  obtain ⟨⟨reply', e⟩, rfl, heffect⟩ := Option.map_eq_some_iff.1 hp.symm
  obtain ⟨rfl, hp'⟩ := Prod.mk.inj heffect
  obtain ⟨⟨reply'', q'⟩, hq', heq⟩ := Option.map_eq_some_iff.1 hq
  obtain ⟨rfl, hq''⟩ := Prod.mk.inj heq
  exact ⟨e, q', hq', hp'.symm, hq''⟩

theorem exists_effect_join (o : Option Control) (me : Tid) (i : BlockId) :
    ∃ effect, Effects (.join me i) i o effect := by
  cases o with
  | none =>
    refine ⟨some (.failed .noSuchThread, .keep), fun p hi => ?_⟩
    simp [perform?, join, hi, Edit.apply]
  | some c =>
    by_cases hmain : c.isMain = true
    · refine ⟨some (.failed (.invalidArgument "initial thread cannot be joined"), .keep),
        fun p hi => ?_⟩
      simp [perform?, join, hi, hmain, Edit.apply]
    by_cases hruns : c.runsAs me = true
    · refine ⟨some (.failed .deadlock, .keep), fun p hi => ?_⟩
      simp [perform?, join, hi, hmain, hruns, Edit.apply]
    by_cases hclaimed : c.joinState = .detached ∨ c.joinState = .joined
    · refine ⟨some (.failed notJoinable, .keep), fun p hi => ?_⟩
      obtain hs | hs := hclaimed <;>
        simp [perform?, join, hi, hmain, hruns, hs, notJoinable, Edit.apply]
    have hfree : c.joinState = .joinable ∨ c.joinState = .exitedNotJoined := by
      cases hs : c.joinState <;> simp [hs] at hclaimed ⊢
    by_cases htid : c.tid = 0
    · refine ⟨some (.value c.result, .takeOut ({ · with joinState := .joined })),
        fun p hi => ?_⟩
      obtain hs | hs := hfree <;>
        simp [perform?, join, hi, hmain, hruns, hs, htid, reap, registry_reclaim, Edit.apply, claim]
    · refine ⟨some (.waits, .write ({ · with joinState := .joined })), fun p hi => ?_⟩
      obtain hs | hs := hfree <;>
        simp [perform?, join, hi, hmain, hruns, hs, htid, Edit.apply, claim]

/-- Both calls that wait go on in the same way. -/
theorem exists_effect_waiting (o : Option Control) (i : BlockId) :
    (∃ effect, Effects (.complete i) i o effect) ∧ ∃ effect, Effects (.release i) i o effect := by
  cases o with
  | none =>
    constructor <;> refine ⟨none, fun p hi => ?_⟩ <;> simp [perform?, completeJoin?, hi]
  | some c =>
    by_cases hready : c.joinState = .joined ∧ c.tid = 0
    · constructor
      · refine ⟨some (.value c.result, .takeOut id), fun p hi => ?_⟩
        simp [perform?, completeJoin?, hi, hready, reap, registry_reclaim, Edit.apply,
          Registry.modify_id]
      · refine ⟨some (.detached, .takeOut id), fun p hi => ?_⟩
        simp [perform?, completeJoin?, hi, hready, reap, registry_reclaim, Edit.apply,
          Registry.modify_id]
    · constructor <;> refine ⟨none, fun p hi => ?_⟩ <;>
        simp [perform?, completeJoin?, hi, hready]

theorem exists_effect_detach (o : Option Control) (i : BlockId) :
    ∃ effect, Effects (.detach i) i o effect := by
  cases o with
  | none =>
    refine ⟨some (.failed .noSuchThread, .keep), fun p hi => ?_⟩
    simp [perform?, detach, hi, Edit.apply]
  | some c =>
    by_cases hmain : c.isMain = true
    · refine ⟨some (.failed (.invalidArgument "initial thread cannot be detached"), .keep),
        fun p hi => ?_⟩
      simp [perform?, detach, hi, hmain, Edit.apply]
    cases hs : c.joinState with
    | joined | detached =>
      refine ⟨some (.failed notJoinable, .keep), fun p hi => ?_⟩
      simp [perform?, detach, hi, hmain, hs, notJoinable, Edit.apply]
    | joinable =>
      refine ⟨some (.detached, .write ({ · with joinState := .detached })), fun p hi => ?_⟩
      simp [perform?, detach, hi, hmain, hs, Edit.apply]
    | exitedNotJoined =>
      by_cases htid : c.tid = 0
      · refine ⟨some (.detached, .takeOut ({ · with joinState := .joined })), fun p hi => ?_⟩
        simp [perform?, detach, hi, hmain, hs, htid, reap, registry_reclaim, Edit.apply, claim]
      · refine ⟨some (.waits, .write ({ · with joinState := .joined })), fun p hi => ?_⟩
        simp [perform?, detach, hi, hmain, hs, htid, Edit.apply, claim]

/-- A call on a thread in two processes that have registered the same of it. -/
theorem Kept.exists_edit (h : Kept pid records p) (h' : Kept pid records' q)
    (hd : d.target? = some i) (hget : q.registry.get? i = p.registry.get? i)
    (hallows : p.Allows records d) (hallows' : q.Allows records' d)
    (hperform : p.perform? d = some (reply, p')) :
    ∃ e q', q.perform? d = some (reply, q') ∧ p'.registry = Edit.apply e p.registry i ∧
      q'.registry = Edit.apply e q.registry i := by
  cases d with
  | create t here request launch => exact absurd hd (by simp [Deed.target?])
  | finish j v =>
    obtain rfl := Option.some.inj hd
    obtain ⟨⟨hc, he⟩, -⟩ := hallows
    obtain ⟨⟨hc', he'⟩, -⟩ := hallows'
    rw [(h.perform?_ending hc he v).1] at hperform
    obtain ⟨rfl, rfl⟩ := Prod.mk.inj (Option.some.inj hperform)
    obtain ⟨e, hedit⟩ := exists_edit_depart (p.registry.get? j) j v
    exact ⟨e, _, (h'.perform?_ending hc' he' v).1, hedit p rfl, hedit q hget⟩
  | exit j v =>
    obtain rfl := Option.some.inj hd
    obtain ⟨⟨hc, he⟩, -⟩ := hallows
    obtain ⟨⟨hc', he'⟩, -⟩ := hallows'
    rw [(h.perform?_ending hc he v).2] at hperform
    obtain ⟨rfl, rfl⟩ := Prod.mk.inj (Option.some.inj hperform)
    obtain ⟨e, hedit⟩ := exists_edit_depart (p.registry.get? j) j v
    exact ⟨e, _, (h'.perform?_ending hc' he' v).2, hedit p rfl, hedit q hget⟩
  | expire j =>
    obtain rfl := Option.some.inj hd
    obtain ⟨rfl, rfl⟩ := Prod.mk.inj (Option.some.inj hperform)
    exact ⟨.write expired, _, rfl, rfl, rfl⟩
  | join me j =>
    obtain rfl := Option.some.inj hd
    obtain ⟨effect, heffect⟩ := exists_effect_join (p.registry.get? j) me j
    exact heffect.exists_edit hget hperform
  | complete j =>
    obtain rfl := Option.some.inj hd
    obtain ⟨effect, heffect⟩ := (exists_effect_waiting (p.registry.get? j) j).1
    exact heffect.exists_edit hget hperform
  | detach j =>
    obtain rfl := Option.some.inj hd
    obtain ⟨effect, heffect⟩ := exists_effect_detach (p.registry.get? j) j
    exact heffect.exists_edit hget hperform
  | release j =>
    obtain rfl := Option.some.inj hd
    obtain ⟨effect, heffect⟩ := (exists_effect_waiting (p.registry.get? j) j).2
    exact heffect.exists_edit hget hperform

/-! ## Settings -/

theorem settings_launch (p : ThreadGroup) (t : Tid) (here : LockOrder.CallStack)
    (request : Option Attributes) (launch : Launch) :
    (p.launch t here request launch).group.settings = p.settings := by
  obtain ⟨lines, hlaunch⟩ := p.launch_eq t here request launch
  rw [hlaunch, outcome]
  split
  · rfl
  · split <;> rfl

theorem settings_reclaim (p : ThreadGroup) (i : BlockId) (c : Control) :
    (p.reclaim i c).settings = p.settings := by
  rw [reclaim, releaseRegion]
  split <;> rfl

theorem settings_depart (p : ThreadGroup) (i : BlockId) (v : UInt64) :
    (p.depart i v).settings = p.settings := by
  rw [depart]
  split
  · rfl
  · split
    · rfl
    · rfl
    · exact settings_reclaim _ _ _
    · exact settings_reclaim _ _ _

theorem settings_perform? (h : p.perform? d = some (reply, p')) : p'.settings = p.settings := by
  cases alters_perform? h with
  | launched t here request launch => exact p.settings_launch t here request launch
  | departed i v => exact p.settings_depart i v
  | reclaimed i c => exact p.settings_reclaim i c
  | claimedAndReclaimed i c => exact (p.claim i).settings_reclaim i c
  | same | expired i | claimed i | detached i => rfl

theorem Lives.settings_eq (h : Lives pid settings records p) : p.settings = settings := by
  induction h with
  | start => rfl
  | next _ _ hperform ih => exact (settings_perform? hperform).trans ih

end Threading.ThreadGroup
