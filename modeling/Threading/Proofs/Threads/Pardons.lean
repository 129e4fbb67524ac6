import Threading.Proofs.Threads.Effects

/-!
# Refusals that are only logged

Under the policy to warn, a creation whose scheduling is refused goes on as if it had been
granted, and a line is logged. No call reads the log. So every history has one in which nothing
is refused, with the same answers and, but for the log, the same process at the end.
-/
namespace Threading.ThreadGroup

open LockOrder (CallStack)

variable {pid : Tid} {settings : Settings} {p p' q : ThreadGroup}
variable {records records' : List Record} {i : BlockId} {d : Deed} {reply : Reply} {t : Tid}
variable {lines : Array Log.Line}

/-! ## No call reads the log -/

theorem reclaim_withLines (p : ThreadGroup) (i : BlockId) (c : Control)
    (lines : Array Log.Line) :
    (p.withLines lines).reclaim i c = (p.reclaim i c).withLines lines := by
  rw [reclaim, reclaim, releaseRegion, releaseRegion]
  split <;> rfl

theorem depart_withLines (p : ThreadGroup) (i : BlockId) (v : UInt64) (lines : Array Log.Line) :
    (p.withLines lines).depart i v = (p.depart i v).withLines lines := by
  rw [depart, depart, show (p.withLines lines).registry = p.registry from rfl]
  cases p.registry.get? i with
  | none => rfl
  | some c =>
    cases hs : c.joinState <;> simp only [hs]
    · rfl
    · exact reclaim_withLines (p.forgetLocks c.tid) i c lines
    · rfl
    · exact reclaim_withLines (p.forgetLocks c.tid) i c lines

theorem leave_withLines (p : ThreadGroup) (i : BlockId) (v : UInt64) (lines : Array Log.Line) :
    (p.withLines lines).leave i v = (p.leave i v).map (·.map id (·.withLines lines)) := by
  rw [leave, leave, show (p.withLines lines).registry = p.registry from rfl]
  cases p.registry.get? i with
  | none => rfl
  | some c =>
    simp only [depart_withLines, Option.map_map]
    rfl

theorem returnWith_withLines (p : ThreadGroup) (i : BlockId) (v : UInt64)
    (lines : Array Log.Line) :
    (p.withLines lines).returnWith i v = (p.returnWith i v).map (·.map id (·.withLines lines)) := by
  rw [returnWith, returnWith, show (p.withLines lines).registry = p.registry from rfl,
    leave_withLines]
  split <;> rfl

theorem join_withLines (p : ThreadGroup) (me : Tid) (i : BlockId) (lines : Array Log.Line) :
    (p.withLines lines).join me i = (p.join me i).map (·.map id (·.withLines lines)) := by
  rw [join, join, show (p.withLines lines).registry = p.registry from rfl]
  cases p.registry.get? i with
  | none => rfl
  | some c =>
    by_cases hmain : c.isMain = true
    · simp only [hmain, if_true]
      rfl
    by_cases hruns : c.runsAs me = true
    · simp only [hmain, hruns, Bool.false_eq_true, if_true, if_false]
      rfl
    have hclaimed := reclaim_withLines (p.claim i) i c lines
    simp only [hmain, hruns, Bool.false_eq_true, if_false]
    cases c.joinState with
    | detached | joined => rfl
    | joinable | exitedNotJoined =>
      by_cases hended : c.tid = 0
      · simp only [hended, if_true, reap]
        exact congrArg (fun p' => Except.ok (Join.value c.result, p')) hclaimed
      · simp only [hended, if_false]
        rfl

theorem completeJoin?_withLines (p : ThreadGroup) (i : BlockId) (lines : Array Log.Line) :
    (p.withLines lines).completeJoin? i =
      (p.completeJoin? i).map (·.map id (·.withLines lines)) := by
  rw [completeJoin?, completeJoin?, show (p.withLines lines).registry = p.registry from rfl]
  cases p.registry.get? i with
  | none => rfl
  | some c =>
    by_cases hready : c.joinState = .joined ∧ c.tid = 0
    · simp only [hready, reap, reclaim_withLines, and_self, if_true]
      rfl
    · simp only [hready, if_false]
      rfl

theorem detach_withLines (p : ThreadGroup) (i : BlockId) (lines : Array Log.Line) :
    (p.withLines lines).detach i = (p.detach i).map (·.map id (·.withLines lines)) := by
  rw [detach, detach, show (p.withLines lines).registry = p.registry from rfl]
  cases p.registry.get? i with
  | none => rfl
  | some c =>
    have hclaimed := reclaim_withLines (p.claim i) i c lines
    by_cases hmain : c.isMain = true
    · simp only [hmain, if_true]
      rfl
    simp only [hmain, Bool.false_eq_true, if_false]
    cases c.joinState with
    | exitedNotJoined =>
      by_cases hended : c.tid = 0
      · simp only [hended, if_true, reap]
        exact congrArg (fun p' => Except.ok (Detachment.done, p')) hclaimed
      · simp only [hended, if_false]
        rfl
    | _ => rfl

/-- A call on a thread does the same whatever has been logged. -/
theorem perform?_withLines (hd : d.target? = some i) (p : ThreadGroup) (lines : Array Log.Line) :
    (p.withLines lines).perform? d = (p.perform? d).map (·.map id (·.withLines lines)) := by
  cases d with
  | create t here request launch => exact absurd hd (by simp [Deed.target?])
  | finish j v =>
    simp only [perform?, returnWith_withLines, Option.map_map]
    rfl
  | exit j v =>
    rw [perform?, perform?, show (p.withLines lines).control j = p.control j from rfl]
    cases p.control j with
    | error e => rfl
    | ok c =>
      dsimp only
      rw [show (p.withLines lines).exiting ⟨c.tid, c.tls⟩ = p.exiting ⟨c.tid, c.tls⟩ from rfl]
      cases p.exiting ⟨c.tid, c.tls⟩ with
      | error e => rfl
      | ok k =>
        simp only [leave_withLines, Option.map_map]
        rfl
  | expire j => rfl
  | join me j =>
    rw [perform?, perform?, join_withLines]
    cases p.join me j with
    | error e => rfl
    | ok answer =>
      obtain ⟨_ | _, p'⟩ := answer <;> rfl
  | complete j | release j =>
    simp only [perform?, completeJoin?_withLines, Option.map_map]
    rfl
  | detach j =>
    rw [perform?, perform?, detach_withLines]
    cases p.detach j with
    | error e => rfl
    | ok answer =>
      obtain ⟨_ | _, p'⟩ := answer <;> rfl

/-! ## Pardoned histories -/

/-- What the kernel answers if it refuses no scheduling. -/
def pardon (launch : Launch) : Launch := { launch with scheduler := none, affinity := none }

def Deed.pardoned : Deed → Deed
  | create t here request launch => create t here request (pardon launch)
  | d => d

theorem Deed.pardoned_of_target? (hd : d.target? = some i) : d.pardoned = d := by
  cases d with
  | create t here request launch => exact absurd hd (by simp [Deed.target?])
  | _ => rfl

theorem milestone?_pardoned (d : Deed) (reply : Reply) :
    ThreadGroup.milestone? d.pardoned reply = ThreadGroup.milestone? d reply := by
  cases d <;> cases reply <;> rfl

theorem provided?_pardon (a : Attributes) (launch : Launch) :
    provided? a (pardon launch) = provided? a launch := by
  simp only [provided?, pardon]

theorem housing_pardon (a : Attributes) (launch : Launch) :
    housing a (pardon launch) = housing a launch := by
  simp only [housing, provided?_pardon]
  rfl

theorem unused?_pardon (a : Attributes) (launch : Launch) :
    unused? a (pardon launch) = unused? a launch := by
  simp only [unused?, pardon]

/-- Under the policy to warn, a refusal changes nothing but the log. -/
theorem launch_pardon (hpolicy : p.settings.policy = .warn) (t : Tid) (here : CallStack)
    (request : Option Attributes) (launch : Launch) (lines : Array Log.Line) : ∃ lines',
      (p.withLines lines).launch t here request (pardon launch) =
        (p.launch t here request launch).withLines lines' := by
  obtain ⟨lines', hpardoned⟩ := (p.withLines lines).launch_eq t here request (pardon launch)
  obtain ⟨lines₀, hlaunch⟩ := p.launch_eq t here request launch
  refine ⟨lines', ?_⟩
  have hpolicy' : (p.withLines lines).settings.policy = .warn := hpolicy
  rw [hpardoned, hlaunch, outcome, outcome, housing_pardon, unused?_pardon, hpolicy, hpolicy']
  cases housing (request.getD {}) launch <;> rfl

/-- A process after a history, and one after the history in which nothing is refused. -/
structure Pardons (pid : Tid) (settings : Settings) (records : List Record) (p : ThreadGroup)
    (records' : List Record) (q : ThreadGroup) : Prop where
  lives : Lives pid settings records' q
  history : records'.map (fun r => (r.deed, r.reply)) =
    records.map fun r => (r.deed.pardoned, r.reply)
  exceptLines : q = p.withLines q.lines

/-- Stories are told by the milestones of the deeds. -/
theorem story_congr (h : records'.map (·.milestone?) = records.map (·.milestone?))
    (i : BlockId) : story i records' = story i records := by
  have hstory (records : List Record) : story i records =
      (records.map (·.milestone?)).filterMap fun told => (told.filter (·.1 = i)).map (·.2) := by
    rw [story, List.filterMap_map]
    rfl
  rw [hstory, hstory, h]

theorem pardons_initial (pid : Tid) (settings : Settings) :
    Pardons pid settings [] (initial pid settings) [] (initial pid settings) :=
  ⟨.start, rfl, rfl⟩

namespace Pardons

theorem story (h : Pardons pid settings records p records' q) (i : BlockId) :
    ThreadGroup.story i records' = ThreadGroup.story i records := by
  refine story_congr ?_ i
  calc records'.map (·.milestone?)
      = (records'.map fun r => (r.deed, r.reply)).map fun (d, reply) =>
          ThreadGroup.milestone? d reply := by rw [List.map_map]; rfl
    _ = (records.map fun r => (r.deed.pardoned, r.reply)).map fun (d, reply) =>
          ThreadGroup.milestone? d reply := by rw [h.history]
    _ = records.map (·.milestone?) := by
        rw [List.map_map]
        exact List.map_congr_left fun r _ => milestone?_pardoned r.deed r.reply

/-- Something is done in both. -/
theorem next (h : Pardons pid settings records p records' q)
    (hallows : q.Allows records' d.pardoned)
    (hperform : q.perform? d.pardoned = some (reply, p'.withLines lines)) :
    Pardons pid settings (⟨p, d, reply, p'⟩ :: records) p'
      (⟨q, d.pardoned, reply, p'.withLines lines⟩ :: records') (p'.withLines lines) where
  lives := h.lives.next hallows hperform
  history := by rw [List.map_cons, h.history, List.map_cons]
  exceptLines := rfl

theorem create (h : Pardons pid settings records p records' q)
    (hlives : Lives pid settings records p) (hwarn : settings.policy = .warn) {here : CallStack}
    {request : Option Attributes} {launch : Launch}
    (hallows : p.Allows records (.create t here request launch)) :
    ∃ records'' q', Pardons pid settings (⟨p, .create t here request launch,
      (p.launch t here request launch).reply, (p.launch t here request launch).group⟩ :: records)
      (p.launch t here request launch).group records'' q' := by
  have hpolicy : p.settings.policy = .warn := by rw [hlives.settings_eq, hwarn]
  obtain ⟨lines, hlaunch⟩ := launch_pardon hpolicy t here request launch q.lines
  rw [← h.exceptLines] at hlaunch
  have hallows' : q.Allows records' (.create t here request (pardon launch)) := by
    obtain ⟨htid, hspares⟩ := hallows
    refine ⟨htid, fun hlaunched region hregion => ?_⟩
    rw [hlaunch] at hlaunched
    rw [provided?_pardon] at hregion
    rw [h.exceptLines]
    exact hspares hlaunched region hregion
  have hperform : q.perform? (.create t here request (pardon launch)) =
      some ((p.launch t here request launch).reply,
        (p.launch t here request launch).group.withLines lines) := by
    rw [perform?, hlaunch]
    rfl
  exact ⟨_, _, h.next hallows' hperform⟩

theorem call (h : Pardons pid settings records p records' q) (hd : d.target? = some i)
    (hallows : p.Allows records d) (hperform : p.perform? d = some (reply, p')) :
    ∃ records'' q', Pardons pid settings (⟨p, d, reply, p'⟩ :: records) p' records'' q' := by
  have hsame := d.pardoned_of_target? hd
  have hallows' : q.Allows records' d.pardoned := by
    rw [hsame]
    cases d with
    | create t here request launch => exact absurd hd (by simp [Deed.target?])
    | finish j v | exit j v =>
      rw [Allows, h.story, h.exceptLines]
      exact hallows
    | expire j | complete j | release j =>
      rw [Allows, h.story]
      exact hallows
    | join me j | detach j => trivial
  have hperform' : q.perform? d.pardoned = some (reply, p'.withLines q.lines) := by
    rw [hsame, h.exceptLines, perform?_withLines hd, hperform]
    rfl
  exact ⟨_, _, h.next hallows' hperform'⟩

end Pardons

/-- Under the policy to warn, every history has a pardoned one. -/
theorem Lives.exists_pardons (h : Lives pid settings records p) (hwarn : settings.policy = .warn) :
    ∃ records' q, Pardons pid settings records p records' q := by
  induction h with
  | start => exact ⟨_, _, pardons_initial pid settings⟩
  | @next records p p' d reply hlives hallows hperform ih =>
    obtain ⟨records', q, hpardons⟩ := ih
    cases htarget : d.target? with
    | some i => exact hpardons.call htarget hallows hperform
    | none =>
      cases d with
      | create t here request launch =>
        obtain ⟨rfl, rfl⟩ := Prod.mk.inj (Option.some.inj hperform)
        exact hpardons.create hlives hwarn hallows
      | _ => exact absurd htarget (by simp [Deed.target?])

end Threading.ThreadGroup
