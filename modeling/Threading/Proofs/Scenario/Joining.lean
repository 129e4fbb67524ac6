import Threading.Proofs.Scenario.Performance
import Threading.Proofs.Threads.Staff

/-!
# Waiting for threads

The conductor joins the threads it has created in order, while those that have not ended go on.
Whatever the schedule, each join comes to its end and returns the value of its thread, if only
some of the staff can go on whenever there is any.
-/
namespace Threading.Scenario

open Performance (Returns)
open ThreadGroup (Due Staffed)

variable {k : Kernel} {I : List Due → Option BlockId → Stage → Prop} {stage : Stage}
variable {d : Due} {dues : List Due}

/-- What is true, for the given dues and the claimed thread, whenever one of the others goes on,
and stays true when the conductor joins the thread that comes next. -/
structure Joinable (k : Kernel) (I : List Due → Option BlockId → Stage → Prop) : Prop where
  invariant : ∀ dues claimed, Stage.Invariant k (I dues claimed)
  staffed : ∀ {dues claimed stage}, I dues claimed stage →
    ∃ posts, stage.group.Staffed k.conductor dues claimed posts ∧
      (posts ≠ [] → stage.able k ≠ [])
  claim : ∀ {d dues stage i b}, I (d :: dues) none stage →
    stage.group.registry.get? i = some b → b.address = d.handle →
    I (d :: dues) (some i) { stage with group := stage.group.claim i }
  reclaim : ∀ {d dues stage i b}, I (d :: dues) (some i) stage →
    stage.group.registry.get? i = some b → b.address = d.handle → b.tid = 0 →
    I dues none { stage with group := stage.group.reclaim i b }

namespace Joinable

/-- The next thread can be joined, and returns its value. -/
theorem exists_join (hI : Joinable k I) (h : I (d :: dues) none stage) :
    ∃ stage', Returns (Performance.join k d.handle) stage (.ok d.value) stage' ∧
      I dues none stage' ∧ stage'.emitter = stage.emitter := by
  obtain ⟨stage₁, hturn, h₁, hemitter⟩ := Performance.exists_turn (hI.invariant (d :: dues) none) h
  obtain ⟨posts, hstaffed, -⟩ := hI.staffed h₁
  obtain ⟨l, hl⟩ := hstaffed.lists
  obtain ⟨i, b, hi, hb, hat⟩ := hstaffed.due d List.mem_cons_self
  have hclaimed := hI.claim h₁ hi hb
  have hjoinHandle := ThreadGroup.joinHandle_eq hstaffed.sited hl hi k.conductor
  rw [hb] at hjoinHandle
  -- the thread is claimed and awaited, or it has ended
  obtain hmem | ⟨t, ⟨ht, hme⟩, hshows⟩ := hat
  · obtain ⟨w, hw, rfl⟩ := List.mem_map.1 hmem
    obtain ⟨hphase, htid, c, hc, -, hshows⟩ := hstaffed.post w hw
    obtain rfl := Option.some.inj (hi.symm.trans hc)
    have hjoin : stage₁.group.join k.conductor w.block =
        .ok (.waits, stage₁.group.claim w.block) := by
      rw [Control.Shows.join (by simpa using hshows) hi htid.1 htid.2, if_neg hphase]
    have hlive (stage : Stage) (h : I (d :: dues) (some w.block) stage)
        (hready : (stage.group.completeJoin? w.block).isSome = false) : stage.able k ≠ [] := by
      obtain ⟨posts', hstaffed', hable⟩ := hI.staffed h
      obtain ⟨c, -, -, ⟨t, -, -, hcomplete⟩ | ⟨-, hne⟩⟩ := hstaffed'.of_claimed
      · rw [hcomplete] at hready
        cases hready
      · exact hable hne
    obtain ⟨stage₂, hawait, h₂, hready, hemitter'⟩ :=
      Performance.exists_awaitTurn _ (hI.invariant _ (some w.block)) (fun _ _ => rfl) hlive hclaimed
    obtain ⟨posts', hstaffed', -⟩ := hI.staffed h₂
    obtain ⟨c, hc, haddress, ⟨t, -, hshows', hcomplete⟩ | ⟨hnone, -⟩⟩ := hstaffed'.of_claimed
    · refine ⟨{ stage₂ with group := stage₂.group.reclaim w.block c },
        hturn.bind ((Returns.get _).bind ?_), hI.reclaim h₂ hc haddress hshows'.tid,
        hemitter'.trans hemitter⟩
      rw [hjoinHandle, hjoin]
      exact (Returns.modifyGroup _ stage₁).bind
        (hawait.bind ((Returns.onGroup? hcomplete).bind (Returns.pure _ _)))
    · rw [hnone] at hready
      cases hready
  · have hjoin : stage₁.group.join k.conductor i =
        .ok (.value d.value, (stage₁.group.claim i).reclaim i b) := by
      rw [Control.Shows.join (by simpa using hshows) hi ht hme, if_pos rfl]
    have hi' : (stage₁.group.claim i).registry.get? i = some { b with joinState := .joined } := by
      rw [ThreadGroup.claim, hl.get?_modify, if_pos rfl, hi]
      rfl
    have hdone := hI.reclaim hclaimed hi' hb hshows.tid
    refine ⟨{ stage₁ with group := (stage₁.group.claim i).reclaim i b },
      hturn.bind ((Returns.get _).bind ?_), hdone, hemitter⟩
    rw [hjoinHandle, hjoin]
    exact (Returns.modifyGroup _ stage₁).bind (Returns.pure _ _)

/-- All of them can be joined in order. -/
theorem exists_joinAll (hI : Joinable k I) (h : I dues none stage) :
    ∃ stage', Returns (Performance.joinAll k (dues.map (·.handle))) stage
        (dues.map fun d => .ok d.value) stage' ∧
      I [] none stage' ∧ stage'.emitter = stage.emitter := by
  induction dues generalizing stage with
  | nil => exact ⟨stage, rfl, h, rfl⟩
  | cons d dues ih =>
    obtain ⟨stage₁, hjoin, h₁, hemitter₁⟩ := hI.exists_join h
    obtain ⟨stage', hrest, h', hemitter'⟩ := ih h₁
    exact ⟨stage', hjoin.bind (hrest.bind (Returns.pure _ _)), h', hemitter'.trans hemitter₁⟩

end Joinable
end Threading.Scenario
