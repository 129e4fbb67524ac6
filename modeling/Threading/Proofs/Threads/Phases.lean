import Threading.Proofs.Threads.Locking
import Threading.Proofs.Threads.Sites

/-!
# How far a thread has come

A created thread runs until it departs with a value, and ends when its task is gone. Someone
may claim it before it departs, between its departure and its end, or later. Whoever claims it
while its task is there waits for that to go, whether to join the thread or to detach it.
-/
namespace Threading

open LockOrder (CallStack)

/-- How far a created thread has come. -/
inductive Phase where
  | running
  /-- It has departed, and its task is still there. -/
  | departed
  | ended
  deriving DecidableEq

/-- The control block of a created thread that has come so far and may be claimed: `t` is the
id of its task, and `v` the value it departs with. -/
structure Control.Shows (c : Control) (phase : Phase) (t : Tid) (v : UInt64) (claimed : Bool) :
    Prop where
  created : c.isMain = false
  tid : c.tid = if phase = .ended then 0 else t
  result : phase ≠ .running → c.result = v
  bare : phase = .running → c.cleanupTop = none
  starts : phase = .running → c.starts = true
  joinState : c.joinState =
    if claimed then .joined else if phase = .running then .joinable else .exitedNotJoined

namespace Control.Shows

open ThreadGroup

variable {c : Control} {phase : Phase} {t me : Tid} {v : UInt64} {claimed : Bool}
variable {p : ThreadGroup} {i : BlockId}

theorem newControl {a : Attributes} (ha : a.detachState = .joinable) (region : Region)
    (layout : Layout) (t : Tid) (v : UInt64) :
    (ready (newControl a region layout t)).Shows .running t v false where
  created := rfl
  tid := rfl
  result := nofun
  bare _ := rfl
  starts _ := starts_ready _
  joinState := by
    rw [ready, ThreadGroup.newControl, ha]
    rfl

theorem runsAs (h : c.Shows phase t v claimed) (hme : t ≠ me) : c.runsAs me = false := by
  rw [Control.runsAs, h.tid]
  split <;> simp [hme]

/-! ## Going on -/

/-- A running thread returns and departs. -/
theorem returnWith (h : c.Shows .running t v claimed) (hi : p.registry.get? i = some c) :
    ∃ s, p.returnWith i v = some ([], p.depart i v) ∧
      p.depart i v = { p.forgetLocks t with
        registry := p.registry.modify i (leavesAs · v s) } ∧
      (leavesAs c v s).Shows .departed t v claimed := by
  have htid : c.tid = t := h.tid
  have hreturn := returnWith_eq hi (h.starts rfl) (h.bare rfl) v
  cases claimed with
  | false =>
    refine ⟨.exitedNotJoined, hreturn, ?_, h.created, h.tid, fun _ => rfl, by simp, by simp, rfl⟩
    rw [depart_joinable hi h.joinState, htid]
  | true =>
    refine ⟨.joined, hreturn, ?_, h.created, h.tid, fun _ => rfl, by simp, by simp, rfl⟩
    rw [depart_joined hi h.joinState, htid]

/-- The task of a departed thread goes. -/
theorem expire (h : c.Shows .departed t v claimed) :
    Control.Shows (expired c) .ended t v claimed where
  created := h.created
  tid := rfl
  result _ := h.result nofun
  bare := nofun
  starts := nofun
  joinState := h.joinState

/-! ## Claims -/

theorem claim (h : c.Shows phase t v claimed) :
    Control.Shows { c with joinState := .joined } phase t v true where
  created := h.created
  tid := h.tid
  result := h.result
  bare := h.bare
  starts := h.starts
  joinState := rfl

/-- A join waits as long as the task of the thread is there. -/
theorem join (h : c.Shows phase t v false) (hi : p.registry.get? i = some c) (ht : t ≠ 0)
    (hme : t ≠ me) :
    p.join me i =
      if phase = .ended then .ok (.value v, (p.claim i).reclaim i c)
      else .ok (.waits, p.claim i) := by
  have htid := h.tid
  have hjoin := h.joinState
  have hresult := h.result
  rw [ThreadGroup.join, hi]
  cases phase <;> simp_all [h.created, h.runsAs hme, reap]

/-- So does a detachment of a thread that has departed. -/
theorem detach (h : c.Shows phase t v false) (hi : p.registry.get? i = some c) (ht : t ≠ 0) :
    p.detach i =
      match phase with
      | .running =>
        .ok (.done,
          { p with registry := p.registry.modify i ({ · with joinState := .detached }) })
      | .departed => .ok (.waits, p.claim i)
      | .ended => .ok (.done, (p.claim i).reclaim i c) := by
  have htid := h.tid
  have hjoin := h.joinState
  rw [ThreadGroup.detach, hi]
  cases phase <;> simp_all [h.created, reap]

/-- What waits for a claimed thread goes on when that has ended. -/
theorem completeJoin? (h : c.Shows phase t v true) (hi : p.registry.get? i = some c)
    (ht : t ≠ 0) :
    p.completeJoin? i = if phase = .ended then some (v, p.reclaim i c) else none := by
  have htid := h.tid
  have hjoin := h.joinState
  have hresult := h.result
  rw [ThreadGroup.completeJoin?, hi]
  cases phase <;> simp_all [reap]

end Control.Shows

namespace ThreadGroup

variable {p p' : ThreadGroup} {i : BlockId} {c : Control} {l : List BlockId} {t me : Tid}
variable {here : CallStack} {request : Option Attributes} {launch : Launch} {e : Error}

/-- A thread is joined by its handle. -/
theorem joinHandle_eq (h : Sited p) (hl : p.registry.Lists l) (hi : p.registry.get? i = some c)
    (me : Tid) :
    p.joinHandle me c.address = (p.join me i).map fun (answer, p) => (i, answer, p) := by
  rw [joinHandle, h.blockAt?_eq hl hi]

/-! ## Creation -/

theorem clone_of_create (hl : p.registry.Lists l)
    (h : p.create t here request launch = (.ok i, p')) : launch.clone = none := by
  have hresult : (p.launch t here request launch).result = .ok i := (Prod.mk.inj h).1
  have hlaunched : (p.launch t here request launch).launched.isSome = true := by
    obtain ⟨e, hfailed, -⟩ | ⟨_, _, _, -, -, hlaunched, -⟩ := launch_cases hl t here request launch
    · exact absurd (hresult.symm.trans hfailed) nofun
    · rw [hlaunched]
      rfl
  obtain ⟨place, hhousing⟩ := (p.isSome_launched_iff t here request launch).1 hlaunched
  exact (provided?_of_housing hhousing).2.2

/-- A thread that gets created in memory of its own runs. -/
theorem exists_shows_of_create (hl : p.registry.Lists l) (hsited : Sited p)
    (hspares : ∀ region ∈ provided? (request.getD {}) launch, p.Spares region)
    (ha : (request.getD {}).detachState = .joinable)
    (h : p.create t here request launch = (.ok i, p')) (v : UInt64) :
    p.registry.get? i = none ∧ ∃ c, p.Touches p' i (some c) ∧ Sited p' ∧
      c.Shows .running launch.tid v false := by
  obtain ⟨rfl, rfl, -, -, -, -, hunmapped⟩ := create_ok hl h
  have hresult : (p.launch t here request launch).result = .ok p.registry.cells.size :=
    (Prod.mk.inj h).1
  have hnone : p.registry.get? p.registry.cells.size = none := hl.get?_eq_none (Nat.le_refl _)
  refine ⟨hnone, ?_⟩
  obtain ⟨e, hfailed, -⟩ | ⟨region, layout, c, hregion, hlayout, -, hregistry, hmapped,
    ⟨-, rfl⟩ | ⟨⟨e, hfailed⟩, -⟩⟩ := launch_cases hl t here request launch
  · exact absurd (hresult.symm.trans hfailed) nofun
  · have hlodged := Region.covers_of_layout hlayout
    have htouches := touches_add hl
      (ready (newControl (request.getD {}) region layout launch.tid)) hregistry hmapped hunmapped
    refine ⟨_, htouches, hsited.touches htouches fun _ c hc => ?_,
      .newControl ha region layout launch.tid v⟩
    obtain rfl := Option.some.inj hc
    exact ⟨⟨.of_covers hlodged rfl rfl rfl, rfl, rfl, starts_ready _⟩,
      fun j d => (hspares region hregion).apart⟩
  · exact absurd (hresult.symm.trans hfailed) nofun

/-- If nothing is asked of the scheduler, a creation that fails leaves the threads alone. -/
theorem sameThreads_of_create (hl : p.registry.Lists l) (hunasked : refusal? (request.getD {}) launch = none)
    (h : p.create t here request launch = (.error e, p')) :
    p.SameThreads p' ∧ p.SameLocks p' := by
  obtain ⟨hresult, rfl⟩ := Prod.mk.inj h
  cases hhousing : housing (request.getD {}) launch with
  | error e' =>
    obtain ⟨-, hlaunched, hsame⟩ := launch_of_error hhousing p t here
    rw [hlaunched]
    exact ⟨hsame, p.sameLocks_launch t here request launch⟩
  | ok place =>
    obtain ⟨hok, -⟩ := launch_of_granted hl hhousing (by rw [hunasked, failure?_none]) t here
    exact absurd (hok.symm.trans hresult) nofun

end ThreadGroup
end Threading
