import Threading.Proofs.Threads.Calls

/-!
# What a request for a thread comes to

Attributes and the answers of the kernel decide whether there is a task, and then whether its
scheduling is refused and the creation fails with that. Except for the log, the process after
the request is known from this.
-/
namespace Threading.ThreadGroup

open LockOrder (CallStack)

variable {p p' : ThreadGroup} {t : Tid} {a : Attributes}
variable {region : Region} {layout : Layout} {l : List BlockId} {e : Error} {launch : Launch}
variable {request : Option Attributes}

/-! ## The decisions -/

/-- The memory a thread with these attributes is given, unless the kernel refuses it. -/
def provided? (a : Attributes) (launch : Launch) : Option Region :=
  if a.usesBorrowedStack then some (.borrowed a.stackBase a.stackSize)
  else
    match Region.allocate a.stackSize a.guardSize launch.map launch.protect with
    | .ok region => some region
    | .error _ => none

/-- Where a thread with these attributes lives, or why there is no task for it. -/
def housing (a : Attributes) (launch : Launch) : Except Error (Region × Layout) :=
  match a.validate with
  | .error e => .error e
  | .ok () =>
    match provided? a launch with
    | none => .error (.resourceExhausted "thread stack")
    | some region =>
      match region.layout with
      | .error e => .error e
      | .ok layout =>
        match launch.clone with
        | some errno => .error (.os errno)
        | none => .ok (region, layout)

/-- The region that is mapped for a creation without a task, and unmapped again: its guard
cannot be made inaccessible, it has no room, or there is no task to use it. -/
def unused? (a : Attributes) (launch : Launch) : Option Region :=
  match a.validate with
  | .error _ => none
  | .ok () =>
    if a.usesBorrowedStack then none
    else
      match Region.allocate a.stackSize a.guardSize launch.map launch.protect with
      | .error failure => failure.unmapped?
      | .ok region =>
        match region.layout with
        | .error _ => some region
        | .ok _ => launch.clone.map fun _ => region

/-- The error number of the first request for a scheduling that is made and refused. -/
def refusal? (a : Attributes) (launch : Launch) : Option Int32 :=
  (if a.explicitSched then launch.scheduler else none).or
    (if a.affinity.isSome then launch.affinity else none)

/-- What a creation fails with if the kernel answers a request for a scheduling so. -/
def failure? : SchedFailurePolicy → Option Int32 → Option Error
  | .fail, answer => answer.map .ofErrno
  | .warn, _ => none

theorem provided?_of_housing (h : housing a launch = .ok (region, layout)) :
    provided? a launch = some region ∧ region.layout = .ok layout ∧ launch.clone = none := by
  rw [housing] at h
  split at h
  · cases h
  split at h
  · cases h
  next r hprovided =>
    split at h
    · cases h
    next layout' hlayout =>
      split at h
      · cases h
      next hclone =>
        obtain ⟨rfl, rfl⟩ := Prod.mk.inj (Except.ok.inj h)
        exact ⟨hprovided, hlayout, hclone⟩

theorem failure?_none (policy : SchedFailurePolicy) : failure? policy none = none := by
  cases policy <;> rfl

theorem failure?_or (policy : SchedFailurePolicy) (first second : Option Int32) :
    failure? policy (first.or second) = (failure? policy first).or (failure? policy second) := by
  cases policy with
  | fail => cases first <;> rfl
  | warn => rfl

/-! ## The process afterwards -/

def withLines (p : ThreadGroup) (lines : Array Log.Line) : ThreadGroup := { p with lines }

/-- The observer has announced its level. -/
def prepared (p : ThreadGroup) : ThreadGroup :=
  { p with locks :=
    { p.locks with observer := (p.locks.observer.prepare p.settings.level).1 } }

/-- A thread is registered, and its memory is mapped if it is its own. -/
def withThread (p : ThreadGroup) (c : Control) : ThreadGroup :=
  { p with
    registry := p.registry.add c
    mapped := if c.region.owned then c.region :: p.mapped else p.mapped }

/-- A thread that nobody joins and that has nothing to run. -/
def idle (c : Control) : Control := { c with joinState := .detached, routine := .nothing }

/-- A new thread may as well be released before it is registered. -/
theorem registry_release (hl : p.registry.Lists l) (c : Control) :
    ((p.withThread c).release p.registry.cells.size).registry = p.registry.add (ready c) :=
  hl.modify_add c ready

/-- Or be degraded and then released. -/
theorem registry_degrade (hl : p.registry.Lists l) (c : Control) :
    (((p.withThread c).degrade p.registry.cells.size).release p.registry.cells.size).registry =
      p.registry.add (ready (idle c)) := by
  rw [← registry_release hl]
  exact congrArg (fun r : Registry Control => r.modify p.registry.cells.size ready)
    (hl.modify_add c idle)

/-- Until its creator releases it, a registered thread does not return. -/
theorem returnWith_withThread (hl : p.registry.Lists l) (a : Attributes) (region : Region)
    (layout : Layout) (t : Tid) (v : UInt64) :
    (p.withThread (newControl a region layout t)).returnWith p.registry.cells.size v = none := by
  have hget : (p.withThread (newControl a region layout t)).registry.get? p.registry.cells.size =
      some (newControl a region layout t) := by
    rw [withThread, hl.get?_add, if_pos rfl]
  rw [returnWith, hget]
  rfl

/-- What comes of a request, but for the log. -/
def outcome (p : ThreadGroup) (a : Attributes) (launch : Launch) : Creation :=
  match housing a launch with
  | .error e =>
    { result := .error e
      group := { p.prepared with unmapped := (unused? a launch).toList ++ p.unmapped } }
  | .ok (region, layout) =>
    match failure? p.settings.policy (refusal? a launch) with
    | none =>
      { result := .ok p.registry.cells.size
        launched := some p.registry.cells.size
        group := (p.prepared.withThread (newControl a region layout launch.tid)).release
          p.registry.cells.size }
    | some e =>
      { result := .error e
        launched := some p.registry.cells.size
        group := ((p.prepared.withThread (newControl a region layout launch.tid)).degrade
          p.registry.cells.size).release p.registry.cells.size }

def Creation.withLines (c : Creation) (lines : Array Log.Line) : Creation :=
  { c with group := c.group.withLines lines }

/-! ## The steps of a creation -/

/-- The process with the memory of a new thread. -/
def mapping (p : ThreadGroup) (region : Region) : ThreadGroup :=
  { p with mapped := if region.owned then region :: p.mapped else p.mapped }

theorem provideRegion_of_some (h : provided? a launch = some region) (p : ThreadGroup) (t : Tid) :
    p.provideRegion t a launch = (.ok region, p.mapping region) := by
  rw [provided?] at h
  rw [provideRegion, mapping]
  by_cases hborrowed : a.usesBorrowedStack = true
  · rw [if_pos hborrowed] at h
    obtain rfl := Option.some.inj h
    rw [if_pos hborrowed]
    rfl
  · rw [if_neg hborrowed] at h
    rw [if_neg hborrowed]
    cases hallocate : Region.allocate a.stackSize a.guardSize launch.map launch.protect with
    | error failure => simp [hallocate] at h
    | ok r =>
      simp only [hallocate, Option.some.injEq] at h
      subst h
      rw [if_pos (Region.owned_of_allocate hallocate)]

theorem unmap_mapped (p : ThreadGroup) (region : Region) :
    { p with mapped := region :: p.mapped }.unmap region =
      { p with unmapped := region :: p.unmapped } := by
  rw [unmap]
  simp only [List.erase_cons_head]

/-- Memory that cannot be used has been unmapped again. -/
theorem provideRegion_of_none (hvalid : a.validate = .ok ()) (h : provided? a launch = none)
    (p : ThreadGroup) (t : Tid) :
    ∃ lines, p.provideRegion t a launch = (.error (.resourceExhausted "thread stack"),
      { p with unmapped := (unused? a launch).toList ++ p.unmapped }.withLines lines) := by
  rw [provided?] at h
  rw [provideRegion, unused?, hvalid]
  by_cases hborrowed : a.usesBorrowedStack = true
  · rw [if_pos hborrowed] at h
    exact absurd h (by simp)
  · rw [if_neg hborrowed] at h
    rw [if_neg hborrowed]
    cases hallocate : Region.allocate a.stackSize a.guardSize launch.map launch.protect with
    | ok r => simp [hallocate] at h
    | error failure =>
      simp only [if_neg hborrowed]
      cases failure with
      | overflow | refused => exact ⟨_, rfl⟩
      | unguarded region errno =>
        simp only [Region.MapFailure.unmapped?, Option.map_some, Option.getD_some,
          unmap_mapped]
        exact ⟨_, rfl⟩

theorem provided?_of_provideRegion (h : (p.provideRegion t a launch).1 = .ok region) :
    provided? a launch = some region := by
  rw [provideRegion] at h
  rw [provided?]
  by_cases hborrowed : a.usesBorrowedStack = true
  · rw [if_pos hborrowed] at h ⊢
    exact congrArg some (Except.ok.inj h)
  · rw [if_neg hborrowed] at h ⊢
    cases hallocate : Region.allocate a.stackSize a.guardSize launch.map launch.protect with
    | ok r =>
      rw [hallocate] at h
      exact congrArg some (Except.ok.inj h)
    | error failure =>
      rw [hallocate] at h
      cases h

/-- A region of the thread's own is unused if there is no layout or no task. -/
theorem unused?_of_provided? (hvalid : a.validate = .ok ())
    (h : provided? a launch = some region) :
    unused? a launch =
      if region.owned && (region.layout matches .error _ || launch.clone.isSome) then some region
      else none := by
  rw [provided?] at h
  rw [unused?, hvalid]
  by_cases hborrowed : a.usesBorrowedStack = true
  · rw [if_pos hborrowed] at h
    obtain rfl := Option.some.inj h
    simp only [if_pos hborrowed]
    rfl
  · rw [if_neg hborrowed] at h
    cases hallocate : Region.allocate a.stackSize a.guardSize launch.map launch.protect with
    | error failure => simp [hallocate] at h
    | ok r =>
      simp only [hallocate, Option.some.injEq] at h
      subst h
      simp only [if_neg hborrowed, Region.owned_of_allocate hallocate]
      cases r.layout <;> cases launch.clone <;> simp

theorem unused?_of_housing (h : housing a launch = .ok (region, layout)) :
    unused? a launch = none := by
  have hvalid : a.validate = .ok () := by
    cases hvalidate : a.validate with
    | error e => simp [housing, hvalidate] at h
    | ok => rfl
  obtain ⟨hprovided, hlayout, hclone⟩ := provided?_of_housing h
  rw [unused?_of_provided? hvalid hprovided, hlayout, hclone]
  simp

/-- Memory that was mapped for a thread is unmapped again. -/
theorem releaseRegion_mapping (p : ThreadGroup) (region : Region) :
    (p.mapping region).releaseRegion region =
      { p with unmapped := if region.owned then region :: p.unmapped else p.unmapped } := by
  rw [releaseRegion, mapping]
  cases region.owned
  · rfl
  · simp only [if_true, unmap, List.erase_cons_head]

theorem applyRequest_eq (p : ThreadGroup) (t : Tid) (call : String) (asked : Bool)
    (verdict : Option Int32) : ∃ lines, p.applyRequest t call asked verdict =
      (failure? p.settings.policy (if asked then verdict else none), p.withLines lines) := by
  cases asked with
  | false => exact ⟨p.lines, Prod.ext (failure?_none _).symm rfl⟩
  | true =>
    cases verdict with
    | none => exact ⟨p.lines, Prod.ext (failure?_none _).symm rfl⟩
    | some errno =>
      refine ⟨_, Prod.ext ?_ rfl⟩
      change (if p.settings.policy = .fail then some (Error.ofErrno errno) else none) = _
      cases p.settings.policy <;> rfl

theorem applyScheduling_eq (p : ThreadGroup) (t : Tid) (a : Attributes) (launch : Launch) :
    ∃ lines, p.applyScheduling t a launch =
      (failure? p.settings.policy (refusal? a launch), p.withLines lines) := by
  obtain ⟨lines, hscheduler⟩ :=
    p.applyRequest_eq t "sched_setscheduler" a.explicitSched launch.scheduler
  obtain ⟨lines', haffinity⟩ := (p.withLines lines).applyRequest_eq t "sched_setaffinity"
    a.affinity.isSome launch.affinity
  rw [applyScheduling, hscheduler, refusal?, failure?_or]
  cases failure? p.settings.policy (if a.explicitSched then launch.scheduler else none) with
  | some e => exact ⟨lines, rfl⟩
  | none => exact ⟨lines', haffinity⟩

/-- A request does what its outcome says, and logs about it. -/
theorem launch_eq (p : ThreadGroup) (t : Tid) (here : CallStack) (request : Option Attributes)
    (launch : Launch) : ∃ lines, p.launch t here request launch =
      (p.outcome (request.getD {}) launch).withLines lines := by
  obtain ⟨lines, hprepared⟩ : ∃ lines,
      { p with locks := { p.locks with
          observer := (p.locks.observer.prepare p.settings.level).1 } }.logNotices t here
        (p.locks.observer.prepare p.settings.level).2 = p.prepared.withLines lines := ⟨_, rfl⟩
  rw [ThreadGroup.launch]
  dsimp only
  rw [hprepared, outcome, housing]
  generalize request.getD {} = a
  cases hvalid : a.validate with
  | error e =>
    refine ⟨lines, ?_⟩
    simp only [unused?, hvalid]
    rfl
  | ok =>
    cases hprovided : provided? a launch with
    | none =>
      obtain ⟨lines', hprovide⟩ :=
        provideRegion_of_none hvalid hprovided (p.prepared.withLines lines) t
      simp only [hprovide]
      exact ⟨lines', rfl⟩
    | some region =>
      simp only [provideRegion_of_some hprovided (p.prepared.withLines lines) t,
        unused?_of_provided? hvalid hprovided]
      cases region.layout with
      | error e =>
        refine ⟨lines, ?_⟩
        simp only [releaseRegion_mapping]
        cases region.owned <;> rfl
      | ok layout =>
        cases launch.clone with
        | some errno =>
          simp only [releaseRegion_mapping]
          cases region.owned <;> exact ⟨_, rfl⟩
        | none =>
          obtain ⟨lines', hscheduling⟩ :=
            ((p.prepared.withLines lines).mapping region).applyScheduling_eq t a launch
          simp only [hscheduling]
          rw [show ((p.prepared.withLines lines).mapping region).settings.policy =
            p.settings.policy from rfl]
          cases failure? p.settings.policy (refusal? a launch) with
          | none => exact ⟨_, rfl⟩
          | some e => exact ⟨lines', rfl⟩

/-! ## One creation -/

theorem launch_of_error (h : housing (request.getD {}) launch = .error e) (p : ThreadGroup)
    (t : Tid) (here : CallStack) :
    (p.launch t here request launch).result = .error e ∧
      (p.launch t here request launch).launched = none ∧
      p.SameThreads (p.launch t here request launch).group := by
  obtain ⟨lines, hlaunch⟩ := p.launch_eq t here request launch
  rw [outcome, h] at hlaunch
  rw [hlaunch]
  exact ⟨rfl, rfl, rfl, rfl⟩

/-- A request unmaps memory only if no thread comes of it, and then what it had mapped. -/
theorem unmapped_launch (p : ThreadGroup) (t : Tid) (here : CallStack)
    (request : Option Attributes) (launch : Launch) :
    (p.launch t here request launch).group.unmapped =
      (unused? (request.getD {}) launch).toList ++ p.unmapped := by
  obtain ⟨lines, hlaunch⟩ := p.launch_eq t here request launch
  rw [hlaunch, Creation.withLines, outcome]
  cases hhousing : housing (request.getD {}) launch with
  | error e => rfl
  | ok place =>
    rw [unused?_of_housing hhousing]
    cases failure? p.settings.policy (refusal? (request.getD {}) launch) <;> rfl

/-- A creation has registered a thread. -/
structure Registers (p : ThreadGroup) (creation : Creation) (c : Control) : Prop where
  launched : creation.launched = some p.registry.cells.size
  registry : creation.group.registry = p.registry.add c
  mapped : creation.group.mapped = if c.region.owned then c.region :: p.mapped else p.mapped

theorem Registers.get? {creation : Creation} {c : Control} (h : p.Registers creation c)
    (hl : p.registry.Lists l) : creation.group.registry.get? p.registry.cells.size = some c := by
  rw [h.registry, hl.get?_add, if_pos rfl]

/-- A task is made, and its scheduling is not refused. -/
theorem launch_of_granted (hl : p.registry.Lists l)
    (h : housing (request.getD {}) launch = .ok (region, layout))
    (hgranted : failure? p.settings.policy (refusal? (request.getD {}) launch) = none) (t : Tid)
    (here : CallStack) :
    (p.launch t here request launch).result = .ok p.registry.cells.size ∧
      p.Registers (p.launch t here request launch)
        (ready (newControl (request.getD {}) region layout launch.tid)) := by
  obtain ⟨lines, hlaunch⟩ := p.launch_eq t here request launch
  have hprepared : p.prepared.registry.Lists l := hl
  rw [outcome, h] at hlaunch
  simp only [hgranted] at hlaunch
  rw [hlaunch]
  exact ⟨rfl, rfl, registry_release hprepared _, rfl⟩

theorem launch_of_refused (hl : p.registry.Lists l)
    (h : housing (request.getD {}) launch = .ok (region, layout))
    (hrefused : failure? p.settings.policy (refusal? (request.getD {}) launch) = some e) (t : Tid)
    (here : CallStack) :
    (p.launch t here request launch).result = .error e ∧
      p.Registers (p.launch t here request launch)
        (ready (idle (newControl (request.getD {}) region layout launch.tid))) := by
  obtain ⟨lines, hlaunch⟩ := p.launch_eq t here request launch
  have hprepared : p.prepared.registry.Lists l := hl
  rw [outcome, h] at hlaunch
  simp only [hrefused] at hlaunch
  rw [hlaunch]
  exact ⟨rfl, rfl, registry_degrade hprepared _, rfl⟩

/-- Whether there is a task does not depend on the process. -/
theorem isSome_launched_iff (p : ThreadGroup) (t : Tid) (here : CallStack)
    (request : Option Attributes) (launch : Launch) :
    (p.launch t here request launch).launched.isSome = true ↔
      ∃ place, housing (request.getD {}) launch = .ok place := by
  obtain ⟨lines, hlaunch⟩ := p.launch_eq t here request launch
  rw [hlaunch, Creation.withLines, outcome]
  cases housing (request.getD {}) launch with
  | error e => simp
  | ok place => cases failure? p.settings.policy (refusal? (request.getD {}) launch) <;> simp

theorem unmapped_of_launched (p : ThreadGroup) (t : Tid) (here : CallStack)
    (request : Option Attributes) (launch : Launch)
    (h : (p.launch t here request launch).launched.isSome = true) :
    (p.launch t here request launch).group.unmapped = p.unmapped := by
  obtain ⟨place, hhousing⟩ := (p.isSome_launched_iff t here request launch).1 h
  rw [unmapped_launch, unused?_of_housing hhousing]
  rfl

/-- A creation either leaves the threads alone, or it registers a thread, possibly one that
is detached and has nothing to run because the creation has failed after all. -/
theorem launch_cases (hl : p.registry.Lists l) (t : Tid)
    (here : CallStack) (request : Option Attributes) (launch : Launch) :
    (∃ e, (p.launch t here request launch).result = .error e ∧
        (p.launch t here request launch).launched = none ∧
        p.SameThreads (p.launch t here request launch).group) ∨
      ∃ region layout c, provided? (request.getD {}) launch = some region ∧
        region.layout = .ok layout ∧
        (p.launch t here request launch).launched = some p.registry.cells.size ∧
        (p.launch t here request launch).group.registry = p.registry.add c ∧
        (p.launch t here request launch).group.mapped =
          (if region.owned then region :: p.mapped else p.mapped) ∧
        ((p.launch t here request launch).result = .ok p.registry.cells.size ∧
            c = ready (newControl (request.getD {}) region layout launch.tid) ∨
          (∃ e, (p.launch t here request launch).result = .error e) ∧
            c = ready (idle (newControl (request.getD {}) region layout launch.tid))) := by
  cases hhousing : housing (request.getD {}) launch with
  | error e => exact .inl ⟨e, launch_of_error hhousing p t here⟩
  | ok place =>
    obtain ⟨region, layout⟩ := place
    obtain ⟨hregion, hlayout, -⟩ := provided?_of_housing hhousing
    cases hverdict : failure? p.settings.policy (refusal? (request.getD {}) launch) with
    | none =>
      obtain ⟨hresult, h⟩ := launch_of_granted hl hhousing hverdict t here
      exact .inr ⟨region, layout, _, hregion, hlayout, h.launched, h.registry, h.mapped,
        .inl ⟨hresult, rfl⟩⟩
    | some e =>
      obtain ⟨hresult, h⟩ := launch_of_refused hl hhousing hverdict t here
      exact .inr ⟨region, layout, _, hregion, hlayout, h.launched, h.registry, h.mapped,
        .inr ⟨⟨e, hresult⟩, rfl⟩⟩

end Threading.ThreadGroup
