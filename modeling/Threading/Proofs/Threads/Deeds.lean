import Threading.Proofs.Threads.Launches
import Threading.Proofs.Threads.Life

/-!
# What threads do to each other

The calls that create, end, join and detach threads, one after the other, the ends of their
tasks in between, and what each of these does to the thread it is about: which control block is
registered for it afterwards, and what becomes of its memory.
-/
namespace Threading.ThreadGroup

open LockOrder (CallStack)

/-! ## Deeds -/

/-- What can be done about threads. -/
inductive Deed where
  /-- The thread `t` creates a thread. -/
  | create (t : Tid) (here : CallStack) (request : Option Attributes) (launch : Launch)
  /-- A thread returns. -/
  | finish (i : BlockId) (v : UInt64)
  /-- A thread exits by a call. -/
  | exit (i : BlockId) (v : UInt64)
  /-- The task of a thread goes. -/
  | expire (i : BlockId)
  /-- The thread `me` joins a thread. -/
  | join (me : Tid) (i : BlockId)
  /-- A join that waits looks whether it can go on. -/
  | complete (i : BlockId)
  | detach (i : BlockId)
  /-- A detachment that waits looks whether it can go on. -/
  | release (i : BlockId)

inductive Reply where
  | failed (e : Error)
  | created (i : BlockId)
  /-- The creation failed with the thread already there: it is detached and runs nothing. -/
  | degraded (i : BlockId) (e : Error)
  | ended
  | expired
  | value (v : UInt64)
  | waits
  | detached
  deriving DecidableEq, Repr

/-- What a creation answers. -/
def Creation.reply (c : Creation) : Reply :=
  match c.result, c.launched with
  | .ok i, _ => .created i
  | .error e, some i => .degraded i e
  | .error e, none => .failed e

namespace Creation

variable {c : Creation} {i : BlockId} {e : Error}

theorem reply_of_ok (h : c.result = .ok i) : c.reply = .created i := by
  rw [reply, h]

theorem reply_of_none (h : c.result = .error e) (hnone : c.launched = none) :
    c.reply = .failed e := by
  rw [reply, h, hnone]

theorem reply_of_launched (h : c.result = .error e) (hlaunched : c.launched = some i) :
    c.reply = .degraded i e := by
  rw [reply, h, hlaunched]

end Creation

/-- Does a deed; there is no result if it never returns or, for a call that waits, does not
return yet. -/
def perform? (p : ThreadGroup) : Deed → Option (Reply × ThreadGroup)
  | .create t here request launch =>
    let c := p.launch t here request launch
    some (c.reply, c.group)
  | .finish i v => (p.returnWith i v).map fun (_, p') => (.ended, p')
  | .exit i v =>
    match p.control i with
    | .error e => some (.failed e, p)
    | .ok c =>
      match p.exiting ⟨c.tid, c.tls⟩ with
      | .error e => some (.failed e, p)
      | .ok j => (p.leave j v).map fun (_, p') => (.ended, p')
  | .expire i => some (.expired, p.expire i)
  | .join me i =>
    match p.join me i with
    | .error e => some (.failed e, p)
    | .ok (.value v, p') => some (.value v, p')
    | .ok (.waits, p') => some (.waits, p')
  | .complete i => (p.completeJoin? i).map fun (v, p') => (.value v, p')
  | .detach i =>
    match p.detach i with
    | .error e => some (.failed e, p)
    | .ok (.done, p') => some (.detached, p')
    | .ok (.waits, p') => some (.waits, p')
  | .release i => (p.completeJoin? i).map fun (_, p') => (.detached, p')

def Join.milestone : Join → Milestone
  | value v => .joined v
  | waits => .awaited

def Detachment.milestone : Detachment → Milestone
  | done => .detached
  | waits => .dismissed

/-- What a deed means for the life of a thread. -/
def milestone? : Deed → Reply → Option (BlockId × Milestone)
  | .create _ _ request _, .created i =>
    some (i, .created ((request.getD {}).detachState = .detached))
  | .create .., .degraded i _ => some (i, .created true)
  | .finish i v, .ended | .exit i v, .ended => some (i, .ended v)
  | .join _ i, .value v | .complete i, .value v => some (i, .joined v)
  | .join _ i, .waits => some (i, .awaited)
  | .expire i, .expired => some (i, .expired)
  | .detach i, .waits => some (i, .dismissed)
  | .detach i, .detached | .release i, .detached => some (i, .detached)
  | _, _ => none

variable {p p' : ThreadGroup} {i j : BlockId} {c c' : Control} {v : UInt64} {me : Tid}
variable {o : Option Control} {l : List BlockId} {s : Standing} {m : Milestone} {region : Region}

/-! ## What a deed can do to a process -/

/-- All that a deed can do: it creates a thread or fails to, a thread departs, its task goes, it
is claimed, is reclaimed after a claim or at once, or is detached. -/
inductive Alters (p : ThreadGroup) : ThreadGroup → Prop where
  | same : Alters p p
  | launched (t : Tid) (here : CallStack) (request : Option Attributes) (launch : Launch) :
      Alters p (p.launch t here request launch).group
  | departed (i : BlockId) (v : UInt64) : Alters p (p.depart i v)
  | expired (i : BlockId) : Alters p (p.expire i)
  | claimed (i : BlockId) : Alters p (p.claim i)
  | claimedAndReclaimed (i : BlockId) (c : Control) : Alters p ((p.claim i).reclaim i c)
  | reclaimed (i : BlockId) (c : Control) : Alters p (p.reclaim i c)
  | detached (i : BlockId) :
      Alters p { p with registry := p.registry.modify i ({ · with joinState := .detached }) }

theorem alters_leave {ran : List Nat} (h : p.leave i v = some (ran, p')) : p.Alters p' := by
  rw [leave] at h
  split at h
  · cases h
    exact .same
  · obtain ⟨ran', -, heq⟩ := Option.map_eq_some_iff.1 h
    cases heq
    exact .departed i v

theorem alters_join {answer : Join} (h : p.join me i = .ok (answer, p')) : p.Alters p' := by
  rw [join] at h
  repeat' split at h
  all_goals cases h
  · exact .claimedAndReclaimed i _
  · exact .claimed i
  · exact .claimedAndReclaimed i _
  · exact .claimed i

theorem alters_completeJoin? (h : p.completeJoin? i = some (v, p')) : p.Alters p' := by
  rw [completeJoin?] at h
  repeat' split at h
  all_goals cases h
  exact .reclaimed i _

theorem alters_detach {answer : Detachment} (h : p.detach i = .ok (answer, p')) :
    p.Alters p' := by
  rw [detach] at h
  repeat' split at h
  all_goals cases h
  · exact .detached i
  · exact .claimedAndReclaimed i _
  · exact .claimed i

theorem alters_perform? {d : Deed} {reply : Reply} (h : p.perform? d = some (reply, p')) :
    p.Alters p' := by
  cases d with
  | create t here request launch =>
    obtain ⟨-, rfl⟩ := Prod.mk.inj (Option.some.inj h)
    exact .launched t here request launch
  | finish i v =>
    obtain ⟨⟨ran, p₁⟩, hreturn, heq⟩ := Option.map_eq_some_iff.1 h
    cases heq
    exact alters_leave (Option.ite_none_right_eq_some.1 hreturn).2
  | exit i v =>
    rw [perform?] at h
    split at h
    · cases h
      exact .same
    split at h
    · cases h
      exact .same
    · obtain ⟨⟨ran, p₁⟩, hleave, heq⟩ := Option.map_eq_some_iff.1 h
      cases heq
      exact alters_leave hleave
  | expire i =>
    cases h
    exact .expired i
  | join me i =>
    rw [perform?] at h
    split at h
    · cases h
      exact .same
    next hjoin =>
      cases h
      exact alters_join hjoin
    next hjoin =>
      cases h
      exact alters_join hjoin
  | complete i | release i =>
    obtain ⟨⟨v, p₁⟩, hcomplete, heq⟩ := Option.map_eq_some_iff.1 h
    cases heq
    exact alters_completeJoin? hcomplete
  | detach i =>
    rw [perform?] at h
    split at h
    · cases h
      exact .same
    next hdetach =>
      cases h
      exact alters_detach hdetach
    next hdetach =>
      cases h
      exact alters_detach hdetach

/-! ## Touching one thread -/

/-- The thread is the same and has the same memory. -/
structure SamePlace (c c' : Control) : Prop where
  region : c'.region = c.region
  address : c'.address = c.address
  tls : c'.tls = c.tls
  isMain : c'.isMain = c.isMain
  cleanupTop : c'.cleanupTop = c.cleanupTop
  starts : c'.starts = c.starts

/-- The mapped regions, once a thread has come or gone. -/
def remapped (mapped : List Region) : Option Control → Option Control → List Region
  | none, some c => if c.region.owned then c.region :: mapped else mapped
  | some c, none => if c.region.owned then mapped.erase c.region else mapped
  | _, _ => mapped

/-- What is unmapped when a thread goes. -/
def vacated : Option Control → Option Control → List Region
  | some c, none => if c.region.owned then [c.region] else []
  | _, _ => []

/-- At most the thread at a position is touched: it is registered as `o` afterwards, and
memory is mapped when it comes and unmapped when it goes. -/
structure Touches (p p' : ThreadGroup) (i : BlockId) (o : Option Control) : Prop where
  lists : ∃ l, p'.registry.Lists l
  get? : ∀ j, p'.registry.get? j = if j = i then o else p.registry.get? j
  size_le : p.registry.cells.size ≤ p'.registry.cells.size
  lt_size : i < p'.registry.cells.size
  samePlace : ∀ c c', p.registry.get? i = some c → o = some c' → SamePlace c c'
  mapped : p'.mapped = remapped p.mapped (p.registry.get? i) o
  unmapped : p'.unmapped = vacated (p.registry.get? i) o ++ p.unmapped

theorem Touches.get?_self (h : p.Touches p' i o) : p'.registry.get? i = o := by
  rw [h.get?, if_pos rfl]

theorem Touches.get?_of_ne (h : p.Touches p' i o) (hj : j ≠ i) :
    p'.registry.get? j = p.registry.get? j := by
  rw [h.get?, if_neg hj]

theorem touches_add (hl : p.registry.Lists l) (c : Control)
    (hregistry : p'.registry = p.registry.add c)
    (hmapped : p'.mapped = if c.region.owned then c.region :: p.mapped else p.mapped)
    (hunmapped : p'.unmapped = p.unmapped) :
    p.Touches p' p.registry.cells.size (some c) := by
  have hnone : p.registry.get? p.registry.cells.size = none := hl.get?_eq_none (Nat.le_refl _)
  refine ⟨⟨_, hregistry ▸ hl.add c⟩, fun j => ?_, ?_, ?_, fun d d' hd _ => ?_, ?_, ?_⟩
  · rw [hregistry, hl.get?_add]
  · rw [hregistry, Registry.size_add]
    exact Nat.le_succ _
  · rw [hregistry, Registry.size_add]
    exact Nat.lt_succ_self _
  · exact absurd (hnone.symm.trans hd) (by simp)
  · rw [hmapped, hnone]
    rfl
  · rw [hunmapped, hnone]
    rfl

theorem touches_modify (hl : p.registry.Lists l) (hi : p.registry.get? i = some c)
    (f : Control → Control) (hf : SamePlace c (f c))
    (hregistry : p'.registry = p.registry.modify i f) (hmapped : p'.mapped = p.mapped)
    (hunmapped : p'.unmapped = p.unmapped) : p.Touches p' i (some (f c)) := by
  have hsize : p'.registry.cells.size = p.registry.cells.size := by
    rw [hregistry, Registry.size_modify]
  refine ⟨⟨l, hregistry ▸ hl.modify i f⟩, fun j => ?_, Nat.le_of_eq hsize.symm,
    hsize ▸ hl.lt_of_get? hi, fun d d' hd hd' => ?_, ?_, ?_⟩
  · rw [hregistry, hl.get?_modify]
    split
    next hj => rw [hj, hi, Option.map_some]
    next => rfl
  · obtain rfl := Option.some.inj (hi.symm.trans hd)
    obtain rfl := Option.some.inj hd'
    exact hf
  · rw [hmapped, hi]
    rfl
  · rw [hunmapped, hi]
    rfl

/-- The block may be written to before it is taken out. -/
theorem touches_remove (hl : p.registry.Lists l) (hi : p.registry.get? i = some c)
    (f : Control → Control) (hregistry : p'.registry = ((p.registry.modify i f).remove i).2)
    (hmapped : p'.mapped = if c.region.owned then p.mapped.erase c.region else p.mapped)
    (hunmapped : p'.unmapped = if c.region.owned then c.region :: p.unmapped else p.unmapped) :
    p.Touches p' i none := by
  have hil := (hl.get?_eq_some_iff.1 hi).1
  have hsize : p'.registry.cells.size = p.registry.cells.size := by
    rw [hregistry, Registry.size_remove, Registry.size_modify]
  refine ⟨⟨_, hregistry ▸ (hl.modify i f).remove hil⟩, fun j => ?_, Nat.le_of_eq hsize.symm,
    hsize ▸ hl.lt_of_get? hi, fun d d' _ hd' => ?_, ?_, ?_⟩
  · rw [hregistry, (hl.modify i f).get?_remove hil, hl.get?_modify]
    split <;> rfl
  · exact absurd hd' (by simp)
  · rw [hmapped, hi]
    rfl
  · rw [hunmapped, hi, vacated]
    split <;> rfl

/-! ## What a call does to the thread it is about -/

/-- What is registered of a thread that stands so. -/
def Matches : Standing → Option Control → Prop
  | .unborn, o | .gone, o => o = none
  | .running claim, o => ∃ c, o = some c ∧ c.tid ≠ 0 ∧ c.joinState = claim.joinState
  | .ended v w there, o => ∃ c, o = some c ∧ (c.tid = 0 ↔ there = false) ∧ c.result = v ∧
      c.joinState = w.joinState

theorem Matches.isSome_iff (h : Matches s o) : o.isSome = true ↔ s.Live := by
  cases s with
  | unborn | gone =>
    obtain rfl : o = none := h
    exact iff_of_false (by simp) id
  | running claim =>
    obtain ⟨c, rfl, -⟩ := h
    exact iff_of_true rfl trivial
  | ended v w there =>
    obtain ⟨c, rfl, -⟩ := h
    exact iff_of_true rfl trivial

/-- The refusal to join or detach a thread that is claimed. -/
def notJoinable : Error := .invalidArgument "thread is not joinable"

theorem join_running {claim : Claim} (hi : p.registry.get? i = some c) (hmain : c.isMain = false)
    (htid : c.tid ≠ 0) (hjoin : c.joinState = claim.joinState) (me : Tid) :
    p.join me i =
      if c.runsAs me then .error .deadlock
      else if claim = .free then .ok (.waits, p.claim i) else .error notJoinable := by
  rw [join, hi]
  cases claim <;> simp [hmain, htid, hjoin, Claim.joinState, notJoinable]

theorem join_ended {w : Waiter} {there : Bool} (hi : p.registry.get? i = some c)
    (hmain : c.isMain = false) (htid : c.tid = 0 ↔ there = false)
    (hjoin : c.joinState = w.joinState) (me : Tid) :
    p.join me i =
      if c.runsAs me then .error .deadlock
      else if w = .nobody then
        if there then .ok (.waits, p.claim i) else .ok (.value c.result, (p.claim i).reclaim i c)
      else .error notJoinable := by
  rw [join, hi]
  cases w <;> cases there <;> simp_all [Waiter.joinState, notJoinable, reap]

theorem detach_running {claim : Claim} (hi : p.registry.get? i = some c) (hmain : c.isMain = false)
    (hjoin : c.joinState = claim.joinState) :
    p.detach i =
      if claim = .free then
        .ok (.done,
          { p with registry := p.registry.modify i ({ · with joinState := .detached }) })
      else .error notJoinable := by
  rw [detach, hi]
  cases claim <;> simp [hmain, hjoin, Claim.joinState, notJoinable]

theorem detach_ended {w : Waiter} {there : Bool} (hi : p.registry.get? i = some c)
    (hmain : c.isMain = false) (htid : c.tid = 0 ↔ there = false)
    (hjoin : c.joinState = w.joinState) :
    p.detach i =
      if w = .nobody then
        if there then .ok (.waits, p.claim i) else .ok (.done, (p.claim i).reclaim i c)
      else .error notJoinable := by
  rw [detach, hi]
  cases w <;> cases there <;> simp_all [Waiter.joinState, notJoinable, reap]

theorem completeJoin?_running (hi : p.registry.get? i = some c) (htid : c.tid ≠ 0) :
    p.completeJoin? i = none := by
  rw [completeJoin?, hi]
  simp [htid]

theorem completeJoin?_ended {w : Waiter} {there : Bool} (hi : p.registry.get? i = some c)
    (htid : c.tid = 0 ↔ there = false) (hjoin : c.joinState = w.joinState) :
    p.completeJoin? i =
      if w ≠ .nobody ∧ there = false then some (c.result, p.reclaim i c) else none := by
  rw [completeJoin?, hi]
  cases w <;> cases there <;> simp_all [Waiter.joinState, reap]

/-- A call takes the thread from one standing to the next. -/
def Turns (p p' : ThreadGroup) (i : BlockId) (s : Standing) (m : Milestone) : Prop :=
  ∃ s', s.Next m s' ∧ Matches s' (p'.registry.get? i) ∧ p.Touches p' i (p'.registry.get? i)

theorem Touches.turns {s' : Standing} (h : p.Touches p' i o) (hnext : s.Next m s')
    (hs' : Matches s' o) : p.Turns p' i s m := by
  obtain rfl : p'.registry.get? i = o := h.get?_self
  exact ⟨s', hnext, hs', h⟩

/-- The end of a running thread. -/
theorem turns_depart (hl : p.registry.Lists l) {claim : Claim}
    (hs : Matches (.running claim) (p.registry.get? i)) (v : UInt64) :
    p.Turns (p.depart i v) i (.running claim) (.ended v) := by
  obtain ⟨c, hc, htid, hjoin⟩ := hs
  have hplace (s : JoinState) : SamePlace c (leavesAs c v s) := ⟨rfl, rfl, rfl, rfl, rfl, rfl⟩
  cases claim with
  | free =>
    rw [depart_joinable hc hjoin]
    have htouches : p.Touches { p.forgetLocks c.tid with
        registry := p.registry.modify i (leavesAs · v .exitedNotJoined) } i
          (some (leavesAs c v .exitedNotJoined)) :=
      touches_modify hl hc (leavesAs · v .exitedNotJoined) (hplace _) rfl rfl rfl
    exact htouches.turns (.ended v) ⟨_, rfl, iff_of_false htid (by simp), rfl, rfl⟩
  | awaited =>
    rw [depart_joined hc hjoin]
    have htouches : p.Touches { p.forgetLocks c.tid with
        registry := p.registry.modify i (leavesAs · v .joined) } i
          (some (leavesAs c v .joined)) :=
      touches_modify hl hc (leavesAs · v .joined) (hplace _) rfl rfl rfl
    exact htouches.turns (.endedAwaited v) ⟨_, rfl, iff_of_false htid (by simp), rfl, rfl⟩
  | detached =>
    rw [depart_reclaims hc (.inr hjoin)]
    have htouches : p.Touches ((p.forgetLocks c.tid).reclaim i c) i none :=
      touches_remove hl hc id (by rw [Registry.modify_id, registry_reclaim]; rfl)
        (mapped_reclaim _ _ _) (unmapped_reclaim _ _ _)
    exact htouches.turns (.endedDetached v) rfl

/-- The task of a thread that has ended goes. -/
theorem turns_expire (hl : p.registry.Lists l) {w : Waiter}
    (hs : Matches (.ended v w true) (p.registry.get? i)) :
    p.Turns (p.expire i) i (.ended v w true) .expired := by
  obtain ⟨c, hc, -, hv, hjoin⟩ := hs
  have htouches : p.Touches (p.expire i) i (some (expired c)) :=
    touches_modify hl hc expired ⟨rfl, rfl, rfl, rfl, rfl, rfl⟩ rfl rfl rfl
  exact htouches.turns (.expired v w) ⟨_, rfl, iff_of_true rfl rfl, hv, hjoin⟩

/-- The blocks of a thread lie in its memory. -/
structure Lodged (c : Control) : Prop where
  address : c.region.Covers c.address
  tls : c.region.Covers c.tls
  address_ne : c.address ≠ 0
  tls_ne : c.tls ≠ 0
  tls_ne_address : c.tls ≠ c.address

/-- A created thread has its blocks in its memory, has been released and has pushed no
handler. -/
structure Housed (c : Control) : Prop extends Lodged c where
  isMain : c.isMain = false
  cleanupTop : c.cleanupTop = none
  starts : c.starts = true

theorem Lodged.of_covers {l : Layout} (h : region.Covers l.control ∧ region.Covers l.tls ∧
    l.control ≠ 0 ∧ l.tls ≠ 0 ∧ l.tls ≠ l.control) (hregion : c.region = region)
    (haddress : c.address = l.control) (htls : c.tls = l.tls) : Lodged c := by
  obtain ⟨hcontrol, hstorage, hcontrol₀, hstorage₀, hne⟩ := h
  rw [← haddress] at hcontrol hcontrol₀ hne
  rw [← htls] at hstorage hstorage₀ hne
  exact ⟨hregion ▸ hcontrol, hregion ▸ hstorage, hcontrol₀, hstorage₀, hne⟩

/-- A creation fails without a trace, or there is a thread afterwards, also if it fails. -/
theorem turns_launch (hl : p.registry.Lists l) (t : Tid) (here : CallStack)
    (request : Option Attributes) {launch : Launch} (htid : launch.tid ≠ 0) :
    (∃ e, (p.launch t here request launch).reply = .failed e ∧
        p.SameThreads (p.launch t here request launch).group) ∨
      ∃ region c m, provided? (request.getD {}) launch = some region ∧
        (p.launch t here request launch).launched = some p.registry.cells.size ∧
        milestone? (.create t here request launch) (p.launch t here request launch).reply =
          some (p.registry.cells.size, m) ∧
        p.Turns (p.launch t here request launch).group p.registry.cells.size .unborn m ∧
        (p.launch t here request launch).group.registry.get? p.registry.cells.size = some c ∧
        c.region = region ∧ Housed c := by
  obtain ⟨e, hresult, hlaunched, hsame⟩ | ⟨region, layout, c, hregion, hlayout, hlaunched,
    hregistry, hmapped, hhow⟩ := launch_cases hl t here request launch
  · exact .inl ⟨e, Creation.reply_of_none hresult hlaunched, hsame⟩
  have hlodged := Region.covers_of_layout hlayout
  -- the thread is there also if the creation failed, only in another state
  have hget : (p.launch t here request launch).group.registry.get? p.registry.cells.size =
      some c := by
    rw [hregistry, hl.get?_add, if_pos rfl]
  have hcregion : c.region = region := by
    obtain ⟨-, rfl⟩ | ⟨-, rfl⟩ := hhow <;> rfl
  have htouches := touches_add hl c hregistry (by rw [hmapped, hcregion])
    (p.unmapped_of_launched t here request launch (by rw [hlaunched]; rfl))
  obtain ⟨hresult, hc⟩ | ⟨⟨e, hresult⟩, hc⟩ := hhow
  · refine .inr ⟨region, c, .created ((request.getD {}).detachState = .detached), hregion,
      hlaunched, by rw [Creation.reply_of_ok hresult]; rfl, htouches.turns (.created _) ?_, hget,
      hcregion, ?_⟩
    · refine ⟨c, rfl, by rwa [hc], ?_⟩
      rw [hc, ready, newControl]
      cases (request.getD {}).detachState <;> rfl
    · subst hc
      exact ⟨.of_covers hlodged rfl rfl rfl, rfl, rfl, starts_ready _⟩
  · refine .inr ⟨region, c, .created true, hregion, hlaunched,
      by rw [Creation.reply_of_launched hresult hlaunched]; rfl,
      htouches.turns (.created true) ?_, hget, hcregion, ?_⟩
    · exact ⟨c, rfl, by rwa [hc], by rw [hc]; rfl⟩
    · subst hc
      exact ⟨.of_covers hlodged rfl rfl rfl, rfl, rfl, starts_ready _⟩

/-- The request for a thread, done at once: if it leaves a thread that runs nothing, that
thread returns 0. -/
theorem create_spec (hl : p.registry.Lists l) (t : Tid) (here : CallStack)
    (request : Option Attributes) (launch : Launch) :
    match (p.launch t here request launch).reply with
    | .degraded i _ => (p.launch t here request launch).group.perform? (.finish i 0) =
        some (.ended, (p.create t here request launch).2)
    | _ => (p.create t here request launch).2 = (p.launch t here request launch).group := by
  obtain ⟨e, hresult, hlaunched, -⟩ | ⟨region, layout, c, -, -, hlaunched, hregistry, -, hhow⟩ :=
    launch_cases hl t here request launch
  · simp only [Creation.reply_of_none hresult hlaunched, create, hlaunched, Option.map_none,
      Option.getD_none]
  have hget : (p.launch t here request launch).group.registry.get? p.registry.cells.size =
      some c := by
    rw [hregistry, hl.get?_add, if_pos rfl]
  obtain ⟨hresult, hc⟩ | ⟨⟨e, hresult⟩, hc⟩ := hhow
  · have hroutine : c.routine = .given := by rw [hc]; rfl
    simp only [Creation.reply_of_ok hresult, create, hlaunched, Option.map_some, Option.getD_some,
      letGo, hget, hroutine]
  · have hroutine : c.routine = .nothing := by rw [hc]; rfl
    have hstarts : c.starts = true := by rw [hc, starts_ready]
    have htop : c.cleanupTop = none := by rw [hc]; rfl
    simp only [Creation.reply_of_launched hresult hlaunched, create, hlaunched, Option.map_some,
      Option.getD_some, letGo, hget, hroutine, perform?, returnWith_eq hget hstarts htop]

/-- A creation that succeeds registers a thread that is ready to run. -/
theorem create_ok (hl : p.registry.Lists l) {t : Tid} {here : CallStack}
    {request : Option Attributes} {launch : Launch}
    (h : p.create t here request launch = (.ok i, p')) :
    p' = (p.launch t here request launch).group ∧ i = p.registry.cells.size ∧
      ∃ region layout,
        p'.registry =
          p.registry.add (ready (newControl (request.getD {}) region layout launch.tid)) ∧
        (p'.mapped = if region.owned then region :: p.mapped else p.mapped) ∧
        p'.unmapped = p.unmapped := by
  have hcreated := create_spec hl t here request launch
  have hresult : (p.launch t here request launch).result = .ok i := (Prod.mk.inj h).1
  have hreply : (p.launch t here request launch).reply = .created i :=
    Creation.reply_of_ok hresult
  rw [hreply, h] at hcreated
  dsimp only at hcreated
  subst hcreated
  refine ⟨rfl, ?_⟩
  obtain ⟨e, hfailed, -⟩ | ⟨region, layout, c, -, -, hlaunched, hregistry, hmapped, hhow⟩ :=
    launch_cases hl t here request launch
  · rw [hresult] at hfailed
    cases hfailed
  · have hunmapped := p.unmapped_of_launched t here request launch (by rw [hlaunched]; rfl)
    obtain ⟨hok, rfl⟩ | ⟨⟨e, hfailed⟩, -⟩ := hhow
    · rw [hresult] at hok
      exact ⟨Except.ok.inj hok, region, layout, hregistry, hmapped, hunmapped⟩
    · rw [hresult] at hfailed
      cases hfailed

theorem touches_claim (hl : p.registry.Lists l) (hc : p.registry.get? i = some c) :
    p.Touches (p.claim i) i (some { c with joinState := .joined }) :=
  touches_modify hl hc ({ · with joinState := .joined }) ⟨rfl, rfl, rfl, rfl, rfl, rfl⟩ rfl rfl rfl

theorem touches_claim_reclaim (hl : p.registry.Lists l) (hc : p.registry.get? i = some c) :
    p.Touches ((p.claim i).reclaim i c) i none :=
  touches_remove hl hc ({ · with joinState := .joined }) (registry_reclaim _ _ _)
    (mapped_reclaim _ _ _) (unmapped_reclaim _ _ _)

theorem touches_reclaim (hl : p.registry.Lists l) (hc : p.registry.get? i = some c) :
    p.Touches (p.reclaim i c) i none := by
  refine touches_remove hl hc id ?_ (mapped_reclaim _ _ _) (unmapped_reclaim _ _ _)
  rw [registry_reclaim, Registry.modify_id]

/-- A join that returns at once finds the thread unclaimed and its task gone; one that waits
finds it unclaimed, and its task is there. -/
theorem turns_join (hl : p.registry.Lists l) (hs : Matches s (p.registry.get? i))
    (hmain : ∀ c, p.registry.get? i = some c → c.isMain = false) {j : Join}
    (h : p.join me i = .ok (j, p')) :
    p.Turns p' i s j.milestone := by
  cases s with
  | unborn | gone =>
    rw [join, show p.registry.get? i = none from hs] at h
    exact absurd h (by simp)
  | running claim =>
    obtain ⟨c, hc, htid, hjoin⟩ := hs
    rw [join_running hc (hmain c hc) htid hjoin] at h
    split at h
    · exact absurd h (by simp)
    split at h
    next hfree =>
      obtain ⟨rfl, rfl⟩ := Prod.mk.inj (Except.ok.inj h)
      subst hfree
      exact (touches_claim hl hc).turns .awaited ⟨_, rfl, htid, rfl⟩
    · exact absurd h (by simp)
  | ended v w there =>
    obtain ⟨c, hc, htid, hv, hjoin⟩ := hs
    rw [join_ended hc (hmain c hc) htid hjoin] at h
    split at h
    · exact absurd h (by simp)
    split at h
    next hw =>
      subst hw
      cases there with
      | true =>
        obtain ⟨rfl, rfl⟩ := Prod.mk.inj (Except.ok.inj h)
        exact (touches_claim hl hc).turns (.awaitedLate v) ⟨_, rfl, htid, hv, rfl⟩
      | false =>
        obtain ⟨rfl, rfl⟩ := Prod.mk.inj (Except.ok.inj h)
        subst hv
        exact (touches_claim_reclaim hl hc).turns (.joined _ (by simp)) rfl
    · exact absurd h (by simp)

/-- A wait ends when the task of the claimed thread is gone, and the thread is reclaimed. -/
theorem exists_of_completeJoin? (hs : Matches s (p.registry.get? i))
    (h : p.completeJoin? i = some (v, p')) :
    ∃ w c, w ≠ .nobody ∧ s = .ended v w false ∧ p.registry.get? i = some c ∧
      p' = p.reclaim i c := by
  cases s with
  | unborn | gone =>
    rw [completeJoin?, show p.registry.get? i = none from hs] at h
    exact absurd h (by simp)
  | running claim =>
    obtain ⟨c, hc, htid, -⟩ := hs
    rw [completeJoin?_running hc htid] at h
    exact absurd h (by simp)
  | ended u w there =>
    obtain ⟨c, hc, htid, hu, hjoin⟩ := hs
    rw [completeJoin?_ended hc htid hjoin] at h
    split at h
    next hready =>
      obtain ⟨rfl, rfl⟩ := Prod.mk.inj (Option.some.inj h)
      subst hu
      exact ⟨w, c, hready.1, by rw [hready.2], hc, rfl⟩
    · exact absurd h (by simp)

/-- Only an unclaimed thread is detached. If it has ended, it is reclaimed, at once or after
its task is gone. -/
theorem turns_detach (hl : p.registry.Lists l) (hs : Matches s (p.registry.get? i))
    (hmain : ∀ c, p.registry.get? i = some c → c.isMain = false) {answer : Detachment}
    (h : p.detach i = .ok (answer, p')) : p.Turns p' i s answer.milestone := by
  cases s with
  | unborn | gone =>
    rw [detach, show p.registry.get? i = none from hs] at h
    exact absurd h (by simp)
  | running claim =>
    obtain ⟨c, hc, htid, hjoin⟩ := hs
    rw [detach_running hc (hmain c hc) hjoin] at h
    split at h
    next hfree =>
      obtain ⟨rfl, rfl⟩ := Prod.mk.inj (Except.ok.inj h)
      subst hfree
      have htouches : p.Touches
          { p with registry := p.registry.modify i ({ · with joinState := .detached }) } i
          (some { c with joinState := .detached }) :=
        touches_modify hl hc ({ · with joinState := .detached }) ⟨rfl, rfl, rfl, rfl, rfl, rfl⟩ rfl
          rfl rfl
      exact htouches.turns .detached ⟨_, rfl, htid, rfl⟩
    · exact absurd h (by simp)
  | ended v w there =>
    obtain ⟨c, hc, htid, hv, hjoin⟩ := hs
    rw [detach_ended hc (hmain c hc) htid hjoin] at h
    split at h
    next hw =>
      subst hw
      cases there with
      | true =>
        obtain ⟨rfl, rfl⟩ := Prod.mk.inj (Except.ok.inj h)
        exact (touches_claim hl hc).turns (.dismissed v) ⟨_, rfl, htid, hv, rfl⟩
      | false =>
        obtain ⟨rfl, rfl⟩ := Prod.mk.inj (Except.ok.inj h)
        exact (touches_claim_reclaim hl hc).turns (.detachedLate v (by simp)) rfl
    · exact absurd h (by simp)

end Threading.ThreadGroup
