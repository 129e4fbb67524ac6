import Threading.Proofs.Threads.Degraded
import Threading.Proofs.Threads.Pardons

/-!
# Refused scheduling

The kernel refuses the scheduling of a thread when its task exists already. Under the policy to
fail, the creation fails and the thread comes to nothing: it never runs its routine, nobody can
join it, and once it has ended the process is as if it had never been there, whatever else is
created, joined and detached in the meantime. Under the policy to warn, a refusal is logged and
has no other effect.
-/
namespace Threading.ThreadGroup

open LockOrder (CallStack)

variable {pid : Tid} {settings : Settings} {p : ThreadGroup} {records : List Record}
variable {request : Option Attributes} {launch : Launch} {errno : Int32}
variable {place : Region × Layout} {l : List BlockId}

/-- A creation fails with the thread already there, and the thread comes to nothing. -/
structure ComesToNothing (p : ThreadGroup) (t : Tid) (here : CallStack)
    (request : Option Attributes) (launch : Launch) (e : Error) : Prop where
  reply : (p.launch t here request launch).reply = .degraded p.registry.cells.size e
  /-- Nobody joins the thread, and it does not run what its creator gave it. -/
  thread : ∃ c, (p.launch t here request launch).group.registry.get? p.registry.cells.size =
    some c ∧ c.joinState = .detached ∧ c.routine = .nothing
  /-- It returns 0 when it is let go, and then everything is what it was before. -/
  restored : ∃ p', (p.launch t here request launch).group.perform?
      (.finish p.registry.cells.size 0) = some (.ended, p') ∧
    p.create t here request launch = (.error e, p') ∧ p.Restored p'

/-- What comes of refusals under the policy to fail. -/
structure Undone (pid : Tid) (settings : Settings) (records : List Record) (p : ThreadGroup) :
    Prop where
  refused : ∀ t here request launch place errno,
    housing (request.getD {}) launch = .ok place →
    refusal? (request.getD {}) launch = some errno →
    p.ComesToNothing t here request launch (.ofErrno errno)
  /-- Until they end, the threads whose creation failed stay as they are, and they may return. -/
  registered : ∀ i ∈ degraded records, ∀ c, p.registry.get? i = some c →
    c.joinState = .detached ∧ c.routine = .nothing ∧
      p.perform? (.finish i 0) = some (.ended, p.letGo i)
  ended : ∀ i ∈ degraded records, (story i records).Ended → p.registry.get? i = none
  /-- All the rest goes as if they had ended at once, and when they have ended there is no
  difference left. -/
  settled : ∃ records' q, Lives pid settings records' q ∧
    records'.map (fun r => (r.deed, r.reply)) = settled records ∧
    (∀ i ∉ degraded records, q.registry.get? i = p.registry.get? i) ∧
    ((∀ i ∈ degraded records, (story i records).Ended) → q.Restored p)

/-- What comes of refusals under the policy to warn. -/
structure Pardoned (pid : Tid) (settings : Settings) (records : List Record) (p : ThreadGroup) :
    Prop where
  /-- The thread is created and runs its routine. -/
  granted : ∀ t here request launch region layout,
    housing (request.getD {}) launch = .ok (region, layout) →
    p.create t here request launch =
        (.ok p.registry.cells.size, (p.launch t here request launch).group) ∧
      (p.launch t here request launch).group.registry.get? p.registry.cells.size =
        some (ready (newControl (request.getD {}) region layout launch.tid)) ∧
      (ready (newControl (request.getD {}) region layout launch.tid)).routine = .given
  /-- All calls are answered as if nothing had been refused, and only the log is different. -/
  pardoned : ∃ records' q, Lives pid settings records' q ∧
    records'.map (fun r => (r.deed, r.reply)) = records.map (fun r => (r.deed.pardoned, r.reply)) ∧
    q = p.withLines q.lines

theorem comesToNothing_of_refused (hl : p.registry.Lists l) (hfail : p.settings.policy = .fail)
    (t : Tid) (here : CallStack) (hhousing : housing (request.getD {}) launch = .ok place)
    (hrefused : refusal? (request.getD {}) launch = some errno) :
    p.ComesToNothing t here request launch (.ofErrno errno) := by
  have hverdict : failure? p.settings.policy (refusal? (request.getD {}) launch) =
      some (.ofErrno errno) := by
    rw [hfail, hrefused]
    rfl
  obtain ⟨hresult, hregisters⟩ := launch_of_refused hl hhousing hverdict t here
  have hreply := Creation.reply_of_launched hresult hregisters.launched
  have hget := hregisters.get? hl
  have hfinish := create_spec hl t here request launch
  rw [hreply] at hfinish
  have hcreate : p.create t here request launch =
      (.error (.ofErrno errno), (p.create t here request launch).2) := Prod.ext hresult rfl
  exact ⟨hreply, ⟨_, hget, rfl, rfl⟩, _, hfinish, hcreate, restored_create hl hcreate⟩

/-- In a history under the policy to fail, refusals come to nothing. -/
theorem Lives.undone (h : Lives pid settings records p) (hfail : settings.policy = .fail) :
    Undone pid settings records p := by
  obtain ⟨l, hl⟩ := h.kept.lists
  obtain ⟨records', q, hsettles⟩ := h.exists_settles
  constructor
  case refused =>
    intro t here request launch place errno hhousing hrefused
    exact comesToNothing_of_refused hl (h.settings_eq ▸ hfail) t here hhousing hrefused
  case registered => exact fun i hi c hc => hsettles.registered h hi hc
  case ended => exact fun i hi hended => hsettles.get?_of_ended h hi hended
  case settled =>
    exact ⟨records', q, hsettles.lives, hsettles.history, hsettles.omits.get?,
      hsettles.restored h⟩

/-- Under the policy to warn, they have no effect but on the log. -/
theorem Lives.pardoned (h : Lives pid settings records p) (hwarn : settings.policy = .warn) :
    Pardoned pid settings records p := by
  obtain ⟨l, hl⟩ := h.kept.lists
  obtain ⟨records', q, hpardons⟩ := h.exists_pardons hwarn
  constructor
  case granted =>
    intro t here request launch region layout hhousing
    have hverdict : failure? p.settings.policy (refusal? (request.getD {}) launch) = none := by
      rw [h.settings_eq, hwarn]
      rfl
    obtain ⟨hresult, hregisters⟩ := launch_of_granted hl hhousing hverdict t here
    have hget := hregisters.get? hl
    have hcreate := create_spec hl t here request launch
    rw [Creation.reply_of_ok hresult] at hcreate
    exact ⟨Prod.ext hresult hcreate, hget, rfl⟩
  case pardoned => exact ⟨records', q, hpardons.lives, hpardons.history, hpardons.exceptLines⟩

/-- Wherever scheduling is refused in a history, the policy decides what comes of it: the threads
are undone, or the refusals are pardoned. -/
theorem Lives.follows_policy (h : Lives pid settings records p) :
    (settings.policy = .fail → Undone pid settings records p) ∧
      (settings.policy = .warn → Pardoned pid settings records p) :=
  ⟨h.undone, h.pardoned⟩

/-- A thread that is joined, two whose scheduling is refused, calls on them by others, their
ends, and one more thread in the memory of the first. -/
def twoRefused : List Deed :=
  [.create 100 .empty none { map := mapAt 0x10000000, tid := 101 },
    .create 100 .empty (some { explicitSched := true, affinity := some .empty })
      { map := mapAt 0x20000000, tid := 102, scheduler := some 1, affinity := some 22 },
    .create 101 .empty (some { affinity := some .empty })
      { map := mapAt 0x30000000, tid := 103, affinity := some 22 },
    .finish 1 7, .expire 1, .join 100 1, .join 100 2, .detach 3, .finish 3 0,
    .create 100 .empty none { map := mapAt 0x10000000, tid := 104 }, .finish 2 0]

theorem follows_policy_twoRefused :
    (∃ records p, (initial 100 { policy := .fail }).live? [] twoRefused = some (records, p) ∧
      records.reverse.map (·.reply) =
        [.created 1, .degraded 2 (.os 1), .degraded 3 (.invalidArgument "rejected by kernel"),
          .ended, .expired, .value 7, .failed notJoinable, .failed notJoinable, .ended, .created 4,
          .ended] ∧
      (p.registry.ids = [4, 0] ∧ degraded records = [3, 2]) ∧
      Undone 100 { policy := .fail } records p) ∧
    ∃ records p, (initial 100 { policy := .warn }).live? [] twoRefused = some (records, p) ∧
      records.reverse.map (·.reply) =
        [.created 1, .created 2, .created 3, .ended, .expired, .value 7, .waits, .detached, .ended,
          .created 4, .ended] ∧
      p.registry.ids = [4, 2, 0] ∧ Pardoned 100 { policy := .warn } records p := by
  constructor
  · have hrun : ((initial 100 { policy := .fail }).live? [] twoRefused).map (fun (records, p) =>
        (records.reverse.map (·.reply), p.registry.ids, degraded records)) =
          some ([.created 1, .degraded 2 (.os 1),
            .degraded 3 (.invalidArgument "rejected by kernel"), .ended, .expired, .value 7,
            .failed notJoinable, .failed notJoinable, .ended, .created 4, .ended], [4, 0],
            [3, 2]) := by
      decide +kernel
    obtain ⟨⟨records, p⟩, hlive, hfacts⟩ := Option.map_eq_some_iff.1 hrun
    obtain ⟨hreplies, hfacts⟩ := Prod.mk.inj hfacts
    have h : Lives 100 { policy := .fail } records p := Lives.start.of_live? hlive
    exact ⟨records, p, hlive, hreplies, Prod.mk.inj hfacts, h.follows_policy.1 rfl⟩
  · have hrun : ((initial 100 { policy := .warn }).live? [] twoRefused).map (fun (records, p) =>
        (records.reverse.map (·.reply), p.registry.ids)) =
          some ([.created 1, .created 2, .created 3, .ended, .expired, .value 7, .waits, .detached,
            .ended, .created 4, .ended], [4, 2, 0]) := by
      decide +kernel
    obtain ⟨⟨records, p⟩, hlive, hfacts⟩ := Option.map_eq_some_iff.1 hrun
    obtain ⟨hreplies, hids⟩ := Prod.mk.inj hfacts
    have h : Lives 100 { policy := .warn } records p := Lives.start.of_live? hlive
    exact ⟨records, p, hlive, hreplies, hids, h.follows_policy.2 rfl⟩

end Threading.ThreadGroup
