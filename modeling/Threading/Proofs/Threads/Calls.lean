import Threading.Proofs.Region
import Threading.Proofs.Registry
import Threading.ThreadGroup

/-!
# Calls on threads

What the end of a thread and its reclamation do to the registry and to the mapped regions.
Logging, the observer and the settings do not matter for either.
-/
namespace Threading

namespace ThreadGroup

variable {p : ThreadGroup} {i : BlockId} {c : Control} {v : UInt64}

/-- Neither the registered threads nor the mapped regions change. -/
structure SameThreads (p p' : ThreadGroup) : Prop where
  registry : p'.registry = p.registry
  mapped : p'.mapped = p.mapped

theorem registry_releaseRegion (p : ThreadGroup) (region : Region) :
    (p.releaseRegion region).registry = p.registry := by
  rw [releaseRegion]
  split <;> rfl

theorem mapped_releaseRegion (p : ThreadGroup) (region : Region) :
    (p.releaseRegion region).mapped =
      if region.owned then p.mapped.erase region else p.mapped := by
  rw [releaseRegion]
  split <;> rfl

theorem unmapped_releaseRegion (p : ThreadGroup) (region : Region) :
    (p.releaseRegion region).unmapped =
      if region.owned then region :: p.unmapped else p.unmapped := by
  rw [releaseRegion]
  split <;> rfl

/-- The departure of a thread: what its block says then. -/
def leavesAs (c : Control) (v : UInt64) (s : JoinState) : Control :=
  { c with result := v, joinState := s }

/-- What the block of a thread says when its task is gone. -/
def expired (c : Control) : Control := { c with tid := 0 }

theorem depart_joinable (hi : p.registry.get? i = some c) (hs : c.joinState = .joinable)
    (v : UInt64) : p.depart i v = { p.forgetLocks c.tid with
      registry := p.registry.modify i (leavesAs · v .exitedNotJoined) } := by
  rw [depart, hi]
  simp only [hs]
  rfl

theorem depart_joined (hi : p.registry.get? i = some c) (hs : c.joinState = .joined)
    (v : UInt64) : p.depart i v = { p.forgetLocks c.tid with
      registry := p.registry.modify i (leavesAs · v .joined) } := by
  rw [depart, hi]
  simp only [hs]
  rfl

/-- A detached thread, and one that cannot depart again, reclaims itself. -/
theorem depart_reclaims (hi : p.registry.get? i = some c)
    (hs : c.joinState = .exitedNotJoined ∨ c.joinState = .detached) (v : UInt64) :
    p.depart i v = (p.forgetLocks c.tid).reclaim i c := by
  rw [depart, hi]
  obtain hs | hs := hs
  all_goals simp only [hs]

theorem registry_reclaim (p : ThreadGroup) (i : BlockId) (c : Control) :
    (p.reclaim i c).registry = (p.registry.remove i).2 :=
  registry_releaseRegion _ _

theorem mapped_reclaim (p : ThreadGroup) (i : BlockId) (c : Control) :
    (p.reclaim i c).mapped = if c.region.owned then p.mapped.erase c.region else p.mapped :=
  mapped_releaseRegion _ _

theorem depart_detached (hi : p.registry.get? i = some c) (hs : c.joinState = .detached)
    (v : UInt64) : (p.depart i v).registry = (p.registry.remove i).2 ∧
      (p.depart i v).mapped =
        if c.region.owned then p.mapped.erase c.region else p.mapped := by
  rw [depart_reclaims hi (.inr hs)]
  exact ⟨registry_reclaim _ _ _, mapped_reclaim _ _ _⟩

theorem unmapped_reclaim (p : ThreadGroup) (i : BlockId) (c : Control) :
    (p.reclaim i c).unmapped =
      if c.region.owned then c.region :: p.unmapped else p.unmapped :=
  unmapped_releaseRegion _ _

/-- What the block of a thread says when its creator has released it. -/
def ready (c : Control) : Control := { c with handshake := c.handshake.release }

@[simp] theorem starts_ready (c : Control) : (ready c).starts = true := by
  rw [Control.starts, ready, Futex.Handshake.acquire?_release]
  rfl

/-- A thread without cleanup handlers departs at once. -/
theorem leave_eq (hi : p.registry.get? i = some c) (htop : c.cleanupTop = none) (v : UInt64) :
    p.leave i v = some ([], p.depart i v) := by
  rw [leave, hi]
  simp only [htop, HandlerTable.runAll?]
  cases p.handlers.size <;> rfl

theorem returnWith_eq (hi : p.registry.get? i = some c) (hstarts : c.starts = true)
    (htop : c.cleanupTop = none) (v : UInt64) : p.returnWith i v = some ([], p.depart i v) := by
  rw [returnWith, hi, Option.all_some, if_pos hstarts, leave_eq hi htop]

end ThreadGroup
end Threading
