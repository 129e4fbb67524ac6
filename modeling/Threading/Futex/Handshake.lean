/-!
# The startup handshake

A creator and its new thread meet once. The thread waits until the creator
releases the handshake and then retires it; a retired handshake is never released
again.
-/
namespace Threading.Futex

inductive Handshake where
  | locked
  | released
  | retired
  deriving DecidableEq, Repr

namespace Handshake

/-- Lets the waiting side go on. -/
def release : Handshake → Handshake
  | locked => released
  | h => h

/-- Goes on and retires the handshake; none while it would have to wait. -/
def acquire? : Handshake → Option Handshake
  | locked => none
  | _ => some retired

def isRetired (h : Handshake) : Bool := h = retired

/-- Once the creator has released, acquiring succeeds whoever came first. -/
theorem acquire?_release (h : Handshake) : h.release.acquire? = some retired := by
  cases h <;> rfl

end Handshake
end Threading.Futex
