/-!
# Thread-local storage

Every thread has a block of eight slots of one word. Slot 0 holds the block's own
address, slot 1 that of the control block and slot 5 the stack guard; the others
start out as zero.
-/
namespace Threading

structure LocalStorage where
  slots : Vector UInt64 8
  deriving DecidableEq, Repr

namespace LocalStorage

/-- The number of slots. -/
def slotCount : Nat := 8

/-- A block as it is placed at `address`. -/
def initAt (address control guardValue : UInt64) : LocalStorage :=
  ⟨#v[address, control, 0, 0, 0, guardValue, 0, 0]⟩

/-- The value of a slot. -/
def get? (s : LocalStorage) (index : Nat) : Option UInt64 := s.slots[index]?

/-- Writes a slot; the result is false if there is no such slot. -/
def set (s : LocalStorage) (index : Nat) (value : UInt64) : Bool × LocalStorage :=
  if h : index < 8 then (true, ⟨s.slots.set index value⟩) else (false, s)

end LocalStorage
end Threading
