import Threading.Error

/-!
# CPU sets

A set of CPU indices below 1024, kept as sixteen words of 64 bits: index
`64 * w + b` is bit `b` of word `w`.
-/
namespace Threading

structure CpuSet where
  words : Vector UInt64 16 := Vector.replicate 16 0
  deriving DecidableEq, Repr

namespace CpuSet

/-- Indices are below this number. -/
def capacity : Nat := 1024

def empty : CpuSet := {}

instance : Inhabited CpuSet := ⟨empty⟩

/-- The bit of an index in its word. -/
def mask (cpu : Nat) : UInt64 := 1 <<< UInt64.ofNat (cpu % 64)

variable (s : CpuSet)

/-- Adds an index. -/
def set (cpu : Nat) : Except Error CpuSet :=
  if h : cpu < capacity then
    have : cpu / 64 < 16 := by simp only [capacity] at h; omega
    .ok ⟨s.words.set (cpu / 64) (s.words[cpu / 64] ||| mask cpu)⟩
  else .error (.invalidArgument "cpu index out of range")

/-- Takes an index away. -/
def clear (cpu : Nat) : CpuSet :=
  if h : cpu < capacity then
    have : cpu / 64 < 16 := by simp only [capacity] at h; omega
    ⟨s.words.set (cpu / 64) (s.words[cpu / 64] &&& ~~~(mask cpu))⟩
  else s

def isSet (cpu : Nat) : Bool :=
  if h : cpu < capacity then
    have : cpu / 64 < 16 := by simp only [capacity] at h; omega
    s.words[cpu / 64] &&& mask cpu != 0
  else false

/-- The number of bits set in a word. -/
def popCount (w : UInt64) : Nat :=
  ((List.range 64).filter fun b => w.toNat.testBit b).length

/-- The number of indices in the set. -/
def count : Nat := s.words.foldl (fun n w => n + popCount w) 0

def isEmpty : Bool := s.words.all (· == 0)

/-- The indices in the set, ascending. -/
def toList : List Nat := (List.range capacity).filter s.isSet

end CpuSet
end Threading
