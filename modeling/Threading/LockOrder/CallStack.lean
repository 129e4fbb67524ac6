import Threading.Text.Numeral

/-!
# Call stacks

The program counters of an acquisition, innermost first. At most sixteen are
kept; what would come after them is dropped.
-/
namespace Threading.LockOrder

/-- What the dynamic linker knows of a program counter. -/
structure Symbol where
  module : String
  /-- Where the module is loaded. -/
  base : UInt64
  /-- The function that the program counter lies in. -/
  name : Option String := none
  /-- Where that function begins. -/
  address : UInt64 := 0
  deriving DecidableEq, Repr

/-- The module and the offset within the function, or within the module if the function
is not known. -/
def Symbol.text (s : Symbol) (pc : UInt64) : String :=
  "  " ++ s.module ++
    match s.name with
    | some name => " (" ++ name ++ "+" ++ Text.hexadecimal (pc - s.address).toNat ++ ")"
    | none => " (+" ++ Text.hexadecimal (pc - s.base).toNat ++ ")"

/-- The lookup of program counters. -/
abbrev Symbols := UInt64 → Option Symbol

/-- The lookup that finds nothing, as on a thread that cannot ask the dynamic linker. -/
def Symbols.none : Symbols := fun _ => .none

/-- The most program counters a call stack keeps. -/
def maxFrames : Nat := 16

structure CallStack where
  frames : List UInt64 := []
  length_le : frames.length ≤ maxFrames := by decide
  deriving DecidableEq

namespace CallStack

instance : Inhabited CallStack := ⟨{}⟩

instance : Repr CallStack := ⟨fun s n => reprPrec s.frames n⟩

/-- The call stack with no frame. -/
def empty : CallStack := {}

def isEmpty (s : CallStack) : Bool := s.frames.isEmpty

/-- Adds an outermost frame, if there is room. -/
def push? (s : CallStack) (pc : UInt64) : Option CallStack :=
  if h : s.frames.length < maxFrames then
    some ⟨s.frames ++ [pc], by rw [List.length_append, List.length_singleton]; exact h⟩
  else none

/-- The first sixteen of the given frames. -/
def ofFrames (pcs : List UInt64) : CallStack :=
  ⟨pcs.take maxFrames, List.length_take_le maxFrames pcs⟩

/-- The text of one frame: its number with at least two digits, its program counter and
what is known of that. -/
def frameText (symbols : Symbols) (index : Nat) (pc : UInt64) : String :=
  "#" ++ Text.paddedDecimal 2 index ++ "  pc " ++ Text.hexadecimal pc.toNat ++
    ((symbols pc).map (·.text pc)).getD ""

/-- The texts of all frames in order. -/
def lines (s : CallStack) (symbols : Symbols) : List String :=
  s.frames.zipIdx.map fun (pc, i) => "          " ++ frameText symbols i pc

end CallStack
end Threading.LockOrder
