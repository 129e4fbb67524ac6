import Threading.Error
import Threading.Text.Numeral
import Threading.Word

/-!
# Thread regions

A thread's memory, from low to high addresses: an inaccessible guard, the stack,
the block of thread-local slots and the control block. An owned region was mapped
for the thread and its control block starts a page; a borrowed one is memory of
the caller without a guard and is never unmapped. Within the region the control
block lies as high as its alignment allows, and the slots as high as theirs allows
below it.
-/
namespace Threading

/-- The alignment of the stack top and of everything placed on a borrowed stack. -/
def stackAlignment : UInt64 := 16

/-- The size of a control block. -/
def controlSize : UInt64 := 312

/-- The size of the block of thread-local slots. -/
def tlsSize : UInt64 := 64

/-- Where the parts of a region lie. -/
structure Layout where
  control : UInt64
  tls : UInt64
  stackTop : UInt64
  stackBase : UInt64
  deriving DecidableEq, Repr

namespace Layout

/-- The memory has no room for the blocks and a stack. -/
def tooSmall : Error := .invalidArgument "stack too small for thread metadata"

/-- The layout of `size` bytes from `base` on; none if they wrap around or do not
hold the blocks with room below. -/
def computeFor? (base size : UInt64) (owned : Bool) (controlSize tlsSize : UInt64) :
    Option Layout := do
  let top ← Word.add? base size
  let control ← Word.sub? top controlSize
  let control := Word.alignDown control (if owned then pageSize else stackAlignment)
  let tls ← Word.sub? control tlsSize
  let tls := Word.alignDown tls stackAlignment
  if tls ≤ base then none
  else some { control, tls, stackTop := tls, stackBase := base }

def computeFor (base size : UInt64) (owned : Bool) (controlSize tlsSize : UInt64) :
    Except Error Layout :=
  match computeFor? base size owned controlSize tlsSize with
  | none => .error tooSmall
  | some l => .ok l

/-- The layout for blocks of the runtime's own sizes. -/
def compute (base size : UInt64) (owned : Bool) : Except Error Layout :=
  computeFor base size owned controlSize tlsSize

/-- The bytes left for the stack. -/
def usableStack (l : Layout) : UInt64 := l.stackTop - l.stackBase

/-- The size of what lies on a new stack: the function to enter and its argument. -/
def frameSize : UInt64 := 16

/-- Where a new thread finds its first frame. -/
def frame (l : Layout) : UInt64 := l.stackTop - frameSize

/-- A placement of the two blocks in `size` bytes from `base` on, in their order,
aligned and apart. -/
structure Fits (base size : UInt64) (owned : Bool) (controlSize tlsSize : UInt64)
    (control tls : Nat) : Prop where
  aboveBase : base.toNat < tls
  tlsBelowControl : tls + tlsSize.toNat ≤ control
  controlInside : control + controlSize.toNat ≤ base.toNat + size.toNat
  controlAligned : (if owned then 4096 else 16) ∣ control
  tlsAligned : 16 ∣ tls

end Layout

structure Region where
  base : UInt64
  size : UInt64
  guardSize : UInt64
  owned : Bool
  deriving DecidableEq, Repr

namespace Region

/-- Memory of the caller. -/
def borrowed (base size : UInt64) : Region := ⟨base, size, 0, false⟩

/-- The lowest address of the stack. -/
def stackBase (r : Region) : UInt64 := r.base + r.guardSize

def layout (r : Region) : Except Error Layout :=
  Layout.compute r.stackBase (r.size - r.guardSize) r.owned

/-- The sizes of a region to be mapped, both rounded up to pages. -/
structure Extent where
  size : UInt64
  guardSize : UInt64
  deriving DecidableEq, Repr

/-- What a stack and its guard take; none if that is no word. -/
def extent? (stackSize guardSize : UInt64) : Option Extent := do
  let stackSize ← Word.pageRoundUp? stackSize
  let guardSize ← Word.pageRoundUp? guardSize
  let size ← Word.add? stackSize guardSize
  some { size, guardSize }

/-- Why a stack could not be mapped. -/
inductive MapFailure where
  /-- The size is no word; the kernel was not asked. -/
  | overflow
  /-- The kernel refused to map so many bytes. -/
  | refused (size : UInt64) (errno : Int32)
  /-- The region was mapped, and unmapped again because the kernel refused to make its
  guard inaccessible. -/
  | unguarded (region : Region) (errno : Int32)
  deriving DecidableEq, Repr

namespace MapFailure

def error : MapFailure → Error := fun _ => .resourceExhausted "thread stack"

/-- The warning that is logged; a size that is no word gives none. -/
def warning? : MapFailure → Option String
  | overflow => none
  | refused size errno =>
    some ("create_thread failed: couldn't allocate " ++ Text.decimal size.toNat ++
      "-byte stack: errno " ++ Text.signedDecimal errno.toInt)
  | unguarded region errno =>
    some ("create_thread failed: couldn't mprotect PROT_NONE " ++
      Text.decimal region.guardSize.toNat ++ "-byte stack guard: errno " ++
      Text.signedDecimal errno.toInt)

/-- The region that was unmapped again. -/
def unmapped? : MapFailure → Option Region
  | overflow | refused .. => none
  | unguarded region _ => some region

end MapFailure

/-- Maps a fresh region whose guard, if it has one, is made inaccessible; `map` is the
kernel's answer to the request for a number of bytes, an address or an error number, and
`protect` the error number of the request to protect the guard, if that fails. -/
def allocate (stackSize guardSize : UInt64) (map : UInt64 → Except Int32 UInt64)
    (protect : Option Int32) : Except MapFailure Region :=
  match extent? stackSize guardSize with
  | none => .error .overflow
  | some e =>
    match map e.size with
    | .error errno => .error (.refused e.size errno)
    | .ok base =>
      let region : Region := ⟨base, e.size, e.guardSize, true⟩
      match protect with
      | some errno => if 0 < e.guardSize then .error (.unguarded region errno) else .ok region
      | none => .ok region

end Region

/-- The kernel's answer to a request for memory, if nothing but the size matters:
nothing cannot be mapped, nor can half the address space. -/
def mapAt (base : UInt64) (size : UInt64) : Except Int32 UInt64 :=
  if size = 0 then .error 22
  else if 0x8000_0000_0000 ≤ size.toNat then .error 12
  else .ok base

end Threading
