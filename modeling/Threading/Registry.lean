import Threading.Log.Line

/-!
# The thread registry

The control blocks of all live threads form a doubly linked list, newest first.
The links and a flag that says whether a block is listed lie in the block, so a
block is never listed twice and is taken out without a search. Blocks are never
moved; a block keeps its position whether or not it is listed.
-/
namespace Threading

/-- A control block's position. -/
abbrev BlockId := Nat

/-- What the registry reads in a control block. -/
class ControlBlock (α : Type) where
  /-- The kernel id of the running thread, or 0. -/
  tid : α → Tid
  /-- The address of the thread's local storage, or 0. -/
  tls : α → UInt64

/-- A control block with its links. -/
structure Cell (α : Type) where
  block : α
  newer : Option BlockId := none
  older : Option BlockId := none
  listed : Bool := false
  deriving Repr

structure Registry (α : Type) where
  cells : Array (Cell α) := #[]
  newest : Option BlockId := none
  length : Nat := 0
  deriving Repr

namespace Registry

variable {α : Type}

instance : Inhabited (Registry α) := ⟨{}⟩

/-- A registry without blocks. -/
def empty : Registry α := {}

variable (r : Registry α)

/-- Makes a control block; it is not listed yet. -/
def allocate (block : α) : BlockId × Registry α :=
  (r.cells.size, { r with cells := r.cells.push { block } })

def modifyCell (i : BlockId) (f : Cell α → Cell α) : Registry α :=
  { r with cells := r.cells.modify i f }

/-- Writes to a control block. -/
def modify (i : BlockId) (f : α → α) : Registry α :=
  r.modifyCell i fun c => { c with block := f c.block }

/-- Puts a block at the front. The result is false if it is listed already. -/
def insert (i : BlockId) : Bool × Registry α :=
  match r.cells[i]? with
  | none => (false, r)
  | some c =>
    if c.listed then (false, r)
    else
      let r' := r.modifyCell i ({ · with newer := none, older := r.newest, listed := true })
      let r' := match r.newest with
        | none => r'
        | some head => r'.modifyCell head ({ · with newer := some i })
      (true, { r' with newest := some i, length := r.length + 1 })

/-- Takes a block out. The result is false if it is not listed. -/
def remove (i : BlockId) : Bool × Registry α :=
  match r.cells[i]? with
  | none => (false, r)
  | some c =>
    if !c.listed then (false, r)
    else
      let r' := match c.newer with
        | none => { r with newest := c.older }
        | some n => r.modifyCell n ({ · with older := c.older })
      let r' := match c.older with
        | none => r'
        | some o => r'.modifyCell o ({ · with newer := c.newer })
      let r' := r'.modifyCell i ({ · with newer := none, older := none, listed := false })
      (true, { r' with length := r.length - 1 })

/-- The listed blocks met from `start` towards older ones, at most `n`. -/
def walk : (n : Nat) → (start : Option BlockId) → List BlockId
  | 0, _ => []
  | _, none => []
  | n + 1, some i => i :: walk n ((r.cells[i]?).bind (·.older))

/-- The listed blocks, newest first. -/
def ids : List BlockId := r.walk r.cells.size r.newest

def contains (i : BlockId) : Bool := r.ids.contains i

/-- The block at a position, if it is listed. -/
def get? (i : BlockId) : Option α :=
  if r.contains i then r.cells[i]?.map (·.block) else none

/-- The listed blocks themselves, newest first. -/
def blocks : List α := r.ids.filterMap fun i => r.cells[i]?.map (·.block)

variable [ControlBlock α]

/-- The newest listed block that satisfies `p`. -/
def find? (p : α → Bool) : Option BlockId :=
  r.ids.find? fun i => (r.cells[i]?.map fun c => p c.block).getD false

/-- The newest block of a running thread; 0 belongs to no thread. -/
def findByTid? (t : Tid) : Option BlockId :=
  r.find? fun b => t ≠ 0 ∧ ControlBlock.tid b = t

/-- The newest block with the given local storage; 0 is no address. -/
def findByTls? (address : UInt64) : Option BlockId :=
  if address = 0 then none else r.find? fun b => ControlBlock.tls b = address

/-- The kernel ids of the listed threads, newest first; 0 for those that ended. -/
def tids : List Tid := r.blocks.map ControlBlock.tid

end Registry
end Threading
