import Threading.Word

/-!
# Growable arrays in mapped memory

An array whose elements lie in the first slots of one anonymous mapping. When it is
full, a mapping of at least twice the capacity takes over, the elements are copied
to it and the old one is unmapped; a new capacity uses the whole of the mapping,
which is rounded up to pages. The size of a mapping is not remembered but computed
again from the capacity when it is unmapped. Removing and clearing keep the mapping.
-/
namespace Threading

/-- A mapped block, slot by slot; none in the slots nothing has been written to. -/
abbrev Block (α : Type) := Array (Option α)

namespace Block

variable {α : Type}

/-- A block that has just been mapped. -/
def fresh (slots : Nat) : Block α := Array.replicate slots none

/-- Copies the first `n` slots of another block. -/
def copyFrom (target source : Block α) : (n : Nat) → Block α
  | 0 => target
  | n + 1 => (copyFrom target source n).setIfInBounds n source[n]?.join

/-- Moves the `n` slots after `i` down by one, the lowest first. -/
def moveDown (block : Block α) (i : Nat) : (n : Nat) → Block α
  | 0 => block
  | n + 1 => moveDown (block.setIfInBounds i block[i + 1]?.join) (i + 1) n

end Block

structure MappedArray (α : Type) where
  /-- The size of an element in bytes. -/
  elementSize : UInt64
  /-- The memory that is mapped. -/
  block : Block α := #[]
  /-- How many elements there are. -/
  length : Nat := 0
  /-- How many elements the mapping has room for. -/
  capacity : UInt64 := 0
  deriving Repr

namespace MappedArray

/-- The exchange of one mapping for a larger one. -/
structure Remap where
  /-- The bytes asked for. -/
  mapped : UInt64
  /-- The bytes given back, if there was a mapping before. -/
  unmapped : Option UInt64
  deriving DecidableEq, Repr

variable {α : Type} (v : MappedArray α)

/-- The elements: what has been written to the first slots. -/
def items : Array α := ((v.block.toList.take v.length).filterMap id).toArray

/-- The size of the mapping for a capacity; none if it is no word. -/
def bytesFor? (elementSize capacity : UInt64) : Option UInt64 :=
  (Word.mul? capacity elementSize).bind Word.pageRoundUp?

/-- The least capacity of an array with a mapping: a page of elements, or one. -/
def minCapacity (elementSize : UInt64) : UInt64 :=
  max (pageSize / elementSize) 1

/-- The capacity asked for when the array is full. -/
def wantedCapacity : UInt64 :=
  max ((Word.mul? v.capacity 2).getD 0xffffffffffffffff) (minCapacity v.elementSize)

/-- The bytes given back when the mapping goes, which is on growth and when the array is
dropped; none if there is no mapping. -/
def unmapped? : Option UInt64 :=
  if v.capacity = 0 then none else bytesFor? v.elementSize v.capacity

/-- The array in a new block of so many bytes, to which the elements are copied. -/
def moved (bytes : UInt64) : MappedArray α :=
  let capacity := bytes / v.elementSize
  let block := Block.fresh capacity.toNat
  { v with
    block := if 0 < v.capacity then block.copyFrom v.block v.length else block
    capacity }

/-- Makes room in a new block; none if the size of the mapping would be no word. -/
def grow? : Option (MappedArray α × Remap) :=
  (bytesFor? v.elementSize v.wantedCapacity).map fun bytes =>
    (v.moved bytes, { mapped := bytes, unmapped := v.unmapped? })

/-- Writes an element after the last one. -/
def append (a : α) : MappedArray α :=
  { v with block := v.block.setIfInBounds v.length (some a), length := v.length + 1 }

/-- Appends an element. Every mapping that is asked for is granted; none if its
size would be no word. -/
def push? (a : α) : Option (MappedArray α × Option Remap) :=
  if v.length = v.capacity.toNat then
    v.grow?.map fun (v, remap) => (v.append a, some remap)
  else some (v.append a, none)

/-- What has been written to the slot of an element. -/
def get? (index : Nat) : Option α := if index < v.length then v.block[index]?.join else none

/-- Takes an element out; those after it move down. -/
def remove? (index : Nat) : Option (α × MappedArray α) :=
  (v.get? index).map fun a =>
    (a, { v with
      block := v.block.moveDown index (v.length - index - 1)
      length := v.length - 1 })

/-- Takes all elements out. -/
def clear : MappedArray α := { v with length := 0 }

/-- Replaces an element; the result is the element it was before. -/
def set? (index : Nat) (a : α) : Option (α × MappedArray α) :=
  (v.get? index).map fun old => (old, { v with block := v.block.setIfInBounds index (some a) })

/-- Replaces every element. -/
def setAll (a : α) : MappedArray α :=
  { v with block := v.block.mapIdx fun i slot => if i < v.length then some a else slot }

/-- The index of the first element equal to `a`. -/
def position? [BEq α] (a : α) : Option Nat := v.items.idxOf? a

def contains [BEq α] (a : α) : Bool := (v.position? a).isSome

end MappedArray
end Threading
