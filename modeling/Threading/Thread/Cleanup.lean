/-!
# Cleanup handlers

A thread keeps a stack of handlers that run when it ends, most recent first. The
stack is a list through the handlers' own records: pushing a record overwrites its
link, so a record that is pushed while it is on a stack already leads the list
into a circle, and running such a list has no end.
-/
namespace Threading

/-- A handler record's position. -/
abbrev HandlerId := Nat

structure Handler where
  /-- What the handler does, as a number. -/
  routine : Nat
  /-- The handler pushed before this one. -/
  below : Option HandlerId := none
  deriving DecidableEq, Repr

/-- The records of all handlers. -/
abbrev HandlerTable := Array Handler

namespace HandlerTable

variable (table : HandlerTable)

/-- Makes a record. -/
def allocate (routine : Nat) : HandlerId × HandlerTable :=
  (table.size, table.push { routine })

/-- Puts a record on the stack with the given top; the record becomes the top. -/
def push (top : Option HandlerId) (h : HandlerId) : HandlerTable :=
  table.modify h ({ · with below := top })

/-- Takes the top record `h` off: the new top, and the records with its link
cleared. -/
def pop (h : HandlerId) : Option HandlerId × HandlerTable :=
  ((table[h]?).bind (·.below), table.modify h ({ · with below := none }))

/-- What a handler does. -/
def routine? (h : HandlerId) : Option Nat := table[h]?.map (·.routine)

/-- The handlers from `top` downwards in the order they run; none if there are more
than `n` of them. -/
def walk? : (n : Nat) → (top : Option HandlerId) → Option (List HandlerId)
  | _, none => some []
  | 0, some _ => none
  | n + 1, some h => (walk? n ((table[h]?).bind (·.below))).map (h :: ·)

/-- What runs when a thread ends, in order; none if the list has no end, which is
the case when it visits more records than there are. -/
def runAll? (top : Option HandlerId) : Option (List Nat) :=
  (table.walk? table.size top).map fun hs => hs.filterMap table.routine?

end HandlerTable
end Threading
