/-!
# Names of values

A type with finitely many values, each with a name of its own, can be read by name.
-/
namespace Threading

/-- The values of a type and what they are called. -/
class Named (α : Type) where
  name : α → String
  all : List α

/-- The value with the given name. -/
def named? {α : Type} [Named α] (word : String) : Option α :=
  Named.all.find? fun a => Named.name a = word

theorem name_of_named? {α : Type} [Named α] {word : String} {a : α}
    (h : named? word = some a) : Named.name a = word := by
  simpa using List.find?_some h

end Threading
