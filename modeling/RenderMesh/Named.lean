/-!
# Named members

Types of a few members that are known by their names.
-/

namespace RenderMesh

/-- A type whose finitely many members have names. -/
class Named (α : Type) where
  /-- All members, in the order of their numbers. -/
  all : List α
  name : α → String

/-- The member of a name. -/
def Named.ofName? {α : Type} [Named α] (name : String) : Option α :=
  (Named.all : List α).find? fun a => Named.name a == name

end RenderMesh
