/-
  The relations of one class, filed under the class at their other end.
-/
import SchemaBridge.Schema.Relation

namespace SchemaBridge

/-- Relations are known by a number, counted from zero as they are made. -/
abbrev RelationId := Nat

/-- Names of other classes, ascending, each with the relations to it in the order they were
linked. -/
abbrev Links := List (String × List RelationId)

namespace Links

/-- The relations filed under a class. -/
def get (links : Links) (other : String) : List RelationId :=
  (links.lookup other).getD []

/-- Files one more relation under a class. -/
def add (links : Links) (other : String) (id : RelationId) : Links :=
  match links with
  | [] => [(other, [id])]
  | (name, ids) :: rest =>
    if name = other then (name, ids ++ [id]) :: rest
    else if other < name then (other, [id]) :: (name, ids) :: rest
    else (name, ids) :: add rest other id

/-- Takes a relation out from under a class; a class without relations is no longer listed. -/
def remove (links : Links) (other : String) (id : RelationId) : Links :=
  match links with
  | [] => []
  | (name, ids) :: rest =>
    if name = other then
      let left := ids.filter (· != id)
      if left.isEmpty then rest else (name, left) :: rest
    else (name, ids) :: remove rest other id

/-- All relations listed, in the order of the class names. -/
def ids (links : Links) : List RelationId :=
  links.flatMap Prod.snd

end Links

end SchemaBridge
