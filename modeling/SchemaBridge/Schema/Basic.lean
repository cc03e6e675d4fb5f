/-
  Schemas: classes with their fields, and the relations between them. Each class keeps the list of
  its relations, and every operation keeps these lists in step with the relations.
-/
import SchemaBridge.Schema.Field
import SchemaBridge.Schema.Links

namespace SchemaBridge

/-- A class, with its relations filed under the classes at their other ends. -/
structure Class where
  name : String
  fields : List Field := []
  links : Links := []
  deriving DecidableEq, Repr

namespace Class

/-- Changes the first field of this name. -/
def updateFirst (name : String) (f : Field → Field) : List Field → List Field
  | [] => []
  | x :: rest => if x.name = name then f x :: rest else x :: updateFirst name f rest

/-- The first field of this name. -/
def field? (c : Class) (name : String) : Option Field :=
  c.fields.find? (·.name == name)

/-- The class with a field at the end of its list. -/
def addField (c : Class) (f : Field) : Class :=
  { c with fields := c.fields ++ [f] }

/-- The class without the first field of this name. -/
def removeField (c : Class) (name : String) : Class :=
  { c with fields := c.fields.eraseP (·.name == name) }

/-- The class with more flags on the first field of this name. -/
def applyFlags (c : Class) (name : String) (flags : Flags) : Class :=
  { c with fields := updateFirst name (·.apply flags) c.fields }

end Class

/-- Classes in the order they were made, the live relations by ascending number, and the number of
the next relation. -/
structure Schema where
  classes : List Class := []
  relations : List (RelationId × Relation) := []
  nextRelation : Nat := 0
  deriving DecidableEq, Repr

namespace Schema

/-- A schema without classes or relations. -/
def empty : Schema := {}

/-- The class of this name. -/
def find? (s : Schema) (name : String) : Option Class :=
  s.classes.find? (·.name == name)

def contains (s : Schema) (name : String) : Bool :=
  s.classes.any (·.name == name)

/-- Changes the class of this name, if there is one. -/
def modify (s : Schema) (name : String) (f : Class → Class) : Schema :=
  { s with classes := s.classes.map fun c => if c.name = name then f c else c }

/-- The live relation of this number. -/
def relation? (s : Schema) (id : RelationId) : Option Relation :=
  s.relations.lookup id

/-- The numbers of the live relations between two classes, ascending. -/
def relationsBetween (s : Schema) (a b : String) : List RelationId :=
  (s.relations.filter fun p => p.2.connects a b).map Prod.fst

/-- The links that the live relations give a class. -/
def linksOf (s : Schema) (name : String) : Links :=
  s.relations.foldl
    (fun links p => match p.2.ends name with
      | some (_, other) => links.add other.cls p.1
      | none => links)
    []

/-- Makes the class if it is not there yet, linked to the relations that already name it. -/
def ensureClass (s : Schema) (name : String) : Schema :=
  if s.contains name then s
  else { s with classes := s.classes ++ [{ name, links := s.linksOf name }] }

/-- Adds a relation and links it with those of its two classes that are there. Its number is
`nextRelation`. -/
def addRelation (s : Schema) (r : Relation) : Schema :=
  let id := s.nextRelation
  let linked := s.modify r.source.cls fun c => { c with links := c.links.add r.target.cls id }
  let linked :=
    if r.isSelf then linked
    else linked.modify r.target.cls fun c => { c with links := c.links.add r.source.cls id }
  { linked with relations := s.relations ++ [(id, r)], nextRelation := id + 1 }

/-- Removes a relation and its links. -/
def removeRelation (s : Schema) (id : RelationId) : Schema :=
  match s.relation? id with
  | none => s
  | some r =>
    let cleared := s.modify r.source.cls fun c => { c with links := c.links.remove r.target.cls id }
    let cleared :=
      cleared.modify r.target.cls fun c => { c with links := c.links.remove r.source.cls id }
    { cleared with relations := s.relations.filter (·.1 != id) }

/-- Removes a class and every relation that involves it. -/
def removeClass (s : Schema) (name : String) : Schema :=
  if s.contains name then
    let touching := (s.relations.filter fun p => p.2.involves name).map Prod.fst
    touching.foldl removeRelation { s with classes := s.classes.eraseP (·.name == name) }
  else s

/-- Changes the multiplicities of a relation. -/
def setMultiplicities (s : Schema) (id : RelationId) (source target : Multiplicity) : Schema :=
  { s with
    relations := s.relations.map fun p =>
      if p.1 = id then (p.1, ⟨⟨p.2.source.cls, source⟩, ⟨p.2.target.cls, target⟩⟩) else p }

end Schema

end SchemaBridge
