/-
  Model files: a class for each table, with a method for each of its relations.
-/
import SchemaBridge.Output.File
import SchemaBridge.Plan.Build

namespace SchemaBridge

/-- What a relation is to one of its classes. -/
inductive Relationship
  | belongsTo | hasOne | hasMany | belongsToMany
  deriving DecidableEq, Repr

namespace Relationship

/-- What a relation is to a class; `none` for a class that is no end of it. -/
def of (r : Relation) (cls : String) : Option Relationship :=
  match r.ends cls, r.ownership cls with
  | some (_, other), some ownership =>
    some <| match ownership with
      | .junction => belongsToMany
      | .own => belongsTo
      | .other => if other.multiplicity.isMany then hasMany else hasOne
  | _, _ => none

/-- The method that declares the relationship. -/
def method : Relationship → String
  | belongsTo => "belongsTo"
  | hasOne => "hasOne"
  | hasMany => "hasMany"
  | belongsToMany => "belongsToMany"

/-- The relationship leads to many instances. -/
def isMany : Relationship → Bool
  | hasMany | belongsToMany => true
  | _ => false

end Relationship

namespace Output

/-- The planned key of a relation. -/
def keyOfRelation (p : Plan) (id : RelationId) : Option Plan.ForeignKey :=
  (p.tables.flatMap (·.foreignKeys) ++ p.deferred).reverse.find? (·.relation == id)

/-- The planned junction of a relation. -/
def junctionOfRelation (p : Plan) (id : RelationId) : Option Plan.Junction :=
  p.junctions.reverse.find? fun j => (j.foreignKeys.head?.map (·.relation)) == some id

/-- A method that declares a relationship. -/
structure RelationshipMethod where
  relation : RelationId
  name : String
  kind : Relationship
  related : String
  /-- What the call names after the class: a key column and the column it refers to, or a junction
  with its two columns, or nothing. -/
  named : List String
  deriving DecidableEq, Repr

/-- The call that declares the relationship. -/
def RelationshipMethod.call (m : RelationshipMethod) : String :=
  "$this->" ++ m.kind.method ++ "("
    ++ ", ".intercalate ((m.related ++ "::class") :: m.named.map quote) ++ ")"

/-- The lines of the method. -/
def RelationshipMethod.lines (m : RelationshipMethod) : List String :=
  ["public function " ++ m.name ++ "()", "\x7b", "    return " ++ m.call ++ ";", "\x7d"]

/-- The first column of a key, and what it refers to. -/
def firstColumn (k : Plan.ForeignKey) : List String :=
  match k.columns with
  | c :: _ => [c.name, c.references]
  | [] => ["id", "id"]

/-- What is named for a relation with a key. An `id` key needs no columns if the class has only
this one relation to the other. -/
def keyNames (k : Plan.ForeignKey) (numbered : Bool) : List String :=
  if k.isId && !numbered then [] else firstColumn k

/-- The name of the first column of a key, if there is one. -/
def columnName (k : Option Plan.ForeignKey) : String :=
  ((k.bind fun k => k.columns.head?).map (·.name)).getD ""

/-- What is named for a junction: its table, the column for the own class and that for the
other. -/
def junctionNames (j : Plan.Junction) (cls related : String) : List String :=
  let (own, other) :=
    if cls = related then (j.foreignKeys.head?, j.foreignKeys[1]?)
    else (j.foreignKeys.find? (·.related == cls), j.foreignKeys.find? (·.related == related))
  [j.table, columnName own, columnName other]

/-- What the call for a relation names, if the plan holds the key or the junction. -/
def plannedNames (p : Plan) (kind : Relationship) (cls related : String) (numbered : Bool)
    (id : RelationId) : Option (List String) :=
  if kind = .belongsToMany then
    (junctionOfRelation p id).map fun j => junctionNames j cls related
  else (keyOfRelation p id).map fun k => keyNames k numbered

/-- The name of a relationship's method. Several relations to one class are numbered. -/
def relationshipName (kind : Relationship) (related : String) (number : Option Nat) : String :=
  let name := Naming.snake related
  (if kind.isMany then Naming.pluralize name else name) ++ Plan.suffixText number

/-- The method for a relation of a class, if the relation has a planned key. -/
def relationshipMethod? (s : Schema) (p : Plan) (cls related : String) (numbered : Bool)
    (id : RelationId) (number : Nat) : Option RelationshipMethod :=
  match (s.relation? id).bind (Relationship.of · cls) with
  | none => none
  | some kind =>
    (plannedNames p kind cls related numbered id).map fun named =>
      { relation := id
        name := relationshipName kind related (if numbered then some number else none)
        kind, related, named }

/-- The lines that describe a key other than `id`. -/
def keyMember (c : Class) (composite : Bool) : List (List String) :=
  let keys := Plan.keysOf c composite
  match keys with
  | key :: _ =>
    if Plan.usesId keys then []
    else
      let type := match key.type with
        | some .int | some .bigint => "int"
        | _ => "string"
      [["protected $primaryKey = " ++ quote key.name ++ ";",
        "protected $keyType = " ++ quote type ++ ";",
        "public $incrementing = false;"]]
  | [] => []

/-- The methods of a class. -/
def relationshipMethods (s : Schema) (p : Plan) (c : Class) : List RelationshipMethod :=
  c.links.flatMap fun link =>
    (link.2.zipIdx 1).filterMap fun entry =>
      relationshipMethod? s p c.name link.1 (1 < link.2.length) entry.1 entry.2

/-- The text of a model. -/
def modelText (cls : String) (members : List (List String)) : String :=
  "<?php\n\nnamespace App\\Models;\n\nuse Illuminate\\Database\\Eloquent\\Model;\n\n"
    ++ line 0 ("class " ++ cls ++ " extends Model") ++ line 0 "\x7b"
    ++ "\n".intercalate (members.map (block 1)) ++ line 0 "\x7d"

/-- The model files of a schema. The schema still holds the relations that its plan defers. -/
def models (s : Schema) (p : Plan) (options : Options) : List GeneratedFile :=
  s.classes.map fun c =>
    ⟨c.name ++ ".php",
      modelText c.name
        (keyMember c options.compositeKeys
          ++ (relationshipMethods s p c).map RelationshipMethod.lines)⟩

end Output

end SchemaBridge
