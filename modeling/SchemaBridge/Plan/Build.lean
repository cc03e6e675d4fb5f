/-
  Planning the tables of a schema.
-/
import SchemaBridge.Naming.Convention
import SchemaBridge.Plan.Basic

namespace SchemaBridge.Plan

/-- The column that holds a field. `none` stands for the column of the key `id`, which needs no
declaration; a field without a usable type gets a warning. -/
def columnOf (cls : String) (usesId : Bool) (f : Field) : Option (Except Warning Column) :=
  if usesId && f.name == "id" then none
  else match f.type with
    | none => some (.error (.untyped cls f.name))
    | some type =>
      match type.method? with
      | none => some (.error (.unsupported cls f.name type.name))
      | some method =>
        some (.ok
          { name := f.name, method
            nullable := !f.flags.primary && f.flags.nullable
            unique := !f.flags.primary && f.flags.unique })

/-- The columns of a class. -/
def columnsOf (c : Class) (usesId : Bool) : List Column :=
  c.fields.filterMap fun f =>
    match columnOf c.name usesId f with
    | some (.ok column) => some column
    | _ => none

/-- The fields of a class that get no column. -/
def warningsOf (c : Class) (usesId : Bool) : List Warning :=
  c.fields.filterMap fun f =>
    match columnOf c.name usesId f with
    | some (.error w) => some w
    | _ => none

/-- The key of a class, by its name; a class outside the schema is taken to have an `id`. -/
def referencedKeys (s : Schema) (composite : Bool) (cls : String) : List Key :=
  match s.find? cls with
  | some c => keysOf c composite
  | none => [.id]

/-- The columns that refer to the key of a class. -/
def keyColumns (s : Schema) (composite : Bool) (related suffix : String) : List KeyColumn :=
  (referencedKeys s composite related).map fun key =>
    ⟨Naming.snake related ++ "_" ++ key.name ++ suffix, key.name, key.type⟩

/-- The class at the other end of a relation. -/
def otherEnd (r : Relation) (cls : String) : String :=
  match r.ends cls with
  | some (_, other) => other.cls
  | none => r.target.cls

/-- A number behind the columns of a key, if it needs one. -/
def suffixText (number : Option Nat) : String :=
  match number with
  | some n => toString n
  | none => ""

/-- The foreign key of a relation that `owner` stores. -/
def foreignKey (s : Schema) (composite : Bool) (id : RelationId) (r : Relation) (owner : String)
    (number : Option Nat) : Option ForeignKey :=
  match r.referencedMultiplicity owner, r.owningMultiplicity owner with
  | some referenced, some owning =>
    let related := otherEnd r owner
    some
      { relation := id
        table := Naming.tableName owner
        target := Naming.tableName related
        related
        columns := keyColumns s composite related (suffixText number)
        nullable := referenced == .zeroOrOne
        unique := owning.isSingle }
  | _, _ => none

/-- The class stores the key of the relation. -/
def owns (r : Relation) (cls : String) : Bool :=
  r.ownership cls == some .own

/-- The relations of a list of which the class stores the keys. -/
def ownedIn (s : Schema) (cls : String) (ids : List RelationId) : List (RelationId × Relation) :=
  ids.filterMap fun id =>
    match s.relation? id with
    | some r => if owns r cls then some (id, r) else none
    | none => none

/-- The foreign keys of a class. Several keys to one class are numbered. -/
def foreignKeysOf (s : Schema) (composite : Bool) (c : Class) : List ForeignKey :=
  c.links.flatMap fun link =>
    let owned := ownedIn s c.name link.2
    (owned.zipIdx 1).filterMap fun p =>
      foreignKey s composite p.1.1 p.1.2 c.name (if 1 < owned.length then some p.2 else none)

/-- The table of a class. -/
def tableOf (s : Schema) (composite : Bool) (c : Class) : Table :=
  let keys := keysOf c composite
  { cls := c.name
    table := Naming.tableName c.name
    keys
    usesId := usesId keys
    columns := columnsOf c (usesId keys)
    foreignKeys := foreignKeysOf s composite c }

/-- One of the two keys of a junction. -/
def junctionKey (s : Schema) (composite : Bool) (id : RelationId) (table related suffix : String) :
    ForeignKey where
  relation := id
  table := table
  target := Naming.tableName related
  related := related
  columns := keyColumns s composite related suffix
  nullable := false
  unique := false

/-- The junction of a relation. The two keys to one class are numbered. -/
def junctionOf (s : Schema) (composite : Bool) (id : RelationId) (r : Relation) : Junction :=
  let table := Naming.junctionTable r.source.cls r.target.cls
  let suffix (n : Nat) := if r.isSelf then toString n else ""
  { table
    foreignKeys :=
      [junctionKey s composite id table r.source.cls (suffix 1),
        junctionKey s composite id table r.target.cls (suffix 2)] }

/-- The class that stores the key of a relation that is no junction. -/
def ownerOf (r : Relation) : String :=
  if r.ownership r.source.cls = some .other then r.target.cls else r.source.cls

/-- How many relations between two classes the first stores the keys of. -/
def ownedBetween (s : Schema) (owner other : String) : Nat :=
  (ownedIn s owner (s.relationsBetween owner other)).length

/-- The key of a relation that was taken out of the schema. Its number follows the count of the keys
that its owner still stores for the same class in the schema that is left; where there are none, it
has no number. -/
def deferredKey (s : Schema) (composite : Bool) (id : RelationId) (r : Relation) :
    Option ForeignKey :=
  let owner := ownerOf r
  let earlier := ownedBetween s owner (otherEnd r owner)
  foreignKey s composite id r owner (if 0 < earlier then some (earlier + 1) else none)

/-- The plan of a schema whose classes are in the given order. -/
def ofOrder (s : Schema) (order : ClassOrder) (composite : Bool) : Plan :=
  let classes := order.classes.filterMap s.find?
  { tables := classes.map (tableOf s composite)
    junctions := (s.relations.filter fun p => p.2.isJunction).map fun p =>
      junctionOf s composite p.1 p.2
    deferred := order.deferred.filterMap fun p => deferredKey s composite p.1 p.2
    warnings := classes.flatMap fun c => warningsOf c (usesId (keysOf c composite))
    cycles := order.cycles }

end SchemaBridge.Plan

namespace SchemaBridge

/-- Orders a schema and plans it. The schema loses the relations whose keys are added last. -/
def Schema.plan (s : Schema) (options : Options) : Schema × Plan :=
  let (ordered, order) := s.order
  (ordered, Plan.ofOrder ordered order options.compositeKeys)

end SchemaBridge
