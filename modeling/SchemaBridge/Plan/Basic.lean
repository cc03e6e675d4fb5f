/-
  Plans: the tables that hold a schema, their columns and keys, in the order they are made.
-/
import SchemaBridge.Schema.CreationOrder

namespace SchemaBridge

/-- What the user may choose about generated files. -/
structure Options where
  /-- Several primary fields make up one key, instead of giving way to an `id`. -/
  compositeKeys : Bool := false
  /-- Every table notes when its rows were made and changed. -/
  timestamps : Bool := true
  /-- What the names of migration files begin with, usually a time. -/
  stamp : String := "0000_00_00_000000"
  deriving DecidableEq, Repr

namespace Plan

/-- A column of a primary key. -/
structure Key where
  name : String
  type : Option ColumnType
  deriving DecidableEq, Repr

/-- The key of tables without one of their own. -/
def Key.id : Key := ⟨"id", some .int⟩

/-- A column that holds a field. -/
structure Column where
  name : String
  method : String
  nullable : Bool
  unique : Bool
  deriving DecidableEq, Repr

/-- A column of a foreign key and the column it refers to. -/
structure KeyColumn where
  name : String
  references : String
  type : Option ColumnType
  deriving DecidableEq, Repr

/-- A foreign key of `table` that refers to the table `target` of the class `related`. -/
structure ForeignKey where
  relation : RelationId
  table : String
  target : String
  related : String
  columns : List KeyColumn
  nullable : Bool
  unique : Bool
  deriving DecidableEq, Repr

/-- The key is one column that refers to an `id`. -/
def ForeignKey.isId (k : ForeignKey) : Bool :=
  match k.columns with
  | [column] => column.references == "id"
  | _ => false

/-- The table of a class. -/
structure Table where
  cls : String
  table : String
  keys : List Key
  usesId : Bool
  columns : List Column
  foreignKeys : List ForeignKey
  deriving DecidableEq, Repr

/-- The table that links two classes. -/
structure Junction where
  table : String
  foreignKeys : List ForeignKey
  deriving DecidableEq, Repr

/-- A field that gets no column. -/
inductive Warning
  | untyped (cls field : String)
  | unsupported (cls field type : String)
  deriving DecidableEq, Repr

def Warning.message : Warning → String
  | untyped cls field => "Field " ++ cls ++ "." ++ field ++ " has no type. Skipping."
  | unsupported cls field type =>
    "Field " ++ cls ++ "." ++ field ++ " has an unsupported type '" ++ type ++ "'. Skipping."

/-- The key of a class: its `id` field, or else its primary fields. Without any, or with several
where only one may be, the class gets an `id` of its own. -/
def keysOf (c : Class) (composite : Bool) : List Key :=
  match c.field? "id" with
  | some f => [⟨f.name, f.type.or (some .int)⟩]
  | none =>
    match c.fields.filter (·.flags.primary) with
    | [] => [.id]
    | [f] => [⟨f.name, f.type⟩]
    | fields => if composite then fields.map fun f => ⟨f.name, f.type⟩ else [.id]

/-- The key is a column named `id`. -/
def usesId (keys : List Key) : Bool :=
  match keys with
  | [key] => key.name == "id"
  | _ => false

end Plan

/-- The tables of classes, then those of junctions, then the foreign keys that are added when all
tables exist. -/
structure Plan where
  tables : List Plan.Table := []
  junctions : List Plan.Junction := []
  deferred : List Plan.ForeignKey := []
  warnings : List Plan.Warning := []
  cycles : List (List String) := []
  deriving DecidableEq, Repr

end SchemaBridge
