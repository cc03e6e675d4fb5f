/-
  What a statement changes: the fields, foreign keys and modifiers it declares and what it drops.
  Nothing touches the schema until the whole statement is read, since a modifier may come before
  the column it is for.
-/
import SchemaBridge.Naming.Convention
import SchemaBridge.Schema.Basic
import SchemaBridge.Statement.Call

namespace SchemaBridge.Statement

/-- A foreign key, as a relation from the class that declares it to the class it refers to. -/
structure KeyDeclaration where
  related : String
  columns : List String
  /-- The multiplicity at the declaring class. -/
  here : Multiplicity := .any
  /-- The multiplicity at the class referred to. -/
  there : Multiplicity := .one
  deriving DecidableEq, Repr

/-- A unique key allows one row for each row referred to; a nullable one need not refer to any. -/
def KeyDeclaration.apply (k : KeyDeclaration) (flags : Flags) : KeyDeclaration :=
  { k with
    here := if flags.unique then .zeroOrOne else k.here
    there := if flags.nullable then .zeroOrOne else k.there }

/-- The relation of a key that a class declares. -/
def KeyDeclaration.relation (k : KeyDeclaration) (cls : String) : Relation :=
  ⟨⟨cls, k.here⟩, ⟨k.related, k.there⟩⟩

/-- A change to the table of a class. -/
structure TableChange where
  action : Option TableAction := none
  table : String := ""
  cls : String := ""
  fields : List Field := []
  keys : List KeyDeclaration := []
  /-- Columns of foreign keys, each with the place of its key in `keys`. -/
  keyColumns : List (String × Nat) := []
  /-- Modifiers for columns, in the order they were given. -/
  flags : List (String × Flags) := []
  droppedColumns : List String := []
  /-- Classes to which a foreign key is dropped. -/
  droppedKeys : List String := []
  deriving DecidableEq, Repr

namespace TableChange

/-- Notes that a column belongs to the key at place `i`, and to no other. -/
def bindColumn (columns : List (String × Nat)) (column : String) (i : Nat) :
    List (String × Nat) :=
  columns.filter (·.1 != column) ++ [(column, i)]

/-- Adds a foreign key. A column listed by several keys belongs to the last one. -/
def addKey (c : TableChange) (k : KeyDeclaration) : TableChange :=
  { c with
    keyColumns := k.columns.foldl (fun cols col => bindColumn cols col c.keys.length) c.keyColumns
    keys := c.keys ++ [k] }

/-- The foreign key of a call. The class it refers to is told by the table it names, or else by
its first column. -/
def keyOfCall (columns : List String) (table : Option String) (modifiers : List String) :
    Option KeyDeclaration :=
  columns.head?.map fun first =>
    let related :=
      match table with
      | some t => Naming.className t
      | none => Naming.relatedClass first
    ({ related, columns : KeyDeclaration }).apply (.ofKeywords modifiers)

/-- Takes in a call. -/
def addCall (c : TableChange) : Call → TableChange
  | .column method name modifiers =>
    { c with fields := c.fields ++
        [{ name, type := ColumnType.ofMethod? method, flags := .ofKeywords modifiers }] }
  | .nameless method modifiers =>
    if method = "id" then
      { c with fields := c.fields ++
          [{ name := "id", type := some .int,
             flags := .ofKeyword "primary" ∪ .ofKeywords modifiers }] }
    else c
  | .modifier keyword columns =>
    { c with flags := c.flags ++ columns.map (·, .ofKeyword keyword) }
  | .foreignKey columns table modifiers =>
    match keyOfCall columns table modifiers with
    | some k => c.addKey k
    | none => c
  | .dropColumns columns => { c with droppedColumns := c.droppedColumns ++ columns }
  | .dropForeign columns =>
    match columns.head? with
    | some first => { c with droppedKeys := c.droppedKeys ++ [Naming.relatedClass first] }
    | none => c

/-- The key that a column belongs to. -/
def keyOf (c : TableChange) (column : String) : Option Nat :=
  c.keyColumns.lookup column

/-- Sets flags on the key at a place. -/
def applyToKey (c : TableChange) (i : Nat) (flags : Flags) : TableChange :=
  { c with keys := c.keys.modify i (·.apply flags) }

/-- Takes in flags for a column: on the key it belongs to. -/
def applyToColumn (c : TableChange) (column : String) (flags : Flags) : TableChange :=
  match c.keyOf column with
  | some i => c.applyToKey i flags
  | none => c

/-- Fields that are columns of a foreign key become part of it, with their flags. -/
def absorbFields (c : TableChange) : TableChange :=
  let keyed := c.fields.foldl (fun k f => k.applyToColumn f.name f.flags) c
  { keyed with fields := c.fields.filter fun f => (c.keyOf f.name).isNone }

/-- Takes in one modifier: on a declared field, else on a key, else on a field that the table
already has. -/
def settleFlags (state : TableChange × List Field) (column : String) (flags : Flags) :
    TableChange × List Field :=
  let (c, existing) := state
  if c.fields.any (·.name == column) then
    ({ c with fields := Class.updateFirst column (·.apply flags) c.fields }, existing)
  else match c.keyOf column with
    | some i => (c.applyToKey i flags, existing)
    | none => (c, Class.updateFirst column (·.apply flags) existing)

/-- Takes in all modifiers, given the fields that the table already has. -/
def settle (c : TableChange) (existing : List Field) : TableChange × List Field :=
  c.flags.foldl (fun state m => settleFlags state m.1 m.2) (c, existing)

/-- The first field of a name becomes part of the key at a place. -/
def takeField (state : TableChange × List Field) (column : String) (i : Nat) :
    TableChange × List Field :=
  match state.2.find? (·.name == column) with
  | some f => (state.1.applyToKey i f.flags, state.2.eraseP (·.name == column))
  | none => state

/-- Fields that the table already has become part of the keys that now hold their columns. -/
def takeFields (c : TableChange) (existing : List Field) : TableChange × List Field :=
  c.keyColumns.foldl (fun state k => takeField state k.1 k.2) (c, existing)

/-- A table `a_b` with nothing but an `id` links two classes. -/
def junction (c : TableChange) : Option (String × String) :=
  match c.fields with
  | [only] => if only.name = "id" then Naming.junctionClasses c.table else none
  | _ => none

/-- Adds the relations of the declared keys. -/
def addKeys (c : TableChange) (s : Schema) : Schema :=
  c.keys.foldl (fun s k => s.addRelation (k.relation c.cls)) s

/-- Removes the newest relation to a class. -/
def dropKey (c : TableChange) (s : Schema) (related : String) : Schema :=
  match (s.relationsBetween c.cls related).getLast? with
  | some id => s.removeRelation id
  | none => s

/-- Makes a table. -/
def create (c : TableChange) (s : Schema) : Schema :=
  let c := c.absorbFields
  match c.junction with
  | some (a, b) => s.addRelation ⟨⟨a, .any⟩, ⟨b, .any⟩⟩
  | none =>
    let c := (c.settle []).1
    c.addKeys ((s.ensureClass c.cls).modify c.cls fun x => { x with fields := x.fields ++ c.fields })

/-- Changes a table; one that is not there is made. -/
def modify (c : TableChange) (s : Schema) : Schema :=
  let c := c.absorbFields
  let s := s.ensureClass c.cls
  let (c, fields) := c.settle (((s.find? c.cls).map Class.fields).getD [])
  let (c, fields) := c.takeFields fields
  let fields := c.droppedColumns.foldl (fun fs name => fs.eraseP (·.name == name)) (fields ++ c.fields)
  let s := s.modify c.cls fun x => { x with fields }
  c.addKeys (c.droppedKeys.foldl c.dropKey s)

/-- Applies a change to a schema. -/
def commit (c : TableChange) (s : Schema) : Schema :=
  match c.action with
  | none => s
  | some .create => c.create s
  | some .modify => c.modify s
  | some .drop => s.removeClass c.cls

end TableChange

end SchemaBridge.Statement

namespace SchemaBridge.Statement

/-- The change that a statement stands for. -/
def change (s : SchemaBridge.Statement) : TableChange :=
  s.calls.foldl TableChange.addCall
    { action := some s.action, table := s.table, cls := Naming.className s.table }

/-- Applies a statement to a schema. -/
def apply (s : SchemaBridge.Statement) (schema : Schema) : Schema :=
  s.change.commit schema

end SchemaBridge.Statement
