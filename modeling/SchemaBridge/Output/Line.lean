/-
  The lines of a migration: chains of calls on the table variable.
-/
import SchemaBridge.Naming.Convention
import SchemaBridge.Output.File
import SchemaBridge.Plan.Basic

namespace SchemaBridge.Output

/-- The argument of a call. -/
inductive Argument
  | none
  | name (name : String)
  | names (names : List String)
  deriving DecidableEq, Repr

/-- One call of a chain. -/
structure Invocation where
  method : String
  argument : Argument := .none
  deriving DecidableEq, Repr

/-- A chain of calls on the table variable. -/
abbrev Chain := List Invocation

def Argument.text : Argument → String
  | none => ""
  | name n => quote n
  | names ns => quoteAll ns

def Invocation.text (i : Invocation) : String :=
  "->" ++ i.method ++ "(" ++ i.argument.text ++ ")"

/-- The line of a chain. -/
def chainText (c : Chain) : String :=
  "$table" ++ String.join (c.map Invocation.text) ++ ";"

/-- The calls for the flags of a column. -/
def flagCalls (nullable unique : Bool) : Chain :=
  (if nullable then [{ method := "nullable" }] else [])
    ++ (if unique then [{ method := "unique" }] else [])

/-- The line that declares a column. -/
def columnChain (c : Plan.Column) : Chain :=
  { method := c.method, argument := .name c.name } :: flagCalls c.nullable c.unique

/-- The argument that names columns: one by itself, others as a list. -/
def columnsArgument : List String → Argument
  | [column] => .name column
  | columns => .names columns

/-- The line of a key that refers to an `id`. Where the name of the column tells the class, the
table is only confirmed; else it is spelled out. -/
def idKeyChain (k : Plan.ForeignKey) (column : String) : Chain :=
  { method := "foreignId", argument := .name column } :: flagCalls k.nullable k.unique
    ++ if Naming.relatedClass column = k.related then
        [{ method := "constrained", argument := .name k.target }]
      else
        [{ method := "references", argument := .name "id" },
          { method := "on", argument := .name k.target }]

/-- The line that declares a column of a key that does not refer to an `id`. -/
def keyColumnChain (nullable unique : Bool) (c : Plan.KeyColumn) : Chain :=
  { method := (c.type.bind ColumnType.method?).getD "unsignedBigInteger"
    argument := .name c.name } :: flagCalls nullable unique

/-- The lines of a foreign key. -/
def foreignKeyChains (k : Plan.ForeignKey) : List Chain :=
  match k.columns with
  | [column] =>
    if column.references = "id" then [idKeyChain k column.name]
    else
      [keyColumnChain k.nullable k.unique column,
        [{ method := "foreign", argument := .name column.name },
          { method := "references", argument := .name column.references },
          { method := "on", argument := .name k.target }]]
  | columns =>
    columns.map (keyColumnChain k.nullable false)
      ++ (if k.unique then [[{ method := "unique", argument := .names (columns.map (·.name)) }]]
        else [])
      ++ [[{ method := "foreign", argument := .names (columns.map (·.name)) },
          { method := "references", argument := .names (columns.map (·.references)) },
          { method := "on", argument := .name k.target }]]

/-- The lines that every table begins with. -/
def openingChains (usesId timestamps : Bool) : List Chain :=
  (if usesId then [[{ method := "id" }]] else [])
    ++ (if timestamps then [[{ method := "timestamps" }]] else [])

/-- The lines of the table of a class. -/
def tableChains (t : Plan.Table) (timestamps : Bool) : List Chain :=
  openingChains t.usesId timestamps
    ++ t.columns.map columnChain
    ++ (if t.usesId then []
      else [[{ method := "primary", argument := columnsArgument (t.keys.map (·.name)) }]])
    ++ t.foreignKeys.flatMap foreignKeyChains

/-- The lines of a junction. -/
def junctionChains (j : Plan.Junction) (timestamps : Bool) : List Chain :=
  openingChains true timestamps ++ j.foreignKeys.flatMap foreignKeyChains

/-- The lines that take a foreign key away again. -/
def dropKeyChains (k : Plan.ForeignKey) : List Chain :=
  [{ method := "dropForeign", argument := .names (k.columns.map (·.name)) }]
    :: k.columns.map fun c => [{ method := "dropColumn", argument := .name c.name }]

end SchemaBridge.Output
