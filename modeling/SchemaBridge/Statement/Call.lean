/-
  Migration statements as data: what a statement does to a table, and the calls in its body.
-/
import SchemaBridge.Schema.Field

namespace SchemaBridge.Statement

/-- A call on the table variable. Modifiers are given by their keywords. -/
inductive Call
  | /-- A column declared by a column method. -/
    column (method name : String) (modifiers : List String)
  | /-- Columns of fixed names. -/ nameless (method : String) (modifiers : List String)
  | /-- A modifier for columns declared anywhere. -/ modifier (keyword : String) (columns : List String)
  | /-- A foreign key, with the table it refers to if that is named. -/
    foreignKey (columns : List String) (table : Option String) (modifiers : List String)
  | dropColumns (columns : List String)
  | dropForeign (columns : List String)
  deriving DecidableEq, Repr

/-- What is done to a table. -/
inductive TableAction
  | create | modify | drop
  deriving DecidableEq, Repr

end SchemaBridge.Statement

namespace SchemaBridge

/-- A migration statement. -/
structure Statement where
  action : Statement.TableAction
  table : String
  calls : List Statement.Call
  deriving DecidableEq, Repr

end SchemaBridge
