/-
  How classes, tables and columns are named after each other: class `OrderItem`, table
  `order_items`, junction table `order_tag`, foreign-key column `order_id`.
-/
import SchemaBridge.Naming.Words
import SchemaBridge.Naming.Plural

namespace SchemaBridge.Naming

open Text

/-- The class whose instances a table holds. -/
def className (table : String) : String :=
  pascal (singularize table)

/-- The table that holds the instances of a class. -/
def tableName (cls : String) : String :=
  pluralize (snake cls)

/-- The class that a foreign-key column refers to, told from what stands before the first
underscore. -/
def relatedClass (column : String) : String :=
  className (String.ofList (column.toList.takeWhile (· != '_')))

/-- The two classes that a junction table named `a_b` links. -/
def junctionClasses (table : String) : Option (String × String) :=
  match splitAt '_' table.toList with
  | [a, b] =>
    if a.isEmpty || b.isEmpty then none
    else some (className (String.ofList a), className (String.ofList b))
  | _ => none

/-- The junction table of two classes: their names in alphabetical order. -/
def junctionTable (a b : String) : String :=
  if snake a ≤ snake b then snake a ++ "_" ++ snake b else snake b ++ "_" ++ snake a

end SchemaBridge.Naming
