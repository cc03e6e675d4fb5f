/-
  Schemas written as class diagrams.
-/
import SchemaBridge.Schema.Basic

namespace SchemaBridge.Diagram

/-- How a diagram writes a multiplicity. -/
def multiplicityText : Multiplicity → String
  | .one => "1"
  | .zeroOrOne => "0..1"
  | .any => "*"
  | .atLeastOne => "1..*"

/-- The modifiers of a field, as a diagram lists them. -/
def modifierNames (flags : Flags) : List String :=
  (if flags.primary then ["pk"] else []) ++ (if flags.unique then ["unique"] else [])
    ++ (if flags.nullable then ["nullable"] else [])

/-- The line of a field. -/
def writeField (f : Field) : String :=
  let type := match f.type with
    | some t => " : " ++ t.name
    | none => ""
  let modifiers := match modifierNames f.flags with
    | [] => ""
    | names => " \x7b" ++ ", ".intercalate names ++ "\x7d"
  "    " ++ f.name ++ type ++ modifiers ++ "\n"

/-- The lines of a class. -/
def writeClass (c : Class) : String :=
  "\nclass " ++ c.name ++ " \x7b\n" ++ String.join (c.fields.map writeField) ++ "\x7d\n"

/-- The line of a relation. -/
def writeRelation (r : Relation) : String :=
  r.source.cls ++ " \"" ++ multiplicityText r.source.multiplicity ++ "\" -- \""
    ++ multiplicityText r.target.multiplicity ++ "\" " ++ r.target.cls ++ "\n"

/-- The diagram of a schema: its classes, and then its relations in the order they were made. -/
def write (s : Schema) : String :=
  let relations := match s.relations with
    | [] => ""
    | rs => "\n" ++ String.join (rs.map fun p => writeRelation p.2)
  "@startuml\n" ++ String.join (s.classes.map writeClass) ++ relations ++ "\n@enduml\n"

end SchemaBridge.Diagram
