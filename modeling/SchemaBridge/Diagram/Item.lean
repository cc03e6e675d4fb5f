/-
  Class diagrams as lists of items, and the schema they describe.
-/
import SchemaBridge.Diagram.Token
import SchemaBridge.Schema.Basic

namespace SchemaBridge.Diagram

/-- What a diagram may hold. -/
inductive Item
  | /-- `@startuml` or `@enduml`. -/ marker
  | /-- A class with fields. -/ cls (name : String) (fields : List Field)
  | relation (relation : Relation)
  deriving DecidableEq, Repr

/-- What a reader looked for. -/
inductive Expectation
  | identifier | dash | closeBrace | marker | label | item
  deriving DecidableEq, Repr

def Expectation.text : Expectation → String
  | identifier => "identifier"
  | dash => "'--'"
  | closeBrace => "'\x7d' after field modifiers"
  | marker => "@startuml or @enduml"
  | label => "relation label"
  | item => "class, entity or relation"

/-- What can be wrong with a diagram. -/
inductive DiagramError
  | lex (cause : LexError)
  | unexpected (found : Option Token) (expected : Expectation)
  | invalidMultiplicity (text : String)
  | unknownModifier (keyword : String)
  deriving DecidableEq, Repr

def DiagramError.message : DiagramError → String
  | lex cause => "Lex error: " ++ cause.message
  | unexpected found expected =>
    "Unexpected token: " ++ Token.shown found ++ ", expected " ++ expected.text
  | invalidMultiplicity text => "Invalid multiplicity: \"" ++ text ++ "\""
  | unknownModifier keyword => "Unknown field modifier: " ++ keyword

/-- Adds an item to a schema. A class that is there already gets further fields, and a relation
brings its classes with it. -/
def Item.apply (s : Schema) : Item → Schema
  | .marker => s
  | .cls name fields =>
    (s.ensureClass name).modify name fun c => { c with fields := c.fields ++ fields }
  | .relation r => ((s.ensureClass r.source.cls).ensureClass r.target.cls).addRelation r

end SchemaBridge.Diagram
