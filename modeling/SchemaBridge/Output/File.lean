/-
  Generated files, made of indented lines.
-/

namespace SchemaBridge

/-- A file by its name within its directory. -/
structure GeneratedFile where
  name : String
  contents : String
  deriving DecidableEq, Repr

namespace Output

/-- A line, `depth` steps of four spaces to the right. -/
def line (depth : Nat) (text : String) : String :=
  String.join (List.replicate depth "    ") ++ text ++ "\n"

/-- Lines, all at one depth. -/
def block (depth : Nat) (texts : List String) : String :=
  String.join (texts.map (line depth))

/-- A name in single quotes. -/
def quote (name : String) : String :=
  "'" ++ name ++ "'"

/-- Names in single quotes, as a list in brackets. -/
def quoteAll (names : List String) : String :=
  "[" ++ ", ".intercalate (names.map quote) ++ "]"

end Output

end SchemaBridge
