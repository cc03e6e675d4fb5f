/-
  The words and signs of migration statements.
-/
import SchemaBridge.Schema.ColumnType

namespace SchemaBridge.Statement

/-- The kinds of tokens in a migration statement. -/
inductive Kind
  | /-- `Schema` -/ facade
  | /-- `::` -/ doubleColon
  | create
  | /-- `table` -/ modify
  | drop
  | function
  | /-- A `$` name, such as `$table`. -/ tableVar
  | /-- Any word without a meaning of its own. -/ word
  | /-- `->` -/ arrow
  | /-- A column method, such as `string`. -/ type
  | /-- A method that declares columns of fixed names. -/ nameless
  | modifier
  | foreign
  | foreignId
  | /-- `references` or `on` -/ location
  | dropColumn
  | dropForeign
  | /-- A text in quotes. -/ text
  | number
  | openParen
  | closeParen
  | comma
  | openBracket
  | closeBracket
  | openBrace
  | closeBrace
  | semicolon
  deriving DecidableEq, Repr

/-- What follows the last backslash of a qualified name. -/
def unqualified (word : List Char) : List Char :=
  (word.reverse.takeWhile (· != '\\')).reverse

/-- Words with a kind of their own, column methods apart. -/
def keywords : List (String × Kind) :=
  [("Schema", .facade), ("create", .create), ("table", .modify), ("drop", .drop),
    ("dropIfExists", .drop), ("function", .function), ("id", .nameless),
    ("rememberToken", .nameless), ("timestamps", .nameless), ("timestampsTz", .nameless),
    ("nullableTimestamps", .nameless), ("softDeletes", .nameless), ("softDeletesTz", .nameless),
    ("unique", .modifier), ("nullable", .modifier), ("primary", .modifier),
    ("foreign", .foreign), ("foreignId", .foreignId), ("foreignUuid", .foreignId),
    ("foreignUlid", .foreignId), ("references", .location), ("on", .location),
    ("dropColumn", .dropColumn), ("dropForeign", .dropForeign)]

/-- The kind of a word, by its last part if it is qualified. -/
def Kind.ofWord (word : List Char) : Kind :=
  let name := String.ofList (unqualified word)
  match keywords.lookup name with
  | some kind => kind
  | none => if (ColumnType.ofMethod? name).isSome then .type else .word

/-- The kind of a sign of one character. -/
def Kind.ofSign? (c : Char) : Option Kind :=
  match c with
  | '(' => some .openParen
  | ')' => some .closeParen
  | ',' => some .comma
  | '[' => some .openBracket
  | ']' => some .closeBracket
  | '{' => some .openBrace
  | '}' => some .closeBrace
  | ';' => some .semicolon
  | _ => none

/-- Chained calls without effect on the schema: `->name(…)` is left out with its arguments. -/
def ignoredCalls : List (List Char) :=
  ["after", "cascadeOnDelete", "cascadeOnUpdate", "change", "comment", "constrained", "default",
    "index", "noActionOnDelete", "nullOnDelete", "onDelete", "onUpdate", "restrictOnDelete",
    "restrictOnUpdate", "unsigned", "useCurrent", "useCurrentOnUpdate"].map String.toList

end SchemaBridge.Statement
