/-
  Reading statements, and migration files with a statement in them.
-/
import SchemaBridge.Statement.Error
import SchemaBridge.Statement.Lexer
import SchemaBridge.Statement.Phrase
import SchemaBridge.Statement.TableChange

namespace SchemaBridge

namespace Statement

/-- The error of a parse that failed. -/
def errorOf (text : String) : ParseFailure LexFailure → ReadError
  | .source e => ⟨.unknownToken, text, e.text, e.offset⟩
  | .unknown token offset => ⟨.unknownToken, text, token, offset⟩
  | .nonassoc token offset => ⟨.nonAssociative, text, token, offset⟩
  | .unexpected token offset => ⟨.misplaced, text, token, offset⟩

/-- The derivation of a text as a statement. -/
def derive (text : String) : ParseOutcome Kind Part Role LexFailure :=
  automaton.parse (tokenize text) (Text.byteLength text.toList)

/-- The statement of an outcome. A parse that never ends, or a tree that stands for no statement,
counts as a fault at the end; the grammar of statements leads to neither. -/
def ofOutcome (text : String) : ParseOutcome Kind Part Role LexFailure → Except ReadError Statement
  | .failed cause _ => .error (errorOf text cause)
  | .accepted tree =>
    match ofTree? tree with
    | some s => .ok s
    | none => .error (errorOf text (.unexpected "" (Text.byteLength text.toList)))
  | .endless _ => .error (errorOf text (.unexpected "" (Text.byteLength text.toList)))

/-- Reads a statement. -/
def read (text : String) : Except ReadError Statement :=
  ofOutcome text (derive text)

/-- The text up to the first occurrence of `mark` and with it. -/
def upTo (mark : List Char) (s : List Char) : Option (List Char) :=
  if mark.isPrefixOf s then some mark
  else match s with
    | [] => none
    | c :: rest => (upTo mark rest).map (c :: ·)

/-- The facade at the head of every statement. -/
def facade : List Char := ['S', 'c', 'h', 'e', 'm', 'a', ':', ':']

/-- The text begins with a call of the facade that changes a table. -/
def beginsStatement (s : List Char) : Bool :=
  [['c', 'r', 'e', 'a', 't', 'e', '('], ['t', 'a', 'b', 'l', 'e', '('], ['d', 'r', 'o', 'p']].any
    fun call => (facade ++ call).isPrefixOf s

/-- The statement at the head of a text: up to the first `;` if it drops a table, else to the
end of its closure. -/
def statementAt (s : List Char) : Option (List Char) :=
  if (facade ++ ['d', 'r', 'o', 'p']).isPrefixOf s then upTo [';'] s
  else upTo ['\x7d', ')', ';'] s

/-- The first statement in the text of a migration, which is the one that it applies. -/
def definitionIn (s : List Char) : Option (List Char) :=
  if beginsStatement s then statementAt s
  else match s with
    | [] => none
    | _ :: rest => definitionIn rest

/-- The first statement in the text of a migration. -/
def definition (source : String) : Option String :=
  (definitionIn source.toList).map String.ofList

end Statement

namespace Schema

/-- Applies a statement given as text. -/
def migrate (s : Schema) (text : String) : Except Statement.ReadError Schema :=
  (Statement.read text).map fun statement => statement.apply s

/-- Applies the statements of migrations, given as texts, one after the other; a migration without
a statement changes nothing. -/
def migrateAll (s : Schema) (sources : List String) : Except Statement.ReadError Schema :=
  sources.foldlM
    (fun s source => match Statement.definition source with
      | some text => s.migrate text
      | none => .ok s)
    s

end Schema

end SchemaBridge
