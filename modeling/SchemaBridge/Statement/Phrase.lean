/-
  From derivation trees to statements: every part of a statement has a meaning, found from the
  meanings of its own parts.
-/
import SchemaBridge.Statement.Call
import SchemaBridge.Statement.Rules

namespace SchemaBridge.Statement

/-- The meaning of a part of a statement. -/
inductive Phrase
  | token (token : Token Kind)
  | names (names : List String)
  | modifiers (keywords : List String)
  | /-- One of the calls that say where a key points. -/
    target (keyword : String) (columns : List String)
  | /-- The table a key points at, if it is named. -/ located (table : Option String)
  | calls (calls : List Call)
  | head (action : TableAction) (table : String)
  | statement (statement : Statement)
  | /-- Nothing of importance. -/ nothing

namespace Phrase

/-- The names in a phrase: those of a list, or a text. -/
def nameList : Phrase → List String
  | token t => if t.kind = .text then [t.text] else []
  | names ns => ns
  | _ => []

/-- The modifiers that are phrases of a list. -/
def modifiersIn (parts : List Phrase) : List String :=
  parts.flatMap fun
    | modifiers ks => ks
    | _ => []

/-- The calls that are phrases of a list. -/
def callsIn (parts : List Phrase) : List Call :=
  parts.flatMap fun
    | calls cs => cs
    | _ => []

/-- The table that the last `on` of a list names. -/
def tableIn (parts : List Phrase) : Option String :=
  parts.foldl
    (fun found part => match part with
      | target keyword columns => if keyword = "on" then columns.head? else found
      | _ => found)
    none

/-- The table of the first located phrase of a list. -/
def locationIn (parts : List Phrase) : Option String :=
  parts.findSome? fun
    | located table => table
    | _ => none

/-- The meaning of a whole from the meanings of its parts. -/
def compose : Role → List Phrase → Phrase
  | .block, head action table :: parts => statement ⟨action, table, callsIn parts⟩
  | .dropTable, [_, _, _, _, token table, _, _] => statement ⟨.drop, table.text, []⟩
  | .createHead, _ :: _ :: _ :: _ :: token table :: _ => head .create table.text
  | .modifyHead, _ :: _ :: _ :: _ :: token table :: _ => head .modify table.text
  | .lines, parts => calls (callsIn parts)
  | .line, parts => calls (callsIn parts)
  | .column, token method :: _ :: token name :: parts =>
    calls [.column method.text name.text (modifiersIn parts)]
  | .nameless, token method :: parts => calls [.nameless method.text (modifiersIn parts)]
  | .modifierCall, token keyword :: _ :: columns :: _ =>
    calls [.modifier keyword.text columns.nameList]
  | .foreign, _ :: _ :: columns :: parts =>
    calls [.foreignKey columns.nameList (locationIn parts) (modifiersIn parts)]
  | .foreignId, _ :: _ :: column :: parts =>
    calls [.foreignKey column.nameList (locationIn parts) (modifiersIn parts)]
  | .dropColumn, _ :: _ :: columns :: _ => calls [.dropColumns columns.nameList]
  | .dropForeign, _ :: _ :: columns :: _ => calls [.dropForeign columns.nameList]
  | .located, parts => located (tableIn parts)
  | .target, _ :: token keyword :: _ :: columns :: _ => target keyword.text columns.nameList
  | .modifiers, parts => modifiers (modifiersIn parts)
  | .modifier, _ :: token keyword :: _ => modifiers [keyword.text]
  | .names, parts => names (parts.flatMap nameList)
  | _, _ => nothing

end Phrase

end SchemaBridge.Statement

namespace SchemaBridge

/-- The statement that a derivation tree stands for. -/
def Statement.ofTree? (tree : Tree Statement.Kind Statement.Part Statement.Role) :
    Option Statement :=
  match tree.fold Statement.Phrase.token Statement.Phrase.compose with
  | .statement s => some s
  | _ => none

end SchemaBridge
