/-
  Migration files: a statement that makes a change and one that undoes it.
-/
import SchemaBridge.Output.Line

namespace SchemaBridge.Output

/-- The lines of a statement on a table with a body. -/
def statementLines (action table : String) (body : List Chain) : List String :=
  ["Schema::" ++ action ++ "('" ++ table ++ "', function (Blueprint $table) \x7b"]
    ++ body.map (fun c => "    " ++ chainText c) ++ ["\x7d);"]

/-- The line that drops a table. -/
def dropLines (table : String) : List String :=
  ["Schema::dropIfExists('" ++ table ++ "');"]

/-- A method of a migration. -/
def methodText (name : String) (body : List String) : String :=
  line 1 ("public function " ++ name ++ "(): void") ++ line 1 "\x7b" ++ block 2 body
    ++ line 1 "\x7d"

/-- What stands before the methods of a migration. -/
def migrationHeader : String :=
  "<?php\n\nuse Illuminate\\Database\\Migrations\\Migration;\n"
    ++ "use Illuminate\\Database\\Schema\\Blueprint;\n"
    ++ "use Illuminate\\Support\\Facades\\Schema;\n\n"
    ++ "return new class extends Migration\n\x7b\n"

/-- A migration, from the lines of its two methods. -/
def migrationText (up down : List String) : String :=
  migrationHeader ++ methodText "up" up ++ "\n" ++ methodText "down" down ++ "\x7d;\n"

/-- The name of a migration file. -/
def migrationName (stamp : String) (index : Nat) (action : String) : String :=
  stamp ++ "_" ++ toString index ++ "_" ++ action ++ ".php"

/-- A migration without its name: what the name says it does, and its text. -/
structure Draft where
  action : String
  contents : String

/-- The migration that makes a table. -/
def createDraft (table : String) (body : List Chain) : Draft where
  action := "create_" ++ table ++ "_table"
  contents := migrationText (statementLines "create" table body) (dropLines table)

/-- The migration that adds a foreign key. -/
def addKeyDraft (k : Plan.ForeignKey) : Draft where
  action := "add_" ++ k.target ++ "_foreign_key_to_" ++ k.table ++ "_table"
  contents :=
    migrationText (statementLines "table" k.table (foreignKeyChains k))
      (statementLines "table" k.table (dropKeyChains k))

/-- The migrations of a plan, in the order they are to be applied. -/
def drafts (p : Plan) (timestamps : Bool) : List Draft :=
  p.tables.map (fun t => createDraft t.table (tableChains t timestamps))
    ++ p.junctions.map (fun j => createDraft j.table (junctionChains j timestamps))
    ++ p.deferred.map addKeyDraft

/-- The migration files of a plan, numbered from one. -/
def migrations (p : Plan) (options : Options) : List GeneratedFile :=
  ((drafts p options.timestamps).zipIdx 1).map fun d =>
    ⟨migrationName options.stamp d.2 d.1.action, d.1.contents⟩

end SchemaBridge.Output
