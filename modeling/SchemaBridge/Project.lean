/-
  The two ways across: from migrations to a schema and its diagram, and from a diagram to
  migrations and models.
-/
import SchemaBridge.Diagram.Read
import SchemaBridge.Diagram.Write
import SchemaBridge.Output.Migration
import SchemaBridge.Output.Model
import SchemaBridge.Statement.Read

namespace SchemaBridge

/-- The migrations that a new application comes with. -/
def stockMigrations : List String :=
  ["2014_10_12_000000_create_users_table.php",
    "2014_10_12_100000_create_password_reset_tokens_table.php",
    "2019_08_19_000000_create_failed_jobs_table.php",
    "2019_12_14_000001_create_personal_access_tokens_table.php"]

/-- Whether a file is left out, stock migrations being `skipped` or not. -/
def isLeftOut (skipped : Bool) (name : String) : Bool :=
  skipped && stockMigrations.contains name

/-- A migration that cannot be read, by the name of its file. -/
structure ImportError where
  file : String
  cause : Statement.ReadError
  deriving DecidableEq, Repr

def ImportError.message (e : ImportError) : String :=
  e.file ++ ": " ++ e.cause.message

/-- Applies a migration file to a schema. -/
def Schema.importFile (skipStock : Bool) (s : Schema) (file : GeneratedFile) :
    Except ImportError Schema :=
  if isLeftOut skipStock file.name then .ok s
  else match Statement.definition file.contents with
    | none => .ok s
    | some text => (s.migrate text).mapError fun e => ⟨file.name, e⟩

/-- The schema that migration files build up, applied in the given order. -/
def importMigrations (files : List GeneratedFile) (skipStock : Bool) :
    Except ImportError Schema :=
  files.foldlM (Schema.importFile skipStock) Schema.empty

/-- What a schema is turned into. -/
structure Generated where
  plan : Plan
  migrations : List GeneratedFile
  models : List GeneratedFile

/-- The plan, the migrations and the models of a schema. -/
def generate (s : Schema) (options : Options) : Generated :=
  let plan := (s.plan options).2
  { plan
    migrations := Output.migrations plan options
    models := Output.models s plan options }

/-- The migrations of a diagram as one text, each after a comment with its name. -/
def migrationsOfDiagram (text : String) (composite : Bool) :
    Except Diagram.DiagramError String :=
  (Diagram.read text).map fun s =>
    String.join <| (generate s { compositeKeys := composite }).migrations.map fun f =>
      "// " ++ f.name ++ "\n" ++ f.contents ++ "\n"

end SchemaBridge
