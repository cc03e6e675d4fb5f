/-
  Carrying out commands.
-/
import SchemaBridge.CommandLine.Arguments
import SchemaBridge.CommandLine.Store
import SchemaBridge.Project

namespace SchemaBridge.CommandLine

/-- Why a command fails. -/
inductive RunError
  | migration (cause : ImportError)
  | diagram (cause : Diagram.DiagramError)
  | file (path : String) (cause : FileError)
  | /-- The output is there already. -/ alreadyThere (path : String)
  deriving DecidableEq, Repr

def RunError.message : RunError → String
  | migration cause => cause.message
  | diagram cause => "Diagram error: " ++ cause.message
  | file path cause => path ++ ": " ++ cause.message
  | alreadyThere path => path ++ " already exists, use --force to overwrite"

/-- What is shown below the message: the place in a migration. -/
def RunError.caret : RunError → Option String
  | migration cause => cause.cause.caret
  | _ => none

variable {m : Type → Type} [Monad m] [Store m]

/-- An answer of the store about a path. -/
def asking {α : Type} (path : String) (answer : m (Except FileError α)) : ExceptT RunError m α :=
  ExceptT.mk do
    match ← answer with
    | .ok a => return .ok a
    | .error e => return .error (.file path e)

/-- The file is a migration, by its name. -/
def isMigration (name : String) : Bool :=
  name.length > 4 && name.toList.drop (name.length - 4) == ['.', 'p', 'h', 'p']

/-- The migration files of a directory, by name. -/
def readMigrations (directory : String) : ExceptT RunError m (List GeneratedFile) := do
  let names ← asking directory (Store.list directory)
  (((names.filter isMigration).mergeSort fun a b => a ≤ b)).mapM fun name => do
    let path := joinPath directory name
    return ⟨name, ← asking path (Store.readText path)⟩

/-- Writes the diagram of the migrations in a directory. -/
def toDiagram (output directory : String) (force includeStock : Bool) :
    ExceptT RunError m Unit := do
  if (← Store.isThere (m := m) output) && !force then
    throw (.alreadyThere output)
  let files ← readMigrations directory
  match importMigrations files (!includeStock) with
  | .error e => throw (.migration e)
  | .ok s => asking output (Store.writeText output (Diagram.write s))

/-- Writes files to a directory. -/
def writeFiles (directory : String) (files : List GeneratedFile) : ExceptT RunError m Unit := do
  asking directory (Store.makeDirectory directory)
  files.forM fun file =>
    let path := joinPath directory file.name
    asking path (Store.writeText path file.contents)

/-- Writes the migrations and the models of a diagram. -/
def fromDiagram (input : String) (migrations models : Option String) (options : Options) :
    ExceptT RunError m Unit := do
  let text ← asking input (Store.readText input)
  match Diagram.read text with
  | .error e => throw (.diagram e)
  | .ok s =>
    let generated := generate s options
    if let some directory := migrations then writeFiles directory generated.migrations
    if let some directory := models then writeFiles directory generated.models

/-- Carries out a command. `stamp` is what the names of migration files begin with. -/
def Command.run (stamp : String) : Command → ExceptT RunError m Unit
  | toDiagram output migrations force includeStock =>
    CommandLine.toDiagram output migrations force includeStock
  | fromDiagram input migrations models compositeKeys timestamps =>
    CommandLine.fromDiagram input migrations models { compositeKeys, timestamps, stamp }

end SchemaBridge.CommandLine
