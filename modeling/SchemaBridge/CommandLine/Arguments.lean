/-
  The arguments of the command line.
-/
import SchemaBridge.Text.Affix

namespace SchemaBridge.CommandLine

/-- Why arguments are not carried out: they ask for help, or there is something wrong with them. -/
inductive Usage
  | help
  | version
  | missingCommand
  | invalidCommand
  | missingArgument
  | unknownArgument
  | /-- An option without its value. -/ invalidValue
  | /-- A value for an option that takes none. -/ tooManyValues
  | /-- An option given twice. -/ conflict
  deriving DecidableEq, Repr

/-- What a command can be given, apart from its one file. -/
structure Spec where
  /-- Options without a value. -/
  flags : List String
  /-- Options with a value. -/
  values : List String

/-- An argument whose value is not settled yet. -/
inductive Pending
  | none
  | /-- An option, with its value if that was read. -/ option (name : String) (value : Option String)
  | file (value : String)
  deriving DecidableEq, Repr

/-- What has been read so far. -/
structure Parsed where
  flags : List String := []
  values : List (String × String) := []
  file : Option String := .none
  pending : Pending := .none
  deriving DecidableEq, Repr

namespace Parsed

/-- Stores the value of an option. -/
def addValue (p : Parsed) (name value : String) : Except Usage Parsed :=
  if (p.values.lookup name).isSome then .error .conflict
  else if value = "" then .error .invalidValue
  else .ok { p with values := p.values ++ [(name, value)] }

/-- Settles the argument under way. -/
def settle (p : Parsed) : Except Usage Parsed :=
  match p.pending with
  | .none => .ok p
  | .option _ .none => .error .invalidValue
  | .option name (some value) => { p with pending := .none }.addValue name value
  | .file value =>
    if value = "" then .error .invalidValue
    else .ok { p with file := some value, pending := .none }

/-- A file has been named already. -/
def hasFile (p : Parsed) : Bool :=
  p.file.isSome || match p.pending with
    | .file _ => true
    | _ => false

/-- Takes the name of the file. -/
def addFile (p : Parsed) (value : String) : Except Usage Parsed :=
  if p.hasFile then .error .unknownArgument
  else p.settle.map fun q => { q with pending := .file value }

/-- Takes a flag. -/
def addFlag (p : Parsed) (name : String) : Except Usage Parsed :=
  match p.settle with
  | .error e => .error e
  | .ok q =>
    if q.flags.contains name then .error .conflict
    else .ok { q with flags := q.flags ++ [name] }

/-- Asks for help, once the argument under way is settled. -/
def askHelp (p : Parsed) : Except Usage Parsed :=
  match p.settle with
  | .error e => .error e
  | .ok _ => .error .help

end Parsed

/-- The name of a long option, without its dashes, and its value if it has one. -/
def splitOption (body : List Char) : String × Option String :=
  let name := String.ofList (body.takeWhile (· != '='))
  match body.dropWhile (· != '=') with
  | _ :: value => (name, some (String.ofList value))
  | [] => (name, none)

/-- Takes a long option, given without its dashes. -/
def Spec.addLong (spec : Spec) (p : Parsed) (body : List Char) : Except Usage Parsed :=
  let (name, value) := splitOption body
  if name = "help" ∨ spec.flags.contains name then
    if value.isSome then .error .tooManyValues
    else if name = "help" then p.askHelp
    else p.addFlag name
  else if spec.values.contains name then
    match p.settle, value with
    | .error e, _ => .error e
    | .ok q, some value => q.addValue name value
    | .ok q, none => .ok { q with pending := .option name none }
  else .error .unknownArgument

/-- Takes an argument that is no option. -/
def addPlain (p : Parsed) (arg : String) : Except Usage Parsed :=
  match p.pending with
  | .option name .none => .ok { p with pending := .option name (some arg) }
  | _ => p.addFile arg

/-- Takes an argument, before any `--`. -/
def Spec.add (spec : Spec) (p : Parsed) (arg : String) : Except Usage Parsed :=
  match arg.toList with
  | '-' :: '-' :: body => spec.addLong p body
  | '-' :: 'h' :: _ => p.askHelp
  | '-' :: _ :: _ => .error .unknownArgument
  | _ => addPlain p arg

/-- Takes arguments. Behind `--` none is an option. -/
def Spec.addAll (spec : Spec) (p : Parsed) : List String → Except Usage Parsed
  | [] => .ok p
  | "--" :: rest => rest.foldlM Parsed.addFile p
  | arg :: rest =>
    match spec.add p arg with
    | .error e => .error e
    | .ok q => spec.addAll q rest

/-- What a command was given. -/
structure Given where
  file : String
  flags : List String
  values : List (String × String)
  deriving DecidableEq, Repr

/-- Whether a flag was given. -/
def Given.has (g : Given) (flag : String) : Bool :=
  g.flags.contains flag

/-- The value of an option, or what it is without. -/
def Given.value (g : Given) (name default : String) : String :=
  (g.values.lookup name).getD default

/-- The arguments of a command, all of them. -/
def Spec.parse (spec : Spec) (args : List String) : Except Usage Given :=
  match (spec.addAll {} args).bind Parsed.settle with
  | .error e => .error e
  | .ok p =>
    match p.file with
    | some file => .ok ⟨file, p.flags, p.values⟩
    | none => .error .missingArgument

/-- What the program is asked to do. -/
inductive Command
  | /-- Read the migrations in a directory and write a diagram. -/
    toDiagram (output migrations : String) (force includeStock : Bool)
  | /-- Read a diagram and write migrations and models, each to a directory if wanted. -/
    fromDiagram (input : String) (migrations models : Option String)
      (compositeKeys timestamps : Bool)
  deriving DecidableEq, Repr

def toDiagramSpec : Spec where
  flags := ["force", "include-default-migrations"]
  values := ["path"]

def fromDiagramSpec : Spec where
  flags := ["no-migrations", "no-models", "composite-keys", "no-timestamps"]
  values := ["path-migrations", "path-models"]

/-- Where migrations are, unless said otherwise. -/
def migrationsDirectory : String := "database/migrations"

/-- Where models are, unless said otherwise. -/
def modelsDirectory : String := "app/Models"

def Command.ofToDiagram (g : Given) : Command :=
  .toDiagram g.file (g.value "path" migrationsDirectory) (g.has "force")
    (g.has "include-default-migrations")

def Command.ofFromDiagram (g : Given) : Command :=
  .fromDiagram g.file
    (if g.has "no-migrations" then none else some (g.value "path-migrations" migrationsDirectory))
    (if g.has "no-models" then none else some (g.value "path-models" modelsDirectory))
    (g.has "composite-keys") (!g.has "no-timestamps")

def commandNames : List String :=
  ["to-diagram", "from-diagram", "help"]

/-- Help on a command; no command has others below it. -/
def helpOn : List String → Usage
  | [] => .help
  | [name] => if commandNames.contains name then .help else .invalidCommand
  | _ => .invalidCommand

/-- An option where a command is expected. -/
def topOption (body : List Char) : Usage :=
  let (name, value) := splitOption body
  if name = "help" ∨ name = "version" then
    if value.isSome then .tooManyValues
    else if name = "help" then .help
    else .version
  else .unknownArgument

/-- Behind `--` a command can no longer be given. -/
def afterDashes : List String → Usage
  | [] => .missingCommand
  | arg :: _ => if commandNames.contains arg then .unknownArgument else .invalidCommand

/-- The command that the arguments of the program ask for. -/
def Command.parse : List String → Except Usage Command
  | [] => .error .missingCommand
  | "to-diagram" :: args => (toDiagramSpec.parse args).map ofToDiagram
  | "from-diagram" :: args => (fromDiagramSpec.parse args).map ofFromDiagram
  | "help" :: args => .error (helpOn args)
  | "--" :: args => .error (afterDashes args)
  | arg :: _ =>
    match arg.toList with
    | '-' :: '-' :: body => .error (topOption body)
    | '-' :: 'h' :: _ => .error .help
    | '-' :: 'V' :: _ => .error .version
    | '-' :: _ :: _ => .error .unknownArgument
    | _ => .error .invalidCommand

end SchemaBridge.CommandLine
