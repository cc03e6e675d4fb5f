/-
  The program: it carries out the command that its arguments ask for on the files of the system.
-/
import SchemaBridge.CommandLine.FileTree
import SchemaBridge.CommandLine.Run
import Std.Time.Zoned

namespace SchemaBridge.CommandLine

/-- Why the system refused. Its number for the reason comes with either sign. -/
def FileError.ofFailure (e : IO.Error) : FileError :=
  match e with
  | .noFileOrDirectory .. => .notFound
  | .alreadyExists .. => .alreadyExists
  | .inappropriateType _ code _ =>
    if code = 20 ∨ code = 0 - 20 then .notDirectory
    else if code = 21 ∨ code = 0 - 21 then .isDirectory
    else .other e.toString
  | _ => .other e.toString

/-- Does something with files. -/
def attempt {α : Type} (action : IO α) : IO (Except FileError α) := do
  return (← action.toBaseIO).mapError FileError.ofFailure

/-- The paths of the directories above a path, the topmost first, and the path. -/
def pathsTo (path : String) : List String :=
  let names := (FileTree.names path).reverse.dropWhile (fun name => name == "" || name == ".")
  let above := names.tail.reverse
  (List.range above.length).map (fun n => "/".intercalate (above.take (n + 1))) ++ [path]

/-- Makes directories that may be there, and answers as the last of them does. -/
def makeAll : List String → IO (Except FileError Unit)
  | [] => return .ok ()
  | [path] => do
    match ← attempt (IO.FS.createDir path) with
    | .ok () => return .ok ()
    | .error e => return if ← ((← IO.currentDir) / path).isDir then .ok () else .error e
  | path :: rest => do
    let _ ← attempt (IO.FS.createDir path)
    makeAll rest

/-- The files of the system. -/
instance : Store IO where
  isThere path := do ((← IO.currentDir) / path).pathExists
  list path := attempt do
    return (← ((← IO.currentDir) / path).readDir).toList.map fun entry => entry.fileName
  readText path := attempt (IO.FS.readFile path)
  writeText path contents := attempt (IO.FS.writeFile path contents)
  makeDirectory path := makeAll (pathsTo path)

/-- A number with at least `width` digits. -/
def padded (width n : Nat) : String :=
  String.ofList ((Nat.toDigits 10 n).leftpad width '0')

/-- A time of day as the names of migrations begin: `2024_01_31_235959`. -/
def stampOf (t : Std.Time.PlainDateTime) : String :=
  padded 4 t.year.toNat ++ "_" ++ padded 2 t.month.toNat ++ "_" ++ padded 2 t.day.toNat ++ "_"
    ++ padded 2 t.hour.toNat ++ padded 2 t.minute.toNat ++ padded 2 t.second.toNat

/-- How the program is used. -/
def helpText : String :=
  "\n".intercalate
    ["Laravel migrations to class diagrams and back",
      "",
      "to-diagram OUTPUT     Read a migrations directory and write a class diagram",
      "  --path DIR                    Directory holding the migration files",
      "  --force                       Overwrite an existing output file",
      "  --include-default-migrations  Also read the migrations a new application comes with",
      "",
      "from-diagram INPUT    Read a class diagram and write migrations and models",
      "  --path-migrations DIR         Directory to write the migrations to",
      "  --path-models DIR             Directory to write the models to",
      "  --no-migrations               Write no migrations",
      "  --no-models                   Write no models",
      "  --composite-keys              Keep keys of several fields, without an id column",
      "  --no-timestamps               Leave the timestamp columns out",
      ""]

/-- What is wrong with the arguments, if anything is. -/
def Usage.fault? : Usage → Option String
  | help | version | missingCommand => none
  | invalidCommand => some "unrecognized subcommand"
  | missingArgument => some "a required argument was not provided"
  | unknownArgument => some "unexpected argument"
  | invalidValue => some "a value is required for an option"
  | tooManyValues => some "a value was given to an option that takes none"
  | conflict => some "an option was given more than once"

/-- Answers arguments that ask for no command, with the exit code. -/
def Usage.answer (u : Usage) : IO UInt32 :=
  match u, u.fault? with
  | version, _ => do IO.println "0.1.0"; return 0
  | help, _ => do IO.print helpText; return 0
  | _, some text => do IO.eprintln ("error: " ++ text ++ "\n\n" ++ helpText); return 2
  | _, none => do IO.eprint helpText; return 2

/-- Shows why a command fails. -/
def RunError.report (e : RunError) : IO Unit := do
  IO.eprintln ("error: " ++ e.message)
  if let some caret := e.caret then IO.eprintln caret

end SchemaBridge.CommandLine

open SchemaBridge.CommandLine

def main (args : List String) : IO UInt32 := do
  match Command.parse args with
  | .error usage => usage.answer
  | .ok command =>
    let stamp := stampOf (← Std.Time.PlainDateTime.now)
    match ← ExceptT.run (command.run (m := IO) stamp) with
    | .ok () => return 0
    | .error e => e.report; return 1
