/-
  Where files are kept. The commands work on any store; a tree of files in memory is one.
-/

namespace SchemaBridge.CommandLine

/-- Why a store refuses. -/
inductive FileError
  | notFound | alreadyExists | notDirectory | isDirectory
  | /-- Any other reason, in words. -/ other (text : String)
  deriving DecidableEq, Repr

def FileError.message : FileError → String
  | notFound => "No such file or directory (os error 2)"
  | alreadyExists => "File exists (os error 17)"
  | notDirectory => "Not a directory (os error 20)"
  | isDirectory => "Is a directory (os error 21)"
  | other text => text

/-- What commands do with files. Paths are texts, with `/` between names. -/
class Store (m : Type → Type) where
  /-- There is a file or a directory at the path. -/
  isThere (path : String) : m Bool
  /-- The names in a directory. -/
  list (path : String) : m (Except FileError (List String))
  /-- The contents of a file. -/
  readText (path : String) : m (Except FileError String)
  /-- Makes a file, or replaces its contents. -/
  writeText (path contents : String) : m (Except FileError Unit)
  /-- Makes a directory and those above it, as far as they are missing. -/
  makeDirectory (path : String) : m (Except FileError Unit)

/-- The path of a name in a directory. -/
def joinPath (directory name : String) : String :=
  if directory.toList.getLast? = some '/' then directory ++ name else directory ++ "/" ++ name

end SchemaBridge.CommandLine
