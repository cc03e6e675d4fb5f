/-
  A tree of files in memory.
-/
import SchemaBridge.CommandLine.Store
import SchemaBridge.Text.Affix

namespace SchemaBridge.CommandLine

/-- A file with its contents, or a directory. -/
inductive FileNode
  | file (contents : String)
  | directory
  deriving DecidableEq, Repr

/-- The nodes below the working directory, by the names that lead to them. -/
structure FileTree where
  nodes : List (List String × FileNode) := []
  deriving DecidableEq, Repr

namespace FileTree

/-- A place that is always a directory: the working directory and those above it. -/
def isGround (place : List String) : Bool :=
  place.all (· == "..") || place == ["/"]

/-- The node at a place. -/
def node? (t : FileTree) (place : List String) : Option FileNode :=
  if isGround place then some .directory else t.nodes.lookup place

/-- Puts a node at a place. -/
def set (t : FileTree) (place : List String) (node : FileNode) : FileTree :=
  ⟨t.nodes.filter (·.1 != place) ++ [(place, node)]⟩

/-- The place above a place. -/
def parent (place : List String) : List String :=
  if place == ["/"] then place
  else if place.all (· == "..") then place ++ [".."]
  else place.dropLast

/-- The place that a name leads to from a directory. -/
def child (place : List String) (name : String) : List String :=
  if name = ".." then parent place
  else if name = "." ∨ name = "" then place
  else place ++ [name]

/-- The names of a path. -/
def names (path : String) : List String :=
  (Text.splitAt '/' path.toList).map String.ofList

/-- The names of a path without the slashes at its end. -/
def nodeNames (path : String) : List String :=
  ((names path).reverse.dropWhile (· == "")).reverse

/-- Where a path begins: at the root or in the working directory. -/
def origin (path : String) : List String :=
  if path.toList.head? = some '/' then ["/"] else []

/-- The node at the end of a chain of names, with its place; all names but the last lead through
directories. -/
def walk (t : FileTree) (place : List String) : List String → Except FileError (List String × FileNode)
  | [] =>
    match t.node? place with
    | some node => .ok (place, node)
    | none => .error .notFound
  | name :: rest =>
    match t.node? place with
    | some .directory => t.walk (child place name) rest
    | some (.file _) => .error .notDirectory
    | none => .error .notFound

/-- The node of a path. -/
def find (t : FileTree) (path : String) : Except FileError (List String × FileNode) :=
  if path = "" then .error .notFound else t.walk (origin path) (names path)

def isThere (t : FileTree) (path : String) : Bool :=
  match t.find path with
  | .ok _ => true
  | .error _ => false

/-- The names in the directory at a place. -/
def namesAt (t : FileTree) (place : List String) : List String :=
  t.nodes.filterMap fun n =>
    if n.1.dropLast = place then n.1.getLast? else none

def list (t : FileTree) (path : String) : Except FileError (List String) :=
  match t.find path with
  | .ok (place, .directory) => .ok (t.namesAt place)
  | .ok (_, .file _) => .error .notDirectory
  | .error e => .error e

def readText (t : FileTree) (path : String) : Except FileError String :=
  match t.find path with
  | .ok (_, .file contents) => .ok contents
  | .ok (_, .directory) => .error .isDirectory
  | .error e => .error e

def writeText (t : FileTree) (path contents : String) : Except FileError FileTree :=
  match (nodeNames path).getLast? with
  | none => .error (if path = "" then .notFound else .isDirectory)
  | some last =>
    match t.walk (origin path) (nodeNames path).dropLast with
    | .error e => .error e
    | .ok (_, .file _) => .error .notDirectory
    | .ok (place, .directory) =>
      if last = "." ∨ last = ".." ∨ (names path).getLast? = some "" then .error .isDirectory
      else if t.node? (child place last) = some .directory then .error .isDirectory
      else .ok (t.set (child place last) (.file contents))

/-- Makes the directories that a chain of names leads through. -/
def makeFrom (t : FileTree) (place : List String) : List String → Except FileError FileTree
  | [] => .ok t
  | name :: rest =>
    let next := child place name
    match t.node? next with
    | some .directory => t.makeFrom next rest
    | some (.file _) => .error (if rest.isEmpty then .alreadyExists else .notDirectory)
    | none => (t.set next .directory).makeFrom next rest

/-- Makes a directory and those above it; one that is called `.` has to be there. -/
def makeDirectory (t : FileTree) (path : String) : Except FileError FileTree :=
  if (nodeNames path).getLast? = some "." then (t.find path).map fun _ => t
  else t.makeFrom (origin path) (nodeNames path)

/-- The tree after an operation, or as it was if the operation is refused. -/
def orElse (t : FileTree) (result : Except FileError FileTree) : FileTree :=
  match result with
  | .ok u => u
  | .error _ => t

/-- Adds a file, or a directory if there are no contents, and the directories above it. -/
def add (t : FileTree) (path : String) (contents : Option String) : FileTree :=
  match contents with
  | none => t.orElse (t.makeDirectory path)
  | some text =>
    let above := t.orElse (t.makeFrom (origin path) (nodeNames path).dropLast)
    above.orElse (above.writeText path text)

/-- A tree that holds the given files and directories. -/
def ofList (entries : List (String × Option String)) : FileTree :=
  entries.foldl (fun t e => t.add e.1 e.2) {}

/-- A place outside the working directory. -/
def isOutside (place : List String) : Bool :=
  place.head? == some ".." || place.head? == some "/"

/-- The files below the working directory with their paths. -/
def files (t : FileTree) : List (String × String) :=
  t.nodes.filterMap fun n =>
    match n.2 with
    | .file contents => if isOutside n.1 then none else some ("/".intercalate n.1, contents)
    | .directory => none

end FileTree

instance : Store (StateM FileTree) where
  isThere path := return (← get).isThere path
  list path := return (← get).list path
  readText path := return (← get).readText path
  writeText path contents := do
    match (← get).writeText path contents with
    | .ok t => set t; return .ok ()
    | .error e => return .error e
  makeDirectory path := do
    match (← get).makeDirectory path with
    | .ok t => set t; return .ok ()
    | .error e => return .error e

end SchemaBridge.CommandLine
