/-! # File trees

The files and directories below one directory, the origin; of what is not below it only the
directories on the way to it are known.  A path is a text with slashes, relative to the origin or
absolute.  Dots and empty steps stay where they are, two dots go up as long as there is something
above, and every step but the last has to end in a directory.
-/
namespace Shorthand

/-- The names on the way from the origin to a file or directory. -/
abbrev Location := List String

inductive FileEntry where
  | file (content : ByteArray)
  | directory
deriving Inhabited

structure FileTree where
  /-- The absolute path of the origin. -/
  origin : String
  entries : List (Location × FileEntry) := []

namespace FileTree

def steps (path : String) : List String :=
  (path.toList.splitOnP (· == '/')).map String.ofList

def join (root name : String) : String :=
  if root.isEmpty || root.toList.getLast? = some '/' then root ++ name else root ++ "/" ++ name

def entryAt (tree : FileTree) (location : Location) : Option FileEntry :=
  if location.isEmpty then some .directory else tree.entries.lookup location

def isDirectory (tree : FileTree) (location : Location) : Bool :=
  match tree.entryAt location with
  | some .directory => true
  | _ => false

/-- The place of the origin: the names on the way to it from the root of all directories. -/
def way (tree : FileTree) : List String :=
  (steps tree.origin).filter fun step => step != "" && step != "."

/-- The location of a place that is not outside of the origin. -/
def below? (tree : FileTree) (place : List String) : Option Location :=
  if tree.way.isPrefixOf place then some (place.drop tree.way.length) else none

/-- Whether steps can be taken from a place, below the origin or on the way to it. -/
def isOpen (tree : FileTree) (place : List String) : Bool :=
  place.isPrefixOf tree.way || (tree.below? place).any tree.isDirectory

/-- Follows steps from a place on.  The last one need not be there. -/
def walk (tree : FileTree) : List String → List String → Option (List String)
  | place, [] => some place
  | place, step :: rest =>
    if !tree.isOpen place then none
    else if step = "" || step = "." then walk tree place rest
    else if step = ".." then walk tree place.dropLast rest
    else walk tree (place ++ [step]) rest

def base (tree : FileTree) (path : String) : List String :=
  if path.toList.head? = some '/' then [] else tree.way

def place? (tree : FileTree) (path : String) : Option (List String) :=
  tree.walk (tree.base path) (steps path)

def locate (tree : FileTree) (path : String) : Option Location :=
  (tree.place? path).bind tree.below?

def read (tree : FileTree) (path : String) : Option ByteArray :=
  match (tree.locate path).bind tree.entryAt with
  | some (.file content) => some content
  | _ => none

def put (location : Location) (entry : FileEntry) :
    List (Location × FileEntry) → List (Location × FileEntry)
  | [] => [(location, entry)]
  | (other, old) :: rest =>
    if other = location then (location, entry) :: rest else (other, old) :: put location entry rest

/-- Writes a file, unless there is a directory at its path or none around it. -/
def write (tree : FileTree) (path : String) (content : ByteArray) : Option FileTree := do
  let location ← tree.locate path
  if tree.isDirectory location then none
  else some { tree with entries := put location (.file content) tree.entries }

/-- Adds a file or directory together with the directories around it. -/
def add (tree : FileTree) (location : Location) (entry : FileEntry) : FileTree :=
  let around := (List.range location.length).map location.take
  let parents := around.filter fun outer => !tree.isDirectory outer
  { tree with
    entries := put location entry
      (parents.foldl (fun entries outer => put outer .directory entries) tree.entries) }

/-- The files that another tree does not have in the same state. -/
def filesBeyond (tree before : FileTree) : List (Location × ByteArray) :=
  tree.entries.filterMap fun (location, entry) =>
    match entry, before.entryAt location with
    | .file content, some (.file old) =>
      if content.data = old.data then none else some (location, content)
    | .file content, _ => some (location, content)
    | .directory, _ => none

end FileTree

end Shorthand
