import SeedTables.FileTree.Path

namespace SeedTables

inductive FileFault where
  | notFound
  | alreadyExists
  | notDirectory
  | isDirectory
  | nameTooLong
  | tooManyLinks
  | nulInName
  | notText
  deriving DecidableEq

def FileFault.message : FileFault → String
  | notFound => "No such file or directory (os error 2)"
  | alreadyExists => "File exists (os error 17)"
  | notDirectory => "Not a directory (os error 20)"
  | isDirectory => "Is a directory (os error 21)"
  | nameTooLong => "File name too long (os error 36)"
  | tooManyLinks => "Too many levels of symbolic links (os error 40)"
  | nulInName => "file name contained an unexpected NUL byte"
  | notText => "stream did not contain valid UTF-8"

/-- A place in the tree: the names from the root down. Names that are not valid UTF-8 are not
represented, neither here nor in the targets of links. -/
abbrev Location := List String

inductive Entry where
  | directory
  | file (content : ByteArray)
  | link (target : String)

instance : DecidableEq Entry
  | .directory, .directory => isTrue rfl
  | .file a, .file b =>
    match a.decEq b with
    | isTrue h => isTrue (congrArg Entry.file h)
    | isFalse h => isFalse fun same => h (Entry.file.inj same)
  | .link a, .link b =>
    if h : a = b then isTrue (congrArg Entry.link h)
    else isFalse fun same => h (Entry.link.inj same)
  | .directory, .file _ | .directory, .link _ | .file _, .directory | .file _, .link _
  | .link _, .directory | .link _, .file _ => isFalse nofun

/-- The entries below the root, in no particular order, and the directory where relative paths
start. -/
structure FileTree where
  entries : List (Location × Entry)
  workingDirectory : Location

namespace FileTree

/-- What is at a place. The root is always a directory. -/
def get? (t : FileTree) (place : Location) : Option Entry :=
  if place.isEmpty then some .directory
  else (t.entries.find? fun e => e.1 = place).map Prod.snd

def children (t : FileTree) (place : Location) : List (String × Entry) :=
  t.entries.filterMap fun e =>
    match e.1.getLast? with
    | some name => if e.1.dropLast = place then some (name, e.2) else none
    | none => none

def put (t : FileTree) (place : Location) (entry : Entry) : FileTree :=
  { t with entries := t.entries.filter (fun e => e.1 ≠ place) ++ [(place, entry)] }

/-- Takes away what is at a place, with everything below it. -/
def erase (t : FileTree) (place : Location) : FileTree :=
  { t with entries := t.entries.filter fun e => !place.isPrefixOf e.1 }

def greatestLinkCount : Nat := 40

def greatestNameLength : Nat := 255

def greatestPathLength : Nat := 4095

def origin (here : Location) (path : String) : Location :=
  if Path.isAbsolute path then [] else here

/-- A place that a path leads to, and what is there; the last name of the path may be free. -/
abbrev Spot := Location × Option Entry

/-- Follows names from a directory, and hands a link over to `jump` with the names that are left. A
link at the end is followed only if `follow` says so; names behind a file or a free name, even empty
ones, do not lead anywhere. -/
def walkNames (t : FileTree) (follow : Bool)
    (jump : Location → List String → Except FileFault Spot) (here : Location) :
    List String → Except FileFault Spot
  | [] => .ok (here, some .directory)
  | name :: rest =>
    if name.isEmpty || name = "." then walkNames t follow jump here rest
    else if name = ".." then walkNames t follow jump here.dropLast rest
    else if greatestNameLength < name.utf8ByteSize then .error .nameTooLong
    else
      let place := here ++ [name]
      match t.get? place with
      | none => if rest.isEmpty then .ok (place, none) else .error .notFound
      | some .directory => walkNames t follow jump place rest
      | some (.file content) =>
        if rest.isEmpty then .ok (place, some (.file content)) else .error .notDirectory
      | some (.link target) =>
        if rest.isEmpty && !follow then .ok (place, some (.link target))
        else jump (origin here target) (Path.names target ++ rest)

def walk (t : FileTree) (follow : Bool) :
    Nat → Location → List String → Except FileFault Spot
  | 0 => t.walkNames follow fun _ _ => .error .tooManyLinks
  | links + 1 => t.walkNames follow (walk t follow links)

def checkPath (path : String) : Except FileFault Unit :=
  if path.isEmpty then .error .notFound
  else if '\x00' ∈ path.toList then .error .nulInName
  else if greatestPathLength < path.utf8ByteSize then .error .nameTooLong
  else .ok ()

def locate (t : FileTree) (follow : Bool) (path : String) (names : List String) :
    Except FileFault Spot := do
  checkPath path
  t.walk follow greatestLinkCount (origin t.workingDirectory path) names

def resolve (t : FileTree) (follow : Bool) (path : String) :
    Except FileFault (Location × Entry) := do
  match ← t.locate follow path (Path.names path) with
  | (place, some entry) => return (place, entry)
  | (_, none) => throw .notFound

def isDirectory (t : FileTree) (path : String) : Bool :=
  match t.resolve true path with
  | .ok (_, .directory) => true
  | _ => false

def readText (t : FileTree) (path : String) : Except FileFault String := do
  match ← t.resolve true path with
  | (_, .file content) =>
    match String.fromUTF8? content with
    | some text => return text
    | none => throw .notText
  | _ => throw .isDirectory

end FileTree
end SeedTables
