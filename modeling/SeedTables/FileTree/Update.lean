import SeedTables.FileTree.Basic

namespace SeedTables.FileTree

/-- Makes one directory. Nothing may be in its place, not even a link that leads nowhere. -/
def makeDirectory (t : FileTree) (path : String) : Except FileFault FileTree := do
  match ← t.locate false path (Path.namesToLast path) with
  | (place, none) => return t.put place .directory
  | (_, some _) => throw .alreadyExists

def ensureDirectory (t : FileTree) (path : String) : Except FileFault FileTree :=
  match t.makeDirectory path with
  | .ok t' => .ok t'
  | .error fault =>
    if fault = .alreadyExists ∧ t.isDirectory path then .ok t else .error fault

/-- Tries the deepest directory first and goes up as long as the one above is missing. Gives the
paths still to be made, the highest first. -/
def climb (t : FileTree) (below : List String) : List String →
    Except FileFault (FileTree × List String)
  | [] => .ok (t, below)
  | path :: above =>
    match t.ensureDirectory path with
    | .ok t' => .ok (t', below)
    | .error .notFound => climb t (path :: below) above
    | .error fault => .error fault

def descend (t : FileTree) : List String → FileTree × Option FileFault
  | [] => (t, none)
  | path :: below =>
    match t.ensureDirectory path with
    | .ok t' => descend t' below
    | .error fault => (t, some fault)

/-- Makes a directory with all that lead to it. What has been made stays when one cannot be. -/
def makeDirectories (t : FileTree) (path : String) : FileTree × Option FileFault :=
  match t.climb [] (Path.ancestors path) with
  | .ok (t', below) => t'.descend below
  | .error fault => (t, some fault)

/-- Writes a file, after making the directories before it. A link in its place is followed, also to
a free name, which the file then takes. -/
def writeFile (t : FileTree) (path : String) (content : ByteArray) : FileTree :=
  let t := (t.makeDirectories (Path.parent path)).1
  match t.locate true path (Path.names path) with
  | .ok (_, some .directory) => t
  | .ok (place, _) => t.put place (.file content)
  | .error _ => t

def writeLink (t : FileTree) (path target : String) : FileTree :=
  let t := (t.makeDirectories (Path.parent path)).1
  match t.locate false path (Path.names path) with
  | .ok (place, none) => t.put place (.link target)
  | _ => t

def place (t : FileTree) (path : String) : Entry → FileTree
  | .directory => (t.makeDirectories path).1
  | .file content => t.writeFile path content
  | .link target => t.writeLink path target

def remove (t : FileTree) (path : String) : FileTree :=
  match t.resolve false path with
  | .ok (place, _) => t.erase place
  | .error _ => t

end SeedTables.FileTree
