import SeedTables.Error

namespace SeedTables

structure Document where
  origin : String
  value : Json.Value

def Document.ofText (origin text : String) : Except Error Document :=
  match Json.Value.ofText text with
  | .ok value => .ok ⟨origin, value⟩
  | .error e => .error (.document (.unreadable e))

namespace FileTree

/-- Whether an entry of a listed directory is a file or leads to one. A link must lead somewhere,
and not back to the directory. -/
def leadsToFile (t : FileTree) (directory : String) (home : Location) (path : String) :
    Entry → Except WalkFault Bool
  | .file _ => .ok true
  | .directory => .ok false
  | .link _ =>
    match t.resolve true path with
    | .error fault => .error (.unreachable path fault)
    | .ok (place, .directory) =>
      if place = home then .error (.leadsBack path directory) else .ok false
    | .ok _ => .ok true

def readDocument (t : FileTree) (path : String) : Except Error Document := do
  let text ← (t.readText path).mapError .file
  match Json.Value.ofText text with
  | .ok value => return ⟨path, value⟩
  | .error e => throw (.malformed path (.document (.unreadable e)))

/-- The document of an entry of a listed directory, if it is one. Every entry is followed, whatever
its name. -/
def documentOf (t : FileTree) (directory : String) (home : Location) (entry : String × Entry) :
    Except Error (Option Document) := do
  let path := Path.join directory entry.1
  let isFile ← (t.leadsToFile directory home path entry.2).mapError .walk
  if isFile ∧ Path.extension? entry.1 = some "json" then (t.readDocument path).map some
  else return none

def sortedChildren (t : FileTree) (home : Location) : List (String × Entry) :=
  (t.children home).mergeSort fun a b => decide (a.1 ≤ b.1)

/-- The documents directly inside a directory. A file in its place holds none. -/
def documents (t : FileTree) (directory : String) : Except Error (List Document) := do
  match t.resolve true directory with
  | .error fault => throw (.walk (.unreachable directory fault))
  | .ok (home, .directory) =>
    let found ← (t.sortedChildren home).mapM (t.documentOf directory home)
    return found.filterMap id
  | .ok _ => return []

end FileTree

inductive Source where
  | memory (documents : List Document)
  | directory (path : String)

namespace Source

def withDocument (origin : String) (value : Json.Value) (held : List Document) : List Document :=
  held ++ [⟨origin, value⟩]

def withText (origin text : String) (held : List Document) : Except Error (List Document) :=
  (Document.ofText origin text).map fun d => withDocument d.origin d.value held

end Source

def Source.documents (t : FileTree) : Source → Except Error (List Document)
  | memory documents => .ok documents
  | directory path => t.documents path

end SeedTables
