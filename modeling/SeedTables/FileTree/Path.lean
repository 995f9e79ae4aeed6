import SeedTables.Json.Position

namespace SeedTables.Path

def split : List Char → List (List Char)
  | [] => [[]]
  | c :: r =>
    if c = '/' then [] :: split r
    else match split r with
      | [] => [[c]]
      | w :: ws => (c :: w) :: ws

def names (path : String) : List String := (split path.toList).map String.ofList

/-- The names of a path up to its last one; slashes at the end are passed over. -/
def namesToLast (path : String) : List String :=
  ((names path).reverse.dropWhile String.isEmpty).reverse

def isAbsolute (path : String) : Bool := path.toList.head? = some '/'

/-- A path continued by another one, which replaces it if it is absolute. -/
def join (path next : String) : String :=
  if isAbsolute next then next
  else if path.isEmpty ∨ path.toList.getLast? = some '/' then path ++ next
  else path ++ "/" ++ next

/-- The text behind the last point of a file name. A point that starts the name does not count. -/
def extension? (name : String) : Option String :=
  let backwards := name.toList.reverse
  match backwards.dropWhile (· ≠ '.') with
  | _ :: stem =>
    if stem.isEmpty then none
    else some (String.ofList (backwards.takeWhile (· ≠ '.')).reverse)
  | [] => none

/-- The names that lead somewhere: neither empty nor a point, unless the path starts with one. -/
def components (path : String) : List String :=
  let leads (name : String) : Bool := !name.isEmpty && name ≠ "."
  match names path with
  | "." :: rest => "." :: rest.filter leads
  | all => all.filter leads

def ofComponents (absolute : Bool) (components : List String) : String :=
  (if absolute then "/" else "") ++ String.intercalate "/" components

/-- The path and the directories it leads through, the deepest first. The root and the empty path
need none. -/
def ancestors (path : String) : List String :=
  let cs := components path
  if cs.isEmpty then []
  else path :: (List.range (cs.length - 1)).map fun n =>
    ofComponents (isAbsolute path) (cs.take (cs.length - 1 - n))

def parent (path : String) : String :=
  ofComponents (isAbsolute path) (components path).dropLast

end SeedTables.Path
