import SeedTables.CommandLine.Command

namespace SeedTables.Main

/-- There is no database engine behind this program; every statement is refused. -/
def detached : Executor Unit := fun state s =>
  (state, some (.executionFailure s.text "no database engine is attached"))

/-- The entry of a file, or of a link by where it leads; a link that leads nowhere is given a name
that no file has. Only documents are read. -/
def entryOf (path : String) (kind : IO.FS.FileType) : IO Entry := do
  match kind with
  | .dir => return .directory
  | .symlink =>
    try
      let target ← IO.FS.realPath path
      return .link target.toString
    catch _ => return .link "\x00"
  | _ =>
    if Path.extension? path = some "json" then return .file (← IO.FS.readBinFile path)
    else return .file .empty

partial def entriesBelow (place : Location) (path : String) (held : Array IO.FS.DirEntry) :
    IO (List (Location × Entry)) := do
  let mut found := []
  for item in held do
    let below := Path.join path item.fileName
    let info ← item.path.symlinkMetadata
    let entry ← entryOf below info.type
    found := found ++ [(place ++ [item.fileName], entry)]
    if entry = .directory then
      found := found ++ (← entriesBelow (place ++ [item.fileName]) below (← item.path.readDir))
  return found

def currentTree : IO FileTree := do
  let here ← IO.currentDir
  let place := Path.components here.toString
  return ⟨(place, .directory) :: (← entriesBelow place "." (← here.readDir)), place⟩

def makeAdded (before after : FileTree) : IO Unit := do
  for (place, entry) in after.entries do
    if entry = .directory && (before.get? place).isNone then
      IO.FS.createDir (Path.ofComponents true place)

end SeedTables.Main

open SeedTables in
def main (args : List String) : IO UInt32 := do
  let tree ← Main.currentTree
  let given ← [CommandLine.schemaDirVariable, CommandLine.outputDirVariable].mapM
    fun name => do return (name, ← IO.getEnv name)
  let environment (name : String) : Option String := (given.lookup name).join
  let outcome := CommandLine.command Main.detached environment args tree ()
  Main.makeAdded tree outcome.tree
  IO.print outcome.output
  IO.eprint outcome.errorOutput
  return outcome.exitCode.toUInt32
