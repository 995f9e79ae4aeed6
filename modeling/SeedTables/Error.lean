import SeedTables.FileTree.Basic
import SeedTables.Schema.Validation

namespace SeedTables

/-- Why a directory cannot be listed: one of its entries cannot be reached, or leads back to the
directory itself. -/
inductive WalkFault where
  | unreachable (path : String) (fault : FileFault)
  | leadsBack (path directory : String)

def WalkFault.message : WalkFault → String
  | unreachable path fault => "IO error for operation on " ++ path ++ ": " ++ fault.message
  | leadsBack path directory =>
    "File system loop found: " ++ path ++ " points to an ancestor " ++ directory

inductive Error where
  | malformed (origin : String) (fault : SchemaFault)
  | unknownColumn (table column : String)
  | unsupportedType (table column type : String)
  | unsupportedValue (table column : String)
  | executionFailure (statement message : String)
  | file (fault : FileFault)
  | document (fault : DocumentFault)
  | walk (fault : WalkFault)

namespace Error

def message : Error → String
  | malformed origin fault => "malformed schema " ++ origin ++ ": " ++ fault.message
  | unknownColumn table column => "table '" ++ table ++ "' has no column named '" ++ column ++ "'"
  | unsupportedType table column type =>
    "column '" ++ table ++ "." ++ column ++ "' has type '" ++ type
      ++ "' which has no literal rendering"
  | unsupportedValue table column =>
    "column '" ++ table ++ "." ++ column ++ "' holds a value with no literal rendering"
  | executionFailure statement message =>
    "statement failed: " ++ message ++ "\n  " ++ statement
  | file fault => "I/O error: " ++ fault.message
  | document fault => "JSON error: " ++ fault.message
  | walk fault => "directory walk error: " ++ fault.message

/-- Errors found while a schema is read or compiled concern its table alone. -/
def isTableLocal : Error → Bool
  | malformed .. => true
  | unknownColumn .. => true
  | unsupportedType .. => true
  | unsupportedValue .. => true
  | _ => false

def chain (e : Error) : List String :=
  e.message :: match e with
    | file fault => [fault.message]
    | document fault => [fault.message]
    | walk (.unreachable path fault) =>
      [(WalkFault.unreachable path fault).message, fault.message]
    | walk (.leadsBack path directory) => [(WalkFault.leadsBack path directory).message]
    | _ => []

end Error
end SeedTables
