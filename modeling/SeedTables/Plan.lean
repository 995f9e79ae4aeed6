import SeedTables.Compile
import SeedTables.Config
import SeedTables.Source

namespace SeedTables

structure Plan where
  definitions : List Statement := []
  data : List Statement := []
  /-- The tables compiled into the plan, in the order of their documents. -/
  tables : List String := []
  /-- Why documents were put aside, in their order. -/
  rejected : List Error := []

namespace Plan

def statements (p : Plan) : List Statement := p.definitions ++ p.data

def withTable (p : Plan) (table : String) (s : TableStatements) : Plan :=
  { p with
    definitions := p.definitions ++ s.definitions
    data := p.data ++ s.data
    tables := p.tables ++ [table] }

def withRejected (p : Plan) (e : Error) : Plan := { p with rejected := p.rejected ++ [e] }

/-- Compiles a document, unless a table of its name is already in the plan. -/
def compileDocument (options : CompileOptions) (p : Plan) (d : Document) :
    Except Error (String × TableStatements) := do
  let s ← (Schema.ofDocument d.value).mapError (.malformed d.origin)
  if s.table ∈ p.tables then throw (.malformed d.origin (.repeatedTable s.table))
  let statements ← s.compile options
  return (s.table, statements)

def add (policy : Policy) (options : CompileOptions) (p : Plan) (d : Document) :
    Except Error Plan :=
  match p.compileDocument options d with
  | .ok (table, statements) => .ok (p.withTable table statements)
  | .error e =>
    if e.isTableLocal && policy = .skipInvalid then .ok (p.withRejected e) else .error e

def ofDocuments (policy : Policy) (options : CompileOptions) (documents : List Document) :
    Except Error Plan :=
  documents.foldlM (add policy options) {}

def ofSource (config : Config) (t : FileTree) (source : Source) : Except Error Plan := do
  let documents ← source.documents t
  ofDocuments config.policy ⟨config.outputDir, config.notNull⟩ documents

end Plan
end SeedTables
