import SeedTables.FileTree.Update
import SeedTables.Plan
import SeedTables.Recorder

namespace SeedTables

inductive Phase where
  | definitions
  | data
  deriving DecidableEq

def Phase.name : Phase → String
  | definitions => "definitions"
  | data => "data"

structure PassReport where
  phase : Phase
  attempted : Nat
  failures : List Error

def PassReport.succeeded (p : PassReport) : Nat := p.attempted - p.failures.length

structure RunReport where
  tables : List String
  rejected : List Error
  definitions : PassReport
  data : PassReport

namespace RunReport

def failures (r : RunReport) : List Error :=
  r.rejected ++ r.definitions.failures ++ r.data.failures

/-- No document was put aside and no statement failed. -/
def isSuccess (r : RunReport) : Bool :=
  r.rejected.isEmpty && r.definitions.failures.isEmpty && r.data.failures.isEmpty

end RunReport

structure RunResult (σ : Type) where
  tree : FileTree
  executor : σ
  report : Except Error RunReport

section Execution

variable {σ : Type} (execute : Executor σ)

def Executor.executeAll (state : σ) : List Statement → σ × List Error
  | [] => (state, [])
  | s :: rest =>
    let (state, failure) := execute state s
    let (state, failures) := Executor.executeAll state rest
    (state, failure.toList ++ failures)

def Executor.runPass (phase : Phase) (state : σ) (statements : List Statement) : σ × PassReport :=
  let (state, failures) := execute.executeAll state statements
  (state, { phase, attempted := statements.length, failures })

def Plan.carryOut (p : Plan) (state : σ) : σ × RunReport :=
  let (state, definitions) := execute.runPass .definitions state p.definitions
  let (state, data) := execute.runPass .data state p.data
  (state, { tables := p.tables, rejected := p.rejected, definitions, data })

/-- Plans, makes the output directory, and executes. Nothing is executed when either fails. -/
def run (config : Config) (source : Source) (tree : FileTree) (state : σ) : RunResult σ :=
  match Plan.ofSource config tree source with
  | .error e => ⟨tree, state, .error e⟩
  | .ok plan =>
    match tree.makeDirectories config.outputDir with
    | (tree, some fault) => ⟨tree, state, .error (.file fault)⟩
    | (tree, none) =>
      let (state, report) := plan.carryOut execute state
      ⟨tree, state, .ok report⟩

end Execution
end SeedTables
