import SeedTables.CommandLine.Arguments
import SeedTables.Run

namespace SeedTables.CommandLine

structure Outcome (σ : Type) where
  exitCode : Nat
  output : String
  errorOutput : String
  tree : FileTree
  executor : σ

def lines (texts : List String) : String := String.join (texts.map (· ++ "\n"))

/-- A text whose first line starts with a mark and whose other lines are indented. -/
def indented (mark indent : String) (text : String) : String :=
  mark ++ String.ofList (text.toList.flatMap fun c => if c = '\n' then c :: indent.toList else [c])

/-- The causes of a failure: one alone is indented, more than one are numbered. -/
def causesText : List String → String
  | [cause] => "\n" ++ indented "    " "    " cause
  | causes => String.join (causes.zipIdx.map fun (cause, n) =>
      let number := toString n
      let mark := String.ofList (List.replicate (5 - number.length) ' ') ++ number ++ ": "
      "\n" ++ indented mark "       " cause)

def failureText (doing : String) (e : Error) : String :=
  "Error: " ++ doing ++ "\n\nCaused by:" ++ causesText e.chain ++ "\n"

def versionText : String := "parquetgen 0.1.0\n"

def optionHelp (option does : String) : String :=
  option ++ String.ofList (List.replicate (39 - option.length) ' ') ++ does

def helpText : String := lines [
  "Compile JSON table schemas into DuckDB statements and export every table as a Parquet file",
  "",
  "Usage: parquetgen [OPTIONS]",
  "",
  "Options:",
  optionHelp "      --schema-dir <SCHEMA_DIR>"
    ("Directory with one JSON schema document per table "
      ++ "[env: PARQUETGEN_SCHEMA_DIR=] [default: schema]"),
  optionHelp "      --output-dir <OUTPUT_DIR>"
    ("Directory the Parquet files are written to "
      ++ "[env: PARQUETGEN_OUTPUT_DIR=] [default: parquet]"),
  optionHelp "      --database <DATABASE>" "DuckDB database file (in memory when omitted)",
  optionHelp "      --dry-run" "Print the planned statements without executing them",
  optionHelp "      --skip-invalid"
    "Leave out tables whose schema is invalid instead of aborting",
  optionHelp "      --not-null-from <NOT_NULL_FROM>"
    ("Schema value that emits NOT NULL "
      ++ "[default: nullable] [possible values: nullable, non-nullable]"),
  optionHelp "  -v, --verbose..." "Increase log verbosity (-v info, -vv debug, -vvv trace)",
  optionHelp "  -h, --help" "Print help",
  optionHelp "  -V, --version" "Print version"]

section Execution

variable {σ : Type} (execute : Executor σ)

/-- Prints the plan, one statement after another. -/
def dryRun (config : Config) (tree : FileTree) (state : σ) : Outcome σ :=
  match Plan.ofSource config tree (.directory config.schemaDir) with
  | .ok plan => ⟨0, lines (plan.statements.map Statement.text), "", tree, state⟩
  | .error e => ⟨1, "", failureText ("planning " ++ config.schemaDir) e, tree, state⟩

/-- Carries out the plan; nothing is printed unless something fails. -/
def realRun (config : Config) (tree : FileTree) (state : σ) : Outcome σ :=
  let result := run execute config (.directory config.schemaDir) tree state
  match result.report with
  | .error e =>
    ⟨1, "", failureText ("generating from " ++ config.schemaDir) e, result.tree, result.executor⟩
  | .ok report =>
    if report.isSuccess then ⟨0, "", "", result.tree, result.executor⟩
    else
      ⟨1, "", lines (report.failures.map Error.message), result.tree, result.executor⟩

def command (environment : String → Option String) (args : List String) (tree : FileTree)
    (state : σ) : Outcome σ :=
  match request environment args with
  | .error .wrongUsage => ⟨2, "", "error: wrong usage, see --help\n", tree, state⟩
  | .error .help => ⟨0, helpText, "", tree, state⟩
  | .error .version => ⟨0, versionText, "", tree, state⟩
  | .ok r =>
    if r.dryRun then dryRun r.config tree state else realRun execute r.config tree state

end Execution
end SeedTables.CommandLine
