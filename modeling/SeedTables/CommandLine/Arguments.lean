import SeedTables.Config

namespace SeedTables.CommandLine

inductive Halt where
  | wrongUsage
  | help
  | version
  deriving DecidableEq

structure Request where
  config : Config
  dryRun : Bool
  verbosity : Nat
  deriving DecidableEq

inductive Setting where
  | schemaDir
  | outputDir
  | database
  | notNullFrom
  deriving DecidableEq

inductive Flag where
  | dryRun
  | skipInvalid
  | verbose
  | help
  | version
  deriving DecidableEq

structure Given where
  schemaDir : Option String := none
  outputDir : Option String := none
  database : Option String := none
  notNull : Option NotNullRule := none
  dryRun : Bool := false
  skipInvalid : Bool := false
  verbosity : Nat := 0

def setting? (name : String) : Option Setting :=
  [("schema-dir", Setting.schemaDir), ("output-dir", .outputDir), ("database", .database),
    ("not-null-from", .notNullFrom)].lookup name

def flag? (name : String) : Option Flag :=
  [("dry-run", Flag.dryRun), ("skip-invalid", .skipInvalid), ("verbose", .verbose),
    ("help", .help), ("version", .version)].lookup name

def letter? (c : Char) : Option Flag :=
  [('v', Flag.verbose), ('h', .help), ('V', .version)].lookup c

/-- An option is given once, with a value that is not empty. -/
def once (before : Option String) (value : String) : Except Halt (Option String) :=
  if before.isSome || value.isEmpty then .error .wrongUsage else .ok (some value)

def notNullRule? (value : String) : Option NotNullRule :=
  [("nullable", NotNullRule.nullableTrue), ("non-nullable", .nullableFalse)].lookup value

namespace Given

def set (g : Given) (value : String) : Setting → Except Halt Given
  | .schemaDir => (once g.schemaDir value).map fun schemaDir => { g with schemaDir }
  | .outputDir => (once g.outputDir value).map fun outputDir => { g with outputDir }
  | .database => (once g.database value).map fun database => { g with database }
  | .notNullFrom =>
    match g.notNull, notNullRule? value with
    | none, some rule => .ok { g with notNull := some rule }
    | _, _ => .error .wrongUsage

/-- Only verbosity may be asked for again. -/
def raise (g : Given) : Flag → Except Halt Given
  | .dryRun => if g.dryRun then .error .wrongUsage else .ok { g with dryRun := true }
  | .skipInvalid =>
    if g.skipInvalid then .error .wrongUsage else .ok { g with skipInvalid := true }
  | .verbose => .ok { g with verbosity := g.verbosity + 1 }
  | .help => .error .help
  | .version => .error .version

/-- Letters behind one dash are flags, one after another. -/
def raiseLetters (g : Given) (letters : List Char) : Except Halt Given :=
  letters.foldlM (fun g c =>
    match letter? c with
    | some flag => g.raise flag
    | none => .error .wrongUsage) g

end Given

/-- An argument that cannot be the value of an option before it: it starts with a dash and has
more than that. -/
def startsOption (arg : String) : Bool := arg.toList.head? = some '-' && arg ≠ "-"

/-- An argument behind its two dashes: the name, and what stands behind the first equals sign. -/
def nameAndValue (option : List Char) : String × Option String :=
  let name := String.ofList (option.takeWhile (· ≠ '='))
  match option.dropWhile (· ≠ '=') with
  | _ :: value => (name, some (String.ofList value))
  | [] => (name, none)

def gather (g : Given) : List String → Except Halt Given
  | [] => .ok g
  | arg :: rest =>
    match arg.toList with
    | ['-', '-'] => if rest.isEmpty then .ok g else .error .wrongUsage
    | '-' :: '-' :: option =>
      let (name, value?) := nameAndValue option
      match setting? name, flag? name, value?, rest with
      | some setting, _, some value, rest => do gather (← g.set value setting) rest
      | some setting, _, none, value :: rest =>
        if startsOption value then .error .wrongUsage
        else do gather (← g.set value setting) rest
      | none, some flag, none, rest => do gather (← g.raise flag) rest
      | _, _, _, _ => .error .wrongUsage
    | '-' :: c :: letters => do gather (← g.raiseLetters (c :: letters)) rest
    | _ => .error .wrongUsage
termination_by args => args.length

/-- A directory that no option gives may be given by the environment, but not as an empty text. -/
def orEnvironment (given environment : Option String) (default : String) : Except Halt String :=
  match given, environment with
  | some path, _ => .ok path
  | none, some path => if path.isEmpty then .error .wrongUsage else .ok path
  | none, none => .ok default

def schemaDirVariable : String := "PARQUETGEN_SCHEMA_DIR"

def outputDirVariable : String := "PARQUETGEN_OUTPUT_DIR"

/-- Arguments and variables that are not valid UTF-8 are not represented. -/
def request (environment : String → Option String) (args : List String) :
    Except Halt Request := do
  let g ← gather {} args
  let base : Config := {}
  let schemaDir ← orEnvironment g.schemaDir (environment schemaDirVariable) base.schemaDir
  let outputDir ← orEnvironment g.outputDir (environment outputDirVariable) base.outputDir
  let config : Config := {
    schemaDir, outputDir
    database := g.database
    policy := if g.skipInvalid then .skipInvalid else base.policy
    notNull := g.notNull.getD base.notNull }
  return { config, dryRun := g.dryRun, verbosity := g.verbosity }

end SeedTables.CommandLine
