import SeedTables.CommandLine.Command
import SeedTables.Proofs.GarbledDocuments
import SeedTables.Proofs.RecordedRun

namespace SeedTables

namespace CommandLine

def valueArgument (name value : String) : String := "--" ++ name ++ "=" ++ value

def flagArgument (name : String) : String := "--" ++ name

def dryRunArguments (config : Config) : List String :=
  valueArgument "schema-dir" config.schemaDir :: valueArgument "output-dir" config.outputDir ::
    ((config.database.map (valueArgument "database")).toList ++
      ((if config.policy = .skipInvalid then [flagArgument "skip-invalid"] else []) ++
        ((if config.notNull = .nullableFalse then [valueArgument "not-null-from" "non-nullable"]
          else []) ++ [flagArgument "dry-run"])))

theorem nameAndValue_append {name : List Char} (h : '=' ∉ name) (value : List Char) :
    nameAndValue (name ++ '=' :: value) = (String.ofList name, some (String.ofList value)) := by
  have hname : ∀ c ∈ name, (decide (c ≠ '=')) = true := by
    intro c hc
    exact decide_eq_true fun he => h (he ▸ hc)
  rw [nameAndValue, List.takeWhile_append_of_pos hname, List.dropWhile_append_of_pos hname]
  simp

theorem nameAndValue_of_not_mem {name : List Char} (h : '=' ∉ name) :
    nameAndValue name = (String.ofList name, none) := by
  have hname : ∀ c ∈ name, (decide (c ≠ '=')) = true := by
    intro c hc
    exact decide_eq_true fun he => h (he ▸ hc)
  rw [nameAndValue, ← List.append_nil name, List.takeWhile_append_of_pos hname,
    List.dropWhile_append_of_pos hname]
  simp

section Gathering

variable {name : String} {g g' : Given}

/-- An option that is given behind an equals sign is set, whatever the value starts with. -/
theorem gather_valueArgument {setting : Setting} {value : String}
    (hsetting : setting? name = some setting) (hname : '=' ∉ name.toList)
    (hset : g.set value setting = .ok g') (rest : List String) :
    gather g (valueArgument name value :: rest) = gather g' rest := by
  have hlist : (valueArgument name value).toList =
      '-' :: '-' :: (name.toList ++ '=' :: value.toList) := by
    simp [valueArgument]
  have hsplit : nameAndValue (name.toList ++ '=' :: value.toList) = (name, some value) := by
    rw [nameAndValue_append hname, String.ofList_toList, String.ofList_toList]
  obtain ⟨c, cs, hoption⟩ : ∃ c cs, name.toList ++ '=' :: value.toList = c :: cs :=
    List.exists_cons_of_ne_nil (by simp)
  rw [hoption] at hlist hsplit
  rw [gather]
  simp only [hlist, hsplit, hsetting, hset]
  rfl

theorem gather_flagArgument {flag : Flag} (hflag : flag? name = some flag)
    (hsetting : setting? name = none) (hname : '=' ∉ name.toList)
    (hraise : g.raise flag = .ok g') (rest : List String) :
    gather g (flagArgument name :: rest) = gather g' rest := by
  have hlist : (flagArgument name).toList = '-' :: '-' :: name.toList := by
    simp [flagArgument]
  have hsplit : nameAndValue name.toList = (name, none) := by
    rw [nameAndValue_of_not_mem hname, String.ofList_toList]
  obtain ⟨c, cs, hoption⟩ : ∃ c cs, name.toList = c :: cs := by
    refine List.exists_cons_of_ne_nil ?_
    intro hempty
    rw [String.toList_eq_nil_iff.mp hempty] at hflag
    cases hflag
  rw [hoption] at hlist hsplit
  rw [gather]
  simp only [hlist, hsplit, hsetting, hflag, hraise]
  rfl

end Gathering

theorem once_none {value : String} (h : value ≠ "") : once none value = .ok (some value) := by
  simp [once, h]

section Configuration

variable (g : Given) (rest : List String)

theorem gather_database (hg : g.database = none) {database : Option String}
    (hd : database ≠ some "") :
    gather g ((database.map (valueArgument "database")).toList ++ rest) =
      gather { g with database } rest := by
  cases database with
  | none =>
    have hsame : { g with database := none } = g := by rw [← hg]
    exact (congrArg (gather · rest) hsame).symm
  | some path =>
    have hpath : path ≠ "" := fun he => hd (congrArg some he)
    refine gather_valueArgument rfl (by decide) ?_ rest
    rw [Given.set, hg, once_none hpath]
    rfl

theorem gather_policy (hg : g.skipInvalid = false) (policy : Policy) :
    gather g ((if policy = .skipInvalid then [flagArgument "skip-invalid"] else []) ++ rest) =
      gather { g with skipInvalid := policy = .skipInvalid } rest := by
  cases policy with
  | failFast =>
    have hsame : { g with skipInvalid := false } = g := by rw [← hg]
    exact (congrArg (gather · rest) hsame).symm
  | skipInvalid =>
    refine gather_flagArgument rfl rfl (by decide) ?_ rest
    rw [Given.raise, hg]
    rfl

theorem gather_notNull (hg : g.notNull = none) (rule : NotNullRule) :
    gather g ((if rule = .nullableFalse then [valueArgument "not-null-from" "non-nullable"]
        else []) ++ rest) =
      gather { g with notNull := if rule = .nullableFalse then some rule else none } rest := by
  cases rule with
  | nullableTrue =>
    have hsame : { g with notNull := none } = g := by rw [← hg]
    exact (congrArg (gather · rest) hsame).symm
  | nullableFalse =>
    refine gather_valueArgument rfl (by decide) ?_ rest
    rw [Given.set, hg]
    rfl

end Configuration

/-- Every configuration with paths that are not empty can be asked for. -/
theorem request_dryRunArguments (environment : String → Option String) {config : Config}
    (hschema : config.schemaDir ≠ "") (houtput : config.outputDir ≠ "")
    (hdatabase : config.database ≠ some "") :
    request environment (dryRunArguments config) = .ok ⟨config, true, 0⟩ := by
  have hs : ({} : Given).set config.schemaDir .schemaDir =
      .ok { schemaDir := some config.schemaDir } := by
    rw [Given.set, once_none hschema]
    rfl
  have ho : ({ schemaDir := some config.schemaDir } : Given).set config.outputDir .outputDir =
      .ok { schemaDir := some config.schemaDir, outputDir := some config.outputDir } := by
    rw [Given.set, once_none houtput]
    rfl
  rw [request, dryRunArguments, gather_valueArgument rfl (by decide) hs,
    gather_valueArgument rfl (by decide) ho, gather_database _ _ rfl hdatabase,
    gather_policy _ _ rfl, gather_notNull _ _ rfl, gather_flagArgument rfl rfl (by decide) rfl,
    gather]
  obtain ⟨schemaDir, outputDir, database, policy, notNull⟩ := config
  cases policy <;> cases notNull <;> rfl

theorem run_unplanned {σ : Type} {config : Config} {source : Source} {tree : FileTree} {e : Error}
    (h : Plan.ofSource config tree source = .error e) (execute : Executor σ) (state : σ) :
    run execute config source tree state = ⟨tree, state, .error e⟩ := by
  rw [run, h]

/-- A run that can plan and make its output directory writes down the texts of its plan, whatever
makes statements fail. -/
theorem run_executed {config : Config} {source : Source} {tree : FileTree} {p : Plan}
    (hplan : Plan.ofSource config tree source = .ok p)
    (hmade : (tree.makeDirectories config.outputDir).2 = none) (r : Recorder) :
    (run Recorder.execute config source tree r).executor =
      r.wrote (p.statements.map Statement.text) := by
  have hend := run_ending Recorder.execute config source tree r
  generalize run Recorder.execute config source tree r = result at hend
  cases hend with
  | unplanned planned =>
    rw [hplan] at planned
    cases planned
  | homeless planned made =>
    rw [made] at hmade
    cases hmade
  | carriedOut planned made =>
    obtain rfl := Except.ok.inj (hplan.symm.trans planned)
    exact (p.carryOut_tells r).1

/-- What is printed when every text is followed by the end of a line. -/
inductive Printed : List String → List Char → Prop
  | nothing : Printed [] []
  | line {text : String} {texts : List String} {below : List Char} (rest : Printed texts below) :
      Printed (text :: texts) (text.toList ++ '\n' :: below)

theorem printed_iff {texts : List String} {printed : List Char} :
    Printed texts printed ↔ (lines texts).toList = printed := by
  have hcons (text : String) (texts : List String) :
      (lines (text :: texts)).toList = text.toList ++ '\n' :: (lines texts).toList := by
    simp only [lines, List.map_cons, String.join_cons, String.toList_append, List.append_assoc]
    rfl
  constructor
  · intro h
    induction h with
    | nothing => rfl
    | line _ ih => rw [hcons, ih]
  · rintro rfl
    induction texts with
    | nil => exact .nothing
    | cons text texts ih =>
      rw [hcons]
      exact .line ih

/-- A dry run that shows what a run of its configuration does. -/
structure Shows {σ : Type} (config : Config) (tree : FileTree) (state : σ) (outcome : Outcome σ) :
    Prop where
  /-- The lines are the texts that a run leaves in an empty record. -/
  output : (tree.makeDirectories config.outputDir).2 = none → ∀ fragments,
    Printed (run Recorder.execute config (.directory config.schemaDir) tree
      { failing := fragments }).executor.executed outcome.output.toList
  failed : (outcome.exitCode = 1 ∧ outcome.output = "") ↔
    ∃ e, Plan.ofSource config tree (.directory config.schemaDir) = .error e
  succeeded : (∃ p, Plan.ofSource config tree (.directory config.schemaDir) = .ok p) →
    outcome.exitCode = 0 ∧ outcome.errorOutput = ""
  error : ∀ e, Plan.ofSource config tree (.directory config.schemaDir) = .error e →
    outcome.errorOutput = failureText ("planning " ++ config.schemaDir) e ∧
    ∀ (τ : Type) (execute : Executor τ) (state : τ),
      run execute config (.directory config.schemaDir) tree state = ⟨tree, state, .error e⟩
  tree : outcome.tree = tree
  executor : outcome.executor = state

theorem dryRun_shows {σ : Type} (config : Config) (tree : FileTree) (state : σ) :
    Shows config tree state (dryRun config tree state) := by
  cases hplan : Plan.ofSource config tree (.directory config.schemaDir) with
  | error e =>
    have hdry : dryRun config tree state =
        ⟨1, "", failureText ("planning " ++ config.schemaDir) e, tree, state⟩ := by
      rw [dryRun, hplan]
    rw [hdry]
    refine ⟨?_, ⟨fun _ => ⟨e, hplan⟩, fun _ => ⟨rfl, rfl⟩⟩, ?_, ?_, rfl, rfl⟩
    · intro _ fragments
      rw [run_unplanned hplan]
      exact .nothing
    · rintro ⟨p, hp⟩
      rw [hplan] at hp
      cases hp
    · intro e' he
      obtain rfl := Except.error.inj (hplan.symm.trans he)
      exact ⟨rfl, fun _ execute state => run_unplanned hplan execute state⟩
  | ok p =>
    have hdry : dryRun config tree state =
        ⟨0, lines (p.statements.map Statement.text), "", tree, state⟩ := by
      rw [dryRun, hplan]
    rw [hdry]
    refine ⟨?_, ⟨fun h => absurd h.1 Nat.zero_ne_one, ?_⟩, fun _ => ⟨rfl, rfl⟩, ?_, rfl, rfl⟩
    · intro hmade fragments
      rw [run_executed hplan hmade, Recorder.wrote]
      exact printed_iff.mpr rfl
    · rintro ⟨e, he⟩
      rw [hplan] at he
      cases he
    · intro e he
      rw [hplan] at he
      cases he

/-- For every configuration and file tree a dry run prints the statements that a run would execute,
or fails as the run would, and changes nothing. That is what the command does when asked for a dry
run, and every configuration whose paths are not empty can be asked for. -/
theorem command_dryRun_shows {σ : Type} (execute : Executor σ) (config : Config) (tree : FileTree)
    (state : σ) :
    Shows config tree state (dryRun config tree state) ∧
    (∀ environment args verbosity, request environment args = .ok ⟨config, true, verbosity⟩ →
      command execute environment args tree state = dryRun config tree state) ∧
    (config.schemaDir ≠ "" → config.outputDir ≠ "" → config.database ≠ some "" →
      ∀ environment, request environment (dryRunArguments config) = .ok ⟨config, true, 0⟩) := by
  refine ⟨dryRun_shows config tree state, ?_, ?_⟩
  · intro environment args verbosity hrequest
    rw [command, hrequest]
    rfl
  · intro hschema houtput hdatabase environment
    exact request_dryRunArguments environment hschema houtput hdatabase

theorem halfGarbled_unplanned :
    ∃ e, Plan.ofSource {} halfGarbled (.directory "schema") = .error e := by
  have hread : ∃ e, halfGarbled.documents "schema" = .error e := by
    refine Classical.byContradiction fun hnone => ?_
    refine (halfGarbled_readable.documents_ne_error_iff.mp fun e he => hnone ⟨e, he⟩) _ ?_ _
      halfGarbled_garbled
    rw [halfGarbled_children]
    exact List.mem_cons_self
  obtain ⟨e, he⟩ := hread
  exact ⟨e, except_bind_eq_error.mpr (.inl he)⟩

def usersAlone : FileTree where
  entries := [(["home"], .directory), (["home", "schema"], .directory),
    (["home", "schema", "users.json"], .file usersText.toUTF8)]
  workingDirectory := ["home"]

def usersTexts : List String :=
  ["CREATE TABLE users (id integer);",
    "copy (select * from users) to 'parquet/users.parquet' (format 'parquet');",
    "INSERT INTO users (id) values (1);"]

def plannedTexts? (config : Config) (t : FileTree) : Option (List String) :=
  (Plan.ofSource config t (.directory config.schemaDir)).toOption.map fun p =>
    p.statements.map Statement.text

theorem usersAlone_planned : ∃ p, Plan.ofSource {} usersAlone (.directory "schema") = .ok p ∧
    p.statements.map Statement.text = usersTexts := by
  have htexts : plannedTexts? {} usersAlone = some usersTexts := by decide +kernel
  unfold plannedTexts? at htexts
  cases hp : Plan.ofSource {} usersAlone (.directory "schema") with
  | error e => simp [hp, Except.toOption] at htexts
  | ok p => exact ⟨p, rfl, by simpa [hp, Except.toOption] using htexts⟩

theorem usersAlone_fails :
    (run Recorder.execute {} (.directory "schema") usersAlone
      { failing := ["copy"] }).report.toOption.map RunReport.isSuccess = some false := by
  decide +kernel

/-- The same arguments show three statements for a good document, of which a run executes all though
the second one fails, and none where a garbled document stands beside it. -/
theorem command_dryRun_shows_users :
    let outcome := command Recorder.execute (fun _ => none) (dryRunArguments {}) usersAlone {}
    let garbled := command Recorder.execute (fun _ => none) (dryRunArguments {}) halfGarbled {}
    let result := run Recorder.execute {} (.directory "schema") usersAlone { failing := ["copy"] }
    request (fun _ => none) (dryRunArguments {}) = .ok ⟨{}, true, 0⟩ ∧
    (usersAlone.makeDirectories "parquet").2 = none ∧
    outcome.exitCode = 0 ∧ outcome.tree = usersAlone ∧
    outcome.output = "CREATE TABLE users (id integer);\n" ++
      "copy (select * from users) to 'parquet/users.parquet' (format 'parquet');\n" ++
      "INSERT INTO users (id) values (1);\n" ∧
    Printed result.executor.executed outcome.output.toList ∧ result.executor.executed = usersTexts ∧
    result.report.toOption.map RunReport.isSuccess = some false ∧
    garbled.exitCode = 1 ∧ garbled.output = "" ∧ garbled.tree = halfGarbled := by
  intro outcome garbled result
  obtain ⟨hshows, hcommand, harguments⟩ := command_dryRun_shows Recorder.execute {} usersAlone {}
  obtain ⟨hgarbled, hcommand', _⟩ := command_dryRun_shows Recorder.execute {} halfGarbled {}
  have hrequest : request (fun _ => none) (dryRunArguments {}) = .ok ⟨{}, true, 0⟩ :=
    harguments (by decide) (by decide) (by decide) _
  have hmade : (usersAlone.makeDirectories "parquet").2 = none := rfl
  have houtcome : outcome = dryRun {} usersAlone {} := hcommand _ _ 0 hrequest
  have houtcome' : garbled = dryRun {} halfGarbled {} := hcommand' _ _ 0 hrequest
  obtain ⟨p, hplan, htexts⟩ := usersAlone_planned
  have hexecuted : result.executor.executed = usersTexts := by
    have hwrote := run_executed hplan hmade { failing := ["copy"] }
    rw [htexts] at hwrote
    exact congrArg Recorder.executed hwrote
  have hprinted : Printed result.executor.executed outcome.output.toList :=
    houtcome ▸ hshows.output hmade ["copy"]
  have houtput : (lines usersTexts).toList = outcome.output.toList :=
    printed_iff.mp (hexecuted ▸ hprinted)
  obtain ⟨hexit, hnothing⟩ := hgarbled.failed.mpr halfGarbled_unplanned
  refine ⟨hrequest, hmade, houtcome ▸ (hshows.succeeded ⟨p, hplan⟩).1, houtcome ▸ hshows.tree, ?_,
    hprinted, hexecuted, usersAlone_fails, houtcome' ▸ hexit, houtcome' ▸ hnothing,
    houtcome' ▸ hgarbled.tree⟩
  rw [← String.toList_inj, ← houtput]
  rfl

end CommandLine
end SeedTables
