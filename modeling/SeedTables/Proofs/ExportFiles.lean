import SeedTables.Proofs.ExecutionOrder
import SeedTables.Proofs.PrintedPaths

namespace SeedTables

namespace Path

theorem leads_parquet (table : String) : leads (table ++ ".parquet") = true := by
  have hlong : 8 ≤ (table ++ ".parquet").length := by
    rw [String.length_append]
    exact Nat.le_add_left _ _
  have hempty : table ++ ".parquet" ≠ "" := by
    intro he
    rw [he] at hlong
    exact absurd hlong (by decide)
  have hpoint : table ++ ".parquet" ≠ "." := by
    intro he
    rw [he] at hlong
    exact absurd hlong (by decide)
  simp [leads, hempty, hpoint]

/-- The file of a table is directly inside a directory exactly if there is no slash in its name. -/
theorem inside_join_iff {directory table : String} :
    Inside (join directory (table ++ ".parquet")) directory (table ++ ".parquet") ↔
      '/' ∉ table.toList := by
  have hslash : '/' ∉ (table ++ ".parquet").toList ↔ '/' ∉ table.toList := by
    simp
  rw [← hslash]
  exact ⟨Inside.name_not_mem, fun h => inside_join directory h (leads_parquet table)⟩

theorem join_join_parquet {directory table : String} (h : isAbsolute directory = true)
    (hne : table ≠ "") : join directory (join directory table ++ ".parquet") =
      join directory (table ++ ".parquet") := by
  have habsolute := isAbsolute_join h table
  have hpath : join directory table ≠ "" := by
    intro he
    rw [he] at habsolute
    exact absurd habsolute (by decide)
  rw [join_append directory hne, join, if_pos]
  rw [isAbsolute_append hpath, habsolute]

end Path

namespace Schema

variable {s : Schema}

theorem exportTable_mem_definitions {options : CompileOptions} {table : String}
    {path : RawPath} :
    .exportTable table path ∈ s.definitions options ↔
      table = s.table ∧ path = s.exportPath options.outputDir := by
  unfold definitions
  split <;> simp

theorem exportTable_mem_compile {options : CompileOptions} {c : TableStatements}
    (hc : s.compile options = .ok c) {table : String} {path : RawPath} :
    .exportTable table path ∈ c.definitions ++ c.data ↔
      table = s.table ∧ path = s.exportPath options.outputDir := by
  obtain ⟨indexes, inserts, _, _, rfl⟩ := compile_eq_ok.mp hc
  rw [List.mem_append, exportTable_mem_definitions]
  simp

end Schema

def Document.named (origin table : String) : Document where
  origin
  value := .object [("tableName", .string table),
    ("columns", .array [.object [("columnName", .string "n"), ("type", .string "integer")]]),
    ("rows", .array [])]

namespace Plan

/-- Every table is exported to a file of its own name in the directory, and no two to one file. -/
structure OwnFiles (p : Plan) (directory : String) : Prop where
  inside : ∀ table path, .exportTable table (.ofText path) ∈ p.statements →
    Path.Inside path directory (table ++ ".parquet")
  apart : ∀ table path table' path', .exportTable table (.ofText path) ∈ p.statements →
    .exportTable table' (.ofText path') ∈ p.statements → table ≠ table' → ¬ Path.Same path path'

variable {p : Plan}

theorem OwnFiles.of_inside {directory : String}
    (inside : ∀ table path, .exportTable table (.ofText path) ∈ p.statements →
      Path.Inside path directory (table ++ ".parquet")) : p.OwnFiles directory := by
  refine ⟨inside, ?_⟩
  intro table path table' path' h h' hne hsame
  have hname := (inside table path h).name_eq (inside table' path' h') hsame
  exact hne (String.append_left_inj _ |>.mp hname)

theorem AccountedBy.exportTable_mem {options : CompileOptions} {documents : List Document}
    {vs : List Verdict} (h : p.AccountedBy options documents vs) {table : String}
    {path : RawPath} : .exportTable table path ∈ p.statements ↔
      table ∈ p.tables ∧ path = options.outputDir.join (table ++ ".parquet") := by
  have hown : table ∈ p.tables → (.exportTable table path ∈ p.statementsOf table ↔
      path = options.outputDir.join (table ++ ".parquet")) := by
    intro ht
    obtain ⟨d, s, c, hv, rfl, hc, _⟩ := h.ofTable table ht
    rw [h.statementsOf_eq hv, Schema.exportTable_mem_compile hc]
    simp [Schema.exportPath]
  have hof : .exportTable table path ∈ p.statementsOf table ↔
      .exportTable table path ∈ p.statements := by
    simp [statementsOf, Statement.table]
  rw [hof] at hown
  constructor
  · intro hm
    have ht : table ∈ p.tables := h.inside _ hm
    exact ⟨ht, (hown ht).mp hm⟩
  · intro hm
    exact (hown hm.1).mpr hm.2

theorem AccountedBy.sharedFile {directory : String} {rule : NotNullRule}
    {documents : List Document} {vs : List Verdict}
    (h : p.AccountedBy ⟨directory, rule⟩ documents vs) {table : String} {path : RawPath}
    (habsolute : Path.isAbsolute directory = true) (hne : table ≠ "")
    (hm : .exportTable table path ∈ p.statements) (hother : Path.join directory table ∈ p.tables) :
    .exportTable (Path.join directory table) path ∈ p.statements := by
  obtain ⟨_, hpath⟩ := h.exportTable_mem.mp hm
  refine h.exportTable_mem.mpr ⟨hother, ?_⟩
  rw [hpath, RawPath.join_ofText, RawPath.join_ofText, Path.join_join_parquet habsolute hne]

/-- A plan exports each of its tables to where the name leads from the output directory. All have
files of their own in that directory exactly if there is no slash in any name. -/
theorem ofSource_ownFiles_iff {config : Config} {t : FileTree} {source : Source}
    (h : ofSource config t source = .ok p) :
    (∀ table path, .exportTable table path ∈ p.statements ↔
      table ∈ p.tables ∧ path = .ofText (Path.join config.outputDir (table ++ ".parquet"))) ∧
    (p.OwnFiles config.outputDir ↔ ∀ table ∈ p.tables, '/' ∉ table.toList) := by
  obtain ⟨documents, _, hp⟩ := except_bind_eq_ok.mp h
  have haccounted := ofDocuments_accountedBy hp
  have hexports : ∀ table path, .exportTable table path ∈ p.statements ↔
      table ∈ p.tables ∧ path = .ofText (Path.join config.outputDir (table ++ ".parquet")) := by
    intro table path
    rw [← RawPath.join_ofText]
    exact haccounted.exportTable_mem
  refine ⟨hexports, ?_, ?_⟩
  · intro hown table ht
    exact Path.inside_join_iff.mp (hown.inside table _ ((hexports table _).mpr ⟨ht, rfl⟩))
  · intro hslash
    refine OwnFiles.of_inside ?_
    intro table path hm
    obtain ⟨ht, hpath⟩ := (hexports table _).mp hm
    rw [RawPath.ofText_inj.mp hpath]
    exact Path.inside_join_iff.mpr (hslash table ht)

/-- Neither a slash that ends the directory nor points in a name take a file elsewhere. -/
theorem ofSource_ownFiles_iff_points : ∃ p,
    ofSource { outputDir := "out/" } ⟨[], []⟩ (.memory [.named "a" "users", .named "b" ".."]) =
      .ok p ∧
    .exportTable ".." "out/...parquet" ∈ p.statements ∧ p.OwnFiles "out/" := by
  obtain ⟨p, hp, htables⟩ : ∃ p, ofSource { outputDir := "out/" } ⟨[], []⟩
      (.memory [.named "a" "users", .named "b" ".."]) = .ok p ∧ p.tables = ["users", ".."] :=
    ⟨_, rfl, rfl⟩
  obtain ⟨hexports, hown⟩ := ofSource_ownFiles_iff hp
  rw [htables] at hexports hown
  have hpath : "out/...parquet" = Path.join "out/" (".." ++ ".parquet") := by decide
  exact ⟨p, hp, (hexports _ _).mpr ⟨by simp, congrArg RawPath.ofText hpath⟩, hown.mpr (by decide)⟩

/-- An absolute name leads out of the directory, or back into it to the file of another table. -/
theorem absolute_not_ownFiles :
    (∃ p, ofSource { outputDir := "out" } ⟨[], []⟩ (.memory [.named "a" "/users"]) = .ok p ∧
      .exportTable "/users" "/users.parquet" ∈ p.statements ∧ ¬ p.OwnFiles "out") ∧
    ∃ p, ofSource { outputDir := "/out" } ⟨[], []⟩
        (.memory [.named "a" "users", .named "b" "/out/users"]) = .ok p ∧
      .exportTable "users" "/out/users.parquet" ∈ p.statements ∧
      .exportTable "/out/users" "/out/users.parquet" ∈ p.statements ∧ ¬ p.OwnFiles "/out" := by
  constructor
  · obtain ⟨p, hp, htables⟩ : ∃ p, ofDocuments .failFast ⟨"out", .nullableTrue⟩
        [.named "a" "/users"] = .ok p ∧ p.tables = ["/users"] := ⟨_, rfl, rfl⟩
    have hm : .exportTable "/users" "/users.parquet" ∈ p.statements := by
      rw [(ofDocuments_accountedBy hp).exportTable_mem, htables]
      decide
    refine ⟨p, hp, hm, fun hown => ?_⟩
    exact absurd (hown.inside _ _ hm).absolute (by decide)
  · obtain ⟨p, hp, htables⟩ : ∃ p, ofDocuments .failFast ⟨"/out", .nullableTrue⟩
        [.named "a" "users", .named "b" "/out/users"] = .ok p ∧
          p.tables = ["users", "/out/users"] := ⟨_, rfl, rfl⟩
    have hshort : .exportTable "users" "/out/users.parquet" ∈ p.statements := by
      rw [(ofDocuments_accountedBy hp).exportTable_mem, htables]
      decide
    have hjoin : Path.join "/out" "users" = "/out/users" := by decide
    have hlong : .exportTable "/out/users" "/out/users.parquet" ∈ p.statements := by
      rw [← hjoin]
      refine (ofDocuments_accountedBy hp).sharedFile (by decide) (by decide) hshort ?_
      rw [htables]
      decide
    refine ⟨p, hp, hshort, hlong, fun hown => ?_⟩
    exact hown.apart _ _ _ _ hshort hlong (by decide) ⟨rfl, rfl⟩

end Plan
end SeedTables
