import SeedTables.Proofs.CompiledTable
import SeedTables.Proofs.ConsistentSchema
import SeedTables.Proofs.PolicyAgreement

namespace SeedTables

namespace Schema

/-- A cell that no literal is made from: its value is a list or an object, or its column has a type
of no literals. -/
def Unrenderable (s : Schema) (cell : String × Json.Value) : Prop :=
  (∃ vs, cell.2 = .array vs) ∨ (∃ ms, cell.2 = .object ms) ∨
    ∃ c ∈ s.columns, c.name = cell.1 ∧ c.sqlType? = none

/-- An error about a value of a declared column. -/
inductive ColumnError (s : Schema) : Error → Prop
  | type {c : Column} (declared : c ∈ s.columns) :
    ColumnError s (.unsupportedType s.table c.name c.type)
  | value {c : Column} (declared : c ∈ s.columns) :
    ColumnError s (.unsupportedValue s.table c.name)

variable {s : Schema} {options : CompileOptions}

namespace Consistent

theorem find?_cell (hs : s.Consistent) {row : Row} (hrow : row ∈ s.rows)
    {cell : String × Json.Value} (hcell : cell ∈ row) :
    ∃ c ∈ s.columns, c.name = cell.1 ∧ Column.find? s.columns cell.1 = some c := by
  obtain ⟨c, hc, hname⟩ := (hs.rows row hrow).2 cell hcell
  exact ⟨c, hc, hname, hname ▸ Column.find?_of_mem hs.distinct hc⟩

theorem ofCell_error (hs : s.Consistent) {row : Row} (hrow : row ∈ s.rows)
    {cell : String × Json.Value} (hcell : cell ∈ row) {e : Error}
    (h : Literal.ofCell s.table s.columns cell = .error e) :
    s.ColumnError e ∧ s.Unrenderable cell := by
  obtain ⟨c, hc, hname, hfind⟩ := hs.find?_cell hrow hcell
  simp only [Literal.ofCell, hfind, Literal.ofValue_error_iff] at h
  rcases h with ⟨htype, rfl⟩ | ⟨_, htext, rfl⟩
  · exact ⟨.type hc, .inr (.inr ⟨c, hc, hname, htype⟩)⟩
  · rcases Json.Value.literalText?_eq_none.mp htext with hvs | hms
    · exact ⟨.value hc, .inl hvs⟩
    · exact ⟨.value hc, .inr (.inl hms)⟩

theorem ofCell_ne_ok (hs : s.Consistent) {row : Row} (hrow : row ∈ s.rows)
    {cell : String × Json.Value} (hcell : cell ∈ row) (h : s.Unrenderable cell) (l : Literal) :
    Literal.ofCell s.table s.columns cell ≠ .ok l := by
  obtain ⟨c, _, _, hfind⟩ := hs.find?_cell hrow hcell
  have herror : ∃ e, Literal.ofValue s.table c cell.2 = .error e := by
    by_cases htype : c.sqlType? = none
    · exact ⟨_, Literal.ofValue_error_iff.mpr (.inl ⟨htype, rfl⟩)⟩
    · have htext : cell.2.literalText? = none := by
        rw [Json.Value.literalText?_eq_none]
        rcases h with hvs | hms | ⟨c', hc', hname', htype'⟩
        · exact .inl hvs
        · exact .inr hms
        · -- A column of the same name is the same column.
          have hsame := hname' ▸ Column.find?_of_mem hs.distinct hc'
          rw [hfind, Option.some.injEq] at hsame
          exact absurd (hsame ▸ htype') htype
      exact ⟨_, Literal.ofValue_error_iff.mpr (.inr ⟨htype, htext, rfl⟩)⟩
  obtain ⟨e, he⟩ := herror
  simp [Literal.ofCell, hfind, he]

theorem ofIndex_ok (hs : s.Consistent) {index : Index} (hi : index ∈ s.indexes) :
    ∃ i, IndexDef.ofIndex s.table s.columns index = .ok i := by
  unfold IndexDef.ofIndex
  split
  · rename_i field hfield
    have hdeclared := (hs.indexes index hi).2 field (List.mem_of_find?_eq_some hfield)
    rw [← Column.declares_iff] at hdeclared
    have hundeclared := List.find?_some hfield
    simp [hdeclared] at hundeclared
  · exact ⟨_, rfl⟩

/-- Validation and compiling agree on what a schema may refer to, so that only a cell can make
compiling fail. -/
theorem compile_error (hs : s.Consistent) {e : Error} (h : s.compile options = .error e) :
    s.ColumnError e ∧ ∃ row ∈ s.rows, ∃ cell ∈ row, s.Unrenderable cell := by
  simp only [compile, except_bind_eq_error, except_pure_eq_error, and_false, exists_false,
    or_false] at h
  rcases h with h | ⟨_, _, h⟩
  · obtain ⟨before, index, after, hindexes, _, hi⟩ := except_mapM_eq_error.mp h
    have hindex : index ∈ s.indexes := by simp [hindexes]
    obtain ⟨i, hok⟩ := hs.ofIndex_ok hindex
    rw [hi] at hok
    cases hok
  · obtain ⟨_, row, _, hrows, _, hr⟩ := except_mapM_eq_error.mp h
    have hrow : row ∈ s.rows := by simp [hrows]
    simp only [Insert.ofRow, except_bind_eq_error, except_pure_eq_error, and_false, exists_false,
      or_false] at hr
    obtain ⟨_, cell, _, hcells, _, hc⟩ := except_mapM_eq_error.mp hr
    have hcell : cell ∈ row := by simp [hcells]
    obtain ⟨herror, hcause⟩ := hs.ofCell_error hrow hcell hc
    exact ⟨herror, row, hrow, cell, hcell, hcause⟩

theorem compile_ne_ok (hs : s.Consistent) {row : Row} (hrow : row ∈ s.rows)
    {cell : String × Json.Value} (hcell : cell ∈ row) (h : s.Unrenderable cell)
    (c : TableStatements) : s.compile options ≠ .ok c := by
  intro hc
  obtain ⟨_, _, _, hr, _⟩ := compile_eq_ok.mp hc
  obtain ⟨i, hi⟩ := except_mapM_each hr hrow
  simp only [Insert.ofRow, except_bind_eq_ok] at hi
  obtain ⟨_, hcells, _⟩ := hi
  obtain ⟨l, hl⟩ := except_mapM_each hcells hcell
  exact hs.ofCell_ne_ok hrow hcell h l hl

theorem compile_error_iff (hs : s.Consistent) : (∃ e, s.compile options = .error e) ↔
    ∃ row ∈ s.rows, ∃ cell ∈ row, s.Unrenderable cell := by
  constructor
  · rintro ⟨e, he⟩
    exact (hs.compile_error he).2
  · rintro ⟨row, hrow, cell, hcell, hcause⟩
    cases hc : s.compile options with
    | error e => exact ⟨e, rfl⟩
    | ok c => exact absurd hc (hs.compile_ne_ok hrow hcell hcause c)

end Consistent
end Schema

/-- What can be reported of a document: that it is malformed, under its origin, or that a column it
declares has a value or a type of no literals. -/
inductive Error.Concerns (d : Document) : Error → Prop
  | malformed (fault : SchemaFault) : Concerns d (.malformed d.origin fault)
  | column {s : Schema} {e : Error} (document : Schema.ofDocument d.value = .ok s)
    (error : s.ColumnError e) : Concerns d e

theorem Verdict.Right.concerns {options : CompileOptions} {taken : List String} {d : Document}
    {e : Error} (h : (Verdict.rejected d e).Right options taken) : e.Concerns d := by
  rcases h with ⟨fault, _, rfl⟩ | ⟨s, hs, ⟨_, rfl⟩ | ⟨_, hc⟩⟩
  · exact .malformed fault
  · exact .malformed _
  · exact .column hs ((Schema.ofDocument_eq_ok.mp hs).2.compile_error hc).1

variable {options : CompileOptions}

theorem verdicts_before {taken : List String} {ds : List Document} {before after : List Verdict}
    {v : Verdict} (h : verdicts options taken ds = before ++ v :: after) :
    ds = before.map Verdict.document ++ v.document :: after.map Verdict.document ∧
      verdicts options taken (before.map Verdict.document) = before := by
  have hds := @map_document_verdicts options taken ds
  rw [h, List.map_append, List.map_cons, eq_comm] at hds
  refine ⟨hds, ?_⟩
  rw [hds, verdicts_append] at h
  have hlength := congrArg List.length
    (@map_document_verdicts options taken (before.map Verdict.document))
  rw [List.length_map, List.length_map] at hlength
  exact List.append_inj_left h hlength

namespace Plan

/-- A document that the plan of those before it cannot take, and the reason. -/
def Refused (policy : Policy) (options : CompileOptions) (documents : List Document)
    (d : Document) (e : Error) : Prop :=
  ∃ before after p, documents = before ++ d :: after ∧
    ofDocuments policy options before = .ok p ∧ p.compileDocument options d = .error e

theorem compileDocument_rejected {vs : List Verdict} {d : Document} {e : Error}
    (h : d.verdict options (vs.flatMap Verdict.tables) = .rejected d e) :
    (({} : Plan).enter vs).compileDocument options d = .error e := by
  rw [compileDocument_eq]
  change (d.verdict options (vs.flatMap Verdict.tables)).result = _
  rw [h]
  rfl

theorem failFast_refused {documents : List Document} {e : Error}
    (h : ofDocuments .failFast options documents = .error e) :
    ∃ d, Refused .failFast options documents d e ∧ e.Concerns d := by
  rw [ofDocuments_failFast] at h
  cases hes : (verdicts options [] documents).flatMap Verdict.errors with
  | nil => simp [hes] at h
  | cons e' es =>
    obtain rfl : e' = e := by simpa [hes] using h
    obtain ⟨before, d, later, hsplit, hbefore, hd⟩ := verdicts_first_error hes
    rw [List.nil_append] at hd
    have hright : (Verdict.rejected d e').Right options
        ((verdicts options [] before).flatMap Verdict.tables) := hd ▸ d.verdict_right
    exact ⟨d, ⟨before, later, _, hsplit, ofDocuments_failFast_of_no_error hbefore,
      compileDocument_rejected hd⟩, hright.concerns⟩

theorem skipInvalid_refused {documents : List Document} {e : Error}
    (h : e ∈ (verdicts options [] documents).flatMap Verdict.errors) :
    ∃ d, Refused .skipInvalid options documents d e ∧ e.Concerns d := by
  obtain ⟨v, hv, he⟩ := List.mem_flatMap.mp h
  cases v with
  | accepted d s c => simp [Verdict.errors] at he
  | rejected d e' =>
    obtain rfl : e = e' := List.mem_singleton.mp he
    obtain ⟨before, after, hsplit⟩ := List.append_of_mem hv
    obtain ⟨hdocuments, hbefore⟩ := verdicts_before hsplit
    have hd := verdict_of_split hsplit
    rw [List.nil_append] at hd
    have hright : (Verdict.rejected d e).Right options (before.flatMap Verdict.tables) :=
      hd ▸ d.verdict_right
    refine ⟨d, ⟨before.map Verdict.document, _, _, hdocuments, ofDocuments_skipInvalid _, ?_⟩,
      hright.concerns⟩
    rw [hbefore]
    exact compileDocument_rejected hd.symm

/-- A schema that passed validation never fails to compile for a column that it does not have, but
exactly for a cell that no literal is made from. So whatever planning from memory reports concerns
the document it comes from, and under `skipInvalid` there is always a plan. -/
theorem errors_concern_documents :
    (∀ document s options, Schema.ofDocument document = .ok s →
      (∀ table column, s.compile options ≠ .error (.unknownColumn table column)) ∧
      ((∃ e, s.compile options = .error e) ↔
        ∃ row ∈ s.rows, ∃ cell ∈ row, s.Unrenderable cell)) ∧
    ∀ (config : Config) t documents,
      (∀ e, ofSource { config with policy := .failFast } t (.memory documents) = .error e →
        ∃ d, Refused .failFast ⟨config.outputDir, config.notNull⟩ documents d e ∧
          e.Concerns d) ∧
      ∃ q, ofSource { config with policy := .skipInvalid } t (.memory documents) = .ok q ∧
        ∀ e ∈ q.rejected,
          ∃ d, Refused .skipInvalid ⟨config.outputDir, config.notNull⟩ documents d e ∧
            e.Concerns d := by
  constructor
  · intro document s options hs
    have hconsistent := (Schema.ofDocument_eq_ok.mp hs).2
    refine ⟨fun table column h => ?_, hconsistent.compile_error_iff⟩
    cases (hconsistent.compile_error h).1
  · intro config t documents
    exact ⟨fun e he => failFast_refused he, _, ofSource_skipInvalid rfl t (.memory documents),
      fun e he => skipInvalid_refused he⟩

theorem errors_concern_documents_counting :
    let documents := [.counting "a" "integer", .counting "b" "integer", .counting "c" "money"]
    let e := .malformed "b" (.repeatedTable "counts")
    ofSource {} ⟨[], []⟩ (.memory documents) = .error e ∧
    (∃ d, Refused .failFast ⟨"parquet", .nullableTrue⟩ documents d e ∧ e.Concerns d) ∧
    ∃ s, Schema.ofDocument (Document.counting "c" "money").value = .ok s ∧
      ∃ row ∈ s.rows, ∃ cell ∈ row, s.Unrenderable cell := by
  intro documents e
  have he : ofSource {} ⟨[], []⟩ (.memory documents) = .error e := rfl
  have hs : Schema.ofDocument (Document.counting "c" "money").value = .ok _ := rfl
  obtain ⟨hcompile, hplan⟩ := errors_concern_documents
  refine ⟨he, (hplan {} ⟨[], []⟩ documents).1 e he, _, hs, ?_⟩
  exact (hcompile _ _ ⟨"parquet", .nullableTrue⟩ hs).2.mp ⟨_, rfl⟩

end Plan
end SeedTables
