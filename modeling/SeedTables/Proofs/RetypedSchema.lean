import SeedTables.Proofs.BaseName
import SeedTables.Proofs.CompiledStatements

namespace SeedTables

/-- Columns that differ in the declared type alone, and there not in the base name but for the case
of its letters. -/
structure Column.Retyped (c c' : Column) : Prop where
  name : c.name = c'.name
  key : c.key = c'.key
  nullable : c.nullable = c'.nullable
  foreignKey : c.foreignKey = c'.foreignKey
  type : ∃ base base', SqlType.HasBase c.type base ∧ SqlType.HasBase c'.type base' ∧
    Text.SameLetters base base'

structure Schema.Retyped (s s' : Schema) : Prop where
  table : s.table = s'.table
  columns : List.Forall₂ Column.Retyped s.columns s'.columns
  indexes : s.indexes = s'.indexes
  rows : s.rows = s'.rows
  options : s.options = s'.options

/-- Errors of one kind about one column of a table. The type that one of them tells may be
another. -/
inductive Error.SameColumn : Error → Error → Prop
  | unknownColumn (table column : String) :
      SameColumn (.unknownColumn table column) (.unknownColumn table column)
  | unsupportedType (table column type type' : String) :
      SameColumn (.unsupportedType table column type) (.unsupportedType table column type')
  | unsupportedValue (table column : String) :
      SameColumn (.unsupportedValue table column) (.unsupportedValue table column)

namespace Column

variable {columns columns' : List Column}

theorem Retyped.sqlType?_eq {c c' : Column} (h : c.Retyped c') : c.sqlType? = c'.sqlType? := by
  obtain ⟨base, base', hbase, hbase', hletters⟩ := h.type
  rw [sqlType?, sqlType?, SqlType.ofDeclared?, SqlType.ofDeclared?, SqlType.baseName_eq hbase,
    SqlType.baseName_eq hbase', Text.sameLetters_iff.mp hletters]

theorem find?_retyped (h : List.Forall₂ Retyped columns columns') (name : String) :
    Option.Rel Retyped (find? columns name) (find? columns' name) := by
  induction h with
  | nil => exact .none
  | cons hc _ ih =>
    unfold find? at ih ⊢
    rw [List.find?_cons, List.find?_cons, ← hc.name]
    split
    · exact .some hc
    · exact ih

theorem declares_retyped (h : List.Forall₂ Retyped columns columns') (name : String) :
    declares columns name = declares columns' name := by
  have hfind := find?_retyped h name
  unfold declares
  generalize find? columns name = found, find? columns' name = found' at hfind ⊢
  cases hfind with
  | none => rfl
  | some _ => rfl

end Column

section Statements

variable {columns columns' : List Column} (h : List.Forall₂ Column.Retyped columns columns')
  (table : String)

theorem Literal.ofValue_retyped {c c' : Column} (h : c.Retyped c') (value : Json.Value) :
    SameEnd Error.SameColumn Eq (ofValue table c value) (ofValue table c' value) := by
  unfold ofValue
  rw [← h.sqlType?_eq, ← h.name]
  cases c.sqlType? with
  | none => exact .error (.unsupportedType ..)
  | some type =>
    cases value.literalText? with
    | none => exact .error (.unsupportedValue ..)
    | some text => exact .ok rfl

include h

theorem Literal.ofCell_retyped (cell : String × Json.Value) :
    SameEnd Error.SameColumn Eq (ofCell table columns cell) (ofCell table columns' cell) := by
  have hfind := Column.find?_retyped h cell.1
  unfold ofCell
  generalize Column.find? columns cell.1 = found, Column.find? columns' cell.1 = found' at hfind ⊢
  cases hfind with
  | none => exact .error (.unknownColumn ..)
  | some hc => exact ofValue_retyped table hc cell.2

theorem Insert.ofRow_retyped (row : Row) :
    SameEnd Error.SameColumn Eq (ofRow table columns row) (ofRow table columns' row) := by
  refine (SameEnd.mapM fun cell _ => Literal.ofCell_retyped h table cell).bind ?_
  rintro values _ rfl
  exact .ok rfl

theorem IndexDef.ofIndex_retyped (index : Index) :
    SameEnd Error.SameColumn Eq (ofIndex table columns index) (ofIndex table columns' index) := by
  unfold ofIndex
  simp only [Column.declares_retyped h]
  split
  · exact .error (.unknownColumn ..)
  · exact .ok rfl

end Statements

namespace Schema

theorem Retyped.compile {s s' : Schema} (h : s.Retyped s') (options : CompileOptions) :
    SameEnd Error.SameColumn (fun c c' => c.data = c'.data) (s.compile options)
      (s'.compile options) := by
  unfold Schema.compile
  rw [← h.table, ← h.indexes, ← h.rows]
  refine (SameEnd.mapM fun index _ => IndexDef.ofIndex_retyped h.columns s.table index).bind ?_
  rintro indexes _ rfl
  refine (SameEnd.mapM fun row _ => Insert.ofRow_retyped h.columns s.table row).bind ?_
  rintro inserts _ rfl
  exact .ok rfl

/-- Every literal of an insert is in a column whose type is listed. -/
theorem compile_inserts_listed {s : Schema} {options : CompileOptions} {c : TableStatements}
    (hc : s.compile options = .ok c) {i : Insert} (hi : .insert i ∈ c.data) :
    List.Forall₂ (fun name _ => ∃ column, Column.First s.columns name column ∧
      SqlType.Listed column.type) i.columns i.values := by
  obtain ⟨indexes, inserts, _, hinserts, rfl⟩ := compile_eq_ok.mp hc
  have hmem : i ∈ inserts := by simpa using hi
  obtain ⟨row, _, hrow⟩ := except_mapM_mem hinserts hmem
  have hfills := Insert.ofRow_eq_ok.mp hrow
  rw [hfills.keys, List.forall₂_map_left_iff]
  refine hfills.values.imp ?_
  rintro cell l ⟨column, hfirst, hshows⟩
  refine ⟨column, hfirst, SqlType.ofDeclared?_eq_some_iff.mp ?_⟩
  cases hshows with
  | quoted varchar => exact ⟨_, varchar⟩
  | bare known => exact ⟨_, known⟩

/-- Of a declared type its base name alone counts for data, and there not the case of its letters.
Two schemas that are the same otherwise compile to the same data, or are refused for the same
column. The types that are known are those with a base name of the vocabulary, and no literal is
written in a column of any other. -/
theorem compile_retyped :
    (∀ s s' options, Retyped s s' → SameEnd Error.SameColumn (fun c c' => c.data = c'.data)
      (s.compile options) (s'.compile options)) ∧
    (∀ declared, (∃ type, SqlType.ofDeclared? declared = some type) ↔ SqlType.Listed declared) ∧
    ∀ s options c, Schema.compile s options = .ok c → ∀ i, .insert i ∈ c.data →
      List.Forall₂ (fun name _ => ∃ column, Column.First s.columns name column ∧
        SqlType.Listed column.type) i.columns i.values := by
  refine ⟨fun s s' options h => h.compile options, ?_, ?_⟩
  · exact fun declared => SqlType.ofDeclared?_eq_some_iff
  · exact fun s options c hc i hi => compile_inserts_listed hc hi

def typed (type : String) : Schema where
  table := "t"
  columns := [{ name := "a", type }]
  indexes := []
  rows := [[("a", .string "x")]]
  options := none

/-- Neither blanks and capital letters nor what stands behind the parenthesis matter to the row. -/
theorem compile_retyped_padded : (typed "\u3000VARCHAR (max(").Retyped (typed "varchar") ∧
    ∃ c, (typed "\u3000VARCHAR (max(").compile ⟨"out", .nullableTrue⟩ = .ok c ∧
      c.data = [.insert ⟨"t", ["a"], [.quoted "x"]⟩] ∧
      List.Forall₂ (fun name _ => ∃ column,
        Column.First (typed "\u3000VARCHAR (max(").columns name column ∧
          SqlType.Listed column.type) ["a"] [Literal.quoted "x"] := by
  have hpadded : SqlType.HasBase "\u3000VARCHAR (max(" "VARCHAR" :=
    ⟨_, Text.before_takeWhile '(' _, Text.trimmed_trim _⟩
  have hplain : SqlType.HasBase "varchar" "varchar" :=
    ⟨_, Text.before_takeWhile '(' _, Text.trimmed_trim _⟩
  have hletters : Text.SameLetters "VARCHAR" "varchar" := by
    rw [Text.sameLetters_iff, ← String.toList_inj, Text.toList_toLower, Text.toList_toLower]
    decide
  have hcolumns : List.Forall₂ Column.Retyped (typed "\u3000VARCHAR (max(").columns
      (typed "varchar").columns :=
    .cons ⟨rfl, rfl, rfl, rfl, _, _, hpadded, hplain, hletters⟩ .nil
  have hretyped : (typed "\u3000VARCHAR (max(").Retyped (typed "varchar") :=
    ⟨rfl, hcolumns, rfl, rfl, rfl⟩
  have hvarchar : (typed "varchar").compile ⟨"out", .nullableTrue⟩ =
      .ok ⟨(typed "varchar").definitions ⟨"out", .nullableTrue⟩,
        [.insert ⟨"t", ["a"], [.quoted "x"]⟩]⟩ := rfl
  have hend := compile_retyped.1 _ _ ⟨"out", .nullableTrue⟩ hretyped
  rw [hvarchar] at hend
  generalize hc : (typed "\u3000VARCHAR (max(").compile ⟨"out", .nullableTrue⟩ = compiled at hend
  cases hend with
  | @ok c _ same =>
    have hinsert : .insert ⟨"t", ["a"], [.quoted "x"]⟩ ∈ c.data := same ▸ List.mem_singleton_self _
    exact ⟨hretyped, c, rfl, same, compile_retyped.2.2 _ _ c hc _ hinsert⟩

end Schema
end SeedTables
