import SeedTables.Proofs.CompiledTable
import SeedTables.Proofs.FirstFault
import SeedTables.Proofs.RecordParts

namespace SeedTables

/-- The column that a name stands for: the first one that has it. -/
def Column.First (columns : List Column) (name : String) (c : Column) : Prop :=
  c.name = name ∧ AfterOnly (fun b => b.name ≠ name) columns c

/-- The text of a value that is neither an array nor an object. -/
inductive Json.Value.HasText : Json.Value → String → Prop
  | string (s : String) : HasText (.string s) s
  | number (n : Json.Number) : HasText (.number n) n.text
  | true : HasText (.bool true) "true"
  | false : HasText (.bool false) "false"
  | null : HasText .null "null"

namespace Literal

/-- A literal of a value in a column: its text, between quotes for a varchar and bare for any other
type that has literals. -/
inductive Shows (column : Column) (value : Json.Value) : Literal → Prop
  | quoted {text : String} (varchar : column.sqlType? = some .varchar)
      (read : value.HasText text) : Shows column value (.quoted text)
  | bare {type : SqlType} {text : String} (known : column.sqlType? = some type)
      (other : type ≠ .varchar) (read : value.HasText text) : Shows column value (.bare text)

/-- A literal of a cell, in the column that its key stands for. -/
def ShowsCell (columns : List Column) (cell : String × Json.Value) (l : Literal) : Prop :=
  ∃ column, Column.First columns cell.1 column ∧ Shows column cell.2 l

/-- A cell that a literal is made of. -/
def Showable (columns : List Column) (cell : String × Json.Value) : Prop :=
  ∃ column, Column.First columns cell.1 column ∧ column.sqlType? ≠ none ∧
    (∀ vs, cell.2 ≠ .array vs) ∧ ∀ ms, cell.2 ≠ .object ms

/-- Why no literal is made of a cell. The column is asked for first, then its type, then the
value. -/
inductive Refused (table : String) (columns : List Column) (cell : String × Json.Value) :
    Error → Prop
  | column (absent : ∀ c ∈ columns, c.name ≠ cell.1) :
      Refused table columns cell (.unknownColumn table cell.1)
  | type {column : Column} (first : Column.First columns cell.1 column)
      (unknown : column.sqlType? = none) :
      Refused table columns cell (.unsupportedType table column.name column.type)
  | value {column : Column} (first : Column.First columns cell.1 column)
      (known : column.sqlType? ≠ none)
      (nested : (∃ vs, cell.2 = .array vs) ∨ ∃ ms, cell.2 = .object ms) :
      Refused table columns cell (.unsupportedValue table column.name)

end Literal

section Cells

variable {table : String} {columns : List Column} {cell : String × Json.Value}

theorem Column.find?_eq_some {name : String} {c : Column} :
    find? columns name = some c ↔ First columns name c := by
  simp [find?, find?_eq_some_afterOnly, First]

theorem Column.find?_eq_none {name : String} :
    find? columns name = none ↔ ∀ c ∈ columns, c.name ≠ name := by
  simp [find?]

theorem Json.Value.literalText?_eq_some {v : Json.Value} {text : String} :
    v.literalText? = some text ↔ v.HasText text := by
  constructor
  · intro h
    cases v with
    | null => exact Option.some.inj h ▸ .null
    | bool b =>
      cases b with
      | true => exact Option.some.inj h ▸ .true
      | false => exact Option.some.inj h ▸ .false
    | number n => exact Option.some.inj h ▸ .number n
    | string s => exact Option.some.inj h ▸ .string s
    | array vs => cases h
    | object ms => cases h
  · rintro (_ | _ | _ | _ | _) <;> rfl

theorem Json.Value.literalText?_ne_none {v : Json.Value} :
    v.literalText? ≠ none ↔ (∀ vs, v ≠ .array vs) ∧ ∀ ms, v ≠ .object ms := by
  simp [literalText?_eq_none]

theorem Literal.ofValue_eq_ok {column : Column} {value : Json.Value} {l : Literal} :
    ofValue table column value = .ok l ↔ Shows column value l := by
  unfold ofValue
  constructor
  · intro h
    cases htype : column.sqlType? with
    | none => simp [htype] at h
    | some type =>
      cases htext : value.literalText? with
      | none => simp [htype, htext] at h
      | some text =>
        simp only [htype, htext, Except.ok.injEq] at h
        have hvalue := Json.Value.literalText?_eq_some.mp htext
        by_cases hvarchar : type = .varchar
        · subst hvarchar
          exact h ▸ .quoted htype hvalue
        · simp only [SqlType.isQuoted, hvarchar, decide_false, Bool.false_eq_true, ↓reduceIte] at h
          exact h ▸ .bare htype hvarchar hvalue
  · rintro (⟨htype, htext⟩ | ⟨htype, hother, htext⟩)
    · simp [htype, Json.Value.literalText?_eq_some.mpr htext, SqlType.isQuoted]
    · simp [htype, Json.Value.literalText?_eq_some.mpr htext, SqlType.isQuoted, hother]

theorem Literal.ofCell_eq_ok {l : Literal} :
    ofCell table columns cell = .ok l ↔ ShowsCell columns cell l := by
  unfold ofCell ShowsCell
  simp only [← Column.find?_eq_some]
  cases Column.find? columns cell.1 with
  | none => simp
  | some column => simp [ofValue_eq_ok]

theorem Literal.ofCell_eq_error {e : Error} :
    ofCell table columns cell = .error e ↔ Refused table columns cell e := by
  unfold ofCell
  constructor
  · intro h
    cases hcolumn : Column.find? columns cell.1 with
    | none =>
      simp only [hcolumn, Except.error.injEq] at h
      exact h ▸ .column (Column.find?_eq_none.mp hcolumn)
    | some column =>
      have hfirst := Column.find?_eq_some.mp hcolumn
      simp only [hcolumn, ofValue_error_iff] at h
      rcases h with ⟨hunknown, rfl⟩ | ⟨hknown, hnested, rfl⟩
      · exact .type hfirst hunknown
      · exact .value hfirst hknown (Json.Value.literalText?_eq_none.mp hnested)
  · rintro (habsent | ⟨hfirst, hunknown⟩ | ⟨hfirst, hknown, hnested⟩)
    · simp [Column.find?_eq_none.mpr habsent]
    · rw [Column.find?_eq_some.mpr hfirst]
      exact ofValue_error_iff.mpr (.inl ⟨hunknown, rfl⟩)
    · rw [Column.find?_eq_some.mpr hfirst]
      exact ofValue_error_iff.mpr
        (.inr ⟨hknown, Json.Value.literalText?_eq_none.mpr hnested, rfl⟩)

theorem Literal.exists_shows {column : Column} {value : Json.Value} :
    (∃ l, Shows column value l) ↔ column.sqlType? ≠ none ∧
      (∀ vs, value ≠ .array vs) ∧ ∀ ms, value ≠ .object ms := by
  rw [← Json.Value.literalText?_ne_none]
  constructor
  · rintro ⟨_, ⟨htype, htext⟩ | ⟨htype, _, htext⟩⟩
    · simp [htype, Json.Value.literalText?_eq_some.mpr htext]
    · simp [htype, Json.Value.literalText?_eq_some.mpr htext]
  · rintro ⟨htype, htext⟩
    obtain ⟨type, htype⟩ := Option.ne_none_iff_exists'.mp htype
    obtain ⟨text, htext⟩ := Option.ne_none_iff_exists'.mp htext
    have hread := Json.Value.literalText?_eq_some.mp htext
    by_cases hvarchar : type = .varchar
    · exact ⟨_, .quoted (hvarchar ▸ htype) hread⟩
    · exact ⟨_, .bare htype hvarchar hread⟩

theorem Literal.exists_ofCell :
    (∃ l, ofCell table columns cell = .ok l) ↔ Showable columns cell := by
  simp only [ofCell_eq_ok, ShowsCell, Showable, ← exists_shows]
  constructor
  · rintro ⟨l, column, hfirst, hshows⟩
    exact ⟨column, hfirst, l, hshows⟩
  · rintro ⟨column, hfirst, l, hshows⟩
    exact ⟨l, column, hfirst, hshows⟩

end Cells

/-- The declarations that make a column `NOT NULL`, under each rule. -/
inductive NotNullRule.Marks : NotNullRule → Option Bool → Prop
  | nullable : Marks .nullableTrue (some true)
  | nonNullable : Marks .nullableFalse (some false)

theorem NotNullRule.holds_iff {rule : NotNullRule} {c : Column} :
    rule.holds c = true ↔ rule.Marks c.nullable := by
  unfold holds
  generalize c.nullable = declared
  cases rule with
  | nullableTrue =>
    rw [decide_eq_true_iff]
    constructor
    · rintro rfl
      exact .nullable
    · rintro ⟨⟩
      rfl
  | nullableFalse =>
    rw [decide_eq_true_iff]
    constructor
    · rintro rfl
      exact .nonNullable
    · rintro ⟨⟩
      rfl

/-- The definition of a column in its table. -/
structure ColumnDef.Declares (rule : NotNullRule) (c : Column) (d : ColumnDef) : Prop where
  name : d.name = c.name
  type : d.type = c.type
  primaryKey : d.primaryKey = c.key
  notNull : d.notNull = true ↔ rule.Marks c.nullable
  references : d.references = c.foreignKey

structure IndexDef.Indexes (table : String) (index : Index) (i : IndexDef) : Prop where
  name : i.name = index.name
  unique : i.unique = index.unique
  table : i.table = table
  fields : i.fields = index.fields

/-- The insert of a row: its keys as they stand, and at each place the literal of the cell. -/
structure Insert.Fills (table : String) (columns : List Column) (row : Row) (i : Insert) :
    Prop where
  table : i.table = table
  keys : i.columns = row.map Prod.fst
  values : List.Forall₂ (Literal.ShowsCell columns) row i.values

section Statements

variable {table : String} {columns : List Column}

theorem ColumnDef.declares_iff {rule : NotNullRule} {c : Column} {d : ColumnDef} :
    Declares rule c d ↔ ofColumn rule c = d := by
  constructor
  · intro h
    have hnotNull : d.notNull = rule.holds c :=
      Bool.eq_iff_iff.mpr (h.notNull.trans NotNullRule.holds_iff.symm)
    cases d
    simp only [ofColumn, mk.injEq]
    exact ⟨h.name.symm, h.type.symm, h.primaryKey.symm, hnotNull.symm, h.references.symm⟩
  · rintro rfl
    exact ⟨rfl, rfl, rfl, NotNullRule.holds_iff, rfl⟩

theorem ColumnDef.forall₂_declares {rule : NotNullRule} {ds : List ColumnDef} :
    List.Forall₂ (Declares rule) columns ds ↔ columns.map (ofColumn rule) = ds := by
  have heq : List.Forall₂ Eq (columns.map (ofColumn rule)) ds ↔
      columns.map (ofColumn rule) = ds := by
    rw [List.forall₂_eq_eq_eq]
  rw [← heq, List.forall₂_map_left_iff]
  constructor
  · exact fun h => h.imp fun _ _ hd => declares_iff.mp hd
  · exact fun h => h.imp fun _ _ hd => declares_iff.mpr hd

theorem IndexDef.ofIndex_eq_ok {index : Index} {i : IndexDef} :
    ofIndex table columns index = .ok i ↔
      (∀ field ∈ index.fields, ∃ c ∈ columns, c.name = field) ∧ Indexes table index i := by
  unfold ofIndex
  cases hfind : index.fields.find? fun field => !Column.declares columns field with
  | none =>
    have hdeclared : ∀ field ∈ index.fields, ∃ c ∈ columns, c.name = field := by
      simpa [Column.declares_iff] using hfind
    simp only [Except.ok.injEq]
    constructor
    · rintro rfl
      exact ⟨hdeclared, rfl, rfl, rfl, rfl⟩
    · rintro ⟨_, h⟩
      cases i
      simp only [mk.injEq]
      exact ⟨h.name.symm, h.unique.symm, h.table.symm, h.fields.symm⟩
  | some field =>
    obtain ⟨habsent, hfirst⟩ := find?_eq_some_afterOnly.mp hfind
    simp only [reduceCtorEq, false_iff]
    rintro ⟨hdeclared, _⟩
    have hfield := Column.declares_iff.mpr (hdeclared field hfirst.mem)
    simp [hfield] at habsent

theorem IndexDef.exists_ofIndex {index : Index} :
    (∃ i, ofIndex table columns index = .ok i) ↔
      ∀ field ∈ index.fields, ∃ c ∈ columns, c.name = field := by
  simp only [ofIndex_eq_ok]
  constructor
  · rintro ⟨_, hdeclared, _⟩
    exact hdeclared
  · exact fun h => ⟨⟨index.name, index.unique, table, index.fields⟩, h, rfl, rfl, rfl, rfl⟩

theorem IndexDef.ofIndex_eq_error {index : Index} {e : Error} :
    ofIndex table columns index = .error e ↔ ∃ field,
      AfterOnly (fun field => ∃ c ∈ columns, c.name = field) index.fields field ∧
      (∀ c ∈ columns, c.name ≠ field) ∧ .unknownColumn table field = e := by
  have hfirst (field : String) :
      (index.fields.find? fun field => !Column.declares columns field) = some field ↔
        (∀ c ∈ columns, c.name ≠ field) ∧
        AfterOnly (fun field => ∃ c ∈ columns, c.name = field) index.fields field := by
    simp only [find?_eq_some_afterOnly, Bool.not_eq_true', Bool.not_eq_false',
      Column.declares_eq_false, Column.declares_iff]
  unfold ofIndex
  cases hfind : index.fields.find? fun field => !Column.declares columns field with
  | none =>
    simp only [reduceCtorEq, false_iff]
    rintro ⟨field, hafter, habsent, _⟩
    rw [(hfirst field).mpr ⟨habsent, hafter⟩] at hfind
    cases hfind
  | some field =>
    simp only [Except.error.injEq]
    constructor
    · rintro rfl
      obtain ⟨habsent, hafter⟩ := (hfirst field).mp hfind
      exact ⟨field, hafter, habsent, rfl⟩
    · rintro ⟨field', hafter, habsent, rfl⟩
      rw [(hfirst field').mpr ⟨habsent, hafter⟩] at hfind
      rw [Option.some.inj hfind]

theorem Insert.ofRow_eq_ok {row : Row} {i : Insert} :
    ofRow table columns row = .ok i ↔ Fills table columns row i := by
  simp only [ofRow, except_bind_eq_ok, except_pure_eq_ok, except_mapM_eq_ok_iff_forall₂,
    Literal.ofCell_eq_ok]
  constructor
  · rintro ⟨values, hvalues, rfl⟩
    exact ⟨rfl, rfl, hvalues⟩
  · intro h
    refine ⟨i.values, h.values, ?_⟩
    cases i
    simp only [mk.injEq, and_true]
    exact ⟨h.table.symm, h.keys.symm⟩

theorem Insert.exists_ofRow {row : Row} :
    (∃ i, ofRow table columns row = .ok i) ↔ ∀ cell ∈ row, Literal.Showable columns cell := by
  have hshown : (∃ values, row.mapM (Literal.ofCell table columns) = .ok values) ↔
      ∀ cell ∈ row, Literal.Showable columns cell := by
    simp only [except_mapM_exists_ok, Literal.exists_ofCell]
  rw [← hshown]
  simp only [ofRow, except_bind_eq_ok, except_pure_eq_ok]
  constructor
  · rintro ⟨_, values, hvalues, _⟩
    exact ⟨values, hvalues⟩
  · rintro ⟨values, hvalues⟩
    exact ⟨_, values, hvalues, rfl⟩

theorem Insert.ofRow_eq_error {row : Row} {e : Error} :
    ofRow table columns row = .error e ↔ ∃ cell,
      AfterOnly (Literal.Showable columns) row cell ∧ Literal.Refused table columns cell e := by
  simp only [ofRow, except_bind_eq_error, except_pure_eq_error, and_false, exists_false, or_false,
    except_mapM_eq_error_afterOnly, Literal.exists_ofCell, Literal.ofCell_eq_error]

end Statements

namespace Schema

/-- The fields of every index are columns, and every cell of every row has a literal. -/
structure Compilable (s : Schema) : Prop where
  indexes : ∀ index ∈ s.indexes, ∀ field ∈ index.fields, ∃ c ∈ s.columns, c.name = field
  rows : ∀ row ∈ s.rows, ∀ cell ∈ row, Literal.Showable s.columns cell

/-- The statements of a schema. Those that define the table create it, export it and give it a
sequence if it has options; the others are its indexes and then its rows, each in order. -/
structure CompiledTo (s : Schema) (options : CompileOptions) (c : TableStatements) : Prop where
  definitions : ∃ columns,
    List.Forall₂ (ColumnDef.Declares options.notNull) s.columns columns ∧
    c.definitions = [.createTable s.table columns,
      .exportTable s.table (options.outputDir.join (s.table ++ ".parquet"))] ++
        if s.options.isSome then [.createSequence s.table] else []
  data : ∃ indexes inserts, c.data = indexes.map .createIndex ++ inserts.map .insert ∧
    List.Forall₂ (IndexDef.Indexes s.table) s.indexes indexes ∧
    List.Forall₂ (Insert.Fills s.table s.columns) s.rows inserts

/-- The error found first: the first field that is no column, in the first index that has such a
field; or, if all indexes are right, what the first cell without a literal is refused for, in the
first row that has such a cell. -/
inductive FirstError (s : Schema) : Error → Prop
  | index {index : Index} {field : String}
      (first : AfterOnly (fun i => ∀ field ∈ i.fields, ∃ c ∈ s.columns, c.name = field)
        s.indexes index)
      (declared : AfterOnly (fun field => ∃ c ∈ s.columns, c.name = field) index.fields field)
      (absent : ∀ c ∈ s.columns, c.name ≠ field) :
      FirstError s (.unknownColumn s.table field)
  | row {row : Row} {cell : String × Json.Value} {e : Error}
      (indexes : ∀ index ∈ s.indexes, ∀ field ∈ index.fields, ∃ c ∈ s.columns, c.name = field)
      (first : AfterOnly (fun r => ∀ cell ∈ r, Literal.Showable s.columns cell) s.rows row)
      (shown : AfterOnly (Literal.Showable s.columns) row cell)
      (refused : Literal.Refused s.table s.columns cell e) : FirstError s e

variable {s : Schema} {options : CompileOptions}

theorem indexes_eq_ok {indexes : List IndexDef} :
    s.indexes.mapM (IndexDef.ofIndex s.table s.columns) = .ok indexes ↔
      (∀ index ∈ s.indexes, ∀ field ∈ index.fields, ∃ c ∈ s.columns, c.name = field) ∧
      List.Forall₂ (IndexDef.Indexes s.table) s.indexes indexes := by
  simp only [except_mapM_eq_ok_iff_forall₂, IndexDef.ofIndex_eq_ok, List.forall₂_and_left]

theorem exists_indexes :
    (∃ indexes, s.indexes.mapM (IndexDef.ofIndex s.table s.columns) = .ok indexes) ↔
      ∀ index ∈ s.indexes, ∀ field ∈ index.fields, ∃ c ∈ s.columns, c.name = field := by
  simp only [except_mapM_exists_ok, IndexDef.exists_ofIndex]

theorem exists_inserts :
    (∃ inserts, s.rows.mapM (Insert.ofRow s.table s.columns) = .ok inserts) ↔
      ∀ row ∈ s.rows, ∀ cell ∈ row, Literal.Showable s.columns cell := by
  simp only [except_mapM_exists_ok, Insert.exists_ofRow]

theorem exists_compile : (∃ c, s.compile options = .ok c) ↔ s.Compilable := by
  simp only [compile_eq_ok]
  constructor
  · rintro ⟨_, indexes, inserts, hindexes, hinserts, _⟩
    exact ⟨exists_indexes.mp ⟨indexes, hindexes⟩, exists_inserts.mp ⟨inserts, hinserts⟩⟩
  · intro h
    obtain ⟨indexes, hindexes⟩ := exists_indexes.mpr h.indexes
    obtain ⟨inserts, hinserts⟩ := exists_inserts.mpr h.rows
    exact ⟨_, indexes, inserts, hindexes, hinserts, rfl⟩

theorem definitions_eq_iff {definitions : List Statement} :
    s.definitions options = definitions ↔ ∃ columns,
      List.Forall₂ (ColumnDef.Declares options.notNull) s.columns columns ∧
      definitions = [.createTable s.table columns,
        .exportTable s.table (options.outputDir.join (s.table ++ ".parquet"))] ++
          if s.options.isSome then [.createSequence s.table] else [] := by
  simp only [ColumnDef.forall₂_declares]
  constructor
  · rintro rfl
    exact ⟨_, rfl, rfl⟩
  · rintro ⟨_, rfl, rfl⟩
    rfl

theorem compile_eq_ok_iff {c : TableStatements} :
    s.compile options = .ok c ↔ s.Compilable ∧ s.CompiledTo options c := by
  have hexists : (∃ c, s.compile options = .ok c) ↔ s.Compilable := exists_compile
  rw [← hexists]
  constructor
  · intro h
    obtain ⟨indexes, inserts, hindexes, hinserts, rfl⟩ := compile_eq_ok.mp h
    rw [except_mapM_eq_ok_iff_forall₂] at hinserts
    refine ⟨⟨_, h⟩, definitions_eq_iff.mp rfl, indexes, inserts, rfl, (indexes_eq_ok.mp hindexes).2,
      hinserts.imp fun _ _ hi => Insert.ofRow_eq_ok.mp hi⟩
  · rintro ⟨hcompilable, hdefinitions, indexes, inserts, hdata, hindexes, hinserts⟩
    have hfields := (exists_compile.mp hcompilable).indexes
    refine compile_eq_ok.mpr ⟨indexes, inserts, indexes_eq_ok.mpr ⟨hfields, hindexes⟩, ?_, ?_⟩
    · exact except_mapM_eq_ok_iff_forall₂.mpr
        (hinserts.imp fun _ _ hi => Insert.ofRow_eq_ok.mpr hi)
    · rw [definitions_eq_iff.mpr hdefinitions, ← hdata]

theorem compile_eq_error_iff {e : Error} : s.compile options = .error e ↔ s.FirstError e := by
  simp only [compile, except_bind_eq_error, except_pure_eq_error, and_false, exists_false,
    or_false, except_mapM_eq_error_afterOnly, exists_and_right, exists_indexes,
    IndexDef.exists_ofIndex, Insert.exists_ofRow, IndexDef.ofIndex_eq_error,
    Insert.ofRow_eq_error]
  constructor
  · rintro (⟨index, hfirst, field, hdeclared, habsent, rfl⟩ | ⟨hindexes, row, hfirst, cell, hshown,
      hrefused⟩)
    · exact .index hfirst hdeclared habsent
    · exact .row hindexes hfirst hshown hrefused
  · rintro (⟨hfirst, hdeclared, habsent⟩ | ⟨hindexes, hfirst, hshown, hrefused⟩)
    · exact .inl ⟨_, hfirst, _, hdeclared, habsent, rfl⟩
    · exact .inr ⟨hindexes, _, hfirst, _, hshown, hrefused⟩

/-- Any schema, validated or not, compiles exactly if its indexes name columns and each of its cells
has a literal. It compiles to the statements of its columns, indexes and rows and to no others, and
otherwise is refused with the error that is found first. -/
theorem compile_decided (s : Schema) (options : CompileOptions) :
    ((∃ c, s.compile options = .ok c) ↔ s.Compilable) ∧
    (∀ c, s.compile options = .ok c ↔ s.Compilable ∧ s.CompiledTo options c) ∧
    ∀ e, s.compile options = .error e ↔ s.FirstError e :=
  ⟨exists_compile, fun _ => compile_eq_ok_iff, fun _ => compile_eq_error_iff⟩

/-- A column declared twice, an index without fields and an empty row are no obstacle here. -/
example : (⟨"t", [⟨"a", "integer", true, none, none⟩, ⟨"a", "money", false, none, none⟩],
      [⟨"i", true, []⟩], [[], [("a", .null)]], none⟩ : Schema).compile ⟨"out", .nullableTrue⟩ =
    .ok ⟨[.createTable "t" [⟨"a", "integer", true, false, none⟩, ⟨"a", "money", false, false, none⟩],
        .exportTable "t" "out/t.parquet"],
      [.createIndex ⟨"i", true, "t", []⟩, .insert ⟨"t", [], []⟩,
        .insert ⟨"t", ["a"], [.bare "null"]⟩]⟩ := rfl

end Schema
end SeedTables
