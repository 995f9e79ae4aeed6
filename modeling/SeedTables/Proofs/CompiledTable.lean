import SeedTables.Compile
import SeedTables.Except

namespace SeedTables

/-- An error about a column of a table. -/
inductive Error.AboutColumn (table : String) : Error → Prop
  | unknown (column : String) : AboutColumn table (.unknownColumn table column)
  | type (column type : String) : AboutColumn table (.unsupportedType table column type)
  | value (column : String) : AboutColumn table (.unsupportedValue table column)

theorem Error.AboutColumn.tableLocal {table : String} {e : Error} (h : e.AboutColumn table) :
    e.isTableLocal = true := by
  cases h <;> rfl

theorem Json.Value.literalText?_eq_none {v : Json.Value} :
    v.literalText? = none ↔ (∃ vs, v = .array vs) ∨ ∃ ms, v = .object ms := by
  cases v <;> simp [literalText?]

theorem Literal.ofValue_error_iff {table : String} {column : Column} {value : Json.Value}
    {e : Error} : Literal.ofValue table column value = .error e ↔
      (column.sqlType? = none ∧ e = .unsupportedType table column.name column.type) ∨
      (column.sqlType? ≠ none ∧ value.literalText? = none ∧
        e = .unsupportedValue table column.name) := by
  unfold Literal.ofValue
  cases column.sqlType? with
  | none => simpa using eq_comm
  | some type =>
    cases value.literalText? with
    | none => simpa using eq_comm
    | some text => simp

section Errors

variable {table : String} {columns : List Column} {e : Error}

theorem Literal.ofValue_error {column : Column} {value : Json.Value}
    (h : Literal.ofValue table column value = .error e) : e.AboutColumn table := by
  rcases ofValue_error_iff.mp h with ⟨_, rfl⟩ | ⟨_, _, rfl⟩
  · exact .type _ _
  · exact .value _

theorem Literal.ofCell_error {cell : String × Json.Value}
    (h : Literal.ofCell table columns cell = .error e) : e.AboutColumn table := by
  unfold Literal.ofCell at h
  cases hc : Column.find? columns cell.1 with
  | none =>
    simp only [hc, Except.error.injEq] at h
    subst e
    exact .unknown _
  | some column =>
    simp only [hc] at h
    exact ofValue_error h

theorem Insert.ofRow_error {row : Row} (h : Insert.ofRow table columns row = .error e) :
    e.AboutColumn table := by
  simp only [Insert.ofRow, except_bind_eq_error, except_pure_eq_error, and_false, exists_false,
    or_false] at h
  obtain ⟨_, cell, _, _, _, hcell⟩ := except_mapM_eq_error.mp h
  exact Literal.ofCell_error hcell

theorem IndexDef.ofIndex_error {index : Index}
    (h : IndexDef.ofIndex table columns index = .error e) : e.AboutColumn table := by
  unfold IndexDef.ofIndex at h
  split at h
  · simp only [Except.error.injEq] at h
    subst e
    exact .unknown _
  · simp at h

end Errors

theorem Insert.ofRow_table {table : String} {columns : List Column} {row : Row} {i : Insert}
    (h : Insert.ofRow table columns row = .ok i) : i.table = table := by
  simp only [Insert.ofRow, except_bind_eq_ok, except_pure_eq_ok] at h
  obtain ⟨values, _, rfl⟩ := h
  rfl

theorem IndexDef.ofIndex_table {table : String} {columns : List Column} {index : Index}
    {i : IndexDef} (h : IndexDef.ofIndex table columns index = .ok i) : i.table = table := by
  unfold IndexDef.ofIndex at h
  split at h
  · simp at h
  · simp only [Except.ok.injEq] at h
    subst i
    rfl

namespace Schema

variable {s : Schema} {options : CompileOptions} {c : TableStatements}

/-- The two lists of a compiled table, and what each is made from. -/
theorem compile_eq_ok : s.compile options = .ok c ↔ ∃ indexes inserts,
    s.indexes.mapM (IndexDef.ofIndex s.table s.columns) = .ok indexes ∧
    s.rows.mapM (Insert.ofRow s.table s.columns) = .ok inserts ∧
    ⟨s.definitions options, indexes.map .createIndex ++ inserts.map .insert⟩ = c := by
  simp only [compile, except_bind_eq_ok, except_pure_eq_ok, exists_and_left]

theorem compile_error {e : Error} (h : s.compile options = .error e) : e.AboutColumn s.table := by
  simp only [compile, except_bind_eq_error, except_pure_eq_error, and_false, exists_false,
    or_false] at h
  rcases h with h | ⟨_, _, h⟩
  · obtain ⟨_, index, _, _, _, hi⟩ := except_mapM_eq_error.mp h
    exact IndexDef.ofIndex_error hi
  · obtain ⟨_, row, _, _, _, hr⟩ := except_mapM_eq_error.mp h
    exact Insert.ofRow_error hr

/-- What a table is defined by. -/
theorem mem_definitions {st : Statement} (h : st ∈ s.definitions options) :
    (∃ columns, st = .createTable s.table columns) ∨ (∃ path, st = .exportTable s.table path) ∨
      st = .createSequence s.table := by
  unfold definitions at h
  rcases List.mem_cons.mp h with rfl | h
  · exact .inl ⟨_, rfl⟩
  rcases List.mem_cons.mp h with rfl | h
  · exact .inr (.inl ⟨_, rfl⟩)
  split at h
  · exact .inr (.inr (List.mem_singleton.mp h))
  · cases h

theorem definitions_table {st : Statement} (h : st ∈ s.definitions options) :
    st.table = s.table := by
  rcases mem_definitions h with ⟨_, rfl⟩ | ⟨_, rfl⟩ | rfl <;> rfl

theorem compile_table (h : s.compile options = .ok c) :
    (∀ st ∈ c.definitions, st.table = s.table) ∧ ∀ st ∈ c.data, st.table = s.table := by
  obtain ⟨indexes, inserts, hi, hr, rfl⟩ := compile_eq_ok.mp h
  refine ⟨fun st hst => definitions_table hst, ?_⟩
  intro st hst
  rcases List.mem_append.mp hst with hst | hst
  · obtain ⟨i, hm, rfl⟩ := List.mem_map.mp hst
    obtain ⟨index, _, hx⟩ := except_mapM_mem hi hm
    exact IndexDef.ofIndex_table hx
  · obtain ⟨i, hm, rfl⟩ := List.mem_map.mp hst
    obtain ⟨row, _, hx⟩ := except_mapM_mem hr hm
    exact Insert.ofRow_table hx

end Schema
end SeedTables
