import SeedTables.Compile
import SeedTables.Proofs.CompiledTable
import SeedTables.Proofs.ConsistentSchema
import SeedTables.Proofs.RepeatedMembers
import SeedTables.Proofs.TextGrammar

namespace SeedTables

open Json (Value Members Written)

structure Json.WritesRows (text : String) (w : Written) (rows : List (List (String × Written))) :
    Prop where
  spelled : w.SpelledBy text
  rows : w.part? "rows" 3 = some (.array (rows.map .object))

theorem Json.WritesRows.unique {text : String} {w w' : Written}
    {rows rows' : List (List (String × Written))} (h : WritesRows text w rows)
    (h' : WritesRows text w' rows') : w = w' ∧ rows = rows' := by
  obtain rfl := h.spelled.unique h'.spelled
  have heq := h.rows.symm.trans h'.rows
  simp only [Option.some.injEq, Written.array.injEq] at heq
  exact ⟨rfl, List.map_injective_iff.mpr (fun _ _ => Written.object.inj) heq⟩

def Row.ofWritten (row : List (String × Written)) : Row :=
  Members.ofList (Written.memberValues row)

namespace Row

variable {row : List (String × Written)}

theorem map_fst_ofWritten : (ofWritten row).map Prod.fst = Member.keys row := by
  rw [ofWritten, Members.map_fst_ofList, Written.memberValues_eq_map, Member.keys_map]

theorem last?_of_mem_ofWritten {cell : String × Value} (h : cell ∈ ofWritten row) :
    ∃ w, Member.last? cell.1 row = some w ∧ w.value = cell.2 := by
  have hdistinct : ((ofWritten row).map Prod.fst).Nodup := by
    rw [map_fst_ofWritten]
    exact Member.nodup_keys row
  have hlast := Member.first?_of_mem hdistinct h
  rw [ofWritten, Members.first?_ofList, Written.memberValues_eq_map, Member.last?_map] at hlast
  exact Option.map_eq_some_iff.mp hlast

end Row

namespace Json.Written

theorem eq_object_of_value {w : Written} {ms : Members} (h : w.value = .object ms) :
    ∃ row, w = .object row ∧ ms = Row.ofWritten row := by
  cases w with
  | object row =>
    refine ⟨row, rfl, ?_⟩
    rw [value] at h
    exact (Value.object.inj h).symm
  | _ => simp [value] at h

theorem eq_objects_of_values {ws : List Written} {rows : List Row}
    (h : values ws = rows.map .object) :
    ∃ written : List (List (String × Written)),
      ws = written.map .object ∧ rows = written.map Row.ofWritten := by
  induction ws generalizing rows with
  | nil =>
    obtain rfl := List.map_eq_nil_iff.mp h.symm
    exact ⟨[], rfl, rfl⟩
  | cons w ws ih =>
    obtain ⟨row, rest, rfl, hrow, hrest⟩ := List.map_eq_cons_iff.mp h.symm
    obtain ⟨r, rfl, rfl⟩ := eq_object_of_value hrow.symm
    obtain ⟨written, rfl, rfl⟩ := ih hrest.symm
    exact ⟨r :: written, rfl, rfl⟩

theorem eq_array_of_value {w : Written} {vs : List Value} (h : w.value = .array vs) :
    ∃ ws, w = .array ws ∧ values ws = vs := by
  cases w with
  | array ws =>
    refine ⟨ws, rfl, ?_⟩
    rw [value] at h
    exact Value.array.inj h
  | _ => simp [value] at h

end Json.Written

/-- The rows of a schema are those of its text, each with its repeated keys put together. -/
theorem Schema.ofText_rows {text : String} {s : Schema} (h : ofText text = .ok s) :
    s.Consistent ∧ ∃ w rows, Json.WritesRows text w rows ∧ s.rows = rows.map Row.ofWritten := by
  obtain ⟨v, hv, hs⟩ := except_bind_eq_ok.mp h
  obtain ⟨w, hw, rfl⟩ := except_map_eq_ok.mp (except_mapError_eq_ok.mp hv)
  obtain ⟨hvalue, hconsistent⟩ := ofDocument_eq_ok.mp hs
  have hpart := ofValue_rows hvalue
  rw [Written.part?_value] at hpart
  obtain ⟨part, hpart, hrows⟩ := Option.map_eq_some_iff.mp hpart
  obtain ⟨ws, rfl, hvalues⟩ := Written.eq_array_of_value hrows
  obtain ⟨rows, rfl, hwritten⟩ := Written.eq_objects_of_values hvalues
  exact ⟨hconsistent, w, rows, ⟨Written.ofText_eq_ok.mp hw, hpart⟩, hwritten⟩

def Statement.insert? : Statement → Option Insert
  | .insert row => some row
  | _ => none

def TableStatements.inserts (c : TableStatements) : List Insert :=
  c.data.filterMap Statement.insert?

/-- A literal for a key of a row: the value of the last member of the key, as the column of that
name has it. -/
def Literal.Renders (s : Schema) (row : List (String × Written)) (name : String) (l : Literal) :
    Prop :=
  ∃ w column, Member.last? name row = some w ∧ column ∈ s.columns ∧ column.name = name ∧
    ofValue s.table column w.value = .ok l

/-- An insert of a row: its keys, each where it first stands, and a literal for each. -/
structure Insert.Renders (s : Schema) (row : List (String × Written)) (i : Insert) : Prop where
  columns : i.columns = Member.keys row
  values : List.Forall₂ (Literal.Renders s row) i.columns i.values

variable {s : Schema} {row : List (String × Written)}

theorem Literal.ofCell_renders {cell : String × Value} {l : Literal}
    (hcell : cell ∈ Row.ofWritten row) (h : ofCell s.table s.columns cell = .ok l) :
    Renders s row cell.1 l := by
  obtain ⟨w, hw, hvalue⟩ := Row.last?_of_mem_ofWritten hcell
  unfold ofCell at h
  cases hcolumn : Column.find? s.columns cell.1 with
  | none => simp [hcolumn] at h
  | some column =>
    simp only [hcolumn] at h
    have hname : column.name = cell.1 := by simpa using List.find?_some hcolumn
    exact ⟨w, column, hw, List.mem_of_find?_eq_some hcolumn, hname, hvalue ▸ h⟩

theorem Insert.ofRow_renders {i : Insert}
    (h : ofRow s.table s.columns (Row.ofWritten row) = .ok i) : i.Renders s row := by
  simp only [ofRow, except_bind_eq_ok, except_pure_eq_ok] at h
  obtain ⟨values, hvalues, rfl⟩ := h
  refine ⟨Row.map_fst_ofWritten, ?_⟩
  rw [List.forall₂_map_left_iff]
  -- Each cell is kept with the fact that it is one of the row, which its literal is looked up by.
  have hcells := (List.forall₂_and_left _ _).mpr
    ⟨fun cell hcell => hcell, except_mapM_eq_ok_iff_forall₂.mp hvalues⟩
  exact hcells.imp fun cell l h => Literal.ofCell_renders h.1 h.2

theorem Insert.Renders.literal {i : Insert} (h : i.Renders s row) {name : String}
    (hname : name ∈ i.columns) : ∃ (j : Nat) (l : Literal),
      i.columns[j]? = some name ∧ i.values[j]? = some l ∧ l.Renders s row name := by
  obtain ⟨hlength, hget⟩ := List.forall₂_iff_get.mp h.values
  obtain ⟨j, hj, rfl⟩ := List.getElem_of_mem hname
  have hvalue : j < i.values.length := hlength ▸ hj
  exact ⟨j, i.values.get ⟨j, hvalue⟩, List.getElem?_eq_getElem hj, List.getElem?_eq_getElem hvalue,
    hget j hj hvalue⟩

namespace Schema

variable {options : CompileOptions} {c : TableStatements} {text : String} {w : Written}
  {rows : List (List (String × Written))}

theorem compile_inserts (h : s.compile options = .ok c) :
    s.rows.mapM (Insert.ofRow s.table s.columns) = .ok c.inserts := by
  obtain ⟨indexes, inserts, _, hrows, rfl⟩ := compile_eq_ok.mp h
  have hindex : Statement.insert? ∘ Statement.createIndex = fun _ => none := rfl
  have hinsert : Statement.insert? ∘ Statement.insert = some := rfl
  rw [hrows, TableStatements.inserts, List.filterMap_append, List.filterMap_map,
    List.filterMap_map, hindex, hinsert, List.filterMap_some]
  simp

/-- The inserts of a text are those of the rows that it is written with, in their order. None of
the rows is empty. -/
theorem compile_renders (hs : ofText text = .ok s) (hc : s.compile options = .ok c)
    (hrows : Json.WritesRows text w rows) :
    List.Forall₂ (fun row i => row ≠ [] ∧ i.Renders s row) rows c.inserts := by
  obtain ⟨hconsistent, _, _, hwrites, heq⟩ := ofText_rows hs
  obtain ⟨-, rfl⟩ := hrows.unique hwrites
  have hnonempty : ∀ row ∈ rows, row ≠ [] := by
    intro row hrow hnil
    have hmem : Row.ofWritten row ∈ s.rows := heq ▸ List.mem_map_of_mem hrow
    exact (hconsistent.rows _ hmem).1 (hnil ▸ rfl)
  have hinserts := except_mapM_eq_ok_iff_forall₂.mp (compile_inserts hc)
  rw [heq, List.forall₂_map_left_iff] at hinserts
  refine (List.forall₂_and_left _ _).mpr ⟨hnonempty, ?_⟩
  exact hinserts.imp fun row i hi => Insert.ofRow_renders hi

theorem compile_renders_at (hs : ofText text = .ok s) (hc : s.compile options = .ok c)
    (hrows : Json.WritesRows text w rows) {k : Nat} (hrow : rows[k]? = some row) :
    ∃ i, c.inserts[k]? = some i ∧ i.Renders s row := by
  obtain ⟨hlength, hget⟩ := List.forall₂_iff_get.mp (compile_renders hs hc hrows)
  obtain ⟨hk, rfl⟩ := List.getElem?_eq_some_iff.mp hrow
  have hinsert : k < c.inserts.length := hlength ▸ hk
  exact ⟨c.inserts.get ⟨k, hinsert⟩, List.getElem?_eq_getElem hinsert, (hget k hk hinsert).2⟩

def insertsOfText? (options : CompileOptions) (text : String) : Option (List Insert) := do
  let s ← (ofText text).toOption
  let c ← (s.compile options).toOption
  return c.inserts

theorem exists_of_insertsOfText? {inserts : List Insert}
    (h : insertsOfText? options text = some inserts) :
    ∃ s c, ofText text = .ok s ∧ s.compile options = .ok c ∧ c.inserts = inserts := by
  unfold insertsOfText? at h
  cases hs : ofText text with
  | error e => simp [hs, Except.toOption] at h
  | ok s =>
    cases hc : s.compile options with
    | error e => simp [hs, hc, Except.toOption] at h
    | ok c =>
      refine ⟨s, c, rfl, hc, ?_⟩
      simpa [hs, hc, Except.toOption] using h

/-- Every insert of a text names different columns of the table, at least one: the keys of its row,
each where it first stands. For each it has one literal, of the value with which the key last
stands. -/
theorem compile_inserts_wellFormed (hs : ofText text = .ok s) (hc : s.compile options = .ok c) :
    ∃ w rows, Json.WritesRows text w rows ∧
      List.Forall₂ (fun row i => i.columns.Nodup ∧ i.columns ≠ [] ∧
        (∀ name ∈ i.columns, ∃ column ∈ s.columns, column.name = name) ∧
        i.columns = Member.keys row ∧ i.values.length = i.columns.length ∧
        List.Forall₂ (Literal.Renders s row) i.columns i.values) rows c.inserts := by
  obtain ⟨_, w, rows, hrows, _⟩ := ofText_rows hs
  refine ⟨w, rows, hrows, (compile_renders hs hc hrows).imp ?_⟩
  intro row i hi
  obtain ⟨hrow, hi⟩ := hi
  have hcolumns := hi.columns
  refine ⟨?_, ?_, ?_, hcolumns, hi.values.length_eq.symm, hi.values⟩
  · exact hcolumns ▸ Member.nodup_keys row
  · exact hcolumns ▸ Member.keys_ne_nil hrow
  · intro name hname
    obtain ⟨_, _, _, _, _, column, _, hcolumn, hdeclared, _⟩ := hi.literal hname
    exact ⟨column, hcolumn, hdeclared⟩

/-- A row in which a key stands twice, the second time with an escape, below rows that do not
count. -/
def repeatedText : String :=
  "\x7b\"tableName\":\"t\",\"columns\":[[\"a\",\"integer\"],[\"b\",\"varchar\"]],"
    ++ "\"rows\":[],\"rows\":[\x7b\"a\":1,\"b\":null,\"\\u0061\":2\x7d]\x7d"

theorem compile_inserts_wellFormed_repeatedText : ∃ s c,
    ofText repeatedText = .ok s ∧ s.compile ⟨"out", .nullableTrue⟩ = .ok c ∧
    c.inserts = [⟨"t", ["a", "b"], [.bare "2", .quoted "null"]⟩] ∧
    ∃ w rows, Json.WritesRows repeatedText w rows ∧
      List.Forall₂ (fun row i => i.columns.Nodup ∧ i.columns ≠ [] ∧
        (∀ name ∈ i.columns, ∃ column ∈ s.columns, column.name = name) ∧
        i.columns = Member.keys row ∧ i.values.length = i.columns.length ∧
        List.Forall₂ (Literal.Renders s row) i.columns i.values) rows c.inserts := by
  have hinserts : insertsOfText? ⟨"out", .nullableTrue⟩ repeatedText =
      some [⟨"t", ["a", "b"], [.bare "2", .quoted "null"]⟩] := by decide +kernel
  obtain ⟨s, c, hs, hc, heq⟩ := exists_of_insertsOfText? hinserts
  exact ⟨s, c, hs, hc, heq, compile_inserts_wellFormed hs hc⟩

end Schema
end SeedTables
