import SeedTables.Proofs.DecimalNumbers
import SeedTables.Proofs.WrittenRows

namespace SeedTables

open Json (Written Numeral NumberToken Denotes)
open Binary64 (HasDigits)

theorem Insert.Renders.number {s : Schema} {row : List (String × Written)} {i : Insert}
    (h : i.Renders s row) {name : String} {n : Numeral}
    (hn : Member.last? name row = some (.number n)) :
    ∃ (j : Nat) (column : Column) (type : SqlType), i.columns[j]? = some name ∧
      column ∈ s.columns ∧ column.name = name ∧ column.sqlType? = some type ∧
      i.values[j]? =
        some (if type.isQuoted then .quoted n.number.text else .bare n.number.text) := by
  have hname : name ∈ i.columns := by
    rw [h.columns, ← Member.last?_isSome, hn]
    rfl
  obtain ⟨j, l, hj, hl, w, column, hw, hcolumn, hnamed, hvalue⟩ := h.literal hname
  rw [hn, Option.some.injEq] at hw
  subst hw
  unfold Literal.ofValue at hvalue
  cases htype : column.sqlType? with
  | none => simp [htype] at hvalue
  | some type =>
    simp only [htype, Written.value, Json.Value.literalText?, Except.ok.injEq] at hvalue
    exact ⟨j, column, type, hj, hcolumn, hnamed, htype, hvalue ▸ hl⟩

def Json.cellToken? (text : String) (k : Nat) (name : String) : Option NumberToken :=
  match (Written.ofText text).toOption.bind (·.part? "rows" 3) with
  | some (.array ws) =>
    match ws[k]? with
    | some (.object row) =>
      match Member.last? name row with
      | some (.number n) => some n.token
      | _ => none
    | _ => none
  | _ => none

theorem Json.exists_of_cellToken? {text : String} {w : Written}
    {rows : List (List (String × Written))} (hrows : WritesRows text w rows) {k : Nat}
    {name : String} {t : NumberToken} (h : cellToken? text k name = some t) :
    ∃ row n, rows[k]? = some row ∧ Member.last? name row = some (.number n) ∧ n.token = t := by
  have hread := Written.ofText_eq_ok.mpr hrows.spelled
  unfold cellToken? at h
  simp only [hread, Except.toOption, Option.bind_some, hrows.rows, List.getElem?_map] at h
  cases hrow : rows[k]? with
  | none => simp [hrow] at h
  | some row =>
    simp only [hrow, Option.map_some] at h
    split at h
    · rename_i n hn
      exact ⟨row, n, rfl, hn, Option.some.inj h⟩
    · cases h

namespace Schema

theorem exists_cell {text : String} {options : CompileOptions} {inserts : List Insert} {k : Nat}
    {name : String} {t : NumberToken} (hinserts : insertsOfText? options text = some inserts)
    (hcell : Json.cellToken? text k name = some t) : ∃ s c w rows row n,
      ofText text = .ok s ∧ s.compile options = .ok c ∧ c.inserts = inserts ∧
      Json.WritesRows text w rows ∧ rows[k]? = some row ∧
      Member.last? name row = some (.number n) ∧ n.token = t := by
  obtain ⟨s, c, hs, hc, heq⟩ := exists_of_insertsOfText? hinserts
  obtain ⟨_, w, rows, hrows, _⟩ := ofText_rows hs
  obtain ⟨row, n, hrow, hn, htoken⟩ := Json.exists_of_cellToken? hrows hcell
  exact ⟨s, c, w, rows, row, n, hs, hc, heq, hrows, hrow, hn, htoken⟩

variable {text : String} {s : Schema} {options : CompileOptions} {c : TableStatements} {w : Written}
  {rows : List (List (String × Written))} {k : Nat} {row : List (String × Written)} {name : String}
  {n : Numeral} {cs : List Char}

/-- A whole number of 64 bits, with a sign or without one, is put into the insert of its row as it
is written, between quotes if its column is a varchar. -/
theorem compile_word_kept (hs : ofText text = .ok s) (hc : s.compile options = .ok c)
    (hrows : Json.WritesRows text w rows) (hrow : rows[k]? = some row)
    (hn : Member.last? name row = some (.number n)) (word : n.token.IsWord)
    (spelled : n.token.SpelledBy cs) :
    ∃ (i : Insert) (j : Nat) (column : Column) (type : SqlType), c.inserts[k]? = some i ∧
      i.columns[j]? = some name ∧ column ∈ s.columns ∧ column.name = name ∧
      column.sqlType? = some type ∧ i.values[j]? =
        some (if type = .varchar then .quoted (String.ofList cs) else .bare (String.ofList cs)) := by
  obtain ⟨i, hi, hrenders⟩ := compile_renders_at hs hc hrows hrow
  obtain ⟨j, column, type, hj, hcolumn, hnamed, htype, hvalue⟩ := hrenders.number hn
  refine ⟨i, j, column, type, hi, hj, hcolumn, hnamed, htype, ?_⟩
  have hnumber : n.number = .int n.token.integer :=
    Option.some.inj (n.value?_token.symm.trans word.value?)
  have htext : n.number.text = String.ofList cs := by
    rw [← String.toList_inj, String.toList_ofList, hnumber]
    exact word.text spelled
  rw [hvalue, htext, SqlType.isQuoted]
  simp

/-- The greatest and the least number of 64 bits, the first in place of one that does not count. -/
def wordsText : String :=
  "\x7b\"tableName\":\"t\",\"columns\":[[\"u\",\"ubigint\"],[\"v\",\"varchar\"]],"
    ++ "\"rows\":[\x7b\"u\":1.5,\"v\":-9223372036854775808,\"u\":18446744073709551615\x7d]\x7d"

theorem compile_word_kept_wordsText : ∃ s c w rows row n,
    ofText wordsText = .ok s ∧ s.compile ⟨"out", .nullableTrue⟩ = .ok c ∧
    c.inserts = [⟨"t", ["u", "v"],
      [.bare "18446744073709551615", .quoted "-9223372036854775808"]⟩] ∧
    Json.WritesRows wordsText w rows ∧ rows[0]? = some row ∧
    Member.last? "u" row = some (.number n) ∧ n.token.IsWord ∧
    n.token.SpelledBy "18446744073709551615".toList ∧
    ∃ (i : Insert) (j : Nat) (column : Column) (type : SqlType), c.inserts[0]? = some i ∧
      i.columns[j]? = some "u" ∧ column ∈ s.columns ∧ column.name = "u" ∧
      column.sqlType? = some type ∧ i.values[j]? = some
        (if type = .varchar then .quoted (String.ofList "18446744073709551615".toList)
        else .bare (String.ofList "18446744073709551615".toList)) := by
  have hinserts : insertsOfText? ⟨"out", .nullableTrue⟩ wordsText = some [⟨"t", ["u", "v"],
      [.bare "18446744073709551615", .quoted "-9223372036854775808"]⟩] := by decide +kernel
  have hcell : Json.cellToken? wordsText 0 "u" = some (.ofInt (2 ^ 64 - 1)) := by decide +kernel
  obtain ⟨s, c, w, rows, row, n, hs, hc, heq, hrows, hrow, hn, htoken⟩ :=
    exists_cell hinserts hcell
  have word : n.token.IsWord := htoken ▸ NumberToken.ofInt_isWord (by decide) (by decide)
  have spelled : n.token.SpelledBy "18446744073709551615".toList :=
    htoken ▸ NumberToken.ofInt_spelled (htoken ▸ word)
  exact ⟨s, c, w, rows, row, n, hs, hc, heq, hrows, hrow, hn, word, spelled,
    compile_word_kept hs hc hrows hrow hn word spelled⟩

/-- The literal of any other number denotes it exactly if it is the shortest decimal of the double
that it is read as. So it does if it has at most fifteen digits and a small power of ten, and never
if it has more than seventeen. -/
theorem compile_wide_kept_iff (hs : ofText text = .ok s) (hc : s.compile options = .ok c)
    (hrows : Json.WritesRows text w rows) (hrow : rows[k]? = some row)
    (hn : Member.last? name row = some (.number n)) (wide : n.token.IsWide) {column : Column}
    (hcolumn : column ∈ s.columns) (hnamed : column.name = name)
    (htype : column.sqlType? = some .integer ∨ column.sqlType? = some .decimal) :
    ∃ (i : Insert) (j : Nat) (size : Binary64) (literal : String), c.inserts[k]? = some i ∧
      i.columns[j]? = some name ∧ i.values[j]? = some (.bare literal) ∧
      n.token.value? = some (.float n.token.negative size) ∧
      (Denotes literal.toList n.token.rational ↔ size.shortest.rational = n.token.magnitude) ∧
      (n.token.IsShort → Denotes literal.toList n.token.rational) ∧
      (Denotes literal.toList n.token.rational → HasDigits 17 n.token.magnitude) := by
  obtain ⟨i, hi, hrenders⟩ := compile_renders_at hs hc hrows hrow
  obtain ⟨j, column', type, hj, hcolumn', hnamed', htype', hvalue⟩ := hrenders.number hn
  have hsame : column' = column := by
    have hfound := Column.find?_of_mem (ofText_rows hs).1.distinct hcolumn
    rw [hnamed, ← hnamed', Column.find?_of_mem (ofText_rows hs).1.distinct hcolumn'] at hfound
    exact Option.some.inj hfound
  have hbare : type.isQuoted = false := by
    rw [← hsame, htype'] at htype
    rcases htype with h | h
    · rw [Option.some.inj h]
      rfl
    · rw [Option.some.inj h]
      rfl
  obtain ⟨size, hsize⟩ := wide.number n.value?_token
  have hread := n.value?_token
  rw [hsize] at hread hvalue
  rw [hbare] at hvalue
  refine ⟨i, j, size, (Json.Number.float n.token.negative size).text, hi, hj, hvalue, hread, ?_⟩
  refine ⟨n.token.float_denotes_iff size, ?_, ?_⟩
  · intro short
    obtain ⟨size', hsize', hshortest⟩ := short.shortest wide
    rw [hread] at hsize'
    simp only [Option.some.injEq, Json.Number.float.injEq, true_and] at hsize'
    rw [n.token.float_denotes_iff, hsize', hshortest]
  · intro hdenotes
    rw [← (n.token.float_denotes_iff size).mp hdenotes]
    exact size.shortest_hasDigits

def scaledText : String :=
  "\x7b\"tableName\":\"t\",\"columns\":[[\"d\",\"decimal(10,2)\"]],"
    ++ "\"rows\":[\x7b\"d\":-1250e-4\x7d]\x7d"

theorem compile_wide_kept_iff_scaledText : ∃ s c w rows row n column,
    ofText scaledText = .ok s ∧ s.compile ⟨"out", .nullableTrue⟩ = .ok c ∧
    c.inserts = [⟨"t", ["d"], [.bare "-0.125"]⟩] ∧ Json.WritesRows scaledText w rows ∧
    rows[0]? = some row ∧ Member.last? "d" row = some (.number n) ∧ n.token.IsWide ∧
    n.token.IsShort ∧ column ∈ s.columns ∧ column.name = "d" ∧
    (column.sqlType? = some .integer ∨ column.sqlType? = some .decimal) ∧
    ∃ (i : Insert) (j : Nat) (size : Binary64) (literal : String), c.inserts[0]? = some i ∧
      i.columns[j]? = some "d" ∧ i.values[j]? = some (.bare literal) ∧
      n.token.value? = some (.float n.token.negative size) ∧
      (Denotes literal.toList n.token.rational ↔ size.shortest.rational = n.token.magnitude) ∧
      (n.token.IsShort → Denotes literal.toList n.token.rational) ∧
      (Denotes literal.toList n.token.rational → HasDigits 17 n.token.magnitude) := by
  have hinserts : insertsOfText? ⟨"out", .nullableTrue⟩ scaledText =
      some [⟨"t", ["d"], [.bare "-0.125"]⟩] := by decide +kernel
  have hcell : Json.cellToken? scaledText 0 "d" =
      some ⟨true, ['1', '2', '5', '0'], [], some ⟨true, ['4']⟩⟩ := by decide +kernel
  obtain ⟨s, c, w, rows, row, n, hs, hc, heq, hrows, hrow, hn, htoken⟩ :=
    exists_cell hinserts hcell
  have wide : n.token.IsWide := by
    rw [htoken]
    exact .inr (.inl (by decide))
  have short : n.token.IsShort := by
    rw [htoken]
    exact ⟨by decide, by decide⟩
  have hcolumns : (ofText scaledText).toOption.map Schema.columns =
      some [{ name := "d", type := "decimal(10,2)" }] := by decide +kernel
  rw [hs] at hcolumns
  have hcolumn : { name := "d", type := "decimal(10,2)" } ∈ s.columns :=
    Option.some.inj hcolumns ▸ List.mem_singleton_self _
  have htype : Column.sqlType? { name := "d", type := "decimal(10,2)" } = some .decimal := by decide
  exact ⟨s, c, w, rows, row, n, _, hs, hc, heq, hrows, hrow, hn, wide, short, hcolumn, rfl,
    .inr htype, compile_wide_kept_iff hs hc hrows hrow hn wide hcolumn rfl (.inr htype)⟩

/-- The least number that has more than 64 bits, in a column for numbers of 128 bits. -/
def hugeText : String :=
  "\x7b\"tableName\":\"t\",\"columns\":[\x7b\"columnName\":\"n\",\"type\":\"hugeint\"\x7d],"
    ++ "\"rows\":[\x7b\"n\":18446744073709551616\x7d]\x7d"

/-- A whole number that its column can hold is changed. -/
theorem compile_hugeText_changed : ∃ s c w rows row n,
    ofText hugeText = .ok s ∧ s.compile ⟨"out", .nullableTrue⟩ = .ok c ∧
    Json.WritesRows hugeText w rows ∧ rows[0]? = some row ∧
    Member.last? "n" row = some (.number n) ∧ n.token.IsWide ∧
    s.columns = [{ name := "n", type := "hugeint" }] ∧
    Column.sqlType? { name := "n", type := "hugeint" } = some .integer ∧
    c.inserts = [⟨"t", ["n"], [.bare "1.8446744073709552e+19"]⟩] ∧
    n.token.rational = 18446744073709551616 ∧
    Denotes "1.8446744073709552e+19".toList 18446744073709552000 ∧
    ¬ Denotes "1.8446744073709552e+19".toList n.token.rational := by
  have hinserts : insertsOfText? ⟨"out", .nullableTrue⟩ hugeText =
      some [⟨"t", ["n"], [.bare "1.8446744073709552e+19"]⟩] := by decide +kernel
  have hcell : Json.cellToken? hugeText 0 "n" = some (.ofInt (2 ^ 64)) := by decide +kernel
  have hcolumns : (ofText hugeText).toOption.map Schema.columns =
      some [{ name := "n", type := "hugeint" }] := by decide +kernel
  obtain ⟨s, c, w, rows, row, n, hs, hc, heq, hrows, hrow, hn, htoken⟩ :=
    exists_cell hinserts hcell
  rw [hs] at hcolumns
  have wide : n.token.IsWide := by
    rw [htoken]
    exact .inr (.inr (.inr (by rw [NumberToken.integer_ofInt])))
  have hrational : n.token.rational = 18446744073709551616 := by
    rw [htoken, NumberToken.rational_of_integer rfl rfl, NumberToken.integer_ofInt]
    norm_num
  have hdenotes : Denotes "1.8446744073709552e+19".toList 18446744073709552000 := by
    have hshows := Decimal.shows_render (d := ⟨18446744073709552, 3⟩) Json.numberLayout (by decide)
    have hvalue : Decimal.rational ⟨18446744073709552, 3⟩ = 18446744073709552000 := by
      norm_num [Decimal.rational]
    exact hvalue ▸ hshows.denotes
  refine ⟨s, c, w, rows, row, n, hs, hc, hrows, hrow, hn, wide, Option.some.inj hcolumns, by decide,
    heq, hrational, hdenotes, ?_⟩
  intro h
  have hsame := h.unique hdenotes
  rw [hrational] at hsame
  norm_num at hsame

end Schema
end SeedTables
