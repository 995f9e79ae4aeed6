import SeedTables.Proofs.RecordParts
import SeedTables.Schema.Decode

namespace SeedTables

open Json (Value Members)
open Json.Value (Decodes Writes OrNull ListOf)
open Json.Value (decodes_asString decodes_asBool decodes_asRow decodes_ok)
open Member (takes_none_some takes_none_getD)
open Element (required_eq_ok optional_eq_ok)

/-- The names that the members of a record can have. -/
def Record.memberNames : Record → List String
  | table => ["tableName", "columns", "schema", "indexes", "rows", "options"]
  | column => ["columnName", "type", "key", "nullable", "foreignKey"]
  | index => ["name", "unique", "fields"]
  | foreignKey => ["tableName", "columnName"]

namespace ForeignKey

structure Form (v : Value) (k : ForeignKey) : Prop where
  size : v.Fits 2 2
  table : v.Needs ["tableName"] 0 (Writes .string) k.table
  column : v.Needs ["columnName"] 1 (Writes .string) k.column

def Draft.fields : List (Member.Field Draft) := [
  { name := "tableName", decodes := decodes_asString, get := table,
    set := fun d table => { d with table }, get_set := fun _ _ => rfl },
  { name := "columnName", decodes := decodes_asString, get := column,
    set := fun d column => { d with column }, get_set := fun _ _ => rfl }]

theorem Draft.add_eq : Draft.add = Member.addTo fields := by
  funext d m
  simp [Draft.add, fields, Member.addTo, Member.Field.names, Member.Field.add]

theorem Draft.madeOf : Member.MadeOf Draft fields := by
  constructor
  · simp [fields, Member.Field.apart_iff, Member.Field.names]
  · rintro ⟨table, column⟩ ⟨table', column'⟩ h
    simpa [fields] using h

theorem Draft.foldlM_eq_ok {ms : Members} {d : Draft} : ms.foldlM Draft.add {} = .ok d ↔
    Member.Takes ["tableName"] (Writes .string) ms none d.table ∧
    Member.Takes ["columnName"] (Writes .string) ms none d.column := by
  rw [add_eq, madeOf.foldlM_eq_ok]
  simp [fields, Member.Field.Takes, Member.Field.names]

theorem ofMembers_eq_ok {ms : Members} {k : ForeignKey} :
    ofMembers ms = .ok k ↔ Form (.object ms) k := by
  simp only [ofMembers, Draft.finish, except_bind_eq_ok, Draft.foldlM_eq_ok, Member.required_eq_ok,
    except_pure_eq_ok]
  constructor
  · rintro ⟨d, ⟨htable, hcolumn⟩, table, ht, column, hc, rfl⟩
    rw [ht] at htable
    rw [hc] at hcolumn
    exact ⟨.object ms, takes_none_some.mp htable, takes_none_some.mp hcolumn⟩
  · rintro ⟨_, htable, hcolumn⟩
    exact ⟨⟨some k.table, some k.column⟩, ⟨takes_none_some.mpr htable,
      takes_none_some.mpr hcolumn⟩, k.table, rfl, k.column, rfl, rfl⟩

theorem ofElements_eq_ok {vs : List Value} {k : ForeignKey} :
    ofElements vs = .ok k ∧ vs.length ≤ 2 ↔ Form (.array vs) k := by
  simp only [ofElements, except_bind_eq_ok, except_pure_eq_ok]
  constructor
  · rintro ⟨⟨table, htable, column, hcolumn, rfl⟩, hsize⟩
    exact ⟨.array (Element.lt_of_required hcolumn) hsize,
      (required_eq_ok decodes_asString).mp htable, (required_eq_ok decodes_asString).mp hcolumn⟩
  · intro h
    exact ⟨⟨k.table, (required_eq_ok decodes_asString).mpr h.table,
      k.column, (required_eq_ok decodes_asString).mpr h.column, rfl⟩, h.size.length_le⟩

theorem decodes_ofValue : Decodes ofValue Form :=
  Value.decodes_asRecord (fun _ _ h => h.size) (fun _ _ => ofMembers_eq_ok)
    (fun _ _ => ofElements_eq_ok)

theorem readsOnly_ofValue : Member.ReadsOnly Record.foreignKey.memberNames ofValue := by
  refine .of_form decodes_ofValue fun ms ms' x h hform => ?_
  exact ⟨.object ms',
    h.needs (by decide) hform.table,
    h.needs (by decide) hform.column⟩

end ForeignKey

namespace Column

structure Form (v : Value) (c : Column) : Prop where
  size : v.Fits 2 5
  name : v.Needs ["columnName"] 0 (Writes .string) c.name
  type : v.Needs ["type"] 1 (Writes .string) c.type
  key : v.Allows ["key"] 2 false (Writes .bool) c.key
  nullable : v.Allows ["nullable"] 3 none (OrNull (Writes .bool)) c.nullable
  foreignKey : v.Allows ["foreignKey"] 4 none (OrNull ForeignKey.Form) c.foreignKey

def Draft.fields : List (Member.Field Draft) := [
  { name := "columnName", decodes := decodes_asString, get := name,
    set := fun d name => { d with name }, get_set := fun _ _ => rfl },
  { name := "type", decodes := decodes_asString, get := type,
    set := fun d type => { d with type }, get_set := fun _ _ => rfl },
  { name := "key", decodes := decodes_asBool, get := key,
    set := fun d key => { d with key }, get_set := fun _ _ => rfl },
  { name := "nullable", decodes := decodes_asBool.asOption, get := nullable,
    set := fun d nullable => { d with nullable }, get_set := fun _ _ => rfl },
  { name := "foreignKey", decodes := ForeignKey.decodes_ofValue.asOption, get := foreignKey,
    set := fun d foreignKey => { d with foreignKey }, get_set := fun _ _ => rfl }]

theorem Draft.add_eq : Draft.add = Member.addTo fields := by
  funext d m
  simp [Draft.add, fields, Member.addTo, Member.Field.names, Member.Field.add]

theorem Draft.madeOf : Member.MadeOf Draft fields := by
  constructor
  · simp [fields, Member.Field.apart_iff, Member.Field.names]
  · rintro ⟨name, type, key, nullable, foreignKey⟩ ⟨name', type', key', nullable', foreignKey'⟩ h
    simpa [fields] using h

theorem Draft.foldlM_eq_ok {ms : Members} {d : Draft} : ms.foldlM Draft.add {} = .ok d ↔
    Member.Takes ["columnName"] (Writes .string) ms none d.name ∧
    Member.Takes ["type"] (Writes .string) ms none d.type ∧
    Member.Takes ["key"] (Writes .bool) ms none d.key ∧
    Member.Takes ["nullable"] (OrNull (Writes .bool)) ms none d.nullable ∧
    Member.Takes ["foreignKey"] (OrNull ForeignKey.Form) ms none d.foreignKey := by
  rw [add_eq, madeOf.foldlM_eq_ok]
  simp [fields, Member.Field.Takes, Member.Field.names]

theorem ofMembers_eq_ok {ms : Members} {c : Column} :
    ofMembers ms = .ok c ↔ Form (.object ms) c := by
  simp only [ofMembers, Draft.finish, except_bind_eq_ok, Draft.foldlM_eq_ok, Member.required_eq_ok,
    except_pure_eq_ok]
  constructor
  · rintro ⟨d, ⟨hname, htype, hkey, hnullable, hforeignKey⟩, name, hn, type, ht, rfl⟩
    rw [hn] at hname
    rw [ht] at htype
    exact ⟨.object ms, takes_none_some.mp hname, takes_none_some.mp htype,
      takes_none_getD.mp ⟨_, hkey, rfl⟩, takes_none_getD.mp ⟨_, hnullable, rfl⟩,
      takes_none_getD.mp ⟨_, hforeignKey, rfl⟩⟩
  · obtain ⟨name, type, key, nullable, foreignKey⟩ := c
    rintro ⟨_, hname, htype, hkey, hnullable, hforeignKey⟩
    obtain ⟨key?, hk, rfl⟩ := takes_none_getD.mpr hkey
    obtain ⟨nullable?, hn, rfl⟩ := takes_none_getD.mpr hnullable
    obtain ⟨foreignKey?, hf, rfl⟩ := takes_none_getD.mpr hforeignKey
    exact ⟨⟨some name, some type, key?, nullable?, foreignKey?⟩,
      ⟨takes_none_some.mpr hname, takes_none_some.mpr htype, hk, hn, hf⟩, name, rfl, type, rfl, rfl⟩

theorem ofElements_eq_ok {vs : List Value} {c : Column} :
    ofElements vs = .ok c ∧ vs.length ≤ 5 ↔ Form (.array vs) c := by
  simp only [ofElements, except_bind_eq_ok, except_pure_eq_ok]
  constructor
  · rintro ⟨⟨name, hname, type, htype, key, hkey, nullable, hnullable, foreignKey, hforeignKey,
      rfl⟩, hsize⟩
    exact ⟨.array (Element.lt_of_required htype) hsize,
      (required_eq_ok decodes_asString).mp hname, (required_eq_ok decodes_asString).mp htype,
      (optional_eq_ok decodes_asBool).mp hkey, (optional_eq_ok decodes_asBool.asOption).mp hnullable,
      (optional_eq_ok ForeignKey.decodes_ofValue.asOption).mp hforeignKey⟩
  · intro h
    exact ⟨⟨c.name, (required_eq_ok decodes_asString).mpr h.name,
      c.type, (required_eq_ok decodes_asString).mpr h.type,
      c.key, (optional_eq_ok decodes_asBool).mpr h.key,
      c.nullable, (optional_eq_ok decodes_asBool.asOption).mpr h.nullable,
      c.foreignKey, (optional_eq_ok ForeignKey.decodes_ofValue.asOption).mpr h.foreignKey, rfl⟩,
      h.size.length_le⟩

theorem decodes_ofValue : Decodes ofValue Form :=
  Value.decodes_asRecord (fun _ _ h => h.size) (fun _ _ => ofMembers_eq_ok)
    (fun _ _ => ofElements_eq_ok)

theorem readsOnly_ofValue : Member.ReadsOnly Record.column.memberNames ofValue := by
  refine .of_form decodes_ofValue fun ms ms' x h hform => ?_
  exact ⟨.object ms',
    h.needs (by decide) hform.name,
    h.needs (by decide) hform.type,
    h.allows (by decide) hform.key,
    h.allows (by decide) hform.nullable,
    h.allows (by decide) hform.foreignKey⟩

end Column

namespace Index

structure Form (v : Value) (i : Index) : Prop where
  size : v.Fits 3 3
  name : v.Needs ["name"] 0 (Writes .string) i.name
  unique : v.Allows ["unique"] 1 false (Writes .bool) i.unique
  fields : v.Needs ["fields"] 2 (ListOf (Writes .string)) i.fields

def Draft.fieldList : List (Member.Field Draft) := [
  { name := "name", decodes := decodes_asString, get := name,
    set := fun d name => { d with name }, get_set := fun _ _ => rfl },
  { name := "unique", decodes := decodes_asBool, get := unique,
    set := fun d unique => { d with unique }, get_set := fun _ _ => rfl },
  { name := "fields", decodes := decodes_asString.asList, get := fields,
    set := fun d fields => { d with fields }, get_set := fun _ _ => rfl }]

theorem Draft.add_eq : Draft.add = Member.addTo fieldList := by
  funext d m
  simp [Draft.add, fieldList, Member.addTo, Member.Field.names, Member.Field.add]

theorem Draft.madeOf : Member.MadeOf Draft fieldList := by
  constructor
  · simp [fieldList, Member.Field.apart_iff, Member.Field.names]
  · rintro ⟨name, unique, fields⟩ ⟨name', unique', fields'⟩ h
    simpa [fieldList] using h

theorem Draft.foldlM_eq_ok {ms : Members} {d : Draft} : ms.foldlM Draft.add {} = .ok d ↔
    Member.Takes ["name"] (Writes .string) ms none d.name ∧
    Member.Takes ["unique"] (Writes .bool) ms none d.unique ∧
    Member.Takes ["fields"] (ListOf (Writes .string)) ms none d.fields := by
  rw [add_eq, madeOf.foldlM_eq_ok]
  simp [fieldList, Member.Field.Takes, Member.Field.names]

theorem ofMembers_eq_ok {ms : Members} {i : Index} :
    ofMembers ms = .ok i ↔ Form (.object ms) i := by
  simp only [ofMembers, Draft.finish, except_bind_eq_ok, Draft.foldlM_eq_ok, Member.required_eq_ok,
    except_pure_eq_ok]
  constructor
  · rintro ⟨d, ⟨hname, hunique, hfields⟩, name, hn, fields, hf, rfl⟩
    rw [hn] at hname
    rw [hf] at hfields
    exact ⟨.object ms, takes_none_some.mp hname, takes_none_getD.mp ⟨_, hunique, rfl⟩,
      takes_none_some.mp hfields⟩
  · obtain ⟨name, unique, fields⟩ := i
    rintro ⟨_, hname, hunique, hfields⟩
    obtain ⟨unique?, hu, rfl⟩ := takes_none_getD.mpr hunique
    exact ⟨⟨some name, unique?, some fields⟩,
      ⟨takes_none_some.mpr hname, hu, takes_none_some.mpr hfields⟩, name, rfl, fields, rfl, rfl⟩

theorem ofElements_eq_ok {vs : List Value} {i : Index} :
    ofElements vs = .ok i ∧ vs.length ≤ 3 ↔ Form (.array vs) i := by
  simp only [ofElements, except_bind_eq_ok, except_pure_eq_ok]
  constructor
  · rintro ⟨⟨name, hname, unique, hunique, fields, hfields, rfl⟩, hsize⟩
    exact ⟨.array (Element.lt_of_required hfields) hsize,
      (required_eq_ok decodes_asString).mp hname, (optional_eq_ok decodes_asBool).mp hunique,
      (required_eq_ok decodes_asString.asList).mp hfields⟩
  · intro h
    exact ⟨⟨i.name, (required_eq_ok decodes_asString).mpr h.name,
      i.unique, (optional_eq_ok decodes_asBool).mpr h.unique,
      i.fields, (required_eq_ok decodes_asString.asList).mpr h.fields, rfl⟩, h.size.length_le⟩

theorem decodes_ofValue : Decodes ofValue Form :=
  Value.decodes_asRecord (fun _ _ h => h.size) (fun _ _ => ofMembers_eq_ok)
    (fun _ _ => ofElements_eq_ok)

theorem readsOnly_ofValue : Member.ReadsOnly Record.index.memberNames ofValue := by
  refine .of_form decodes_ofValue fun ms ms' x h hform => ?_
  exact ⟨.object ms',
    h.needs (by decide) hform.name,
    h.allows (by decide) hform.unique,
    h.needs (by decide) hform.fields⟩

end Index

namespace Schema

/-- The columns stand under one of two names, and not under both. -/
structure Form (v : Value) (s : Schema) : Prop where
  size : v.Fits 4 5
  table : v.Needs ["tableName"] 0 (Writes .string) s.table
  columns : v.Needs ["columns", "schema"] 1 (ListOf Column.Form) s.columns
  indexes : v.Allows ["indexes"] 2 [] (ListOf Index.Form) s.indexes
  rows : v.Needs ["rows"] 3 (ListOf (Writes .object)) s.rows
  options : v.Allows ["options"] 4 none (OrNull (Writes id)) s.options

def Draft.fields : List (Member.Field Draft) := [
  { name := "tableName", decodes := decodes_asString, get := table,
    set := fun d table => { d with table }, get_set := fun _ _ => rfl },
  { name := "columns", aliases := ["schema"], decodes := Column.decodes_ofValue.asList,
    get := columns, set := fun d columns => { d with columns }, get_set := fun _ _ => rfl },
  { name := "indexes", decodes := Index.decodes_ofValue.asList, get := indexes,
    set := fun d indexes => { d with indexes }, get_set := fun _ _ => rfl },
  { name := "rows", decodes := decodes_asRow.asList, get := rows,
    set := fun d rows => { d with rows }, get_set := fun _ _ => rfl },
  { name := "options", decodes := decodes_ok.asOption, get := options,
    set := fun d options => { d with options }, get_set := fun _ _ => rfl }]

theorem Draft.add_eq : Draft.add = Member.addTo fields := by
  funext d m
  simp [Draft.add, fields, Member.addTo, Member.Field.names, Member.Field.add]

theorem Draft.madeOf : Member.MadeOf Draft fields := by
  constructor
  · simp [fields, Member.Field.apart_iff, Member.Field.names]
  · rintro ⟨table, columns, indexes, rows, options⟩ ⟨table', columns', indexes', rows', options'⟩ h
    simpa [fields] using h

theorem Draft.foldlM_eq_ok {ms : Members} {d : Draft} : ms.foldlM Draft.add {} = .ok d ↔
    Member.Takes ["tableName"] (Writes .string) ms none d.table ∧
    Member.Takes ["columns", "schema"] (ListOf Column.Form) ms none d.columns ∧
    Member.Takes ["indexes"] (ListOf Index.Form) ms none d.indexes ∧
    Member.Takes ["rows"] (ListOf (Writes .object)) ms none d.rows ∧
    Member.Takes ["options"] (OrNull (Writes id)) ms none d.options := by
  rw [add_eq, madeOf.foldlM_eq_ok]
  simp [fields, Member.Field.Takes, Member.Field.names]

theorem ofMembers_eq_ok {ms : Members} {s : Schema} :
    ofMembers ms = .ok s ↔ Form (.object ms) s := by
  simp only [ofMembers, Draft.finish, except_bind_eq_ok, Draft.foldlM_eq_ok, Member.required_eq_ok,
    except_pure_eq_ok]
  constructor
  · rintro ⟨d, ⟨htable, hcolumns, hindexes, hrows, hoptions⟩, table, ht, columns, hc, rows, hr, rfl⟩
    rw [ht] at htable
    rw [hc] at hcolumns
    rw [hr] at hrows
    exact ⟨.object ms, takes_none_some.mp htable, takes_none_some.mp hcolumns,
      takes_none_getD.mp ⟨_, hindexes, rfl⟩, takes_none_some.mp hrows,
      takes_none_getD.mp ⟨_, hoptions, rfl⟩⟩
  · obtain ⟨table, columns, indexes, rows, options⟩ := s
    rintro ⟨_, htable, hcolumns, hindexes, hrows, hoptions⟩
    obtain ⟨indexes?, hi, rfl⟩ := takes_none_getD.mpr hindexes
    obtain ⟨options?, ho, rfl⟩ := takes_none_getD.mpr hoptions
    exact ⟨⟨some table, some columns, indexes?, some rows, options?⟩,
      ⟨takes_none_some.mpr htable, takes_none_some.mpr hcolumns, hi, takes_none_some.mpr hrows, ho⟩,
      table, rfl, columns, rfl, rows, rfl, rfl⟩

theorem ofElements_eq_ok {vs : List Value} {s : Schema} :
    ofElements vs = .ok s ∧ vs.length ≤ 5 ↔ Form (.array vs) s := by
  simp only [ofElements, except_bind_eq_ok, except_pure_eq_ok]
  constructor
  · rintro ⟨⟨table, htable, columns, hcolumns, indexes, hindexes, rows, hrows, options, hoptions,
      rfl⟩, hsize⟩
    exact ⟨.array (Element.lt_of_required hrows) hsize,
      (required_eq_ok decodes_asString).mp htable,
      (required_eq_ok Column.decodes_ofValue.asList).mp hcolumns,
      (optional_eq_ok Index.decodes_ofValue.asList).mp hindexes,
      (required_eq_ok decodes_asRow.asList).mp hrows,
      (optional_eq_ok decodes_ok.asOption).mp hoptions⟩
  · intro h
    exact ⟨⟨s.table, (required_eq_ok decodes_asString).mpr h.table,
      s.columns, (required_eq_ok Column.decodes_ofValue.asList).mpr h.columns,
      s.indexes, (optional_eq_ok Index.decodes_ofValue.asList).mpr h.indexes,
      s.rows, (required_eq_ok decodes_asRow.asList).mpr h.rows,
      s.options, (optional_eq_ok decodes_ok.asOption).mpr h.options, rfl⟩, h.size.length_le⟩

theorem decodes_ofValue : Decodes ofValue Form :=
  Value.decodes_asRecord (fun _ _ h => h.size) (fun _ _ => ofMembers_eq_ok)
    (fun _ _ => ofElements_eq_ok)

theorem readsOnly_ofValue : Member.ReadsOnly Record.table.memberNames ofValue := by
  refine .of_form decodes_ofValue fun ms ms' x h hform => ?_
  exact ⟨.object ms',
    h.needs (by decide) hform.table,
    h.needs (by decide) hform.columns,
    h.allows (by decide) hform.indexes,
    h.needs (by decide) hform.rows,
    h.allows (by decide) hform.options⟩

/-- A value is read as a schema exactly if it is of the form of a table that the schema stands for.
Of a record written as an object only the members that it names are looked at. -/
theorem ofValue_grammar :
    (∀ v s, ofValue v = .ok s ↔ Form v s) ∧
    Member.ReadsOnly Record.table.memberNames ofValue ∧
    Member.ReadsOnly Record.column.memberNames Column.ofValue ∧
    Member.ReadsOnly Record.index.memberNames Index.ofValue ∧
    Member.ReadsOnly Record.foreignKey.memberNames ForeignKey.ofValue :=
  ⟨decodes_ofValue, readsOnly_ofValue, Column.readsOnly_ofValue, Index.readsOnly_ofValue,
    ForeignKey.readsOnly_ofValue⟩

/-- The columns may stand first and under their other name, and any other member beside them. -/
theorem ofValue_grammar_reordered :
    let s : Schema := ⟨"ranks", [{ name := "n", type := "integer" }], [], [], none⟩
    let table := ("tableName", Value.string "ranks")
    let columns := ("schema", Value.array [.array [.string "n", .string "integer"]])
    let rows := ("rows", Value.array [])
    ofValue (.object [columns, rows, table]) = .ok s ∧
    Form (.object [columns, rows, table]) s ∧
    ofValue (.object [rows, columns, ("note", .null), table]) = .ok s := by
  intro s table columns rows
  obtain ⟨hform, hreads, _⟩ := ofValue_grammar
  have hs : ofValue (.object [columns, rows, table]) = .ok s := rfl
  have halike : Member.Alike Record.table.memberNames [columns, rows, table]
      [rows, columns, ("note", .null), table] := List.Perm.swap _ _ _
  exact ⟨hs, (hform _ _).mp hs, (hreads _ _ halike s).mp hs⟩

end Schema
end SeedTables
