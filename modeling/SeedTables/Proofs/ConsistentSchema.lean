import SeedTables.Except
import SeedTables.Schema.Validation

namespace SeedTables

theorem find?_of_nodup_map {α β : Type} [DecidableEq β] {name : α → β} {xs : List α} {x : α}
    (distinct : (xs.map name).Nodup) (hx : x ∈ xs) :
    (xs.find? fun y => name y = name x) = some x := by
  induction xs with
  | nil => cases hx
  | cons y ys ih =>
    rw [List.map_cons, List.nodup_cons] at distinct
    rcases List.mem_cons.mp hx with rfl | hx
    · simp
    · have hne : name y ≠ name x := by
        intro he
        exact distinct.1 (he ▸ List.mem_map_of_mem hx)
      rw [List.find?_cons_of_neg (by simpa using hne), ih distinct.2 hx]

namespace Column

variable {columns : List Column} {name : String}

theorem declares_iff : declares columns name = true ↔ ∃ c ∈ columns, c.name = name := by
  simp [declares, find?, List.find?_isSome]

theorem find?_of_mem {c : Column} (distinct : (columns.map Column.name).Nodup) (hc : c ∈ columns) :
    find? columns c.name = some c :=
  find?_of_nodup_map distinct hc

end Column

namespace Schema

/-- A name that does not look empty. -/
def Named (s : Schema) : Prop := ∃ c ∈ s.table.toList, Text.isBlank c = false

structure Headed (s : Schema) : Prop where
  named : s.Named
  someColumn : s.columns ≠ []
  distinct : (s.columns.map Column.name).Nodup

/-- A row that holds values of declared columns only, and at least one. -/
def SoundRow (columns : List Column) (row : Row) : Prop :=
  row ≠ [] ∧ ∀ cell ∈ row, ∃ c ∈ columns, c.name = cell.1

def SoundIndex (columns : List Column) (index : Index) : Prop :=
  index.fields ≠ [] ∧ ∀ field ∈ index.fields, ∃ c ∈ columns, c.name = field

/-- A schema that refers to declared columns only, each of them declared once. -/
structure Consistent (s : Schema) : Prop extends Headed s where
  rows : ∀ row ∈ s.rows, SoundRow s.columns row
  indexes : ∀ index ∈ s.indexes, SoundIndex s.columns index

theorem isBlankText_eq_false {s : Schema} :
    Text.isBlankText s.table.toList = false ↔ s.Named :=
  Text.isBlankText_eq_false

theorem firstRepeated?_eq_none {seen names : List String} :
    firstRepeated? seen names = none ↔ names.Nodup ∧ ∀ name ∈ names, name ∉ seen := by
  -- The names seen so far are those that the rest must differ from.
  induction names generalizing seen with
  | nil => simp [firstRepeated?]
  | cons name names ih =>
    by_cases h : name ∈ seen
    · simp [firstRepeated?, h]
    · simp only [firstRepeated?, h, ↓reduceIte, ih, List.nodup_cons, List.mem_cons, not_or]
      constructor
      · rintro ⟨hnodup, hrest⟩
        refine ⟨⟨fun hm => (hrest name hm).1 rfl, hnodup⟩, ?_⟩
        rintro other (rfl | hm)
        · exact h
        · exact (hrest other hm).2
      · rintro ⟨⟨hnew, hnodup⟩, hall⟩
        refine ⟨hnodup, fun other hm => ⟨?_, hall other (.inr hm)⟩⟩
        rintro rfl
        exact hnew hm

variable {columns : List Column}

theorem rowFault?_eq_none {position : Nat} {row : Row} :
    rowFault? columns position row = none ↔ SoundRow columns row := by
  unfold rowFault? SoundRow
  cases row with
  | nil => simp
  | cons cell row => simp [Column.declares_iff]

theorem indexFault?_eq_none {index : Index} :
    indexFault? columns index = none ↔ SoundIndex columns index := by
  unfold indexFault? SoundIndex
  cases index.fields with
  | nil => simp
  | cons field fields => simp [Column.declares_iff]

theorem rowFaults_eq_none {rows : List Row} :
    (rows.zipIdx.findSome? fun (row, position) => rowFault? columns position row) = none ↔
      ∀ row ∈ rows, SoundRow columns row := by
  simp only [List.findSome?_eq_none_iff, rowFault?_eq_none]
  constructor
  · intro h row hrow
    rw [← List.zipIdx_map_fst 0 rows] at hrow
    obtain ⟨pair, hpair, rfl⟩ := List.mem_map.mp hrow
    exact h pair hpair
  · intro h pair hpair
    exact h pair.1 (List.zipIdx_map_fst 0 rows ▸ List.mem_map_of_mem hpair)

theorem fault?_eq_none {s : Schema} : s.fault? = none ↔ s.Consistent := by
  unfold fault?
  by_cases hname : Text.isBlankText s.table.toList = true
  · rw [if_pos hname]
    simp only [reduceCtorEq, false_iff]
    intro h
    rw [isBlankText_eq_false.mpr h.named] at hname
    cases hname
  by_cases hcolumns : s.columns.isEmpty = true
  · rw [if_neg hname, if_pos hcolumns]
    simp only [reduceCtorEq, false_iff]
    exact fun h => h.someColumn (List.isEmpty_iff.mp hcolumns)
  rw [if_neg hname, if_neg hcolumns, Option.or_eq_none_iff, Option.or_eq_none_iff,
    Option.map_eq_none_iff, firstRepeated?_eq_none, rowFaults_eq_none, List.findSome?_eq_none_iff]
  simp only [indexFault?_eq_none, List.not_mem_nil, not_false_eq_true, implies_true, and_true]
  constructor
  · rintro ⟨distinct, rows, indexes⟩
    have named : s.Named := isBlankText_eq_false.mp (by simpa using hname)
    exact ⟨⟨named, by simpa using hcolumns, distinct⟩, rows, indexes⟩
  · exact fun h => ⟨h.distinct, h.rows, h.indexes⟩

/-- A document is accepted exactly if it has the shape of a schema that is consistent. -/
theorem ofDocument_eq_ok {v : Json.Value} {s : Schema} :
    ofDocument v = .ok s ↔ ofValue v = .ok s ∧ s.Consistent := by
  simp only [ofDocument, except_bind_eq_ok, except_mapError_eq_ok, ← fault?_eq_none]
  constructor
  · rintro ⟨s', hs', h⟩
    cases hfault : s'.fault? with
    | some fault => simp [hfault, except_throw_eq_ok] at h
    | none =>
      simp only [hfault, except_pure_eq_ok] at h
      subst h
      exact ⟨hs', hfault⟩
  · rintro ⟨hs, hfault⟩
    exact ⟨s, hs, by simp [hfault, except_pure_eq_ok]⟩

end Schema
end SeedTables
