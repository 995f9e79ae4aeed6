import SeedTables.Error
import SeedTables.Proofs.ConsistentSchema

namespace SeedTables

namespace Column

variable {columns : List Column} {name : String}

theorem declares_eq_false : declares columns name = false ↔ ∀ c ∈ columns, c.name ≠ name := by
  rw [Bool.eq_false_iff, ne_eq, declares_iff]
  simp

end Column

namespace Schema

/-- What is wrong with the row at a position: it is empty, or a key, the first such, is no
column. -/
inductive RowFault (columns : List Column) (position : Nat) (row : Row) : SchemaFault → Prop
  | empty (nothing : row = []) : RowFault columns position row (.emptyRow position)
  | undeclared {cell : String × Json.Value}
      (first : AfterOnly (fun cell => ∃ c ∈ columns, c.name = cell.1) row cell)
      (absent : ∀ c ∈ columns, c.name ≠ cell.1) :
      RowFault columns position row (.undeclaredInRow position cell.1)

/-- What is wrong with an index: it has no fields, or a field, the first such, is no column. -/
inductive IndexFault (columns : List Column) (index : Index) : SchemaFault → Prop
  | empty (nothing : index.fields = []) : IndexFault columns index (.emptyIndex index.name)
  | undeclared {field : String}
      (first : AfterOnly (fun field => ∃ c ∈ columns, c.name = field) index.fields field)
      (absent : ∀ c ∈ columns, c.name ≠ field) :
      IndexFault columns index (.undeclaredInIndex index.name field)

/-- The fault that is found first. Each presumes that nothing before it is at fault. -/
inductive FirstFault (s : Schema) : SchemaFault → Prop
  | name (blank : ∀ c ∈ s.table.toList, Text.isBlank c = true) : FirstFault s .emptyName
  | columns (named : s.Named) (nothing : s.columns = []) : FirstFault s .noColumns
  | column {before after : List Column} {c : Column}
      (named : s.Named) (split : s.columns = before ++ c :: after)
      (distinct : (before.map Column.name).Nodup) (again : ∃ b ∈ before, b.name = c.name) :
      FirstFault s (.repeatedColumn c.name)
  | row {before after : List Row} {row : Row} {fault : SchemaFault}
      (headed : s.Headed) (split : s.rows = before ++ row :: after)
      (sound : ∀ r ∈ before, SoundRow s.columns r)
      (wrong : RowFault s.columns before.length row fault) : FirstFault s fault
  | index {index : Index} {fault : SchemaFault}
      (headed : s.Headed) (rows : ∀ row ∈ s.rows, SoundRow s.columns row)
      (first : AfterOnly (SoundIndex s.columns) s.indexes index)
      (wrong : IndexFault s.columns index fault) : FirstFault s fault

theorem firstRepeated?_eq_some {seen names : List String} {name : String} :
    firstRepeated? seen names = some name ↔ ∃ before after, names = before ++ name :: after ∧
      before.Nodup ∧ (∀ n ∈ before, n ∉ seen) ∧ (name ∈ seen ∨ name ∈ before) := by
  -- A name that is passed over goes from the names before it to those seen.
  induction names generalizing seen with
  | nil => simp [firstRepeated?]
  | cons n names ih =>
    by_cases hn : n ∈ seen
    · simp only [firstRepeated?, hn, ↓reduceIte, Option.some.injEq]
      constructor
      · rintro rfl
        exact ⟨[], names, rfl, List.nodup_nil, by simp, .inl hn⟩
      · rintro ⟨before, after, hsplit, _, hfresh, _⟩
        cases before with
        | nil => exact (List.cons.inj hsplit).1
        | cons b before =>
          obtain ⟨rfl, _⟩ := List.cons.inj hsplit
          exact absurd hn (hfresh n List.mem_cons_self)
    · simp only [firstRepeated?, hn, ↓reduceIte, ih]
      constructor
      · rintro ⟨before, after, rfl, hnodup, hfresh, hname⟩
        have hnew : n ∉ before := fun hm => hfresh n hm List.mem_cons_self
        refine ⟨n :: before, after, rfl, List.nodup_cons.mpr ⟨hnew, hnodup⟩, ?_, ?_⟩
        · intro m hm
          rcases List.mem_cons.mp hm with rfl | hm
          · exact hn
          · exact fun hseen => hfresh m hm (List.mem_cons_of_mem _ hseen)
        · rcases hname with hseen | hbefore
          · rcases List.mem_cons.mp hseen with rfl | hseen
            · exact .inr List.mem_cons_self
            · exact .inl hseen
          · exact .inr (List.mem_cons_of_mem _ hbefore)
      · rintro ⟨before, after, hsplit, hnodup, hfresh, hname⟩
        cases before with
        | nil =>
          obtain ⟨rfl, _⟩ := List.cons.inj hsplit
          exact absurd (hname.resolve_right List.not_mem_nil) hn
        | cons b before =>
          obtain ⟨rfl, rfl⟩ := List.cons.inj hsplit
          obtain ⟨hnew, hnodup⟩ := List.nodup_cons.mp hnodup
          refine ⟨before, after, rfl, hnodup, ?_, ?_⟩
          · intro m hm hseen
            rcases List.mem_cons.mp hseen with rfl | hseen
            · exact hnew hm
            · exact hfresh m (List.mem_cons_of_mem _ hm) hseen
          · rcases hname with hseen | hbefore
            · exact .inl (List.mem_cons_of_mem _ hseen)
            · rcases List.mem_cons.mp hbefore with rfl | hbefore
              · exact .inl List.mem_cons_self
              · exact .inr hbefore

variable {columns : List Column}

theorem repeatedColumn_eq_some {name : String} :
    firstRepeated? [] (columns.map Column.name) = some name ↔ ∃ before c after,
      columns = before ++ c :: after ∧ (before.map Column.name).Nodup ∧
      (∃ b ∈ before, b.name = c.name) ∧ c.name = name := by
  simp only [firstRepeated?_eq_some, List.not_mem_nil, not_false_eq_true, implies_true, true_and,
    false_or]
  constructor
  · rintro ⟨names, rest, hsplit, hnodup, hagain⟩
    obtain ⟨before, more, rfl, rfl, hmore⟩ := List.map_eq_append_iff.mp hsplit
    obtain ⟨c, after, rfl, rfl, rfl⟩ := List.map_eq_cons_iff.mp hmore
    exact ⟨before, c, after, rfl, hnodup, List.mem_map.mp hagain, rfl⟩
  · rintro ⟨before, c, after, rfl, hnodup, hagain, rfl⟩
    exact ⟨before.map Column.name, after.map Column.name, by simp, hnodup,
      List.mem_map.mpr hagain⟩

theorem rowFault?_eq_some {position : Nat} {row : Row} {fault : SchemaFault} :
    rowFault? columns position row = some fault ↔ RowFault columns position row fault := by
  unfold rowFault?
  cases row with
  | nil =>
    simp only [List.isEmpty_nil, ↓reduceIte, Option.some.injEq]
    constructor
    · rintro rfl
      exact .empty rfl
    · rintro (_ | ⟨first, _⟩)
      · rfl
      · cases first.mem
  | cons cell row =>
    simp only [List.isEmpty_cons, Bool.false_eq_true, ↓reduceIte, List.find?_map, Option.map_map,
      Option.map_eq_some_iff, find?_eq_some_afterOnly, Function.comp_apply, Bool.not_eq_true',
      Bool.not_eq_false', Column.declares_eq_false, Column.declares_iff]
    constructor
    · rintro ⟨c, ⟨habsent, hfirst⟩, rfl⟩
      exact .undeclared hfirst habsent
    · rintro (⟨⟨⟩⟩ | ⟨hfirst, habsent⟩)
      exact ⟨_, ⟨habsent, hfirst⟩, rfl⟩

theorem indexFault?_eq_some {index : Index} {fault : SchemaFault} :
    indexFault? columns index = some fault ↔ IndexFault columns index fault := by
  unfold indexFault?
  by_cases hempty : index.fields = []
  · simp only [hempty, List.isEmpty_nil, ↓reduceIte, Option.some.injEq]
    constructor
    · rintro rfl
      exact .empty hempty
    · rintro (_ | ⟨first, _⟩)
      · rfl
      · cases hempty ▸ first.mem
  · rw [if_neg (by simpa using hempty)]
    simp only [Option.map_eq_some_iff, find?_eq_some_afterOnly, Bool.not_eq_true',
      Bool.not_eq_false', Column.declares_eq_false, Column.declares_iff]
    constructor
    · rintro ⟨field, ⟨habsent, hfirst⟩, rfl⟩
      exact .undeclared hfirst habsent
    · rintro (hnothing | ⟨hfirst, habsent⟩)
      · exact absurd hnothing hempty
      · exact ⟨_, ⟨habsent, hfirst⟩, rfl⟩

theorem rowFaults_eq_some {rows : List Row} {fault : SchemaFault} :
    (rows.zipIdx.findSome? fun (row, position) => rowFault? columns position row) = some fault ↔
      ∃ before row after, rows = before ++ row :: after ∧
        (∀ r ∈ before, SoundRow columns r) ∧ RowFault columns before.length row fault := by
  simp only [findSome?_eq_some_afterOnly, rowFault?_eq_none, rowFault?_eq_some]
  constructor
  · rintro ⟨⟨row, position⟩, ⟨left, right, hsplit, hsound⟩, hfault⟩
    obtain ⟨before, rest, rfl, rfl, hrest⟩ := List.zipIdx_eq_append_iff.mp hsplit
    cases rest with
    | nil => simp at hrest
    | cons r after =>
      simp only [List.zipIdx_cons, Nat.zero_add, List.cons.injEq, Prod.mk.injEq] at hrest
      obtain ⟨⟨rfl, rfl⟩, _⟩ := hrest
      refine ⟨before, row, after, rfl, ?_, hfault⟩
      intro r hr
      rw [← List.zipIdx_map_fst 0 before] at hr
      obtain ⟨pair, hpair, rfl⟩ := List.mem_map.mp hr
      exact hsound pair hpair
  · rintro ⟨before, row, after, rfl, hsound, hfault⟩
    refine ⟨(row, before.length), ⟨before.zipIdx, after.zipIdx (before.length + 1), ?_, ?_⟩, hfault⟩
    · simp [List.zipIdx_append]
    · intro pair hpair
      exact hsound pair.1 (List.zipIdx_map_fst 0 before ▸ List.mem_map_of_mem hpair)

variable {s : Schema} {fault : SchemaFault}

theorem headed_iff : s.Headed ↔ Text.isBlankText s.table.toList = false ∧ s.columns ≠ [] ∧
    firstRepeated? [] (s.columns.map Column.name) = none := by
  rw [firstRepeated?_eq_none, isBlankText_eq_false]
  constructor
  · exact fun h => ⟨h.named, h.someColumn, h.distinct, by simp⟩
  · rintro ⟨named, someColumn, distinct, _⟩
    exact ⟨named, someColumn, distinct⟩

theorem Headed.fault?_eq (h : s.Headed) : s.fault? =
    (s.rows.zipIdx.findSome? fun (row, position) => rowFault? s.columns position row).or
      (s.indexes.findSome? (indexFault? s.columns)) := by
  obtain ⟨named, someColumn, distinct⟩ := headed_iff.mp h
  simp [fault?, named, someColumn, distinct]

theorem FirstFault.fault? (h : s.FirstFault fault) : s.fault? = some fault := by
  cases h with
  | name blank => simp [Schema.fault?, Text.isBlankText_iff.mpr blank]
  | columns named nothing => simp [Schema.fault?, isBlankText_eq_false.mpr named, nothing]
  | @column before after c named split distinct again =>
    have hrepeated := repeatedColumn_eq_some.mpr ⟨before, c, after, split, distinct, again, rfl⟩
    have hcolumns : s.columns ≠ [] := by simp [split]
    simp [Schema.fault?, isBlankText_eq_false.mpr named, hcolumns, hrepeated]
  | row headed split sound wrong =>
    rw [headed.fault?_eq, rowFaults_eq_some.mpr ⟨_, _, _, split, sound, wrong⟩, Option.some_or]
  | index headed rows first wrong =>
    rw [headed.fault?_eq, rowFaults_eq_none.mpr rows, Option.none_or, findSome?_eq_some_afterOnly]
    exact ⟨_, (afterOnly_congr fun _ => indexFault?_eq_none).mpr first,
      indexFault?_eq_some.mpr wrong⟩

end Schema
end SeedTables
