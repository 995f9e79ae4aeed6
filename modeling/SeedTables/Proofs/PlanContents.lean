import SeedTables.Proofs.Verdicts

namespace SeedTables

namespace Verdict

/-- A document that can be accepted when some tables are taken. -/
def Acceptable (options : CompileOptions) (taken : List String) (d : Document) : Prop :=
  ∃ s c, Schema.ofDocument d.value = .ok s ∧ s.table ∉ taken ∧ s.compile options = .ok c

variable {options : CompileOptions} {taken : List String}

theorem Right.accepted_iff {v : Verdict} (h : v.Right options taken) :
    (∃ s c, v = .accepted v.document s c) ↔ Acceptable options taken v.document := by
  cases v with
  | accepted d s c => exact ⟨fun _ => ⟨s, c, h⟩, fun _ => ⟨s, c, rfl⟩⟩
  | rejected d e =>
    constructor
    · rintro ⟨s, c, hv⟩
      cases hv
    · rintro ⟨s, c, hs, hfree, hc⟩
      rcases h with ⟨fault, hf, _⟩ | ⟨s', hs', h⟩
      · rw [document, hf] at hs
        cases hs
      · obtain rfl : s' = s := Except.ok.inj (hs'.symm.trans hs)
        rcases h with ⟨hm, _⟩ | ⟨_, he⟩
        · exact absurd hm hfree
        · rw [he] at hc
          cases hc

theorem Right.statements {v : Verdict} (h : v.Right options taken) :
    (∀ st ∈ v.definitions, st.table ∈ v.tables) ∧ ∀ st ∈ v.data, st.table ∈ v.tables := by
  cases v with
  | accepted d s c =>
    obtain ⟨hd, hm⟩ := Schema.compile_table h.2.2
    exact ⟨fun st hst => by simp [tables, hd st hst], fun st hst => by simp [tables, hm st hst]⟩
  | rejected d e => simp [definitions, data]

theorem split_of_table {vs : List Verdict} {v : Verdict} {table : String}
    (distinct : (vs.flatMap tables).Nodup) (hv : v ∈ vs) (ht : table ∈ v.tables) :
    ∃ before after, vs = before ++ v :: after ∧
      (∀ w ∈ before, table ∉ w.tables) ∧ ∀ w ∈ after, table ∉ w.tables := by
  obtain ⟨before, after, rfl⟩ := List.append_of_mem hv
  rw [List.flatMap_append, List.flatMap_cons, List.nodup_append] at distinct
  obtain ⟨_, hrest, hbefore⟩ := distinct
  refine ⟨before, after, rfl, ?_, ?_⟩
  · intro w hw hm
    exact hbefore table (List.mem_flatMap.mpr ⟨w, hw, hm⟩) table (List.mem_append_left _ ht) rfl
  · intro w hw hm
    exact (List.nodup_append.mp hrest).2.2 table ht table (List.mem_flatMap.mpr ⟨w, hw, hm⟩) rfl

theorem eq_of_table {vs : List Verdict} {v w : Verdict} {table : String}
    (distinct : (vs.flatMap tables).Nodup) (hv : v ∈ vs) (ht : table ∈ v.tables) (hw : w ∈ vs)
    (hwt : table ∈ w.tables) : w = v := by
  obtain ⟨before, after, rfl, hbefore, hafter⟩ := split_of_table distinct hv ht
  rcases List.mem_append.mp hw with hw | hw
  · exact absurd hwt (hbefore w hw)
  · rcases List.mem_cons.mp hw with rfl | hw
    · rfl
    · exact absurd hwt (hafter w hw)

theorem filter_flatMap_nil {ws : List Verdict} {table : String}
    (statements : Verdict → List Statement)
    (owned : ∀ w ∈ ws, ∀ st ∈ statements w, st.table ∈ w.tables)
    (other : ∀ w ∈ ws, table ∉ w.tables) :
    (ws.flatMap statements).filter (fun st => st.table = table) = [] := by
  refine List.filter_eq_nil_iff.mpr ?_
  intro st hst he
  obtain ⟨w, hw, hm⟩ := List.mem_flatMap.mp hst
  exact other w hw (of_decide_eq_true he ▸ owned w hw st hm)

theorem filter_flatMap_table {vs : List Verdict} {v : Verdict} {table : String}
    (statements : Verdict → List Statement)
    (owned : ∀ w ∈ vs, ∀ st ∈ statements w, st.table ∈ w.tables)
    (distinct : (vs.flatMap tables).Nodup) (hv : v ∈ vs) (ht : v.tables = [table]) :
    (vs.flatMap statements).filter (fun st => st.table = table) = statements v := by
  obtain ⟨before, after, rfl, hbefore, hafter⟩ :=
    split_of_table distinct hv (ht ▸ List.mem_singleton.mpr rfl)
  have hown : (statements v).filter (fun st => st.table = table) = statements v := by
    refine List.filter_eq_self.mpr fun st hst => decide_eq_true ?_
    exact List.mem_singleton.mp (ht ▸ owned v (by simp) st hst)
  rw [List.flatMap_append, List.flatMap_cons, List.filter_append, List.filter_append, hown,
    filter_flatMap_nil statements (fun w hw => owned w (by simp [hw])) hbefore,
    filter_flatMap_nil statements (fun w hw => owned w (by simp [hw])) hafter]
  simp

end Verdict

namespace Plan

structure AccountedBy (p : Plan) (options : CompileOptions) (documents : List Document)
    (vs : List Verdict) : Prop where
  /-- Every document has one verdict, in order. -/
  documents : vs.map Verdict.document = documents
  accepted : ∀ before v after, vs = before ++ v :: after →
    ((∃ s c, v = .accepted v.document s c) ↔
      Verdict.Acceptable options (before.flatMap Verdict.tables) v.document)
  right : ∀ before v after, vs = before ++ v :: after →
    v.Right options (before.flatMap Verdict.tables)
  tables : p.tables = vs.flatMap Verdict.tables
  distinct : p.tables.Nodup
  rejected : p.rejected = vs.flatMap Verdict.errors
  definitions : p.definitions = vs.flatMap Verdict.definitions
  data : p.data = vs.flatMap Verdict.data
  /-- A table has one accepted document, and exactly its statements. -/
  ofTable : ∀ table ∈ p.tables, ∃ d s c, Verdict.accepted d s c ∈ vs ∧ s.table = table ∧
    s.compile options = .ok c ∧
    (∀ v ∈ vs, table ∈ v.tables → v = .accepted d s c) ∧
    p.definitions.filter (fun st => st.table = table) = c.definitions ∧
    p.data.filter (fun st => st.table = table) = c.data
  inside : ∀ st ∈ p.statements, st.table ∈ p.tables

theorem accountedBy_verdicts (options : CompileOptions) (ds : List Document) :
    (({} : Plan).enter (verdicts options [] ds)).AccountedBy options ds (verdicts options [] ds) := by
  have hright : ∀ before v after, verdicts options [] ds = before ++ v :: after →
      v.Right options (before.flatMap Verdict.tables) := by
    intro before v after h
    have hv := verdict_of_split h
    rw [List.nil_append] at hv
    rw [hv]
    exact Document.verdict_right _
  have howned : ∀ v ∈ verdicts options [] ds, (∀ st ∈ v.definitions, st.table ∈ v.tables) ∧
      ∀ st ∈ v.data, st.table ∈ v.tables := by
    intro v hv
    obtain ⟨before, after, h⟩ := List.append_of_mem hv
    exact (hright before v after h).statements
  have hdistinct : ((verdicts options [] ds).flatMap Verdict.tables).Nodup := by
    simpa using @verdicts_nodup options [] List.nodup_nil ds
  refine ⟨map_document_verdicts ds, fun _ _ _ h => (hright _ _ _ h).accepted_iff, hright,
    rfl, hdistinct, rfl, rfl, rfl, ?_, ?_⟩
  · intro table ht
    -- Only an accepted verdict has a table, and tables are distinct: there is one of this table.
    obtain ⟨v, hv, hm⟩ := List.mem_flatMap.mp ht
    cases v with
    | rejected d e => simp [Verdict.tables] at hm
    | accepted d s c =>
      obtain rfl : table = s.table := List.mem_singleton.mp hm
      obtain ⟨before, after, hsplit⟩ := List.append_of_mem hv
      refine ⟨d, s, c, hv, rfl, (hright before _ after hsplit).2.2, ?_, ?_, ?_⟩
      · exact fun w hw hwt => Verdict.eq_of_table hdistinct hv hm hw hwt
      · exact Verdict.filter_flatMap_table Verdict.definitions (fun w hw => (howned w hw).1)
          hdistinct hv rfl
      · exact Verdict.filter_flatMap_table Verdict.data (fun w hw => (howned w hw).2)
          hdistinct hv rfl
  · intro st hst
    rcases List.mem_append.mp hst with hst | hst
    · obtain ⟨v, hv, hm⟩ := List.mem_flatMap.mp hst
      exact List.mem_flatMap.mpr ⟨v, hv, (howned v hv).1 st hm⟩
    · obtain ⟨v, hv, hm⟩ := List.mem_flatMap.mp hst
      exact List.mem_flatMap.mpr ⟨v, hv, (howned v hv).2 st hm⟩

theorem ofDocuments_accountedBy {policy : Policy} {options : CompileOptions} {p : Plan}
    {ds : List Document} (h : ofDocuments policy options ds = .ok p) :
    p.AccountedBy options ds (verdicts options [] ds) := by
  rw [ofDocuments_eq_enter h]
  exact accountedBy_verdicts options ds

/-- A plan holds the tables and statements of the accepted documents and the errors of the others,
and nothing else. -/
theorem ofSource_accounted {config : Config} {t : FileTree} {source : Source} {p : Plan}
    (h : ofSource config t source = .ok p) : ∃ documents, source.documents t = .ok documents ∧
      ∃ vs, p.AccountedBy ⟨config.outputDir, config.notNull⟩ documents vs := by
  obtain ⟨documents, hd, hp⟩ := except_bind_eq_ok.mp h
  refine ⟨documents, hd, verdicts ⟨config.outputDir, config.notNull⟩ [] documents, ?_⟩
  rw [ofDocuments_eq_enter hp]
  exact accountedBy_verdicts _ _

/-- A table whose first document is rejected is taken from the next one, and is taken then. -/
theorem ofSource_accounted_counting :
    let source := Source.memory
      [.counting "a" "money", .counting "b" "integer", .counting "c" "integer"]
    ∃ p, ofSource { policy := .skipInvalid } ⟨[], []⟩ source = .ok p ∧ p.tables = ["counts"] ∧
      p.rejected = [.unsupportedType "counts" "n" "money",
        .malformed "c" (.repeatedTable "counts")] ∧
      ∃ documents, source.documents ⟨[], []⟩ = .ok documents ∧
        ∃ vs, p.AccountedBy ⟨"parquet", .nullableTrue⟩ documents vs := by
  intro source
  have hp : ofSource { policy := .skipInvalid } ⟨[], []⟩ source = .ok _ := rfl
  exact ⟨_, hp, rfl, rfl, ofSource_accounted hp⟩

end Plan
end SeedTables
