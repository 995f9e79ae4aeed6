import SeedTables.Proofs.ConsistentSchema
import SeedTables.Proofs.DocumentParts
import SeedTables.Proofs.PlanContents

namespace SeedTables

namespace Schema

variable {s : Schema} {options : CompileOptions} {c : TableStatements}

theorem definitions_define {st : Statement} (h : st ∈ s.definitions options) :
    st.kind.defines = true := by
  rcases mem_definitions h with ⟨_, rfl⟩ | ⟨_, rfl⟩ | rfl <;> rfl

theorem compile_defines (h : s.compile options = .ok c) :
    (∀ st ∈ c.definitions, st.kind.defines = true) ∧
      ∀ st ∈ c.data, st.kind.defines = false := by
  obtain ⟨indexes, inserts, _, _, rfl⟩ := compile_eq_ok.mp h
  refine ⟨fun st hst => definitions_define hst, ?_⟩
  intro st hst
  rcases List.mem_append.mp hst with hst | hst
  · obtain ⟨i, _, rfl⟩ := List.mem_map.mp hst
    rfl
  · obtain ⟨i, _, rfl⟩ := List.mem_map.mp hst
    rfl

end Schema

namespace Plan

def statementsOf (p : Plan) (table : String) : List Statement :=
  p.statements.filter fun st => st.table = table

def kindsOf (p : Plan) (table : String) : List Statement.Kind :=
  (p.statementsOf table).map Statement.kind

/-- A table is created, exported, given a sequence if its document asks for one, indexed and
filled. -/
structure Ordered (p : Plan) (document : Json.Value) (s : Schema) : Prop where
  created : (p.kindsOf s.table).count .createTable = 1
  exported : (p.kindsOf s.table).count .exportTable = 1
  sequences : (p.kindsOf s.table).count .createSequence ≤ 1
  sequence : (p.kindsOf s.table).count .createSequence = 1 ↔
    ∃ o, document.part? "options" 4 = some o ∧ o ≠ .null
  /-- Whatever else is executed for the table finds it created. -/
  createdFirst : ∀ before st after, p.statements = before ++ st :: after → st.table = s.table →
    st.kind ≠ .createTable → ∃ first ∈ before, first.table = s.table ∧ first.kind = .createTable
  /-- Behind an insert there is no index. -/
  indexesFirst : (p.kindsOf s.table).Pairwise fun a b => a = .insert → b ≠ .createIndex
  rows : document.part? "rows" 3 = some (.array (s.rows.map .object))
  /-- The inserts are those of the rows, one for each and in their order. -/
  inserts : s.rows.map (fun row => (Insert.ofRow s.table s.columns row).map .insert) =
    ((p.statementsOf s.table).filter fun st => st.kind = .insert).map .ok

variable {p : Plan} {options : CompileOptions} {s : Schema} {c : TableStatements}

theorem AccountedBy.statementsOf_eq {documents : List Document} {vs : List Verdict} {d : Document}
    (h : p.AccountedBy options documents vs) (hv : .accepted d s c ∈ vs) :
    p.statementsOf s.table = c.definitions ++ c.data := by
  have hm : s.table ∈ p.tables := by
    rw [h.tables]
    exact List.mem_flatMap.mpr ⟨_, hv, List.mem_singleton.mpr rfl⟩
  obtain ⟨d', s', c', _, _, _, hunique, hdefinitions, hdata⟩ := h.ofTable s.table hm
  have hsame := hunique _ hv (List.mem_singleton.mpr rfl)
  simp only [Verdict.accepted.injEq] at hsame
  obtain ⟨rfl, rfl, rfl⟩ := hsame
  rw [statementsOf, statements, List.filter_append, hdefinitions, hdata]

theorem createdFirst_of_head {table : String} {columns : List ColumnDef} {rest : List Statement}
    (h : p.statementsOf table = .createTable table columns :: rest) {before after : List Statement}
    {st : Statement} (hsplit : p.statements = before ++ st :: after) (ht : st.table = table)
    (hk : st.kind ≠ .createTable) :
    ∃ first ∈ before, first.table = table ∧ first.kind = .createTable := by
  rw [statementsOf, hsplit, List.filter_append, List.filter_cons_of_pos (by simpa using ht)] at h
  -- The first statement of the table stands before `st`, or is `st` itself.
  cases hb : before.filter fun st => st.table = table with
  | nil =>
    rw [hb, List.nil_append, List.cons.injEq] at h
    exact absurd (congrArg Statement.kind h.1) hk
  | cons first others =>
    rw [hb, List.cons_append, List.cons.injEq] at h
    have hfirst := List.mem_filter.mp (hb ▸ List.mem_cons_self : first ∈ before.filter _)
    exact ⟨first, hfirst.1, of_decide_eq_true hfirst.2, congrArg Statement.kind h.1⟩

theorem kindsOf_eq (hc : s.compile options = .ok c)
    (h : p.statementsOf s.table = c.definitions ++ c.data) :
    p.kindsOf s.table = [.createTable, .exportTable] ++
      (if s.hasSequence then [.createSequence] else []) ++
      (List.replicate s.indexes.length .createIndex ++ List.replicate s.rows.length .insert) := by
  obtain ⟨indexes, inserts, hi, hr, rfl⟩ := Schema.compile_eq_ok.mp hc
  have hindexes : s.indexes.length = indexes.length := by
    simpa using congrArg List.length (except_mapM_eq_ok.mp hi)
  have hrows : s.rows.length = inserts.length := by
    simpa using congrArg List.length (except_mapM_eq_ok.mp hr)
  rw [kindsOf, h, Schema.definitions, hindexes, hrows]
  split <;> simp [Statement.kind, Function.comp_def, List.map_const']

theorem inserts_eq (hc : s.compile options = .ok c)
    (h : p.statementsOf s.table = c.definitions ++ c.data) :
    s.rows.map (fun row => (Insert.ofRow s.table s.columns row).map .insert) =
      ((p.statementsOf s.table).filter fun st => st.kind = .insert).map .ok := by
  obtain ⟨indexes, inserts, _, hr, rfl⟩ := Schema.compile_eq_ok.mp hc
  have hdefinitions : (s.definitions options).filter (fun st => st.kind = .insert) = [] := by
    rw [Schema.definitions]
    split <;> simp [Statement.kind]
  have hindexes :
      (indexes.map Statement.createIndex).filter (fun st => st.kind = .insert) = [] := by
    simp [List.filter_eq_nil_iff, Statement.kind]
  have hinserts : (inserts.map Statement.insert).filter (fun st => st.kind = .insert) =
      inserts.map Statement.insert := by
    simp [List.filter_eq_self, Statement.kind]
  have hrows := congrArg (List.map (Except.map Statement.insert)) (except_mapM_eq_ok.mp hr)
  rw [List.map_map, List.map_map] at hrows
  simp only [h, List.filter_append, hdefinitions, hindexes, hinserts, List.nil_append, List.map_map]
  exact hrows

theorem count_kindsOf (hc : s.compile options = .ok c)
    (h : p.statementsOf s.table = c.definitions ++ c.data) (kind : Statement.Kind) :
    (p.kindsOf s.table).count kind = match kind with
      | .createTable | .exportTable => 1
      | .createSequence => if s.hasSequence then 1 else 0
      | .createIndex => s.indexes.length
      | .insert => s.rows.length := by
  rw [kindsOf_eq hc h]
  cases kind <;> split <;> simp [List.count_replicate]

theorem Ordered.of_compile {v : Json.Value} (hs : Schema.ofDocument v = .ok s)
    (hc : s.compile options = .ok c) (h : p.statementsOf s.table = c.definitions ++ c.data) :
    p.Ordered v s := by
  have hvalue := (Schema.ofDocument_eq_ok.mp hs).1
  have hcount : (p.kindsOf s.table).count .createSequence = if s.hasSequence then 1 else 0 :=
    count_kindsOf hc h .createSequence
  have hhead : ∃ columns rest, p.statementsOf s.table = .createTable s.table columns :: rest := by
    obtain ⟨indexes, inserts, _, _, rfl⟩ := Schema.compile_eq_ok.mp hc
    exact ⟨_, _, h⟩
  obtain ⟨columns, rest, hhead⟩ := hhead
  refine ⟨count_kindsOf hc h .createTable, count_kindsOf hc h .exportTable, ?_, ?_,
    fun before st after => createdFirst_of_head hhead, ?_, Schema.ofValue_rows hvalue,
    inserts_eq hc h⟩
  · rw [hcount]
    split <;> omega
  · rw [hcount, ← Schema.ofValue_hasSequence hvalue]
    split <;> simp_all
  · rw [kindsOf_eq hc h]
    split <;> simp [List.pairwise_append, List.pairwise_replicate]

theorem AccountedBy.defines {documents : List Document} {vs : List Verdict}
    (h : p.AccountedBy options documents vs) :
    (∀ st ∈ p.definitions, st.kind.defines = true) ∧ ∀ st ∈ p.data, st.kind.defines = false := by
  have hverdict : ∀ v ∈ vs, (∀ st ∈ v.definitions, st.kind.defines = true) ∧
      ∀ st ∈ v.data, st.kind.defines = false := by
    intro v hv
    obtain ⟨before, after, hsplit⟩ := List.append_of_mem hv
    cases v with
    | accepted d s c => exact Schema.compile_defines (h.right before _ after hsplit).2.2
    | rejected d e => simp [Verdict.definitions, Verdict.data]
  rw [h.definitions, h.data]
  refine ⟨fun st hst => ?_, fun st hst => ?_⟩
  · obtain ⟨v, hv, hm⟩ := List.mem_flatMap.mp hst
    exact (hverdict v hv).1 st hm
  · obtain ⟨v, hv, hm⟩ := List.mem_flatMap.mp hst
    exact (hverdict v hv).2 st hm

/-- In every plan the definitions of all tables come before all indexes and inserts, and each table
has its statements in order. -/
theorem ofSource_ordered {config : Config} {t : FileTree} {source : Source}
    (h : ofSource config t source = .ok p) :
    (p.statements.Pairwise fun a b => b.kind.defines = true → a.kind.defines = true) ∧
    ∃ documents vs, source.documents t = .ok documents ∧
      p.AccountedBy ⟨config.outputDir, config.notNull⟩ documents vs ∧
      ∀ table ∈ p.tables, ∃ d s c, .accepted d s c ∈ vs ∧
        Schema.ofDocument d.value = .ok s ∧ s.table = table ∧ p.Ordered d.value s := by
  obtain ⟨documents, hd, hp⟩ := except_bind_eq_ok.mp h
  have haccounted : p.AccountedBy ⟨config.outputDir, config.notNull⟩ documents
      (verdicts ⟨config.outputDir, config.notNull⟩ [] documents) := by
    rw [ofDocuments_eq_enter hp]
    exact accountedBy_verdicts _ _
  refine ⟨?_, documents, _, hd, haccounted, ?_⟩
  · obtain ⟨hdefinitions, hdata⟩ := haccounted.defines
    refine List.pairwise_append.mpr ⟨?_, ?_, ?_⟩
    · exact List.pairwise_of_forall_mem_list fun a ha _ _ _ => hdefinitions a ha
    · exact List.pairwise_of_forall_mem_list fun _ _ b hb hb' => absurd hb' (by simp [hdata b hb])
    · exact fun a ha _ _ _ => hdefinitions a ha
  · intro table ht
    obtain ⟨d, s, c, hv, rfl, hc, _⟩ := haccounted.ofTable table ht
    obtain ⟨before, after, hsplit⟩ := List.append_of_mem hv
    have hs : Schema.ofDocument d.value = .ok s := (haccounted.right before _ after hsplit).1
    exact ⟨d, s, c, hv, hs, rfl, .of_compile hs hc (haccounted.statementsOf_eq hv)⟩

theorem ofSource_ordered_ranked : ∃ p,
    ofSource {} ⟨[], []⟩ (.memory [.ranked "a", .counting "b" "integer"]) = .ok p ∧
    p.statements.map Statement.kind = [.createTable, .exportTable, .createSequence, .createTable,
      .exportTable, .createIndex, .insert, .insert, .insert] ∧
    (p.statements.Pairwise fun a b => b.kind.defines = true → a.kind.defines = true) ∧
    ∃ d s, s.table = "ranks" ∧ p.Ordered d s := by
  have hp : ofSource {} ⟨[], []⟩ (.memory [.ranked "a", .counting "b" "integer"]) = .ok _ := rfl
  obtain ⟨hphases, _, _, _, _, htables⟩ := ofSource_ordered hp
  obtain ⟨d, s, _, _, _, ht, hordered⟩ := htables "ranks" List.mem_cons_self
  exact ⟨_, hp, rfl, hphases, _, s, ht, hordered⟩

end Plan
end SeedTables
