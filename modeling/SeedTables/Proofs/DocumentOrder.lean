import SeedTables.Proofs.DeletedRejections

namespace SeedTables

def Document.table (d : Document) : Except SchemaFault String :=
  (Schema.ofDocument d.value).map Schema.table

/-- The verdict on a document when it is the only one. -/
def Document.alone (options : CompileOptions) (d : Document) : Verdict := d.verdict options []

def tablesOf (options : CompileOptions) (ds : List Document) : List String :=
  (ds.map (Document.alone options)).flatMap Verdict.tables

/-- Documents that are accepted one by one and make different tables. -/
structure Compatible (options : CompileOptions) (ds : List Document) : Prop where
  accepted : ∀ d ∈ ds, (d.alone options).errors = []
  distinct : (tablesOf options ds).Nodup

variable {options : CompileOptions} {taken : List String}

theorem Compatible.perm {ds es : List Document} (h : Compatible options ds) (hp : ds.Perm es) :
    Compatible options es := by
  have htables : (tablesOf options ds).Perm (tablesOf options es) :=
    (hp.map (Document.alone options)).flatMap_right Verdict.tables
  refine ⟨?_, htables.nodup_iff.mp h.distinct⟩
  intro d hd
  exact h.accepted d (hp.mem_iff.mpr hd)

theorem compatible_cons {d : Document} {ds : List Document} :
    Compatible options (d :: ds) ↔ (d.alone options).errors = [] ∧ Compatible options ds ∧
      ∀ table ∈ (d.alone options).tables, table ∉ tablesOf options ds := by
  constructor
  · rintro ⟨haccepted, hdistinct⟩
    rw [tablesOf, List.map_cons, List.flatMap_cons] at hdistinct
    obtain ⟨_, hds, hd⟩ := List.nodup_append.mp hdistinct
    refine ⟨haccepted d List.mem_cons_self, ⟨?_, hds⟩, ?_⟩
    · intro e he
      exact haccepted e (List.mem_cons_of_mem d he)
    · intro table ht hm
      exact hd table ht table hm rfl
  · rintro ⟨hd, ⟨haccepted, hdistinct⟩, hnew⟩
    refine ⟨List.forall_mem_cons.mpr ⟨hd, haccepted⟩, ?_⟩
    rw [tablesOf, List.map_cons, List.flatMap_cons]
    refine List.nodup_append.mpr ⟨Verdict.tables_nodup _, hdistinct, ?_⟩
    intro table ht other ho he
    exact hnew table ht (he ▸ ho)

namespace Verdict

theorem Right.of_free {v : Verdict} {others : List String} (h : v.Right options taken)
    (haccepted : v.errors = []) (hfree : ∀ table ∈ v.tables, table ∉ others) :
    v.Right options others := by
  cases v with
  | accepted d s c => exact ⟨h.1, hfree s.table (List.mem_singleton.mpr rfl), h.2.2⟩
  | rejected d e => simp [errors] at haccepted

theorem Right.table {v : Verdict} (h : v.Right options taken) (haccepted : v.errors = []) :
    v.tables.map .ok = [v.document.table] := by
  cases v with
  | accepted d s c =>
    have hs : Schema.ofDocument d.value = .ok s := h.1
    simp [tables, document, Document.table, hs, Except.map]
  | rejected d e => simp [errors] at haccepted

end Verdict

namespace Document

theorem alone_right (d : Document) : (d.alone options).Right options [] := d.verdict_right

theorem verdict_eq_alone {d : Document} (h : (d.verdict options taken).errors = []) :
    d.verdict options taken = d.alone options := by
  have hright : (d.verdict options taken).Right options taken := d.verdict_right
  have halone : (d.verdict options taken).Right options [] := hright.of_free h (by simp)
  have heq := halone.eq_verdict
  rw [document_verdict] at heq
  exact heq

/-- Tables that are taken matter to a document only if its own is one of them. -/
theorem verdict_accepted_iff (d : Document) : (d.verdict options taken).errors = [] ↔
    (d.alone options).errors = [] ∧ ∀ table ∈ (d.alone options).tables, table ∉ taken := by
  constructor
  · intro h
    have hright : (d.verdict options taken).Right options taken := d.verdict_right
    rw [verdict_eq_alone h] at hright h
    exact ⟨h, fun table ht => hright.free ht⟩
  · rintro ⟨h, hfree⟩
    have htaken := (d.alone_right.of_free h hfree).eq_verdict
    rw [alone, document_verdict] at htaken
    rw [← htaken]
    exact h

end Document

/-- Documents are all accepted, one behind the other, exactly if they are compatible and their
tables are not taken. -/
theorem verdicts_accepted_iff {ds : List Document} :
    (verdicts options taken ds).flatMap Verdict.errors = [] ↔
      Compatible options ds ∧ ∀ table ∈ tablesOf options ds, table ∉ taken := by
  induction ds generalizing taken with
  | nil =>
    have hnone : Compatible options [] := ⟨by simp, List.nodup_nil⟩
    simp [verdicts, tablesOf, hnone]
  | cons d ds ih =>
    rw [verdicts, List.flatMap_cons, List.append_eq_nil_iff, ih, compatible_cons]
    constructor
    · rintro ⟨hd, hds, hfree⟩
      obtain ⟨halone, hnew⟩ := d.verdict_accepted_iff.mp hd
      rw [Document.verdict_eq_alone hd] at hfree
      refine ⟨⟨halone, hds, ?_⟩, ?_⟩
      · intro table ht hm
        exact hfree table hm (List.mem_append_right _ ht)
      · intro table ht
        rw [tablesOf, List.map_cons, List.flatMap_cons] at ht
        rcases List.mem_append.mp ht with ht | ht
        · exact hnew table ht
        · intro hm
          exact hfree table ht (List.mem_append_left _ hm)
    · rintro ⟨⟨halone, hds, hnew⟩, hfree⟩
      rw [tablesOf, List.map_cons, List.flatMap_cons] at hfree
      have hd : (d.verdict options taken).errors = [] :=
        d.verdict_accepted_iff.mpr ⟨halone, fun table ht => hfree table (List.mem_append_left _ ht)⟩
      refine ⟨hd, hds, ?_⟩
      intro table ht hm
      rw [Document.verdict_eq_alone hd] at hm
      rcases List.mem_append.mp hm with hm | hm
      · exact hfree table (List.mem_append_right _ ht) hm
      · exact hnew table hm ht

theorem verdicts_eq_alone {ds : List Document}
    (h : (verdicts options taken ds).flatMap Verdict.errors = []) :
    verdicts options taken ds = ds.map (Document.alone options) := by
  induction ds generalizing taken with
  | nil => rfl
  | cons d ds ih =>
    rw [verdicts, List.flatMap_cons, List.append_eq_nil_iff] at h
    rw [verdicts, List.map_cons, Document.verdict_eq_alone h.1,
      ih (Document.verdict_eq_alone h.1 ▸ h.2)]

theorem Verdict.tables_eq_singleton {v : Verdict} {table : String} (h : table ∈ v.tables) :
    v.tables = [table] := by
  cases v with
  | accepted d s c => rw [List.mem_singleton.mp h]; rfl
  | rejected d e => cases h

/-- The statements of one table do not depend on the order of the verdicts. -/
theorem Verdict.filter_flatMap_perm {vs ws : List Verdict} (statements : Verdict → List Statement)
    (hp : vs.Perm ws) (owned : ∀ v ∈ vs, ∀ st ∈ statements v, st.table ∈ v.tables)
    (distinct : (vs.flatMap tables).Nodup) (table : String) :
    (vs.flatMap statements).filter (fun st => st.table = table) =
      (ws.flatMap statements).filter (fun st => st.table = table) := by
  have owned' : ∀ w ∈ ws, ∀ st ∈ statements w, st.table ∈ w.tables := by
    intro w hw
    exact owned w (hp.mem_iff.mpr hw)
  by_cases h : ∃ v ∈ vs, table ∈ v.tables
  · obtain ⟨v, hv, ht⟩ := h
    have distinct' : (ws.flatMap tables).Nodup := (hp.flatMap_right tables).nodup_iff.mp distinct
    have hone := tables_eq_singleton ht
    rw [filter_flatMap_table statements owned distinct hv hone,
      filter_flatMap_table statements owned' distinct' (hp.mem_iff.mp hv) hone]
  · have hnone : ∀ v ∈ vs, table ∉ v.tables := by
      intro v hv ht
      exact h ⟨v, hv, ht⟩
    have hnone' : ∀ w ∈ ws, table ∉ w.tables := by
      intro w hw
      exact hnone w (hp.mem_iff.mpr hw)
    rw [filter_flatMap_nil statements owned hnone, filter_flatMap_nil statements owned' hnone']

namespace Plan

theorem ofDocuments_failFast_eq_ok {ds : List Document} {p : Plan} :
    ofDocuments .failFast options ds = .ok p ↔
      Compatible options ds ∧ ({} : Plan).enter (ds.map (Document.alone options)) = p := by
  have hcompatible : (verdicts options [] ds).flatMap Verdict.errors = [] ↔
      Compatible options ds := by
    rw [verdicts_accepted_iff]
    exact and_iff_left fun _ _ => List.not_mem_nil
  cases he : (verdicts options [] ds).flatMap Verdict.errors with
  | nil =>
    rw [ofDocuments_failFast_of_no_error he, verdicts_eq_alone he, Except.ok.injEq]
    exact ⟨fun hp => ⟨hcompatible.mp he, hp⟩, fun hp => hp.2⟩
  | cons e es =>
    rw [ofDocuments_failFast_of_error he]
    constructor
    · intro hp
      cases hp
    · rintro ⟨hds, _⟩
      rw [hcompatible.mpr hds] at he
      cases he

/-- Two plans for the same documents in different orders. The tables are in the order of the
documents, and each table has the same statements in the same order. -/
structure Reordered (ds es : List Document) (p q : Plan) : Prop where
  tables : p.tables.map .ok = ds.map Document.table ∧ q.tables.map .ok = es.map Document.table
  definitions : p.definitions.Perm q.definitions
  data : p.data.Perm q.data
  ofTable : ∀ table,
    p.definitions.filter (fun st => st.table = table) =
      q.definitions.filter (fun st => st.table = table) ∧
    p.data.filter (fun st => st.table = table) = q.data.filter (fun st => st.table = table)

theorem tables_enter_alone {ds : List Document} (h : ∀ d ∈ ds, (d.alone options).errors = []) :
    (({} : Plan).enter (ds.map (Document.alone options))).tables.map .ok =
      ds.map Document.table := by
  simp only [enter, List.nil_append]
  induction ds with
  | nil => rfl
  | cons d ds ih =>
    obtain ⟨hd, hds⟩ := List.forall_mem_cons.mp h
    have htable := d.alone_right.table hd
    rw [Document.alone, Document.document_verdict] at htable
    rw [List.map_cons, List.map_cons, List.flatMap_cons, List.map_append, ih hds, Document.alone,
      htable]
    rfl

theorem reordered_of_perm {ds es : List Document} (hp : ds.Perm es) (h : Compatible options ds) :
    Reordered ds es (({} : Plan).enter (ds.map (Document.alone options)))
      (({} : Plan).enter (es.map (Document.alone options))) := by
  have halone : (ds.map (Document.alone options)).Perm (es.map (Document.alone options)) :=
    hp.map (Document.alone options)
  have howned : ∀ v ∈ ds.map (Document.alone options),
      (∀ st ∈ v.definitions, st.table ∈ v.tables) ∧ ∀ st ∈ v.data, st.table ∈ v.tables := by
    intro v hv
    obtain ⟨d, _, rfl⟩ := List.mem_map.mp hv
    exact d.alone_right.statements
  refine ⟨⟨tables_enter_alone h.accepted, tables_enter_alone (h.perm hp).accepted⟩,
    halone.flatMap_right Verdict.definitions, halone.flatMap_right Verdict.data, ?_⟩
  intro table
  exact ⟨Verdict.filter_flatMap_perm Verdict.definitions halone (fun v hv => (howned v hv).1)
      h.distinct table,
    Verdict.filter_flatMap_perm Verdict.data halone (fun v hv => (howned v hv).2)
      h.distinct table⟩

/-- Under `failFast` the order of the documents decides neither whether there is a plan nor what is
in it for a table. -/
theorem failFast_reordered (config : Config) (t : FileTree) {ds es : List Document}
    (h : ds.Perm es) :
    (∀ p, ofSource { config with policy := .failFast } t (.memory ds) = .ok p → ∃ q,
      ofSource { config with policy := .failFast } t (.memory es) = .ok q ∧
        Reordered ds es p q) ∧
    ((∃ e, ofSource { config with policy := .failFast } t (.memory ds) = .error e) →
      ∃ e, ofSource { config with policy := .failFast } t (.memory es) = .error e) := by
  have hmemory (documents : List Document) :
      ofSource { config with policy := .failFast } t (.memory documents) =
        ofDocuments .failFast ⟨config.outputDir, config.notNull⟩ documents := rfl
  simp only [hmemory]
  constructor
  · intro p hp
    obtain ⟨hds, rfl⟩ := ofDocuments_failFast_eq_ok.mp hp
    exact ⟨_, ofDocuments_failFast_eq_ok.mpr ⟨hds.perm h, rfl⟩, reordered_of_perm h hds⟩
  · rintro ⟨e, he⟩
    -- If the other order gave a plan, so would this one.
    cases hq : ofDocuments .failFast ⟨config.outputDir, config.notNull⟩ es with
    | error e' => exact ⟨e', rfl⟩
    | ok q =>
      have hes := (ofDocuments_failFast_eq_ok.mp hq).1
      have hds := ofDocuments_failFast_eq_ok.mpr ⟨hes.perm h.symm, rfl⟩
      rw [he] at hds
      cases hds

theorem failFast_reordered_ranked :
    [Document.counting "a" "integer", .ranked "b"].Perm [.ranked "b", .counting "a" "integer"] ∧
    ∃ p q, ofSource {} ⟨[], []⟩ (.memory [.counting "a" "integer", .ranked "b"]) = .ok p ∧
      ofSource {} ⟨[], []⟩ (.memory [.ranked "b", .counting "a" "integer"]) = .ok q ∧
      q.tables = ["ranks", "counts"] ∧
      Reordered [.counting "a" "integer", .ranked "b"] [.ranked "b", .counting "a" "integer"]
        p q := by
  have hperm : [Document.counting "a" "integer", .ranked "b"].Perm
      [.ranked "b", .counting "a" "integer"] := .swap ..
  obtain ⟨q, hq, hpq⟩ := (failFast_reordered {} ⟨[], []⟩ hperm).1 _ rfl
  have htables : q.tables = ["ranks", "counts"] := Except.ok.inj hq ▸ rfl
  exact ⟨hperm, _, q, rfl, hq, htables, hpq⟩

end Plan
end SeedTables
