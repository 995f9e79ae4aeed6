import SeedTables.Plan
import SeedTables.Proofs.CompiledTable

namespace SeedTables

/-- What becomes of a document: the table made from it, or the reason why it is put aside. -/
inductive Verdict where
  | accepted (d : Document) (s : Schema) (c : TableStatements)
  | rejected (d : Document) (e : Error)

namespace Verdict

def document : Verdict → Document
  | accepted d _ _ => d
  | rejected d _ => d

def tables : Verdict → List String
  | accepted _ s _ => [s.table]
  | rejected _ _ => []

def definitions : Verdict → List Statement
  | accepted _ _ c => c.definitions
  | rejected _ _ => []

def data : Verdict → List Statement
  | accepted _ _ c => c.data
  | rejected _ _ => []

def errors : Verdict → List Error
  | accepted _ _ _ => []
  | rejected _ e => [e]

def result : Verdict → Except Error (String × TableStatements)
  | accepted _ s c => .ok (s.table, c)
  | rejected _ e => .error e

/-- An accepted document is readable, new and compiled; a rejected one carries the error of the
first of these that it is not. -/
def Right (options : CompileOptions) (taken : List String) : Verdict → Prop
  | accepted d s c =>
    Schema.ofDocument d.value = .ok s ∧ s.table ∉ taken ∧ s.compile options = .ok c
  | rejected d e =>
    (∃ fault, Schema.ofDocument d.value = .error fault ∧ e = .malformed d.origin fault) ∨
    ∃ s, Schema.ofDocument d.value = .ok s ∧
      (s.table ∈ taken ∧ e = .malformed d.origin (.repeatedTable s.table) ∨
        s.table ∉ taken ∧ s.compile options = .error e)

end Verdict

/-- The verdict on a document when some tables are taken. -/
def Document.verdict (options : CompileOptions) (taken : List String) (d : Document) : Verdict :=
  match Schema.ofDocument d.value with
  | .error fault => .rejected d (.malformed d.origin fault)
  | .ok s =>
    if s.table ∈ taken then .rejected d (.malformed d.origin (.repeatedTable s.table))
    else match s.compile options with
      | .ok c => .accepted d s c
      | .error e => .rejected d e

/-- The verdicts on documents; each table accepted is taken for the documents behind it. -/
def verdicts (options : CompileOptions) (taken : List String) : List Document → List Verdict
  | [] => []
  | d :: ds =>
    d.verdict options taken :: verdicts options (taken ++ (d.verdict options taken).tables) ds

/-- A document of one table, `counts`, with one column of the type given and one row. -/
def Document.counting (origin type : String) : Document where
  origin
  value := .object [("tableName", .string "counts"),
    ("columns", .array [.object [("columnName", .string "n"), ("type", .string type)]]),
    ("rows", .array [.object [("n", .number (.int 1))]])]

/-- A document of one table, `ranks`, that asks for a sequence, an index and two rows. It is written
as an array. -/
def Document.ranked (origin : String) : Document where
  origin
  value := .array [.string "ranks", .array [.array [.string "n", .string "integer"]],
    .array [.array [.string "by_n", .bool true, .array [.string "n"]]],
    .array [.object [("n", .number (.int 1))], .object [("n", .null)]], .object []]

variable {options : CompileOptions} {taken : List String}

@[simp] theorem Document.document_verdict (d : Document) :
    (d.verdict options taken).document = d := by
  unfold verdict
  split
  · rfl
  · split
    · rfl
    · split <;> rfl

theorem Document.verdict_right (d : Document) :
    (d.verdict options taken).Right options taken := by
  unfold verdict
  split
  · rename_i fault hs
    exact .inl ⟨fault, hs, rfl⟩
  · rename_i s hs
    split
    · rename_i ht
      exact .inr ⟨s, hs, .inl ⟨ht, rfl⟩⟩
    · rename_i ht
      split
      · rename_i c hc
        exact ⟨hs, ht, hc⟩
      · rename_i e he
        exact .inr ⟨s, hs, .inr ⟨ht, he⟩⟩

/-- A document is only ever put aside for what concerns its own table. -/
theorem Verdict.Right.tableLocal {v : Verdict} {e : Error} (h : v.Right options taken)
    (he : e ∈ v.errors) : e.isTableLocal = true := by
  cases v with
  | accepted d s c => simp [errors] at he
  | rejected d e' =>
    obtain rfl : e = e' := List.mem_singleton.mp he
    rcases h with ⟨fault, _, rfl⟩ | ⟨s, _, ⟨_, rfl⟩ | ⟨_, hc⟩⟩
    · rfl
    · rfl
    · exact (Schema.compile_error hc).tableLocal

theorem Verdict.Right.free {v : Verdict} {table : String} (h : v.Right options taken)
    (ht : table ∈ v.tables) : table ∉ taken := by
  cases v with
  | accepted d s c =>
    obtain rfl : table = s.table := List.mem_singleton.mp ht
    exact h.2.1
  | rejected d e => simp [tables] at ht

@[simp] theorem map_document_verdicts (ds : List Document) :
    (verdicts options taken ds).map Verdict.document = ds := by
  induction ds generalizing taken with
  | nil => rfl
  | cons d ds ih => simp [verdicts, ih]

theorem verdicts_append (ds es : List Document) :
    verdicts options taken (ds ++ es) = verdicts options taken ds ++
      verdicts options (taken ++ (verdicts options taken ds).flatMap Verdict.tables) es := by
  induction ds generalizing taken with
  | nil => simp [verdicts]
  | cons d ds ih => simp [verdicts, ih]

/-- Each verdict is the one on its document, given the tables accepted before it. -/
theorem verdict_of_split {ds : List Document} {before after : List Verdict} {v : Verdict}
    (h : verdicts options taken ds = before ++ v :: after) :
    v = v.document.verdict options (taken ++ before.flatMap Verdict.tables) := by
  induction before generalizing taken ds with
  | nil =>
    cases ds with
    | nil => simp [verdicts] at h
    | cons d ds =>
      simp only [verdicts, List.nil_append, List.cons.injEq] at h
      obtain ⟨rfl, _⟩ := h
      simp
  | cons w before ih =>
    cases ds with
    | nil => simp [verdicts] at h
    | cons d ds =>
      simp only [verdicts, List.cons_append, List.cons.injEq] at h
      obtain ⟨rfl, h⟩ := h
      simpa using ih h

theorem Verdict.tables_nodup (v : Verdict) : v.tables.Nodup := by
  cases v <;> simp [tables]

/-- No table is accepted twice, and none that was taken before. -/
theorem verdicts_nodup (h : taken.Nodup) (ds : List Document) :
    (taken ++ (verdicts options taken ds).flatMap Verdict.tables).Nodup := by
  -- What is carried along is that the tables taken so far are distinct.
  induction ds generalizing taken with
  | nil => simpa [verdicts] using h
  | cons d ds ih =>
    have hd : (taken ++ (d.verdict options taken).tables).Nodup := by
      refine List.nodup_append.mpr ⟨h, Verdict.tables_nodup _, ?_⟩
      intro a ha b hb hab
      exact d.verdict_right.free hb (hab ▸ ha)
    simpa [verdicts] using ih hd

namespace Plan

/-- A plan with what verdicts add to it. -/
def enter (p : Plan) (vs : List Verdict) : Plan where
  definitions := p.definitions ++ vs.flatMap Verdict.definitions
  data := p.data ++ vs.flatMap Verdict.data
  tables := p.tables ++ vs.flatMap Verdict.tables
  rejected := p.rejected ++ vs.flatMap Verdict.errors

@[simp] theorem enter_nil (p : Plan) : p.enter [] = p := by
  simp [enter]

theorem enter_cons (p : Plan) (v : Verdict) (vs : List Verdict) :
    p.enter (v :: vs) = (p.enter [v]).enter vs := by
  simp [enter]

theorem enter_accepted (p : Plan) (d : Document) (s : Schema) (c : TableStatements) :
    p.enter [.accepted d s c] = p.withTable s.table c := by
  simp [enter, withTable, Verdict.definitions, Verdict.data, Verdict.tables, Verdict.errors]

theorem enter_rejected (p : Plan) (d : Document) (e : Error) :
    p.enter [.rejected d e] = p.withRejected e := by
  simp [enter, withRejected, Verdict.definitions, Verdict.data, Verdict.tables, Verdict.errors]

theorem compileDocument_eq (p : Plan) (d : Document) :
    p.compileDocument options d = (d.verdict options p.tables).result := by
  unfold compileDocument Document.verdict
  cases Schema.ofDocument d.value with
  | error fault => rfl
  | ok s =>
    by_cases ht : s.table ∈ p.tables
    · simp [except_mapError_ok, bind, Except.bind, ht, throw, throwThe, MonadExceptOf.throw,
        Verdict.result]
    · cases hc : s.compile options with
      | error e => simp [except_mapError_ok, bind, Except.bind, ht, hc, Verdict.result]
      | ok c =>
        simp [except_mapError_ok, bind, Except.bind, pure, Except.pure, ht, hc, Verdict.result]

theorem add_skipInvalid (p : Plan) (d : Document) :
    p.add .skipInvalid options d = .ok (p.enter [d.verdict options p.tables]) := by
  unfold add
  rw [compileDocument_eq]
  cases hv : d.verdict options p.tables with
  | accepted d' s c => rw [Verdict.result, enter_accepted]
  | rejected d' e =>
    have hright : (d.verdict options p.tables).Right options p.tables := d.verdict_right
    rw [hv] at hright
    have he : e.isTableLocal = true := hright.tableLocal (List.mem_singleton.mpr rfl)
    rw [enter_rejected]
    simp [Verdict.result, he]

theorem add_failFast (p : Plan) (d : Document) :
    p.add .failFast options d = match (d.verdict options p.tables).errors.head? with
      | none => .ok (p.enter [d.verdict options p.tables])
      | some e => .error e := by
  unfold add
  rw [compileDocument_eq]
  cases d.verdict options p.tables with
  | accepted d' s c =>
    rw [Verdict.result, enter_accepted]
    rfl
  | rejected d' e => simp [Verdict.result, Verdict.errors]

theorem foldlM_skipInvalid (p : Plan) (ds : List Document) :
    ds.foldlM (add .skipInvalid options) p = .ok (p.enter (verdicts options p.tables ds)) := by
  induction ds generalizing p with
  | nil => simp [verdicts, pure, Except.pure]
  | cons d ds ih =>
    simp only [List.foldlM_cons, add_skipInvalid, verdicts]
    rw [enter_cons]
    simpa [bind, Except.bind, enter] using ih (p.enter [d.verdict options p.tables])

theorem foldlM_failFast (p : Plan) (ds : List Document) :
    ds.foldlM (add .failFast options) p =
      match ((verdicts options p.tables ds).flatMap Verdict.errors).head? with
      | none => .ok (p.enter (verdicts options p.tables ds))
      | some e => .error e := by
  induction ds generalizing p with
  | nil => simp [verdicts, pure, Except.pure]
  | cons d ds ih =>
    simp only [List.foldlM_cons, add_failFast, verdicts, List.flatMap_cons]
    cases hv : d.verdict options p.tables with
    | accepted d' s c =>
      rw [enter_cons]
      simpa [bind, Except.bind, enter, Verdict.errors, hv] using ih (p.enter [.accepted d' s c])
    | rejected d' e =>
      -- The fold stops here, and the error is the first one whatever stands behind it.
      simp [bind, Except.bind, Verdict.errors]

theorem ofDocuments_skipInvalid (ds : List Document) :
    ofDocuments .skipInvalid options ds = .ok (({} : Plan).enter (verdicts options [] ds)) :=
  foldlM_skipInvalid {} ds

theorem ofDocuments_failFast (ds : List Document) :
    ofDocuments .failFast options ds =
      match ((verdicts options [] ds).flatMap Verdict.errors).head? with
      | none => .ok (({} : Plan).enter (verdicts options [] ds))
      | some e => .error e :=
  foldlM_failFast {} ds

/-- Under `skipInvalid` a plan fails exactly if its source does, and with the same error. -/
theorem ofSource_skipInvalid {config : Config} (hpolicy : config.policy = .skipInvalid)
    (t : FileTree) (source : Source) :
    ofSource config t source = (source.documents t).map fun documents =>
      ({} : Plan).enter (verdicts ⟨config.outputDir, config.notNull⟩ [] documents) := by
  unfold ofSource
  rw [hpolicy]
  cases source.documents t with
  | error e => rfl
  | ok documents => exact ofDocuments_skipInvalid documents

theorem ofSource_skipInvalid_eq_error {config : Config} (hpolicy : config.policy = .skipInvalid)
    {t : FileTree} {source : Source} {e : Error} :
    ofSource config t source = .error e ↔ source.documents t = .error e := by
  rw [ofSource_skipInvalid hpolicy, except_map_eq_error]

/-- Under both policies a plan that is made at all is made of the verdicts on its documents. -/
theorem ofDocuments_eq_enter {policy : Policy} {p : Plan} {ds : List Document}
    (h : ofDocuments policy options ds = .ok p) :
    p = ({} : Plan).enter (verdicts options [] ds) := by
  cases policy with
  | skipInvalid =>
    rw [ofDocuments_skipInvalid] at h
    exact (Except.ok.inj h).symm
  | failFast =>
    rw [ofDocuments_failFast] at h
    split at h
    · exact (Except.ok.inj h).symm
    · cases h

end Plan
end SeedTables
