import Mathlib.Data.List.Forall2
import SeedTables.Proofs.Verdicts

namespace SeedTables

/-- Definitions of one column under two rules: they may differ in the `NOT NULL` mark, if the rules
do. -/
structure ColumnDef.Agree (rule rule' : NotNullRule) (d d' : ColumnDef) : Prop where
  name : d.name = d'.name
  type : d.type = d'.type
  primaryKey : d.primaryKey = d'.primaryKey
  references : d.references = d'.references
  notNull : rule = rule' → d.notNull = d'.notNull

/-- Statements at one place among the definitions of two plans. Those that create a table have the
same columns in the same order, but for the marks; those that export it may differ in the path, if
the output directories do. -/
inductive Statement.Agree (options options' : CompileOptions) : Statement → Statement → Prop
  | createTable {table : String} {columns columns' : List ColumnDef}
      (same : List.Forall₂ (ColumnDef.Agree options.notNull options'.notNull) columns columns') :
      Agree options options' (.createTable table columns) (.createTable table columns')
  | exportTable {table : String} {path path' : RawPath}
      (same : options.outputDir = options'.outputDir → path = path') :
      Agree options options' (.exportTable table path) (.exportTable table path')
  | createSequence (table : String) :
      Agree options options' (.createSequence table) (.createSequence table)

/-- Plans that differ in nothing but what their options are for. -/
structure Plan.Agree (options options' : CompileOptions) (p q : Plan) : Prop where
  tables : p.tables = q.tables
  rejected : p.rejected = q.rejected
  definitions : List.Forall₂ (Statement.Agree options options') p.definitions q.definitions
  data : p.data = q.data

inductive Verdict.Agree (options options' : CompileOptions) : Verdict → Verdict → Prop
  | accepted {d : Document} {s : Schema} {c c' : TableStatements}
      (definitions : List.Forall₂ (Statement.Agree options options') c.definitions c'.definitions)
      (data : c.data = c'.data) : Agree options options' (.accepted d s c) (.accepted d s c')
  | rejected (d : Document) (e : Error) : Agree options options' (.rejected d e) (.rejected d e)

variable {options options' : CompileOptions}

namespace Schema

def dataStatements (s : Schema) : Except Error (List Statement) := do
  let indexes ← s.indexes.mapM (IndexDef.ofIndex s.table s.columns)
  let inserts ← s.rows.mapM (Insert.ofRow s.table s.columns)
  return indexes.map .createIndex ++ inserts.map .insert

/-- No option is asked for before the table is defined, and so none decides whether it can be. -/
theorem compile_eq_map (s : Schema) (options : CompileOptions) :
    s.compile options = s.dataStatements.map fun data => ⟨s.definitions options, data⟩ := by
  unfold compile dataStatements
  cases s.indexes.mapM (IndexDef.ofIndex s.table s.columns) with
  | error e => rfl
  | ok indexes =>
    cases s.rows.mapM (Insert.ofRow s.table s.columns) with
    | error e => rfl
    | ok inserts => rfl

theorem definitions_agree (s : Schema) : List.Forall₂ (Statement.Agree options options')
    (s.definitions options) (s.definitions options') := by
  have hcolumns : List.Forall₂ (ColumnDef.Agree options.notNull options'.notNull)
      (s.columns.map (ColumnDef.ofColumn options.notNull))
      (s.columns.map (ColumnDef.ofColumn options'.notNull)) := by
    rw [List.forall₂_map_left_iff, List.forall₂_map_right_iff, List.forall₂_same]
    intro c _
    exact ⟨rfl, rfl, rfl, rfl, fun hrule => by rw [hrule]⟩
  unfold definitions
  refine .cons (.createTable hcolumns) ?_
  refine .cons (.exportTable fun hdirectory => by rw [hdirectory]) ?_
  split
  · exact .cons (.createSequence s.table) .nil
  · exact .nil

end Schema

theorem Document.verdict_agree (taken : List String) (d : Document) :
    Verdict.Agree options options' (d.verdict options taken) (d.verdict options' taken) := by
  unfold verdict
  split
  · exact .rejected d _
  · rename_i s _
    split
    · exact .rejected d _
    · rw [s.compile_eq_map, s.compile_eq_map]
      cases s.dataStatements with
      | error e => exact .rejected d e
      | ok data => exact .accepted s.definitions_agree rfl

namespace Verdict.Agree

variable {v w : Verdict} (h : Verdict.Agree options options' v w)

include h

theorem tables : v.tables = w.tables := by
  cases h <;> rfl

theorem errors : v.errors = w.errors := by
  cases h <;> rfl

theorem data : v.data = w.data := by
  cases h with
  | accepted _ data => exact data
  | rejected => rfl

theorem definitions :
    List.Forall₂ (Statement.Agree options options') v.definitions w.definitions := by
  cases h with
  | accepted definitions _ => exact definitions
  | rejected => exact .nil

end Verdict.Agree

theorem verdicts_agree (taken : List String) (ds : List Document) :
    List.Forall₂ (Verdict.Agree options options') (verdicts options taken ds)
      (verdicts options' taken ds) := by
  induction ds generalizing taken with
  | nil => exact .nil
  | cons d ds ih =>
    have hd : Verdict.Agree options options' (d.verdict options taken) (d.verdict options' taken) :=
      d.verdict_agree taken
    rw [verdicts, verdicts, ← hd.tables]
    exact .cons hd (ih _)

theorem flatMap_congr_forall₂ {α β : Type} {r : α → α → Prop} {f : α → List β} {xs ys : List α}
    (h : List.Forall₂ r xs ys) (hf : ∀ x y, r x y → f x = f y) : xs.flatMap f = ys.flatMap f := by
  induction h with
  | nil => rfl
  | cons hxy _ ih => rw [List.flatMap_cons, List.flatMap_cons, hf _ _ hxy, ih]

namespace Plan

theorem errors_agree (ds : List Document) :
    (verdicts options [] ds).flatMap Verdict.errors =
      (verdicts options' [] ds).flatMap Verdict.errors :=
  flatMap_congr_forall₂ (verdicts_agree [] ds) fun _ _ h => h.errors

theorem enter_agree (ds : List Document) : Agree options options'
    (({} : Plan).enter (verdicts options [] ds)) (({} : Plan).enter (verdicts options' [] ds)) where
  tables := flatMap_congr_forall₂ (verdicts_agree [] ds) fun _ _ h => h.tables
  rejected := errors_agree ds
  definitions := List.rel_flatMap (verdicts_agree [] ds) fun _ _ h => h.definitions
  data := flatMap_congr_forall₂ (verdicts_agree [] ds) fun _ _ h => h.data

theorem ofDocuments_sameEnd (policy : Policy) (ds : List Document) :
    SameEnd Eq (Agree options options') (ofDocuments policy options ds)
      (ofDocuments policy options' ds) := by
  cases policy with
  | skipInvalid =>
    rw [ofDocuments_skipInvalid, ofDocuments_skipInvalid]
    exact .ok (enter_agree ds)
  | failFast =>
    have herrors : (verdicts options [] ds).flatMap Verdict.errors =
        (verdicts options' [] ds).flatMap Verdict.errors := errors_agree ds
    rw [ofDocuments_failFast, ofDocuments_failFast, herrors]
    split
    · exact .ok (enter_agree ds)
    · exact .error rfl

/-- Another output directory and another rule for `NOT NULL` neither make a plan nor prevent one,
and they change nothing in it but the paths of exports and the marks of columns. -/
theorem ofSource_options (config : Config) (t : FileTree) (source : Source) (outputDir : String)
    (notNull : NotNullRule) :
    SameEnd Eq (Agree ⟨config.outputDir, config.notNull⟩ ⟨outputDir, notNull⟩)
      (ofSource config t source) (ofSource { config with outputDir, notNull } t source) := by
  unfold ofSource
  cases source.documents t with
  | error e => exact .error rfl
  | ok documents => exact ofDocuments_sameEnd config.policy documents

end Plan
end SeedTables
