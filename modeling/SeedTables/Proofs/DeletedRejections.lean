import SeedTables.Proofs.PlanContents
import SeedTables.Proofs.PolicyAgreement

namespace SeedTables

variable {options : CompileOptions} {taken : List String}

theorem Verdict.Right.eq_verdict {v : Verdict} (h : v.Right options taken) :
    v = v.document.verdict options taken := by
  cases v with
  | accepted d s c =>
    obtain ⟨hs, hfree, hc⟩ := h
    simp only [document, Document.verdict, hs, hfree, hc, ↓reduceIte]
  | rejected d e =>
    rcases h with ⟨fault, hs, rfl⟩ | ⟨s, hs, ⟨hm, rfl⟩ | ⟨hfree, he⟩⟩
    · simp only [document, Document.verdict, hs]
    · simp only [document, Document.verdict, hs, hm, ↓reduceIte]
    · simp only [document, Document.verdict, hs, hfree, he, ↓reduceIte]

theorem verdicts_of_right {vs : List Verdict}
    (h : ∀ before v after, vs = before ++ v :: after →
      v.Right options (taken ++ before.flatMap Verdict.tables)) :
    verdicts options taken (vs.map Verdict.document) = vs := by
  induction vs generalizing taken with
  | nil => rfl
  | cons v vs ih =>
    have hv : v.Right options taken := by simpa using h [] v vs rfl
    have hrest : ∀ before w after, vs = before ++ w :: after →
        w.Right options ((taken ++ v.tables) ++ before.flatMap Verdict.tables) := by
      rintro before w after rfl
      simpa using h (v :: before) w after rfl
    simp only [List.map_cons, verdicts, ← hv.eq_verdict, ih hrest]

theorem Plan.AccountedBy.verdicts_eq {p : Plan} {ds : List Document} {vs : List Verdict}
    (h : p.AccountedBy options ds vs) : verdicts options [] ds = vs := by
  rw [← h.documents]
  exact verdicts_of_right fun before v after hs => by simpa using h.right before v after hs

namespace Verdict

/-- Verdicts, and what is left of them when some rejections are taken out. -/
inductive Pruned : List Verdict → List Verdict → Prop
  | nil : Pruned [] []
  | keep {vs kept : List Verdict} (v : Verdict) (h : Pruned vs kept) : Pruned (v :: vs) (v :: kept)
  | drop {vs kept : List Verdict} (d : Document) (e : Error) (h : Pruned vs kept) :
    Pruned (.rejected d e :: vs) kept

variable {vs kept : List Verdict}

theorem Pruned.flatMap_eq {α : Type} (h : Pruned vs kept) (part : Verdict → List α)
    (hpart : ∀ d e, part (.rejected d e) = []) : kept.flatMap part = vs.flatMap part := by
  induction h with
  | nil => rfl
  | keep v h ih => simp [ih]
  | drop d e h ih => simp [ih, hpart]

theorem pruned_accepted (vs : List Verdict) : Pruned vs (vs.filter fun v => v.errors.isEmpty) := by
  induction vs with
  | nil => exact .nil
  | cons v vs ih =>
    cases v with
    | accepted d s c => exact .keep _ ih
    | rejected d e => exact .drop d e ih

theorem Pruned.verdicts_eq {ds : List Document} (h : Pruned (verdicts options taken ds) kept) :
    verdicts options taken (kept.map document) = kept := by
  -- A rejection takes no table, so the documents behind one taken out are judged as before.
  generalize hvs : verdicts options taken ds = vs at h
  induction h generalizing taken ds with
  | nil => rfl
  | @keep vs kept v h ih =>
    cases ds with
    | nil => cases hvs
    | cons d ds =>
      simp only [verdicts, List.cons.injEq] at hvs
      obtain ⟨rfl, hrest⟩ := hvs
      simp only [List.map_cons, Document.document_verdict, verdicts, ih hrest]
  | @drop vs kept d' e h ih =>
    cases ds with
    | nil => cases hvs
    | cons d ds =>
      simp only [verdicts, List.cons.injEq] at hvs
      obtain ⟨hd, hrest⟩ := hvs
      rw [hd, tables, List.append_nil] at hrest
      exact ih hrest

end Verdict

namespace Plan

/-- Whichever of the documents put aside are deleted, the plan of the others has the same tables and
statements, and the errors of those put aside that are left. With all of them deleted `failFast`
gives that plan too. -/
theorem rejections_leave_no_trace (config : Config) (t : FileTree) (documents : List Document) :
    ∃ q, ofSource { config with policy := .skipInvalid } t (.memory documents) = .ok q ∧
      (∃ vs, q.AccountedBy ⟨config.outputDir, config.notNull⟩ documents vs) ∧
      ∀ vs, q.AccountedBy ⟨config.outputDir, config.notNull⟩ documents vs →
        (∃ kept, Verdict.Pruned vs kept ∧ ∀ v ∈ kept, v.errors = []) ∧
        ∀ kept, Verdict.Pruned vs kept → ∃ q',
          ofSource { config with policy := .skipInvalid } t
            (.memory (kept.map Verdict.document)) = .ok q' ∧
          q'.AccountedBy ⟨config.outputDir, config.notNull⟩ (kept.map Verdict.document) kept ∧
          q'.tables = q.tables ∧ q'.definitions = q.definitions ∧ q'.data = q.data ∧
          q'.rejected = kept.flatMap Verdict.errors ∧
          ((∀ v ∈ kept, v.errors = []) →
            ofSource { config with policy := .failFast } t
              (.memory (kept.map Verdict.document)) = .ok q') := by
  refine ⟨_, ofSource_skipInvalid rfl t (.memory documents), ⟨_, accountedBy_verdicts _ documents⟩,
    ?_⟩
  intro vs hvs
  refine ⟨⟨_, Verdict.pruned_accepted vs, by simp⟩, ?_⟩
  intro kept hkept
  rw [← hvs.verdicts_eq] at hkept
  have hverdicts := hkept.verdicts_eq
  have haccounted := accountedBy_verdicts ⟨config.outputDir, config.notNull⟩
    (kept.map Verdict.document)
  rw [hverdicts] at haccounted
  refine ⟨({} : Plan).enter kept, ?_, haccounted,
    hkept.flatMap_eq Verdict.tables fun _ _ => rfl,
    hkept.flatMap_eq Verdict.definitions fun _ _ => rfl,
    hkept.flatMap_eq Verdict.data fun _ _ => rfl, rfl, ?_⟩
  · exact (ofDocuments_skipInvalid _).trans (by rw [hverdicts])
  · intro hnone
    refine (ofDocuments_failFast_of_no_error ?_).trans (by rw [hverdicts])
    rw [hverdicts]
    exact List.flatMap_eq_nil_iff.mpr hnone

/-- Without the first document, which has a type of no literals, the second is still the one whose
table is taken, and the third is still put aside for repeating it. -/
theorem rejections_leave_no_trace_counting :
    let vs := verdicts ⟨"parquet", .nullableTrue⟩ []
      [.counting "a" "money", .counting "b" "integer", .counting "c" "integer"]
    Verdict.Pruned vs vs.tail ∧ ∃ q',
      ofSource { policy := .skipInvalid } ⟨[], []⟩
        (.memory [.counting "b" "integer", .counting "c" "integer"]) = .ok q' ∧
      q'.tables = ["counts"] ∧ q'.rejected = [.malformed "c" (.repeatedTable "counts")] := by
  intro vs
  have hpruned : Verdict.Pruned vs vs.tail := .drop _ _ (.keep _ (.keep _ .nil))
  refine ⟨hpruned, ?_⟩
  obtain ⟨q, hq, ⟨vs', hvs⟩, h⟩ := rejections_leave_no_trace {} ⟨[], []⟩
    [.counting "a" "money", .counting "b" "integer", .counting "c" "integer"]
  have htables : q.tables = ["counts"] := Except.ok.inj hq ▸ rfl
  obtain rfl := hvs.verdicts_eq
  obtain ⟨q', hq', _, ht, _, _, hr, _⟩ := (h _ hvs).2 _ hpruned
  exact ⟨q', hq', ht.trans htables, hr⟩

end Plan
end SeedTables
