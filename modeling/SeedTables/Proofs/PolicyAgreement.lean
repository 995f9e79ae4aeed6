import SeedTables.Proofs.Verdicts

namespace SeedTables

variable {options : CompileOptions}

/-- The first error comes from the first document whose verdict is one; the documents behind it
have no part in it. -/
theorem verdicts_first_error {taken : List String} {ds : List Document} {e : Error}
    {es : List Error} (h : (verdicts options taken ds).flatMap Verdict.errors = e :: es) :
    ∃ before d later, ds = before ++ d :: later ∧
      (verdicts options taken before).flatMap Verdict.errors = [] ∧
      d.verdict options (taken ++ (verdicts options taken before).flatMap Verdict.tables) =
        .rejected d e := by
  induction ds generalizing taken with
  | nil => simp [verdicts] at h
  | cons d ds ih =>
    have hd : (d.verdict options taken).document = d := Document.document_verdict d
    simp only [verdicts, List.flatMap_cons] at h
    cases hv : d.verdict options taken with
    | rejected d' e' =>
      -- This document is the first; the verdicts behind it are not looked at.
      rw [hv] at hd
      obtain rfl : d' = d := hd
      simp only [hv, Verdict.errors, List.cons_append, List.cons.injEq] at h
      obtain ⟨rfl, _⟩ := h
      exact ⟨[], d', ds, rfl, rfl, by simpa [verdicts] using hv⟩
    | accepted d' s c =>
      simp only [hv, Verdict.errors, List.nil_append] at h
      obtain ⟨before, d₁, later, rfl, hbefore, hd₁⟩ := ih h
      refine ⟨d :: before, d₁, later, rfl, ?_, ?_⟩
      · simpa [verdicts, hv, Verdict.errors] using hbefore
      · simpa [verdicts, hv] using hd₁

namespace Plan

theorem ofDocuments_failFast_of_no_error {ds : List Document}
    (h : (verdicts options [] ds).flatMap Verdict.errors = []) :
    ofDocuments .failFast options ds = .ok (({} : Plan).enter (verdicts options [] ds)) := by
  rw [ofDocuments_failFast, h]
  rfl

theorem ofDocuments_failFast_of_error {ds : List Document} {e : Error} {es : List Error}
    (h : (verdicts options [] ds).flatMap Verdict.errors = e :: es) :
    ofDocuments .failFast options ds = .error e := by
  rw [ofDocuments_failFast, h]
  rfl

theorem rejected_enter (vs : List Verdict) :
    (({} : Plan).enter vs).rejected = vs.flatMap Verdict.errors := rfl

/-- `failFast` gives a plan exactly if `skipInvalid` puts no document aside, and then the same one.
Otherwise it ends with the first error that `skipInvalid` notes, which is that of the first document
that cannot go into the plan of those before it, whatever comes behind. -/
theorem policies_agree (options : CompileOptions) (documents : List Document) :
    (∀ p, ofDocuments .failFast options documents = .ok p ↔
      ofDocuments .skipInvalid options documents = .ok p ∧ p.rejected = []) ∧
    ∀ q e es, ofDocuments .skipInvalid options documents = .ok q → q.rejected = e :: es →
      ofDocuments .failFast options documents = .error e ∧
      ∃ before d later p, documents = before ++ d :: later ∧
        ofDocuments .failFast options before = .ok p ∧ p.compileDocument options d = .error e ∧
        ∀ others, ofDocuments .failFast options (before ++ d :: others) = .error e := by
  constructor
  · intro p
    rw [ofDocuments_skipInvalid]
    cases he : (verdicts options [] documents).flatMap Verdict.errors with
    | nil =>
      rw [ofDocuments_failFast_of_no_error he]
      constructor
      · intro hp
        refine ⟨hp, ?_⟩
        rw [← Except.ok.inj hp, rejected_enter, he]
      · exact fun hp => hp.1
    | cons e es =>
      rw [ofDocuments_failFast_of_error he]
      constructor
      · intro hp
        cases hp
      · rintro ⟨hp, hr⟩
        rw [← Except.ok.inj hp, rejected_enter, he] at hr
        cases hr
  · intro q e es hq hr
    have hq' := Except.ok.inj ((ofDocuments_skipInvalid documents).symm.trans hq)
    rw [← hq', rejected_enter] at hr
    obtain ⟨before, d, later, rfl, hbefore, hd⟩ := verdicts_first_error hr
    rw [List.nil_append] at hd
    refine ⟨ofDocuments_failFast_of_error hr, before, d, later, _, rfl,
      ofDocuments_failFast_of_no_error hbefore, ?_, ?_⟩
    · rw [compileDocument_eq]
      change (d.verdict options ((verdicts options [] before).flatMap Verdict.tables)).result = _
      rw [hd]
      rfl
    · intro others
      have hsplit : (verdicts options [] (before ++ d :: others)).flatMap Verdict.errors =
          e :: (verdicts options ((verdicts options [] before).flatMap Verdict.tables)
            others).flatMap Verdict.errors := by
        simp [verdicts_append, verdicts, hbefore, hd, Verdict.errors, Verdict.tables]
      exact ofDocuments_failFast_of_error hsplit

theorem policies_agree_counting : ∃ q,
    ofDocuments .skipInvalid ⟨"out", .nullableTrue⟩
      [.counting "a" "integer", .counting "b" "integer", .counting "c" "money"] = .ok q ∧
    q.rejected = [.malformed "b" (.repeatedTable "counts"),
      .malformed "c" (.repeatedTable "counts")] ∧
    ofDocuments .failFast ⟨"out", .nullableTrue⟩
      [.counting "a" "integer", .counting "b" "integer", .counting "c" "money"] =
        .error (.malformed "b" (.repeatedTable "counts")) :=
  ⟨_, rfl, rfl, ((policies_agree _ _).2 _ _ _ rfl rfl).1⟩

end Plan
end SeedTables
