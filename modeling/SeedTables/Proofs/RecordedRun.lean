import SeedTables.Run

namespace SeedTables

namespace Text

theorem occursIn_iff {fragment text : List Char} :
    occursIn fragment text = true ↔ fragment <:+: text := by
  induction text with
  | nil => simp [occursIn]
  | cons c r ih => simp [occursIn, ih, List.infix_cons_iff]

/-- A text in which one of the fragments stands. -/
def HoldsOneOf (fragments : List String) (text : String) : Prop :=
  ∃ f ∈ fragments, f.toList <:+: text.toList

instance (fragments : List String) (text : String) : Decidable (HoldsOneOf fragments text) :=
  inferInstanceAs (Decidable (∃ f ∈ fragments, f.toList <:+: text.toList))

end Text

theorem Recorder.rejects_iff (r : Recorder) (text : String) :
    r.rejects text = true ↔ Text.HoldsOneOf r.failing text := by
  simp [rejects, Text.HoldsOneOf, Text.occursIn_iff]

/-- The failures of statements when those with one of the fragments fail. -/
def failuresOf (fragments : List String) (statements : List Statement) : List Error :=
  (statements.filter fun st => Text.HoldsOneOf fragments st.text).map fun st =>
    .executionFailure st.text "rejected by recording executor"

theorem failuresOf_append (fragments : List String) (sts sts' : List Statement) :
    failuresOf fragments (sts ++ sts') = failuresOf fragments sts ++ failuresOf fragments sts' := by
  simp [failuresOf]

theorem length_failuresOf_le (fragments : List String) (sts : List Statement) :
    (failuresOf fragments sts).length ≤ sts.length := by
  rw [failuresOf, List.length_map]
  exact List.length_filter_le _ _

theorem failuresOf_eq_nil {fragments : List String} {sts : List Statement} :
    failuresOf fragments sts = [] ↔ ∀ st ∈ sts, ¬ Text.HoldsOneOf fragments st.text := by
  simp [failuresOf, List.filter_eq_nil_iff]

namespace Recorder

def wrote (r : Recorder) (texts : List String) : Recorder :=
  { r with executed := r.executed ++ texts }

theorem execute_eq (r : Recorder) (st : Statement) :
    Recorder.execute r st = (r.wrote [st.text],
      if Text.HoldsOneOf r.failing st.text then
        some (.executionFailure st.text "rejected by recording executor")
      else none) := by
  by_cases h : Text.HoldsOneOf r.failing st.text
  · simp [execute, wrote, (rejects_iff r st.text).mpr h, h]
  · have hr : r.rejects st.text = false := by
      rw [← Bool.not_eq_true, rejects_iff]
      exact h
    simp [execute, wrote, hr, h]

/-- A failing statement neither stops the others nor goes unreported. -/
theorem executeAll_eq (r : Recorder) (sts : List Statement) :
    Executor.executeAll Recorder.execute r sts =
      (r.wrote (sts.map Statement.text), failuresOf r.failing sts) := by
  induction sts generalizing r with
  | nil => simp [Executor.executeAll, wrote, failuresOf]
  | cons st sts ih =>
    -- Executing a statement adds no fragment, so those behind it fail on the same ones.
    have hf : (r.wrote [st.text]).failing = r.failing := rfl
    simp only [Executor.executeAll, execute_eq, ih, hf]
    by_cases h : Text.HoldsOneOf r.failing st.text
    · simp [wrote, failuresOf, h]
    · simp [wrote, failuresOf, h]

end Recorder

/-- The report of a pass over statements when those with one of the fragments fail. -/
structure PassReport.Tells (r : PassReport) (phase : Phase) (fragments : List String)
    (statements : List Statement) : Prop where
  phase : r.phase = phase
  attempted : r.attempted = statements.length
  failures : r.failures = failuresOf fragments statements
  bounded : r.failures.length ≤ r.attempted
  succeeded : r.succeeded + r.failures.length = r.attempted

theorem Recorder.runPass_tells (r : Recorder) (phase : Phase) (sts : List Statement) :
    (Executor.runPass Recorder.execute phase r sts).1 = r.wrote (sts.map Statement.text) ∧
    (Executor.runPass Recorder.execute phase r sts).2.Tells phase r.failing sts := by
  have hle := length_failuresOf_le r.failing sts
  simp only [Executor.runPass, executeAll_eq, true_and]
  exact ⟨rfl, rfl, rfl, hle, Nat.sub_add_cancel hle⟩

/-- The report of a run that carried out a plan when statements with one of the fragments fail. -/
structure RunReport.Tells (r : RunReport) (fragments : List String) (p : Plan) : Prop where
  tables : r.tables = p.tables
  rejected : r.rejected = p.rejected
  definitions : r.definitions.Tells .definitions fragments p.definitions
  data : r.data.Tells .data fragments p.data
  failures : r.failures = p.rejected ++ failuresOf fragments p.statements
  success : r.isSuccess = true ↔
    p.rejected = [] ∧ ∀ st ∈ p.statements, ¬ Text.HoldsOneOf fragments st.text

theorem Plan.carryOut_tells (p : Plan) (r : Recorder) :
    (p.carryOut Recorder.execute r).1 = r.wrote (p.statements.map Statement.text) ∧
    (p.carryOut Recorder.execute r).2.Tells r.failing p := by
  obtain ⟨hd, hdt⟩ := r.runPass_tells .definitions p.definitions
  obtain ⟨hm, hmt⟩ := (r.wrote (p.definitions.map Statement.text)).runPass_tells .data p.data
  simp only [carryOut, hd]
  refine ⟨?_, rfl, rfl, hdt, hmt, ?_, ?_⟩
  · rw [hm]
    simp [Recorder.wrote, statements]
  · simp only [RunReport.failures, hdt.failures, hmt.failures, statements, failuresOf_append]
    rw [List.append_assoc]
    rfl
  · simp only [RunReport.isSuccess, hdt.failures, hmt.failures, Bool.and_eq_true,
      List.isEmpty_iff, failuresOf_eq_nil, statements, List.mem_append]
    constructor
    · rintro ⟨⟨hr, hd⟩, hm⟩
      refine ⟨hr, ?_⟩
      rintro st (hst | hst)
      · exact hd st hst
      · exact hm st hst
    · rintro ⟨hr, hs⟩
      exact ⟨⟨hr, fun st hst => hs st (.inl hst)⟩, fun st hst => hs st (.inr hst)⟩

section Execution

variable {σ : Type} (execute : Executor σ) (config : Config) (source : Source) (tree : FileTree)
  (state : σ)

/-- How a run ends: planning fails, the output directory cannot be made, or the plan is carried
out. -/
inductive RunEnding : RunResult σ → Prop
  | unplanned {e : Error} (planned : Plan.ofSource config tree source = .error e) :
    RunEnding ⟨tree, state, .error e⟩
  | homeless {p : Plan} {tree' : FileTree} {fault : FileFault}
    (planned : Plan.ofSource config tree source = .ok p)
    (made : tree.makeDirectories config.outputDir = (tree', some fault)) :
    RunEnding ⟨tree', state, .error (.file fault)⟩
  | carriedOut {p : Plan} {tree' : FileTree}
    (planned : Plan.ofSource config tree source = .ok p)
    (made : tree.makeDirectories config.outputDir = (tree', none)) :
    RunEnding ⟨tree', (p.carryOut execute state).1, .ok (p.carryOut execute state).2⟩

theorem run_ending :
    RunEnding execute config source tree state (run execute config source tree state) := by
  unfold run
  cases hp : Plan.ofSource config tree source with
  | error e => exact .unplanned hp
  | ok p =>
    rcases hm : tree.makeDirectories config.outputDir with ⟨tree', fault⟩
    cases fault with
    | some fault => exact .homeless hp hm
    | none => exact .carriedOut hp hm

end Execution
end SeedTables
