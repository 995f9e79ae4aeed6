import SeedTables.Proofs.RecordedRun
import SeedTables.Proofs.Verdicts
import SeedTables.Session

namespace SeedTables.Session

/-- The steps taken in a session that started in a certain way, each with the session it was taken
in. Between two steps the source and the file tree may change in any way. -/
inductive Past (start : Session) : List (Session × Step) → Session → Prop
  | start : Past start [] start
  | step {past : List (Session × Step)} {s : Session} (h : Past start past s) (x : Step) :
    Past start (past ++ [(s, x)]) (s.step x).1
  | outside {past : List (Session × Step)} {s : Session} (h : Past start past s) (source : Source)
    (tree : FileTree) : Past start past { s with source, tree }

/-- The texts that a step executes: a statement's own, or those of the plan that a run carried
out. -/
def written (s : Session) (x : Step) : List String :=
  match x, (s.step x).2 with
  | .execute statement, _ => [statement.text]
  | .run, .ran (.ok _) _ =>
    match Plan.ofSource s.config s.tree s.source with
    | .ok p => p.statements.map Statement.text
    | .error _ => []
  | _, _ => []

def Step.fragments : Step → List String
  | .failOn fragment => [fragment]
  | _ => []

def NotCarriedOut (s : Session) (e : Error) : Prop :=
  Plan.ofSource s.config s.tree s.source = .error e ∨
  ∃ p tree fault, Plan.ofSource s.config s.tree s.source = .ok p ∧
    s.tree.makeDirectories s.config.outputDir = (tree, some fault) ∧ e = .file fault

/-- How a run step ends: with an error and nothing written down, or with the plan's statements
written down and reported. -/
theorem run_step (s : Session) :
    (∃ e there, (s.step .run).2 = .ran (.error e) there ∧ s.NotCarriedOut e ∧
      (s.step .run).1.recorder = s.recorder) ∨
    ∃ p report there, (s.step .run).2 = .ran (.ok report) there ∧
      Plan.ofSource s.config s.tree s.source = .ok p ∧ report.Tells s.recorder.failing p ∧
      (s.step .run).1.recorder = s.recorder.wrote (p.statements.map Statement.text) := by
  have h := run_ending Recorder.execute s.config s.source s.tree s.recorder
  generalize hr : SeedTables.run Recorder.execute s.config s.source s.tree s.recorder = r at h
  have hs : s.step .run = ({ s with tree := r.tree, recorder := r.executor },
      .ran r.report (r.tree.isDirectory s.config.outputDir)) := by
    simp only [step, hr]
  rw [hs]
  cases h with
  | unplanned planned => exact .inl ⟨_, _, rfl, .inl planned, rfl⟩
  | homeless planned made => exact .inl ⟨_, _, rfl, .inr ⟨_, _, _, planned, made, rfl⟩, rfl⟩
  | @carriedOut p _ planned made =>
    obtain ⟨hw, ht⟩ := p.carryOut_tells s.recorder
    exact .inr ⟨p, _, _, rfl, planned, ht, hw⟩

theorem step_recorder (s : Session) (x : Step) :
    (s.step x).1.recorder.failing = s.recorder.failing ++ x.fragments ∧
    (x ≠ .clear →
      (s.step x).1.recorder.executed = s.recorder.executed ++ s.written x) := by
  cases x with
  | run =>
    rcases s.run_step with ⟨e, there, ha, _, hr⟩ | ⟨p, report, there, ha, hp, _, hr⟩
    · simp [hr, written, ha, Step.fragments]
    · simp [hr, written, ha, hp, Step.fragments, Recorder.wrote]
  | execute statement =>
    have h : (s.step (.execute statement)).1.recorder = s.recorder.wrote [statement.text] := by
      simp [step, Recorder.execute_eq]
    simp [h, written, Step.fragments, Recorder.wrote]
  | failOn fragment => simp [step, Recorder.failOn, written, Step.fragments]
  | clear => simp [step, Recorder.clear, Step.fragments]
  | plan => simp [step, written, Step.fragments]
  | executed => simp [step, written, Step.fragments]
  | write entries => simp [step, written, Step.fragments]
  | remove path => simp [step, written, Step.fragments]

variable {start s : Session} {past : List (Session × Step)}

theorem Past.failing (h : Past start past s) :
    s.recorder.failing = start.recorder.failing ++ past.flatMap fun m => m.2.fragments := by
  induction h with
  | start => simp
  | @step past s h x ih => simp [(s.step_recorder x).1, ih]
  | outside h source tree ih => exact ih

theorem Past.split (h : Past start past s) {earlier later : List (Session × Step)}
    {m : Session × Step} (hp : past = earlier ++ m :: later) :
    Past start earlier m.1 ∧ Past (m.1.step m.2).1 later s := by
  induction h generalizing later with
  | start => simp at hp
  | @step past s h x ih =>
    -- The step just taken is the one in question, or the last of those behind it.
    rcases List.eq_nil_or_concat later with rfl | ⟨later, n, rfl⟩
    · obtain ⟨rfl, hm⟩ := List.append_inj' hp rfl
      obtain rfl : (s, x) = m := by simpa using hm
      exact ⟨h, .start⟩
    · rw [List.concat_eq_append, ← List.cons_append, ← List.append_assoc] at hp
      obtain ⟨hpast, hn⟩ := List.append_inj' hp rfl
      obtain rfl : (s, x) = n := by simpa using hn
      obtain ⟨hbefore, hafter⟩ := ih hpast
      rw [List.concat_eq_append]
      exact ⟨hbefore, hafter.step x⟩
  | outside h source tree ih => exact ⟨(ih hp).1, (ih hp).2.outside source tree⟩

theorem Past.executed_of_kept (h : Past start past s) (hc : ∀ m ∈ past, m.2 ≠ .clear) :
    s.recorder.executed =
      start.recorder.executed ++ past.flatMap fun m => m.1.written m.2 := by
  induction h with
  | start => simp
  | @step past s h x ih =>
    have hx : x ≠ .clear := hc (s, x) (by simp)
    have hpast := ih fun m hm => hc m (by simp [hm])
    simp [(s.step_recorder x).2 hx, hpast]
  | outside h source tree ih => exact ih hc

/-- The record holds what was executed since it was last emptied, each statement once, whether it
failed or not. A run either fails as a whole and leaves the record as it is, or reports both passes
of its plan, with one failure for each statement that holds a fragment added so far. -/
theorem Past.recorded (h : Past start past s) :
    ((∀ m ∈ past, m.2 ≠ .clear) → s.recorder.executed =
      start.recorder.executed ++ past.flatMap fun m => m.1.written m.2) ∧
    (∀ earlier c later, past = earlier ++ (c, .clear) :: later → (∀ m ∈ later, m.2 ≠ .clear) →
      s.recorder.executed = later.flatMap fun m => m.1.written m.2) ∧
    ∀ earlier r later, past = earlier ++ (r, .run) :: later →
      (∃ e there, (r.step .run).2 = .ran (.error e) there ∧ r.NotCarriedOut e ∧
        (r.step .run).1.recorder = r.recorder) ∨
      ∃ p report there, (r.step .run).2 = .ran (.ok report) there ∧
        Plan.ofSource r.config r.tree r.source = .ok p ∧
        report.Tells (start.recorder.failing ++ earlier.flatMap fun m => m.2.fragments) p := by
  refine ⟨h.executed_of_kept, ?_, ?_⟩
  · intro earlier c later hp hc
    -- Emptying starts a past of its own, in which the record has only grown.
    have hempty : (c.step .clear).1.recorder.executed = [] := rfl
    have hlater := (h.split hp).2.executed_of_kept hc
    rwa [hempty, List.nil_append] at hlater
  · intro earlier r later hp
    have hr : Past start earlier r := (h.split hp).1
    rcases r.run_step with hfailed | ⟨p, report, there, ha, hplan, ht, _⟩
    · exact .inl hfailed
    · exact .inr ⟨p, report, there, ha, hplan, hr.failing ▸ ht⟩

def moments (s : Session) : List Step → List (Session × Step)
  | [] => []
  | x :: xs => (s, x) :: moments (s.step x).1 xs

theorem Past.append_moments (h : Past start past s) (xs : List Step) :
    Past start (past ++ s.moments xs) (s.steps xs).1 := by
  induction xs generalizing past s with
  | nil => simpa [moments, steps] using h
  | cons x xs ih => simpa [moments, steps] using ih (h.step x)

def counting : Session where
  config := {}
  source := .memory [.counting "counts.json" "integer"]
  tree := ⟨[(["home"], .directory)], ["home"]⟩
  recorder := {}

/-- What was executed before the record was emptied is gone from it; what failed behind it stays. -/
theorem Past.recorded_counting :
    let xs := [.execute (.createSequence "counts"), .clear, .failOn "copy", .run]
    Past counting (counting.moments xs) (counting.steps xs).1 ∧
      (counting.steps xs).1.recorder.executed = ["CREATE TABLE counts (n integer);",
        "copy (select * from counts) to 'parquet/counts.parquet' (format 'parquet');",
        "INSERT INTO counts (n) values (1);"] := by
  intro xs
  have h : Past counting (counting.moments xs) (counting.steps xs).1 :=
    Past.start.append_moments xs
  refine ⟨h, ?_⟩
  rw [h.recorded.2.1 [(counting, .execute (.createSequence "counts"))] _ _ rfl (by simp [moments])]
  rfl

end SeedTables.Session
