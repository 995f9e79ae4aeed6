import SeedTables.Proofs.DryRun

namespace SeedTables

namespace FileTree

def LeadsToFile (t : FileTree) (path : String) : Prop :=
  ∃ place content, t.resolve true path = .ok (place, .file content)

variable {t : FileTree} {path : String}

theorem walkNames_ne_link {jump : Location → List String → Except FileFault Spot} {place : Location}
    {target : String} (hjump : ∀ here names, jump here names ≠ .ok (place, some (.link target)))
    (here : Location) (names : List String) :
    t.walkNames true jump here names ≠ .ok (place, some (.link target)) := by
  induction names generalizing here with
  | nil => simp [walkNames]
  | cons name rest ih =>
    unfold walkNames
    split
    · exact ih here
    split
    · exact ih here.dropLast
    split
    · simp
    dsimp only
    split
    · split <;> simp
    · exact ih (here ++ [name])
    · split <;> simp
    · -- A link at the end is followed too, so that no path ends at one.
      rw [Bool.not_true, Bool.and_false, if_neg Bool.false_ne_true]
      exact hjump _ _

theorem walk_ne_link (links : Nat) (here : Location) (names : List String) {place : Location}
    {target : String} : t.walk true links here names ≠ .ok (place, some (.link target)) := by
  induction links generalizing here names with
  | zero => exact walkNames_ne_link (by simp) here names
  | succ links ih => exact walkNames_ne_link ih here names

theorem resolve_ne_link (place : Location) (target : String) :
    t.resolve true path ≠ .ok (place, .link target) := by
  rw [ne_eq, resolve_eq_ok, not_and]
  exact fun _ => walk_ne_link _ _ _

/-- A path that leads to no directory leads nowhere, or to a file. -/
theorem isDirectory_eq_false : t.isDirectory path = false ↔
    (∃ fault, t.resolve true path = .error fault) ∨ t.LeadsToFile path := by
  unfold isDirectory LeadsToFile
  cases h : t.resolve true path with
  | error fault => simp
  | ok spot =>
    obtain ⟨place, entry⟩ := spot
    cases entry with
    | directory => simp
    | file content => simp
    | link target => exact absurd h (resolve_ne_link place target)

theorem documents_unreachable {fault : FileFault} (h : t.resolve true path = .error fault) :
    t.documents path = .error (.walk (.unreachable path fault)) := by
  rw [documents, h]
  rfl

theorem LeadsToFile.documents (h : t.LeadsToFile path) : t.documents path = .ok [] := by
  obtain ⟨place, content, h⟩ := h
  rw [FileTree.documents, h]
  rfl

end FileTree

namespace CommandLine

def Request.doing (r : Request) : String :=
  (if r.dryRun then "planning " else "generating from ") ++ r.config.schemaDir

/-- A directory that cannot be read. Planning and running end with the error of the reading,
whatever the configuration, and nothing has been executed or made by then; the command tells the
error and ends with code 1. -/
structure Refused (t : FileTree) (directory : String) (e : Error) : Prop where
  documents : t.documents directory = .error e
  planned : ∀ config, Plan.ofSource config t (.directory directory) = .error e
  ran : ∀ (σ : Type) (execute : Executor σ) (config : Config) (state : σ),
    run execute config (.directory directory) t state = ⟨t, state, .error e⟩
  told : ∀ (σ : Type) (execute : Executor σ) (state : σ) environment args r,
    request environment args = .ok r → r.config.schemaDir = directory →
      command execute environment args t state = ⟨1, "", failureText r.doing e, t, state⟩

variable {t : FileTree} {directory : String} {e : Error}

theorem refused_of_documents (h : t.documents directory = .error e) : Refused t directory e := by
  have hplan (config : Config) : Plan.ofSource config t (.directory directory) = .error e :=
    except_bind_eq_error.mpr (.inl h)
  have hrun (σ : Type) (execute : Executor σ) (config : Config) (state : σ) :
      run execute config (.directory directory) t state = ⟨t, state, .error e⟩ :=
    run_unplanned (hplan config) execute state
  refine ⟨h, hplan, hrun, ?_⟩
  intro σ execute state environment args r hrequest hdirectory
  subst hdirectory
  rw [command, hrequest]
  dsimp only
  cases hdry : r.dryRun with
  | true =>
    rw [if_pos rfl, dryRun, hplan]
    dsimp only
    rw [Request.doing, hdry]
    rfl
  | false =>
    rw [if_neg Bool.false_ne_true, realRun, hrun]
    dsimp only
    rw [Request.doing, hdry]
    rfl

/-- Where the schema directory should be there is none. Then planning, running and the command fail
before anything is done, exactly if there is no file in its place either; and the error says why the
path leads nowhere. -/
theorem missing_refused_iff (h : t.isDirectory directory = false) :
    ((∃ e, Refused t directory e) ↔ ¬ t.LeadsToFile directory) ∧
    ∀ e, Refused t directory e ↔ ∃ fault, t.resolve true directory = .error fault ∧
      e = .walk (.unreachable directory fault) := by
  have hfile (e : Error) (he : Refused t directory e) : ¬ t.LeadsToFile directory := by
    intro hleads
    have hread := hleads.documents
    rw [he.documents] at hread
    cases hread
  rcases FileTree.isDirectory_eq_false.mp h with ⟨fault, hfault⟩ | hleads
  · have hread := FileTree.documents_unreachable hfault
    refine ⟨⟨fun ⟨e, he⟩ => hfile e he, fun _ => ⟨_, refused_of_documents hread⟩⟩, ?_⟩
    intro e
    constructor
    · intro he
      exact ⟨fault, hfault, Except.error.inj (he.documents.symm.trans hread)⟩
    · rintro ⟨fault', hfault', rfl⟩
      exact refused_of_documents (FileTree.documents_unreachable hfault')
  · refine ⟨⟨fun ⟨e, he⟩ => hfile e he, fun hnot => absurd hleads hnot⟩, ?_⟩
    intro e
    constructor
    · exact fun he => absurd hleads (hfile e he)
    · rintro ⟨fault, hfault, _⟩
      obtain ⟨place, content, hleads⟩ := hleads
      rw [hfault] at hleads
      cases hleads

def lone (entry : Entry) : FileTree where
  entries := [(["work"], .directory), (["work", "schema"], entry)]
  workingDirectory := ["work"]

/-- A link that leads nowhere is no schema directory, and the command fails at once. -/
theorem missing_refused_iff_dangling : (lone (.link "absent")).isDirectory "schema" = false ∧
    command Recorder.execute (fun _ => none) ["--skip-invalid"] (lone (.link "absent")) {} =
      ⟨1, "", failureText "generating from schema" (.walk (.unreachable "schema" .notFound)),
        lone (.link "absent"), {}⟩ := by
  have hmissing : (lone (.link "absent")).isDirectory "schema" = false := rfl
  have hrequest : request (fun _ => none) ["--skip-invalid"] =
      .ok ⟨{ policy := .skipInvalid }, false, 0⟩ := by
    have hflag : "--skip-invalid" = flagArgument "skip-invalid" := by decide
    rw [hflag, request, gather_flagArgument rfl rfl (by decide) rfl, gather]
    rfl
  have hrefused := ((missing_refused_iff hmissing).2 _).mpr ⟨.notFound, rfl, rfl⟩
  have hdoing : Request.doing ⟨{ policy := .skipInvalid }, false, 0⟩ =
      "generating from schema" := by
    decide
  have htold := hrefused.told Recorder Recorder.execute {} _ _ _ hrequest rfl
  rw [hdoing] at htold
  exact ⟨hmissing, htold⟩

/-- A file in the place of the schema directory is no directory, and yet there is a plan under every
policy, a run makes the output directory, and the command ends as if all were well. -/
theorem file_unnoticed :
    let t := lone (.file "[]".toUTF8)
    let outcome := command Recorder.execute (fun _ => none) [] t {}
    t.isDirectory "schema" = false ∧ t.documents "schema" = .ok [] ∧
    (∀ policy, Plan.ofSource { policy } t (.directory "schema") = .ok {}) ∧
    outcome.exitCode = 0 ∧ outcome.tree.isDirectory "parquet" = true := by
  intro t outcome
  have hrequest : request (fun _ => none) [] = .ok ⟨{}, false, 0⟩ := by
    rw [request, gather]
    rfl
  have houtcome : outcome = realRun Recorder.execute {} t {} := by
    change command _ _ _ _ _ = _
    rw [command, hrequest]
    rfl
  refine ⟨rfl, rfl, fun policy => rfl, ?_, ?_⟩
  · rw [houtcome]
    rfl
  · rw [houtcome]
    rfl

end CommandLine
end SeedTables
