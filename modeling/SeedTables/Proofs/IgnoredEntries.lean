import SeedTables.Proofs.SchemaFiles

namespace SeedTables

/-- The path that a listing stops at. -/
def WalkFault.path : WalkFault → String
  | unreachable path _ | leadsBack path _ => path

namespace FileTree

/-- An entry that is no link, or a link that leads somewhere and not back to the directory. -/
def CanFollow (t : FileTree) (directory : String) (home : Location) (c : String × Entry) : Prop :=
  ∀ target, c.2 = .link target → ∃ place found,
    t.resolve true (Path.join directory c.1) = .ok (place, found) ∧
      (found = .directory → place ≠ home)

/-- An entry that nothing else leads through: without it the path still leads to the directory, and
every other link in the directory leads where it led. -/
structure Apart (t : FileTree) (directory : String) (home : Location) (name : String) : Prop where
  listed : (t.erase (home ++ [name])).resolve true directory = .ok (home, .directory)
  links : ∀ c ∈ t.children home, c.1 ≠ name → ∀ target, c.2 = .link target →
    (t.erase (home ++ [name])).resolve true (Path.join directory c.1) =
      t.resolve true (Path.join directory c.1)

variable {t : FileTree} {directory name : String} {home : Location} {c : String × Entry}

theorem leadsToFile_eq_ok :
    (∃ isFile, t.leadsToFile directory home (Path.join directory c.1) c.2 = .ok isFile) ↔
      t.CanFollow directory home c := by
  obtain ⟨name, entry⟩ := c
  cases entry with
  | directory => simp [leadsToFile, CanFollow]
  | file content => simp [leadsToFile, CanFollow]
  | link target =>
    simp only [leadsToFile, CanFollow, Entry.link.injEq, forall_eq']
    cases t.resolve true (Path.join directory name) with
    | error fault => simp
    | ok spot =>
      obtain ⟨place, found⟩ := spot
      cases found with
      | directory => by_cases hplace : place = home <;> simp [hplace]
      | file content => simp
      | link target' => simp

theorem documentOf_ignored (hname : Path.extension? c.1 ≠ some "json")
    (hfollow : t.CanFollow directory home c) : t.documentOf directory home c = .ok none := by
  obtain ⟨isFile, hfile⟩ := leadsToFile_eq_ok.mpr hfollow
  simp [documentOf, hfile, hname, except_mapError_ok, bind, Except.bind, pure, Except.pure]

theorem documentOf_lost (hlost : ¬ t.CanFollow directory home c) :
    ∃ fault, t.documentOf directory home c = .error (.walk fault) := by
  rw [← leadsToFile_eq_ok, not_exists] at hlost
  cases hfile : t.leadsToFile directory home (Path.join directory c.1) c.2 with
  | ok isFile => exact absurd hfile (hlost isFile)
  | error fault =>
    refine ⟨fault, ?_⟩
    simp [documentOf, hfile, except_mapError_error, bind, Except.bind]

theorem path_of_leadsToFile {path : String} {entry : Entry} {fault : WalkFault}
    (h : t.leadsToFile directory home path entry = .error fault) : fault.path = path := by
  cases entry with
  | directory => cases h
  | file content => cases h
  | link target =>
    rw [leadsToFile] at h
    split at h
    · cases h
      rfl
    · split at h <;> cases h
      rfl
    · cases h

theorem readDocument_ne_walk {path : String} {fault : WalkFault} :
    t.readDocument path ≠ .error (.walk fault) := by
  intro h
  rw [readDocument, except_bind_eq_error] at h
  rcases h with h | ⟨text, _, h⟩
  · obtain ⟨_, _, hfile⟩ := except_mapError_eq_error.mp h
    cases hfile
  · split at h <;> cases h

/-- A listing that stops names the entry that it stops at. -/
theorem path_of_documentOf {fault : WalkFault}
    (h : t.documentOf directory home c = .error (.walk fault)) :
    fault.path = Path.join directory c.1 := by
  rw [documentOf, except_bind_eq_error] at h
  rcases h with h | ⟨isFile, _, h⟩
  · obtain ⟨fault', hfile, hfault⟩ := except_mapError_eq_error.mp h
    cases hfault
    exact path_of_leadsToFile hfile
  · split at h
    · exact absurd (except_map_eq_error.mp h) readDocument_ne_walk
    · cases h

theorem WellFormed.name_of_documentOf (wf : t.WellFormed) {d : String × Entry}
    (hc : c ∈ t.children home) (hd : d ∈ t.children home) {fault : WalkFault}
    (hcfault : t.documentOf directory home c = .error (.walk fault))
    (hdfault : t.documentOf directory home d = .error (.walk fault)) : c.1 = d.1 := by
  have hrelative {e : String × Entry} (he : e ∈ t.children home) :
      Path.isAbsolute e.1 = false :=
    Path.isAbsolute_of_not_mem (wf.proper_child he).noSlash
  have hpath : Path.join directory c.1 = Path.join directory d.1 := by
    rw [← path_of_documentOf hcfault, path_of_documentOf hdfault]
  exact Path.join_inj (hrelative hc) (hrelative hd) hpath

theorem children_erase :
    (t.erase (home ++ [name])).children home = (t.children home).filter fun c => c.1 ≠ name := by
  rw [children_eq, children_eq, erase, List.filterMap_filter, List.filter_filterMap]
  refine List.filterMap_congr fun e _ => ?_
  cases hchild : childOf? home e with
  | none => simp
  | some c =>
    have hbelow : (home ++ [name]).isPrefixOf e.1 = true ↔ c.1 = name := by
      rw [childOf?_eq_some.mp hchild, List.isPrefixOf_iff_prefix, List.prefix_append_right_inj]
      simp [eq_comm]
    by_cases hname : c.1 = name
    · simp [hbelow.mpr hname, hname, Option.filter_some]
    · simp [mt hbelow.mp hname, hname, Option.filter_some]

theorem WellFormed.erase (wf : t.WellFormed) (place : Location) : (t.erase place).WellFormed where
  distinct := wf.distinct.sublist (List.filter_sublist.map Prod.fst)
  proper e he := wf.proper e (List.mem_filter.mp he).1

theorem WellFormed.sortedChildren_erase (wf : t.WellFormed) :
    (t.erase (home ++ [name])).sortedChildren home =
      (t.sortedChildren home).filter fun c => c.1 ≠ name := by
  refine (wf.erase _).sortedChildren_eq ?_ (wf.sortedChildren_ascending.filter _)
  rw [children_erase]
  exact (List.mergeSort_perm _ _).filter _

/-- The entries that stay are read as before. -/
theorem WellFormed.documentOf_erase (wf : t.WellFormed)
    (hlisted : t.resolve true directory = .ok (home, .directory))
    (hapart : t.Apart directory home name) (hc : c ∈ t.children home) (hne : c.1 ≠ name) :
    (t.erase (home ++ [name])).documentOf directory home c = t.documentOf directory home c := by
  have hstays : c ∈ (t.erase (home ++ [name])).children home := by
    rw [children_erase]
    exact List.mem_filter.mpr ⟨hc, by simpa using hne⟩
  by_cases hplain : ∀ target, c.2 ≠ .link target
  · rw [(wf.erase _).documentOf_plain hapart.listed hstays hplain,
      wf.documentOf_plain hlisted hc hplain]
  · simp only [ne_eq, not_forall, not_not] at hplain
    obtain ⟨target, hlink⟩ := hplain
    exact documentOf_congr (hapart.links c hc hne target hlink)

theorem WellFormed.documents_erase (wf : t.WellFormed)
    (hlisted : t.resolve true directory = .ok (home, .directory))
    (hapart : t.Apart directory home name) :
    (t.erase (home ++ [name])).documents directory =
      (((t.sortedChildren home).filter fun c => c.1 ≠ name).mapM
        (t.documentOf directory home)).map (List.filterMap id) := by
  rw [documents_listed hapart.listed, wf.sortedChildren_erase]
  refine congrArg (Except.map _) (except_mapM_congr fun c hc => ?_)
  obtain ⟨hsorted, hne⟩ := List.mem_filter.mp hc
  exact wf.documentOf_erase hlisted hapart (mem_sortedChildren.mp hsorted) (by simpa using hne)

/-- The entries of a directory around one of them. -/
theorem WellFormed.sortedChildren_split (wf : t.WellFormed) {x : String × Entry}
    (hx : x ∈ t.children home) : ∃ before after, t.sortedChildren home = before ++ x :: after ∧
      ((t.sortedChildren home).filter fun c => c.1 ≠ x.1) = before ++ after ∧
      ∀ c ∈ t.children home, c.1 < x.1 ↔ c ∈ before := by
  obtain ⟨before, after, hsorted⟩ := List.append_of_mem (mem_sortedChildren.mpr hx)
  have hascending : (t.sortedChildren home).Pairwise fun c d => c.1 < d.1 :=
    wf.sortedChildren_ascending
  rw [hsorted, List.pairwise_append, List.pairwise_cons] at hascending
  obtain ⟨_, ⟨hafter, _⟩, hbefore⟩ := hascending
  have hless (c) (hc : c ∈ before) : c.1 < x.1 := hbefore c hc x List.mem_cons_self
  refine ⟨before, after, hsorted, ?_, fun c hc => ⟨fun hlt => ?_, hless c⟩⟩
  · rw [hsorted, List.filter_append, List.filter_cons_of_neg (by simp)]
    congr 1
    · refine List.filter_eq_self.mpr fun c hc => decide_eq_true fun he => ?_
      exact String.lt_irrefl _ (he ▸ hless c hc)
    · refine List.filter_eq_self.mpr fun c hc => decide_eq_true fun he => ?_
      exact String.lt_irrefl _ (he ▸ hafter c hc)
  · have hmem := mem_sortedChildren.mpr hc
    rw [hsorted, List.mem_append, List.mem_cons] at hmem
    rcases hmem with hmem | rfl | hmem
    · exact hmem
    · exact absurd hlt (String.lt_irrefl _)
    · exact absurd hlt (String.lt_asymm (hafter c hmem))

/-- A directory is read as without an entry that is no `json` file by name and that nothing else
leads through, exactly if the entry can be followed or the reading fails before it gets there. -/
theorem WellFormed.documents_erase_iff (wf : t.WellFormed)
    (hlisted : t.resolve true directory = .ok (home, .directory)) {entry : Entry}
    (hentry : (name, entry) ∈ t.children home) (hname : Path.extension? name ≠ some "json")
    (hapart : t.Apart directory home name) :
    (t.erase (home ++ [name])).documents directory = t.documents directory ↔
      t.CanFollow directory home (name, entry) ∨
        ∃ c ∈ t.children home, c.1 < name ∧ ∃ e, t.documentOf directory home c = .error e := by
  obtain ⟨before, after, hsorted, hothers, hless⟩ := wf.sortedChildren_split hentry
  rw [wf.documents_erase hlisted hapart, documents_listed hlisted, hothers, hsorted]
  have hchild {c} (hc : c ∈ before ++ after) : c ∈ t.children home ∧ c.1 ≠ name := by
    rw [← hothers, List.mem_filter, mem_sortedChildren, decide_eq_true_eq] at hc
    exact hc
  constructor
  · -- An error of another entry names that entry, so that it is not the error of this one.
    intro hsame
    by_contra hneither
    rw [not_or] at hneither
    obtain ⟨hlost, hquiet⟩ := hneither
    obtain ⟨fault, hfault⟩ := documentOf_lost hlost
    have hbefore (c) (hc : c ∈ before) : ∃ d, t.documentOf directory home c = .ok d := by
      cases hd : t.documentOf directory home c with
      | ok d => exact ⟨d, rfl⟩
      | error e =>
        have hmem := (hchild (List.mem_append_left after hc)).1
        exact absurd ⟨c, hmem, (hless c hmem).mpr hc, e, hd⟩ hquiet
    rw [except_mapM_eq_error.mpr ⟨before, _, after, rfl, hbefore, hfault⟩] at hsame
    obtain ⟨c, hfirst, hc⟩ := except_mapM_eq_error_afterOnly.mp (except_map_eq_error.mp hsame)
    obtain ⟨hmem, hne⟩ := hchild hfirst.mem
    exact hne (wf.name_of_documentOf hmem hentry hc hfault)
  · rintro (hfollow | ⟨c, hc, hlt, e, he⟩)
    · exact except_mapM_skip (documentOf_ignored hname hfollow)
    · rw [List.mapM_append, List.mapM_append]
      cases hbefore : before.mapM (t.documentOf directory home) with
      | error e => rfl
      | ok found =>
        obtain ⟨d, hd⟩ := except_mapM_each hbefore ((hless c hc).mp hlt)
        rw [hd] at he
        cases he

/-- A directory with one document and a link that is not named like one. -/
def noted (target : String) : FileTree where
  entries := [(["work"], .directory), (["work", "schema"], .directory),
    (["work", "schema", "notes.txt"], .link target),
    (["work", "schema", "users.json"], .file "[]".toUTF8)]
  workingDirectory := ["work"]

theorem noted_children (target : String) : (noted target).children ["work", "schema"] =
    [("notes.txt", .link target), ("users.json", .file "[]".toUTF8)] := rfl

theorem noted_apart (target : String) :
    (noted target).Apart "schema" ["work", "schema"] "notes.txt" where
  listed := rfl
  links := by
    rw [noted_children]
    simp

theorem noted_alone (target : String) :
    ((noted target).erase ["work", "schema", "notes.txt"]).documents "schema" =
      .ok [⟨"schema/users.json", .array []⟩] := by
  have hlisted : ((noted target).erase ["work", "schema", "notes.txt"]).resolve true "schema" =
      .ok (["work", "schema"], .directory) := rfl
  have hsorted : ((noted target).erase ["work", "schema", "notes.txt"]).sortedChildren
      ["work", "schema"] = [("users.json", .file "[]".toUTF8)] := List.mergeSort_singleton _
  rw [documents_listed hlisted, hsorted]
  rfl

theorem documents_erase_iff_noted : (noted "users.json").WellFormed ∧
    (noted "users.json").resolve true "schema" = .ok (["work", "schema"], .directory) ∧
    ("notes.txt", .link "users.json") ∈ (noted "users.json").children ["work", "schema"] ∧
    Path.extension? "notes.txt" ≠ some "json" ∧
    (noted "users.json").documents "schema" = .ok [⟨"schema/users.json", .array []⟩] := by
  have wf : (noted "users.json").WellFormed := by decide
  have hentry : ("notes.txt", .link "users.json") ∈
      (noted "users.json").children ["work", "schema"] := by
    rw [noted_children]
    exact List.mem_cons_self
  have hname : Path.extension? "notes.txt" ≠ some "json" := by decide
  refine ⟨wf, rfl, hentry, hname, ?_⟩
  have hfollow : (noted "users.json").CanFollow "schema" ["work", "schema"]
      ("notes.txt", .link "users.json") :=
    fun _ _ => ⟨["work", "schema", "users.json"], .file "[]".toUTF8, rfl, nofun⟩
  have hsame := (wf.documents_erase_iff rfl hentry hname (noted_apart _)).mpr (.inl hfollow)
  exact hsame.symm.trans (noted_alone _)

/-- A link that leads nowhere takes the whole directory with it, whatever its name. -/
theorem noted_absent_unread : (noted "absent").WellFormed ∧
    (noted "absent").resolve true "schema" = .ok (["work", "schema"], .directory) ∧
    ("notes.txt", .link "absent") ∈ (noted "absent").children ["work", "schema"] ∧
    Path.extension? "notes.txt" ≠ some "json" ∧
    ((noted "absent").erase ["work", "schema", "notes.txt"]).documents "schema" =
      .ok [⟨"schema/users.json", .array []⟩] ∧
    (noted "absent").documents "schema" =
      .error (.walk (.unreachable "schema/notes.txt" .notFound)) := by
  refine ⟨by decide, rfl, ?_, by decide, noted_alone _, ?_⟩
  · rw [noted_children]
    exact List.mem_cons_self
  · have hlisted : (noted "absent").resolve true "schema" =
        .ok (["work", "schema"], .directory) := rfl
    have hsorted : (noted "absent").sortedChildren ["work", "schema"] =
        [("notes.txt", .link "absent"), ("users.json", .file "[]".toUTF8)] :=
      List.mergeSort_of_pairwise (by decide)
    rw [documents_listed hlisted, hsorted]
    rfl

end FileTree
end SeedTables
