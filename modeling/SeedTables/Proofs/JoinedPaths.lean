import SeedTables.FileTree.Path

namespace SeedTables.Path

/-- A name that leads somewhere. -/
def leads (name : String) : Bool := !name.isEmpty && name ≠ "."

/-- The components among names; a point counts only in the first place. -/
def componentsOf : List String → List String
  | "." :: rest => "." :: rest.filter leads
  | all => all.filter leads

theorem components_eq (path : String) : components path = componentsOf (names path) := by
  rfl

theorem componentsOf_cons {x : String} (h : x ≠ ".") (xs : List String) :
    componentsOf (x :: xs) = (x :: xs).filter leads := by
  unfold componentsOf
  split
  · rename_i heq
    exact absurd (List.cons.inj heq).1 h
  · rfl

theorem componentsOf_append {xs : List String} (h : xs ≠ []) (ys : List String) :
    componentsOf (xs ++ ys) = componentsOf xs ++ ys.filter leads := by
  obtain ⟨x, xs, rfl⟩ := List.exists_cons_of_ne_nil h
  by_cases hx : x = "."
  · subst hx
    simp [componentsOf]
  · rw [List.cons_append, componentsOf_cons hx, componentsOf_cons hx, ← List.cons_append,
      List.filter_append]

theorem mem_componentsOf {x : String} {xs : List String} (h : x ∈ componentsOf xs) : x ∈ xs := by
  unfold componentsOf at h
  split at h
  · rcases List.mem_cons.mp h with rfl | h
    · exact List.mem_cons_self
    · exact List.mem_cons_of_mem _ (List.mem_filter.mp h).1
  · exact (List.mem_filter.mp h).1

theorem split_ne_nil (s : List Char) : split s ≠ [] := by
  induction s with
  | nil => simp [split]
  | cons c s ih =>
    rw [split]
    split
    · simp
    · split <;> simp

theorem split_append_slash (xs ys : List Char) :
    split (xs ++ '/' :: ys) = split xs ++ split ys := by
  induction xs with
  | nil => simp [split]
  | cons c xs ih =>
    by_cases hc : c = '/'
    · simp [split, hc, ih]
    · obtain ⟨w, ws, hw⟩ := List.exists_cons_of_ne_nil (split_ne_nil xs)
      simp [split, hc, ih, hw]

theorem split_of_not_mem {s : List Char} (h : '/' ∉ s) : split s = [s] := by
  induction s with
  | nil => rfl
  | cons c s ih =>
    rw [List.mem_cons, not_or] at h
    have hc : c ≠ '/' := fun he => h.1 he.symm
    simp [split, hc, ih h.2]

/-- No name has a slash in it. -/
theorem not_mem_split {s : List Char} : ∀ w ∈ split s, '/' ∉ w := by
  induction s with
  | nil => simp [split]
  | cons c s ih =>
    obtain ⟨w, ws, hw⟩ := List.exists_cons_of_ne_nil (split_ne_nil s)
    rw [hw] at ih
    by_cases hc : c = '/'
    · simpa [split, hc, hw] using ih
    · have hne : '/' ≠ c := fun he => hc he.symm
      simpa [split, hc, hw, hne] using ih

theorem names_ne_nil (path : String) : names path ≠ [] := by
  rw [names, ne_eq, List.map_eq_nil_iff]
  exact split_ne_nil _

theorem names_append_slash (path next : String) :
    names (path ++ "/" ++ next) = names path ++ names next := by
  have hlist : (path ++ "/" ++ next).toList = path.toList ++ '/' :: next.toList := by simp
  rw [names, hlist, split_append_slash, List.map_append, names, names]

theorem names_of_not_mem {name : String} (h : '/' ∉ name.toList) : names name = [name] := by
  rw [names, split_of_not_mem h]
  simp

theorem components_append_slash (path next : String) :
    components (path ++ "/" ++ next) = components path ++ (names next).filter leads := by
  rw [components_eq, names_append_slash, componentsOf_append (names_ne_nil path), components_eq]

theorem not_mem_of_mem_components {path name : String} (h : name ∈ components path) :
    '/' ∉ name.toList := by
  rw [components_eq] at h
  obtain ⟨w, hw, rfl⟩ := List.mem_map.mp (mem_componentsOf h)
  rw [String.toList_ofList]
  exact not_mem_split w hw

/-- Paths that go through the same names from the same start. -/
structure Same (path path' : String) : Prop where
  absolute : isAbsolute path = isAbsolute path'
  components : components path = components path'

/-- A path that names a file directly inside a directory. -/
structure Inside (path directory name : String) : Prop where
  absolute : isAbsolute path = isAbsolute directory
  components : components path = components directory ++ [name]

theorem isAbsolute_append {path : String} (h : path ≠ "") (rest : String) :
    isAbsolute (path ++ rest) = isAbsolute path := by
  obtain ⟨c, cs, hlist⟩ : ∃ c cs, path.toList = c :: cs :=
    List.exists_cons_of_ne_nil fun he => h (String.toList_eq_nil_iff.mp he)
  simp [isAbsolute, hlist]

theorem isAbsolute_of_not_mem {name : String} (h : '/' ∉ name.toList) :
    isAbsolute name = false := by
  refine decide_eq_false fun hhead => h ?_
  exact List.mem_of_mem_head? (Option.mem_def.mpr hhead)

/-- How a relative path continues another: there is one slash between them, unless the path is empty
or ends in a slash. -/
theorem join_eq (path : String) {next : String} (h : isAbsolute next = false) :
    (path = "" ∧ join path next = next) ∨
    (∃ before, path = before ++ "/" ∧ join path next = before ++ "/" ++ next) ∨
    (path ≠ "" ∧ join path next = path ++ "/" ++ next) := by
  unfold join
  rw [if_neg (by simp [h])]
  by_cases hempty : path = ""
  · subst hempty
    exact .inl ⟨rfl, by simp⟩
  by_cases hslash : path.toList.getLast? = some '/'
  · obtain ⟨before, hbefore⟩ := List.getLast?_eq_some_iff.mp hslash
    have hpath : path = String.ofList before ++ "/" := by
      rw [← String.toList_inj]
      simp [hbefore]
    refine .inr (.inl ⟨String.ofList before, hpath, ?_⟩)
    rw [if_pos (.inr hslash), ← hpath]
  · refine .inr (.inr ⟨hempty, ?_⟩)
    rw [if_neg]
    rintro (hnone | hlast)
    · exact hempty (by simpa using hnone)
    · exact hslash hlast

theorem inside_join (directory : String) {name : String} (hslash : '/' ∉ name.toList)
    (hleads : leads name = true) : Inside (join directory name) directory name := by
  have hnames : (names name).filter leads = [name] := by
    rw [names_of_not_mem hslash]
    simp [hleads]
  have hrelative := isAbsolute_of_not_mem hslash
  rcases join_eq directory hrelative with
    ⟨rfl, hjoin⟩ | ⟨before, rfl, hjoin⟩ | ⟨hne, hjoin⟩
  · rw [hjoin]
    refine ⟨hrelative, ?_⟩
    have hpoint : name ≠ "." := by
      intro he
      simp [he, leads] at hleads
    rw [components_eq, names_of_not_mem hslash, componentsOf_cons hpoint]
    simp [hleads, components, names, split]
  · have hne : before ++ "/" ≠ "" := by simp
    have hbefore : components (before ++ "/") = components before := by
      rw [← String.append_empty (s := before ++ "/"), components_append_slash]
      simp [names, split, leads]
    rw [hjoin]
    refine ⟨isAbsolute_append hne name, ?_⟩
    rw [components_append_slash, hnames, hbefore]
  · rw [hjoin]
    refine ⟨?_, ?_⟩
    · rw [String.append_assoc, isAbsolute_append hne]
    · rw [components_append_slash, hnames]

theorem Inside.name_not_mem {path directory name : String} (h : Inside path directory name) :
    '/' ∉ name.toList := by
  have hmem : name ∈ Path.components path := by
    rw [h.components]
    exact List.mem_append_right _ (List.mem_singleton.mpr rfl)
  exact not_mem_of_mem_components hmem

theorem Inside.name_eq {path path' directory name name' : String} (h : Inside path directory name)
    (h' : Inside path' directory name') (hsame : Same path path') : name = name' := by
  have hcomponents := hsame.components
  rw [h.components, h'.components] at hcomponents
  simpa using hcomponents

/-- What stands between a path and a relative one behind it does not depend on the latter. -/
theorem join_relative (path : String) : ∃ between, (between = "" ∨ between = "/") ∧
    ∀ next, isAbsolute next = false → join path next = path ++ between ++ next := by
  by_cases hclosed : path.isEmpty ∨ path.toList.getLast? = some '/'
  · refine ⟨"", .inl rfl, fun next hnext => ?_⟩
    rw [join, if_neg (by simp [hnext]), if_pos hclosed, String.append_empty]
  · refine ⟨"/", .inr rfl, fun next hnext => ?_⟩
    rw [join, if_neg (by simp [hnext]), if_neg hclosed]

theorem isAbsolute_join_relative {directory next : String} (hdirectory : directory ≠ "")
    (hnext : isAbsolute next = false) :
    isAbsolute (join directory next) = isAbsolute directory := by
  obtain ⟨between, _, hjoin⟩ := join_relative directory
  rw [hjoin next hnext, String.append_assoc, isAbsolute_append hdirectory]

theorem isAbsolute_join {directory : String} (h : isAbsolute directory = true) (next : String) :
    isAbsolute (join directory next) = true := by
  cases hnext : isAbsolute next with
  | true => rwa [join, if_pos hnext]
  | false =>
    have hne : directory ≠ "" := by
      intro he
      rw [he] at h
      exact absurd h (by decide)
    rw [isAbsolute_join_relative hne hnext, h]

theorem join_append (directory : String) {name : String} (h : name ≠ "") (suffix : String) :
    join directory (name ++ suffix) = join directory name ++ suffix := by
  unfold join
  rw [isAbsolute_append h]
  split
  · rfl
  · split <;> simp only [String.append_assoc]

theorem join_inj {directory name name' : String} (h : isAbsolute name = false)
    (h' : isAbsolute name' = false) (hsame : join directory name = join directory name') :
    name = name' := by
  obtain ⟨between, _, hjoin⟩ := join_relative directory
  rw [hjoin name h, hjoin name' h'] at hsame
  simpa using hsame

/-- The names of a joined path are those of the directory, without an empty one behind its last
slash, and the name behind them. -/
theorem names_join {directory name : String} (hdirectory : directory ≠ "")
    (hslash : '/' ∉ name.toList) : ∃ front last, (last = [] ∨ last = [""]) ∧
      names directory = front ++ last ∧ names (join directory name) = front ++ [name] := by
  rcases join_eq directory (isAbsolute_of_not_mem hslash) with
    ⟨rfl, _⟩ | ⟨before, rfl, hjoin⟩ | ⟨_, hjoin⟩
  · exact absurd rfl hdirectory
  · refine ⟨names before, [""], .inr rfl, ?_, ?_⟩
    · rw [← String.append_empty (s := before ++ "/"), names_append_slash]
      rfl
    · rw [hjoin, names_append_slash, names_of_not_mem hslash]
  · refine ⟨names directory, [], .inl rfl, (List.append_nil _).symm, ?_⟩
    rw [hjoin, names_append_slash, names_of_not_mem hslash]

/-- A name has an extension if there is text before its last point. -/
theorem extension?_eq_some {name extension : String} :
    extension? name = some extension ↔
      ∃ stem, stem ≠ "" ∧ '.' ∉ extension.toList ∧ name = stem ++ "." ++ extension := by
  unfold extension?
  dsimp only
  constructor
  · intro h
    have hsplit := List.takeWhile_append_dropWhile (p := (· ≠ '.')) (l := name.toList.reverse)
    have hclear : ∀ c ∈ name.toList.reverse.takeWhile (· ≠ '.'), c ≠ '.' := by
      have hall := List.all_takeWhile (p := (· ≠ '.')) (l := name.toList.reverse)
      exact fun c hc => of_decide_eq_true (List.all_eq_true.mp hall c hc)
    have hhead := List.head?_dropWhile_not (· ≠ '.') name.toList.reverse
    generalize name.toList.reverse.takeWhile (· ≠ '.') = front at *
    generalize name.toList.reverse.dropWhile (· ≠ '.') = rest at *
    cases rest with
    | nil => cases h
    | cons c stem =>
      obtain rfl : c = '.' := by simpa using hhead
      simp only [Option.ite_none_left_eq_some, Option.some.injEq, List.isEmpty_iff] at h
      obtain ⟨hstem, rfl⟩ := h
      refine ⟨String.ofList stem.reverse, by simpa using hstem, ?_, ?_⟩
      · rw [String.toList_ofList, List.mem_reverse]
        exact fun hmem => hclear '.' hmem rfl
      · rw [← String.toList_inj, ← List.reverse_inj, ← hsplit]
        simp
  · rintro ⟨stem, hstem, hextension, rfl⟩
    have hclear : ∀ c ∈ extension.toList.reverse, decide (c ≠ '.') = true := by
      intro c hc
      refine decide_eq_true fun he => hextension ?_
      rw [← he]
      exact List.mem_reverse.mp hc
    have hreverse : (stem ++ "." ++ extension).toList.reverse =
        extension.toList.reverse ++ '.' :: stem.toList.reverse := by simp
    rw [hreverse, List.takeWhile_append_of_pos hclear, List.dropWhile_append_of_pos hclear]
    simp [hstem]

end SeedTables.Path
