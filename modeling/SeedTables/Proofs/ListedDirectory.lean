import Mathlib.Data.List.Perm.Basic
import SeedTables.Proofs.ConsistentSchema
import SeedTables.Proofs.JoinedPaths
import SeedTables.Source

namespace SeedTables.FileTree

/-- A name that an entry of a directory can have. -/
structure ProperName (name : String) : Prop where
  nonempty : name ≠ ""
  notHere : name ≠ "."
  notAbove : name ≠ ".."
  noSlash : '/' ∉ name.toList
  noNul : '\x00' ∉ name.toList
  short : name.utf8ByteSize ≤ greatestNameLength

instance (name : String) : Decidable (ProperName name) :=
  decidable_of_iff (name ≠ "" ∧ name ≠ "." ∧ name ≠ ".." ∧ '/' ∉ name.toList ∧
      '\x00' ∉ name.toList ∧ name.utf8ByteSize ≤ greatestNameLength)
    ⟨fun ⟨nonempty, notHere, notAbove, noSlash, noNul, short⟩ =>
        ⟨nonempty, notHere, notAbove, noSlash, noNul, short⟩,
      fun h => ⟨h.nonempty, h.notHere, h.notAbove, h.noSlash, h.noNul, h.short⟩⟩

/-- A tree in which entries have proper names, and each a place of its own. -/
structure WellFormed (t : FileTree) : Prop where
  distinct : (t.entries.map Prod.fst).Nodup
  proper : ∀ e ∈ t.entries, ∀ name ∈ e.1, ProperName name

instance (t : FileTree) : Decidable t.WellFormed :=
  decidable_of_iff ((t.entries.map Prod.fst).Nodup ∧ ∀ e ∈ t.entries, ∀ name ∈ e.1, ProperName name)
    ⟨fun ⟨distinct, proper⟩ => ⟨distinct, proper⟩, fun h => ⟨h.distinct, h.proper⟩⟩

variable {t u : FileTree} {directory : String} {home : Location}

theorem WellFormed.get?_eq_some (wf : t.WellFormed) {place : Location} (hplace : place ≠ [])
    {entry : Entry} : t.get? place = some entry ↔ (place, entry) ∈ t.entries := by
  rw [get?, if_neg (by simpa using hplace), Option.map_eq_some_iff]
  constructor
  · rintro ⟨e, hfind, rfl⟩
    obtain rfl : e.1 = place := by simpa using List.find?_some hfind
    exact List.mem_of_find?_eq_some hfind
  · exact fun hmem => ⟨(place, entry), find?_of_nodup_map wf.distinct hmem, rfl⟩

/-- An entry of the tree as an entry of the directory that holds it. -/
def childOf? (home : Location) (e : Location × Entry) : Option (String × Entry) :=
  match e.1.getLast? with
  | some name => if e.1.dropLast = home then some (name, e.2) else none
  | none => none

theorem children_eq : t.children home = t.entries.filterMap (childOf? home) :=
  rfl

theorem childOf?_eq_some {e : Location × Entry} {c : String × Entry} :
    childOf? home e = some c ↔ e = (home ++ [c.1], c.2) := by
  obtain ⟨place, entry⟩ := e
  obtain ⟨name, entry'⟩ := c
  rcases List.eq_nil_or_concat place with rfl | ⟨front, last, rfl⟩
  · simp [childOf?]
  · simp [childOf?, and_assoc]

theorem mem_children {c : String × Entry} :
    c ∈ t.children home ↔ (home ++ [c.1], c.2) ∈ t.entries := by
  rw [children_eq, List.mem_filterMap]
  simp only [childOf?_eq_some, exists_eq_right]

theorem WellFormed.get?_child (wf : t.WellFormed) {c : String × Entry}
    (hc : c ∈ t.children home) : t.get? (home ++ [c.1]) = some c.2 :=
  (wf.get?_eq_some (by simp)).mpr (mem_children.mp hc)

theorem WellFormed.proper_child (wf : t.WellFormed) {c : String × Entry}
    (hc : c ∈ t.children home) : ProperName c.1 :=
  wf.proper _ (mem_children.mp hc) c.1 (by simp)

/-- Different entries of a directory have different names. -/
theorem WellFormed.children_distinct (wf : t.WellFormed) :
    (t.children home).Pairwise fun c d => c.1 ≠ d.1 := by
  rw [children_eq, List.pairwise_filterMap]
  refine (List.pairwise_map.mp wf.distinct).imp ?_
  intro e f hne c hc d hd hname
  rw [childOf?_eq_some] at hc hd
  rw [hc, hd, hname] at hne
  exact hne rfl

theorem mem_sortedChildren {entry : String × Entry} :
    entry ∈ t.sortedChildren home ↔ entry ∈ t.children home :=
  List.mem_mergeSort

theorem WellFormed.sortedChildren_ascending (wf : t.WellFormed) :
    (t.sortedChildren home).Pairwise fun c d => c.1 < d.1 := by
  have hle : (t.sortedChildren home).Pairwise fun c d => c.1 ≤ d.1 := by
    refine (List.pairwise_mergeSort ?_ ?_ _).imp of_decide_eq_true
    · intro a b c hab hbc
      exact decide_eq_true (String.le_trans (of_decide_eq_true hab) (of_decide_eq_true hbc))
    · intro a b
      rw [Bool.or_eq_true, decide_eq_true_eq, decide_eq_true_eq]
      exact String.le_total a.1 b.1
  have hne : (t.sortedChildren home).Pairwise fun c d => c.1 ≠ d.1 :=
    (List.mergeSort_perm _ _).symm.pairwise wf.children_distinct fun h => h.symm
  exact (hle.and hne).imp fun h => String.not_le.mp fun hge => h.2 (String.le_antisymm h.1 hge)

/-- There is one list of the entries in which the names ascend. -/
theorem WellFormed.sortedChildren_eq (wf : t.WellFormed) {entries : List (String × Entry)}
    (hperm : entries.Perm (t.children home)) (hascending : entries.Pairwise fun c d => c.1 < d.1) :
    t.sortedChildren home = entries := by
  refine List.Perm.eq_of_pairwise ?_ wf.sortedChildren_ascending hascending
    ((List.mergeSort_perm _ _).trans hperm.symm)
  intro c d _ _ hcd hdc
  exact absurd hdc (String.lt_asymm hcd)

theorem walkNames_congr (hget : t.get? = u.get?) {follow : Bool}
    {jump : Location → List String → Except FileFault Spot} (names : List String)
    (here : Location) :
    t.walkNames follow jump here names = u.walkNames follow jump here names := by
  induction names generalizing here with
  | nil => rfl
  | cons name rest ih => simp only [walkNames, hget, ih]

theorem walk_congr (hget : t.get? = u.get?) {follow : Bool} (links : Nat) :
    t.walk follow links = u.walk follow links := by
  induction links with
  | zero =>
    funext here names
    exact walkNames_congr hget names here
  | succ links ih =>
    funext here names
    rw [walk, walk, ih]
    exact walkNames_congr hget names here

theorem resolve_congr (hget : t.get? = u.get?) (hworking : t.workingDirectory = u.workingDirectory)
    (follow : Bool) (path : String) : t.resolve follow path = u.resolve follow path := by
  simp only [resolve, locate, walk_congr hget, hworking]

/-- The last names of a path may be replaced if this makes no difference to where they lead from
the places that they are followed from. -/
theorem walkNames_append {jump : Location → List String → Except FileFault Spot}
    {last last' : List String} {spot : Except FileFault Spot}
    (hjump : ∀ here names, jump here (names ++ last) = .ok (home, some .directory) →
      jump here (names ++ last') = spot)
    (hlast : ∀ here, t.walkNames true jump here last = .ok (home, some .directory) →
      t.walkNames true jump here last' = spot)
    (names : List String) (here : Location)
    (h : t.walkNames true jump here (names ++ last) = .ok (home, some .directory)) :
    t.walkNames true jump here (names ++ last') = spot := by
  induction names generalizing here with
  | nil => exact hlast here h
  | cons name rest ih =>
    rw [List.cons_append, walkNames] at h ⊢
    by_cases hhere : (name.isEmpty || name = ".") = true
    · rw [if_pos hhere] at h ⊢
      exact ih here h
    rw [if_neg hhere] at h ⊢
    by_cases habove : name = ".."
    · rw [if_pos habove] at h ⊢
      exact ih here.dropLast h
    rw [if_neg habove] at h ⊢
    by_cases hlong : greatestNameLength < name.utf8ByteSize
    · rw [if_pos hlong] at h
      cases h
    rw [if_neg hlong] at h ⊢
    dsimp only at h ⊢
    cases hget : t.get? (here ++ [name]) with
    | none =>
      rw [hget] at h
      dsimp only at h
      split at h <;> cases h
    | some entry =>
      rw [hget] at h
      cases entry with
      | directory => exact ih (here ++ [name]) h
      | file content =>
        dsimp only at h
        split at h <;> cases h
      | link target =>
        simp only [Bool.not_true, Bool.and_false, Bool.false_eq_true, ↓reduceIte,
          ← List.append_assoc] at h ⊢
        exact hjump _ _ h

theorem walk_append {last last' : List String} {spot : Except FileFault Spot}
    (hlast : ∀ jump here, t.walkNames true jump here last = .ok (home, some .directory) →
      t.walkNames true jump here last' = spot)
    (links : Nat) (names : List String) (here : Location)
    (h : t.walk true links here (names ++ last) = .ok (home, some .directory)) :
    t.walk true links here (names ++ last') = spot := by
  induction links generalizing names here with
  | zero =>
    refine walkNames_append ?_ (hlast _) names here h
    intro _ _ hnone
    cases hnone
  | succ links ih =>
    rw [walk] at h ⊢
    exact walkNames_append (fun here names => ih names here) (hlast _) names here h

theorem checkPath_eq_ok {path : String} : checkPath path = .ok () ↔
    path ≠ "" ∧ '\x00' ∉ path.toList ∧ path.utf8ByteSize ≤ greatestPathLength := by
  unfold checkPath
  by_cases hempty : path = ""
  · simp [hempty]
  by_cases hnul : '\x00' ∈ path.toList
  · simp [hempty, hnul]
  · simp [hempty, hnul]

theorem resolve_eq_ok {follow : Bool} {path : String} {place : Location} {entry : Entry} :
    t.resolve follow path = .ok (place, entry) ↔ checkPath path = .ok () ∧
      t.walk follow greatestLinkCount (origin t.workingDirectory path) (Path.names path) =
        .ok (place, some entry) := by
  simp only [resolve, locate, except_bind_eq_ok]
  constructor
  · rintro ⟨⟨place', found⟩, ⟨_, hcheck, hwalk⟩, hfound⟩
    cases found with
    | none => cases hfound
    | some entry' =>
      obtain ⟨rfl, rfl⟩ := Prod.mk.inj (except_pure_eq_ok.mp hfound)
      exact ⟨hcheck, hwalk⟩
  · rintro ⟨hcheck, hwalk⟩
    exact ⟨_, ⟨_, hcheck, hwalk⟩, rfl⟩

/-- A path to a directory, with or without a slash at its end, leads to a file of the directory when
the name of the file is put at its end. -/
theorem walk_file {name : String} {content : ByteArray} (hproper : ProperName name)
    (hget : t.get? (home ++ [name]) = some (.file content)) {front last : List String}
    (hlast : last = [] ∨ last = [""]) {links : Nat} {here : Location}
    (h : t.walk true links here (front ++ last) = .ok (home, some .directory)) :
    t.walk true links here (front ++ [name]) = .ok (home ++ [name], some (.file content)) := by
  refine walk_append ?_ links front here h
  intro jump here hend
  obtain rfl : here = home := by
    rcases hlast with rfl | rfl
    · simpa [walkNames] using hend
    · simpa [walkNames] using hend
  have hhere : ¬ (name.isEmpty || name = ".") = true := by
    simp [hproper.nonempty, hproper.notHere]
  rw [walkNames, if_neg hhere, if_neg hproper.notAbove, if_neg (Nat.not_lt.mpr hproper.short)]
  dsimp only
  rw [hget]
  rfl

theorem checkPath_join {name : String} (hdirectory : checkPath directory = .ok ())
    (hproper : ProperName name) : checkPath (Path.join directory name) =
      if greatestPathLength < (Path.join directory name).utf8ByteSize then .error .nameTooLong
      else .ok () := by
  obtain ⟨hne, hnul, _⟩ := checkPath_eq_ok.mp hdirectory
  have hrelative := Path.isAbsolute_of_not_mem hproper.noSlash
  obtain ⟨between, hbetween, hjoin⟩ := Path.join_relative directory
  have hempty : Path.join directory name ≠ "" := by
    simp [hjoin name hrelative, hne]
  have hclear : '\x00' ∉ (Path.join directory name).toList := by
    rw [hjoin name hrelative]
    rcases hbetween with rfl | rfl
    · simp [hnul, hproper.noNul]
    · simp [hnul, hproper.noNul]
  simp [checkPath, hempty, hclear]

/-- A file of a listed directory is found behind the path of the directory, unless the path that
names it is too long. -/
theorem WellFormed.resolve_file (wf : t.WellFormed)
    (hlisted : t.resolve true directory = .ok (home, .directory)) {name : String}
    {content : ByteArray} (hfile : (name, .file content) ∈ t.children home) :
    t.resolve true (Path.join directory name) =
      if greatestPathLength < (Path.join directory name).utf8ByteSize then .error .nameTooLong
      else .ok (home ++ [name], .file content) := by
  have hproper := wf.proper_child hfile
  obtain ⟨hcheck, hwalk⟩ := resolve_eq_ok.mp hlisted
  obtain ⟨hne, _, _⟩ := checkPath_eq_ok.mp hcheck
  split
  · rename_i hlong
    simp only [resolve, locate, checkPath_join hcheck hproper, if_pos hlong]
    rfl
  · rename_i hlong
    rw [resolve_eq_ok, checkPath_join hcheck hproper, if_neg hlong]
    refine ⟨rfl, ?_⟩
    obtain ⟨front, last, hlast, hnames, hjoined⟩ := Path.names_join hne hproper.noSlash
    rw [origin, Path.isAbsolute_join_relative hne (Path.isAbsolute_of_not_mem hproper.noSlash),
      ← origin, hjoined]
    rw [hnames] at hwalk
    exact walk_file hproper (wf.get?_child hfile) hlast hwalk

end SeedTables.FileTree
