import SeedTables.Proofs.ByteOrder
import SeedTables.Proofs.ListedDirectory
import SeedTables.Proofs.RecordParts

namespace SeedTables.FileTree

/-- The `json` files of a directory with what they contain, by the bytes of their names. -/
structure SchemaFiles (t : FileTree) (home : Location) (files : List (String × ByteArray)) :
    Prop where
  mem_iff : ∀ name content, (name, content) ∈ files ↔
    (name, .file content) ∈ t.children home ∧ ∃ stem, stem ≠ "" ∧ name = stem ++ ".json"
  ascending : files.Pairwise fun a b => Text.bytes a.1.toList < Text.bytes b.1.toList

/-- The document of a file, under the path of the directory continued by the name of the file. -/
structure ReadAs (directory : String) (file : String × ByteArray) (d : Document) : Prop where
  short : (Path.join directory file.1).utf8ByteSize ≤ greatestPathLength
  value : ∃ text, String.fromUTF8? file.2 = some text ∧ Json.Value.ofText text = .ok d.value
  origin : d.origin = Path.join directory file.1

/-- Why a file has no document. -/
inductive RefusedWith (directory : String) (file : String × ByteArray) : Error → Prop where
  | tooLong (long : greatestPathLength < (Path.join directory file.1).utf8ByteSize) :
      RefusedWith directory file (.file .nameTooLong)
  | notText (short : (Path.join directory file.1).utf8ByteSize ≤ greatestPathLength)
      (bytes : String.fromUTF8? file.2 = none) : RefusedWith directory file (.file .notText)
  | garbled {text : String} {fault : Json.ReadError}
      (short : (Path.join directory file.1).utf8ByteSize ≤ greatestPathLength)
      (bytes : String.fromUTF8? file.2 = some text)
      (wrong : Json.Value.ofText text = .error fault) :
      RefusedWith directory file
        (.malformed (Path.join directory file.1) (.document (.unreadable fault)))

/-- An entry that is a `json` file. -/
def schemaFile? : String × Entry → Option (String × ByteArray)
  | (name, .file content) =>
    if Path.extension? name = some "json" then some (name, content) else none
  | (_, .directory) | (_, .link _) => none

/-- What reading a file of the directory gives. -/
def readFile (directory : String) (file : String × ByteArray) : Except Error Document :=
  let path := Path.join directory file.1
  if greatestPathLength < path.utf8ByteSize then .error (.file .nameTooLong)
  else match String.fromUTF8? file.2 with
    | none => .error (.file .notText)
    | some text => match Json.Value.ofText text with
      | .ok value => .ok ⟨path, value⟩
      | .error fault => .error (.malformed path (.document (.unreadable fault)))

variable {t u : FileTree} {directory : String} {home : Location} {file : String × ByteArray}

theorem readFile_eq_ok {d : Document} :
    readFile directory file = .ok d ↔ ReadAs directory file d := by
  unfold readFile
  dsimp only
  split
  · rename_i hlong
    simp only [reduceCtorEq, false_iff]
    exact fun h => absurd h.short (Nat.not_le.mpr hlong)
  rename_i hshort
  constructor
  · intro h
    split at h
    · cases h
    rename_i text htext
    split at h
    · rename_i value hvalue
      obtain rfl := Except.ok.inj h
      exact ⟨Nat.not_lt.mp hshort, ⟨text, htext, hvalue⟩, rfl⟩
    · cases h
  · rintro ⟨_, ⟨text, htext, hvalue⟩, horigin⟩
    rw [htext]
    dsimp only
    rw [hvalue]
    exact congrArg Except.ok (by cases d; cases horigin; rfl)

theorem readFile_eq_error {e : Error} :
    readFile directory file = .error e ↔ RefusedWith directory file e := by
  unfold readFile
  dsimp only
  constructor
  · intro h
    split at h
    · rename_i hlong
      cases h
      exact .tooLong hlong
    rename_i hshort
    split at h
    · rename_i hbytes
      cases h
      exact .notText (Nat.not_lt.mp hshort) hbytes
    rename_i text hbytes
    split at h
    · cases h
    · rename_i fault hwrong
      cases h
      exact .garbled (Nat.not_lt.mp hshort) hbytes hwrong
  · intro h
    cases h with
    | tooLong long => rw [if_pos long]
    | notText short bytes => rw [if_neg (Nat.not_lt.mpr short), bytes]
    | garbled short bytes wrong =>
      rw [if_neg (Nat.not_lt.mpr short), bytes]
      dsimp only
      rw [wrong]

theorem extension?_eq_json {name : String} : Path.extension? name = some "json" ↔
    ∃ stem, stem ≠ "" ∧ name = stem ++ ".json" := by
  have hpoint : '.' ∉ "json".toList := by decide
  have hjoin (stem : String) : stem ++ "." ++ "json" = stem ++ ".json" := by
    rw [String.append_assoc]
    rfl
  simp only [Path.extension?_eq_some, hpoint, not_false_eq_true, true_and, hjoin]

theorem schemaFile?_eq_some {c : String × Entry} : schemaFile? c = some file ↔
    c = (file.1, .file file.2) ∧ ∃ stem, stem ≠ "" ∧ file.1 = stem ++ ".json" := by
  obtain ⟨name, entry⟩ := c
  obtain ⟨name', content'⟩ := file
  rw [← extension?_eq_json]
  cases entry with
  | directory => simp [schemaFile?]
  | link target => simp [schemaFile?]
  | file content =>
    simp only [schemaFile?, Option.ite_none_right_eq_some, Option.some.injEq, Prod.mk.injEq,
      Entry.file.injEq]
    constructor
    · rintro ⟨hjson, rfl, rfl⟩
      exact ⟨⟨rfl, rfl⟩, hjson⟩
    · rintro ⟨⟨rfl, rfl⟩, hjson⟩
      exact ⟨hjson, rfl, rfl⟩

theorem WellFormed.readDocument_file (wf : t.WellFormed)
    (hlisted : t.resolve true directory = .ok (home, .directory))
    {name : String} {content : ByteArray} (hfile : (name, .file content) ∈ t.children home) :
    t.readDocument (Path.join directory name) = readFile directory (name, content) := by
  rw [readDocument, readText, wf.resolve_file hlisted hfile, readFile]
  dsimp only
  split
  · rfl
  · dsimp only [bind, Except.bind]
    cases String.fromUTF8? content with
    | none => rfl
    | some text =>
      dsimp only [pure, Except.pure, except_mapError_ok]
      cases Json.Value.ofText text <;> rfl

theorem WellFormed.documentOf_plain (wf : t.WellFormed)
    (hlisted : t.resolve true directory = .ok (home, .directory)) {c : String × Entry}
    (hc : c ∈ t.children home) (hplain : ∀ target, c.2 ≠ .link target) :
    t.documentOf directory home c =
      (schemaFile? c).elim (.ok none) fun file => (readFile directory file).map some := by
  obtain ⟨name, entry⟩ := c
  cases entry with
  | directory => rfl
  | link target => exact absurd rfl (hplain target)
  | file content =>
    simp only [documentOf, leadsToFile, except_mapError_ok, schemaFile?,
      wf.readDocument_file hlisted hc]
    by_cases hjson : Path.extension? name = some "json"
    · simp [hjson, bind, Except.bind]
    · simp [hjson, bind, Except.bind, pure, Except.pure]

theorem documents_listed (hlisted : t.resolve true directory = .ok (home, .directory)) :
    t.documents directory =
      ((t.sortedChildren home).mapM (t.documentOf directory home)).map (List.filterMap id) := by
  rw [documents, hlisted]
  rfl

/-- A directory without links is read file by file. -/
theorem WellFormed.documents_plain (wf : t.WellFormed)
    (hlisted : t.resolve true directory = .ok (home, .directory))
    (hplain : ∀ c ∈ t.children home, ∀ target, c.2 ≠ .link target) :
    t.documents directory =
      ((t.sortedChildren home).filterMap schemaFile?).mapM (readFile directory) := by
  rw [documents_listed hlisted]
  refine except_mapM_filterMap fun c hc => ?_
  have hchild := mem_sortedChildren.mp hc
  exact wf.documentOf_plain hlisted hchild (hplain c hchild)

theorem WellFormed.schemaFiles (wf : t.WellFormed) :
    t.SchemaFiles home ((t.sortedChildren home).filterMap schemaFile?) where
  mem_iff name content := by
    rw [List.mem_filterMap]
    simp only [schemaFile?_eq_some, mem_sortedChildren]
    constructor
    · rintro ⟨_, hc, rfl, hjson⟩
      exact ⟨hc, hjson⟩
    · rintro ⟨hc, hjson⟩
      exact ⟨_, hc, rfl, hjson⟩
  ascending := by
    rw [List.pairwise_filterMap]
    refine wf.sortedChildren_ascending.imp ?_
    intro c d hlt a ha b hb
    obtain ⟨rfl, _⟩ := schemaFile?_eq_some.mp ha
    obtain ⟨rfl, _⟩ := schemaFile?_eq_some.mp hb
    exact Text.bytes_lt_bytes.mpr hlt

/-- A directory has one list of its `json` files. -/
theorem SchemaFiles.unique {files files' : List (String × ByteArray)}
    (h : t.SchemaFiles home files) (h' : t.SchemaFiles home files') : files = files' := by
  have hnodup {files : List (String × ByteArray)} (h : t.SchemaFiles home files) :
      files.Nodup := by
    refine h.ascending.imp ?_
    rintro a _ hlt rfl
    exact List.lt_irrefl _ hlt
  refine List.Perm.eq_of_pairwise ?_ h.ascending h'.ascending ?_
  · exact fun a b _ _ hab hba => absurd hba (List.lt_asymm hab)
  · refine (List.perm_ext_iff_of_nodup (hnodup h) (hnodup h')).mpr fun ⟨name, content⟩ => ?_
    rw [h.mem_iff, h'.mem_iff]

theorem documentOf_congr {c : String × Entry}
    (h : t.resolve true (Path.join directory c.1) = u.resolve true (Path.join directory c.1)) :
    t.documentOf directory home c = u.documentOf directory home c := by
  obtain ⟨name, entry⟩ := c
  cases entry <;> simp only [documentOf, leadsToFile, readDocument, readText, h]

theorem WellFormed.perm (wf : t.WellFormed) (hperm : u.entries.Perm t.entries) : u.WellFormed where
  distinct := (hperm.map Prod.fst).nodup_iff.mpr wf.distinct
  proper e he := wf.proper e (hperm.mem_iff.mp he)

theorem WellFormed.get?_perm (wf : t.WellFormed) (hperm : u.entries.Perm t.entries) :
    u.get? = t.get? := by
  funext place
  by_cases hplace : place = []
  · rw [hplace]
    rfl
  · refine Option.ext fun entry => ?_
    rw [(wf.perm hperm).get?_eq_some hplace, wf.get?_eq_some hplace, hperm.mem_iff]

theorem WellFormed.documents_perm (wf : t.WellFormed) (hperm : u.entries.Perm t.entries)
    (hworking : u.workingDirectory = t.workingDirectory) :
    u.documents directory = t.documents directory := by
  have hresolve := resolve_congr (wf.get?_perm hperm) hworking
  have hdocument (home : Location) :
      u.documentOf directory home = t.documentOf directory home := by
    funext c
    exact documentOf_congr (hresolve true _)
  have hsorted (home : Location) : u.sortedChildren home = t.sortedChildren home :=
    (wf.perm hperm).sortedChildren_eq
      ((List.mergeSort_perm _ _).trans (hperm.filterMap _).symm) wf.sortedChildren_ascending
  simp only [documents, hresolve, hdocument, hsorted]

/-- The documents of a directory without links do not depend on the order in which its entries are
stored. They are those of its `json` files, one for each in the order of the names, if all of these
can be read, and otherwise the first one that cannot be read gives the error. -/
theorem WellFormed.documents_ofFiles (wf : t.WellFormed)
    (hlisted : t.resolve true directory = .ok (home, .directory))
    (hplain : ∀ c ∈ t.children home, ∀ target, c.2 ≠ .link target) :
    (∀ u : FileTree, u.entries.Perm t.entries → u.workingDirectory = t.workingDirectory →
      u.documents directory = t.documents directory) ∧
    ∃ files, t.SchemaFiles home files ∧
      (∀ ds, t.documents directory = .ok ds ↔ List.Forall₂ (ReadAs directory) files ds) ∧
      ∀ e, t.documents directory = .error e ↔ ∃ file,
        AfterOnly (fun f => ∃ d, ReadAs directory f d) files file ∧
        RefusedWith directory file e := by
  refine ⟨fun u => wf.documents_perm, _, wf.schemaFiles, fun ds => ?_, fun e => ?_⟩
  · rw [wf.documents_plain hlisted hplain, except_mapM_eq_ok_iff_forall₂]
    simp only [readFile_eq_ok]
  · rw [wf.documents_plain hlisted hplain, except_mapM_eq_error_afterOnly]
    simp only [readFile_eq_ok, readFile_eq_error]

/-- A directory whose `json` files are not stored by name, with a directory that is named like one
and a hidden file without an extension. -/
def mixed : FileTree where
  entries := [(["work"], .directory), (["work", "schema"], .directory),
    (["work", "schema", "users.json"], .file "[]".toUTF8),
    (["work", "schema", "Zones.json"], .file "null".toUTF8),
    (["work", "schema", ".json"], .file "\x7b".toUTF8),
    (["work", "schema", "old.json"], .directory),
    (["work", "schema", "old.json", "users.json"], .file "\x7b".toUTF8)]
  workingDirectory := ["work"]

theorem mixed_children : mixed.children ["work", "schema"] =
    [("users.json", .file "[]".toUTF8), ("Zones.json", .file "null".toUTF8),
      (".json", .file "\x7b".toUTF8), ("old.json", .directory)] := rfl

theorem mixed_schemaFiles : mixed.SchemaFiles ["work", "schema"]
    [("Zones.json", "null".toUTF8), ("users.json", "[]".toUTF8)] where
  mem_iff name content := by
    rw [mixed_children, ← extension?_eq_json]
    constructor
    · intro h
      simp only [List.mem_cons, Prod.mk.injEq, List.not_mem_nil, or_false] at h
      rcases h with ⟨rfl, rfl⟩ | ⟨rfl, rfl⟩
      · exact ⟨by simp, by decide⟩
      · exact ⟨by simp, by decide⟩
    · rintro ⟨h, hjson⟩
      simp only [List.mem_cons, Prod.mk.injEq, Entry.file.injEq, reduceCtorEq, and_false,
        List.not_mem_nil, or_false] at h
      rcases h with ⟨rfl, rfl⟩ | ⟨rfl, rfl⟩ | ⟨rfl, rfl⟩
      · simp
      · simp
      · exact absurd hjson (by decide)
  ascending := by decide

theorem documents_ofFiles_mixed : mixed.WellFormed ∧
    mixed.resolve true "schema" = .ok (["work", "schema"], .directory) ∧
    (∀ c ∈ mixed.children ["work", "schema"], ∀ target, c.2 ≠ .link target) ∧
    mixed.documents "schema" =
      .ok [⟨"schema/Zones.json", .null⟩, ⟨"schema/users.json", .array []⟩] := by
  have wf : mixed.WellFormed := by decide
  have hlisted : mixed.resolve true "schema" = .ok (["work", "schema"], .directory) := rfl
  have hplain : ∀ c ∈ mixed.children ["work", "schema"], ∀ target, c.2 ≠ .link target := by
    rw [mixed_children]
    simp
  refine ⟨wf, hlisted, hplain, ?_⟩
  obtain ⟨_, files, hfiles, hok, _⟩ := wf.documents_ofFiles hlisted hplain
  obtain rfl := hfiles.unique mixed_schemaFiles
  have hzones : ReadAs "schema" ("Zones.json", "null".toUTF8) ⟨"schema/Zones.json", .null⟩ :=
    ⟨by decide, ⟨"null", rfl, rfl⟩, rfl⟩
  have husers : ReadAs "schema" ("users.json", "[]".toUTF8) ⟨"schema/users.json", .array []⟩ :=
    ⟨by decide, ⟨"[]", rfl, rfl⟩, rfl⟩
  exact (hok _).mpr (.cons hzones (.cons husers .nil))

/-- A path to the directory `d` with slashes behind it. -/
def slashed (n : Nat) : String := String.ofList ('d' :: List.replicate n '/')

def oneFile : FileTree where
  entries := [(["work"], .directory), (["work", "d"], .directory),
    (["work", "d", "a.json"], .file "null".toUTF8)]
  workingDirectory := ["work"]

theorem split_slashes (n : Nat) :
    Path.split (List.replicate n '/') = List.replicate (n + 1) [] := by
  induction n with
  | zero => rfl
  | succ n ih => rw [List.replicate_succ, Path.split, if_pos rfl, ih, ← List.replicate_succ]

theorem names_slashed (n : Nat) : Path.names (slashed n) = "d" :: List.replicate n "" := by
  have hd : 'd' ≠ '/' := by decide
  rw [Path.names, slashed, String.toList_ofList, Path.split, if_neg hd, split_slashes,
    List.replicate_succ, List.map_cons, List.map_replicate]

theorem utf8ByteSize_slashed (n : Nat) : (slashed n).utf8ByteSize = n + 1 := by
  induction n with
  | zero => rfl
  | succ n ih =>
    have hlast : slashed (n + 1) = slashed n ++ "/" := by
      rw [slashed, List.replicate_succ', ← List.cons_append, String.ofList_append]
      rfl
    rw [hlast, String.utf8ByteSize_append, ih]
    rfl

theorem walkNames_empty (follow : Bool) (jump : Location → List String → Except FileFault Spot)
    (here : Location) (n : Nat) :
    t.walkNames follow jump here (List.replicate n "") = .ok (here, some .directory) := by
  induction n with
  | zero => rfl
  | succ n ih =>
    rw [List.replicate_succ, walkNames]
    exact ih

theorem slashed_listed {n : Nat} (h : n < greatestPathLength) :
    oneFile.resolve true (slashed n) = .ok (["work", "d"], .directory) := by
  have horigin : origin oneFile.workingDirectory (slashed n) = ["work"] := by
    rw [origin, if_neg]
    · rfl
    · simp [Path.isAbsolute, slashed]
  rw [resolve_eq_ok, checkPath_eq_ok, utf8ByteSize_slashed, names_slashed, horigin]
  refine ⟨⟨?_, ?_, h⟩, walkNames_empty true (oneFile.walk true 39) ["work", "d"] n⟩
  · simp [slashed]
  · simp [slashed]

/-- The path leads to the directory, but with the name of the file behind it no file is opened. -/
theorem slashed_tooLong : oneFile.WellFormed ∧
    oneFile.resolve true (slashed 4090) = .ok (["work", "d"], .directory) ∧
    oneFile.children ["work", "d"] = [("a.json", .file "null".toUTF8)] ∧
    Json.Value.ofText "null" = .ok .null ∧
    oneFile.documents (slashed 4090) = .error (.file .nameTooLong) := by
  have wf : oneFile.WellFormed := by decide
  have hlisted := slashed_listed (n := 4090) (by decide)
  have hchildren : oneFile.children ["work", "d"] = [("a.json", .file "null".toUTF8)] := rfl
  refine ⟨wf, hlisted, hchildren, rfl, ?_⟩
  have hplain : ∀ c ∈ oneFile.children ["work", "d"], ∀ target, c.2 ≠ .link target := by
    rw [hchildren]
    simp
  have hsorted : oneFile.sortedChildren ["work", "d"] = [("a.json", .file "null".toUTF8)] :=
    List.mergeSort_singleton _
  have hlong : greatestPathLength < (Path.join (slashed 4090) "a.json").utf8ByteSize := by
    rw [Path.join, if_neg (by decide), if_pos, String.utf8ByteSize_append, utf8ByteSize_slashed]
    · decide
    · refine .inr ?_
      rw [slashed, List.replicate_succ', String.toList_ofList, ← List.cons_append,
        List.getLast?_concat]
  rw [wf.documents_plain hlisted hplain, hsorted]
  exact except_mapM_eq_error.mpr ⟨[], _, [], rfl, by simp, readFile_eq_error.mpr (.tooLong hlong)⟩

end SeedTables.FileTree
