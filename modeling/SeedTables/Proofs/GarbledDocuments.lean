import SeedTables.Proofs.ListedDirectory
import SeedTables.Proofs.Verdicts

namespace SeedTables

namespace FileTree

def HoldsDocument (t : FileTree) (directory : String) (home : Location)
    (entry : String × Entry) : Prop :=
  t.leadsToFile directory home (Path.join directory entry.1) entry.2 = .ok true ∧
    Path.extension? entry.1 = some "json"

/-- A directory of which every entry can be followed and every document read as text. -/
structure Readable (t : FileTree) (directory : String) (home : Location) : Prop where
  listed : t.resolve true directory = .ok (home, .directory)
  followed : ∀ c ∈ t.children home,
    ∃ isFile, t.leadsToFile directory home (Path.join directory c.1) c.2 = .ok isFile
  text : ∀ c ∈ t.children home, t.HoldsDocument directory home c →
    ∃ text, t.readText (Path.join directory c.1) = .ok text

/-- A document whose text is no JSON. -/
def Garbled (t : FileTree) (directory : String) (home : Location) (entry : String × Entry)
    (fault : Json.ReadError) : Prop :=
  t.HoldsDocument directory home entry ∧
    ∃ text, t.readText (Path.join directory entry.1) = .ok text ∧
      Json.Value.ofText text = .error fault

def garbledError (directory : String) (entry : String × Entry) (fault : Json.ReadError) : Error :=
  .malformed (Path.join directory entry.1) (.document (.unreadable fault))

variable {t : FileTree} {directory : String} {home : Location}

theorem Garbled.documentOf {entry : String × Entry} {fault : Json.ReadError}
    (h : t.Garbled directory home entry fault) :
    t.documentOf directory home entry = .error (garbledError directory entry fault) := by
  obtain ⟨⟨hfile, hjson⟩, text, htext, hfault⟩ := h
  simp [FileTree.documentOf, readDocument, hfile, hjson, htext, hfault, except_mapError_ok,
    bind, Except.bind, Except.map, throw, throwThe, MonadExceptOf.throw, garbledError]

theorem Readable.documentOf (h : t.Readable directory home) {entry : String × Entry}
    (hm : entry ∈ t.children home) :
    (∃ fault, t.Garbled directory home entry fault) ∨
      ∃ found, t.documentOf directory home entry = .ok found := by
  obtain ⟨isFile, hfile⟩ := h.followed entry hm
  by_cases hdoc : isFile = true ∧ Path.extension? entry.1 = some "json"
  · obtain ⟨rfl, hjson⟩ := hdoc
    obtain ⟨text, htext⟩ := h.text entry hm ⟨hfile, hjson⟩
    cases hv : Json.Value.ofText text with
    | error fault => exact .inl ⟨fault, ⟨hfile, hjson⟩, text, htext, hv⟩
    | ok value =>
      refine .inr ⟨some ⟨Path.join directory entry.1, value⟩, ?_⟩
      simp [FileTree.documentOf, readDocument, hfile, hjson, htext, hv, except_mapError_ok, bind,
        Except.bind, Except.map, pure, Except.pure]
  · refine .inr ⟨none, ?_⟩
    simp only [FileTree.documentOf, hfile, except_mapError_ok, bind, Except.bind, hdoc, ↓reduceIte]
    rfl

/-- Reading a readable directory fails at its first garbled document, and only there. -/
theorem Readable.documents_eq_error (h : t.Readable directory home) {e : Error} :
    t.documents directory = .error e ↔ ∃ before c after fault,
      t.sortedChildren home = before ++ c :: after ∧
      (∀ b ∈ before, ∀ fault, ¬ t.Garbled directory home b fault) ∧
      t.Garbled directory home c fault ∧ e = garbledError directory c fault := by
  have hchild : ∀ before c after, t.sortedChildren home = before ++ c :: after →
      ∀ b ∈ before ++ c :: after, b ∈ t.children home :=
    fun before c after hs b hb => mem_sortedChildren.mp (hs ▸ hb)
  simp only [documents, h.listed, except_bind_eq_error, except_pure_eq_error, and_false,
    exists_false, or_false, except_mapM_eq_error]
  constructor
  · rintro ⟨before, c, after, hs, hbefore, hc⟩
    rcases h.documentOf (hchild before c after hs c (by simp)) with ⟨fault, hg⟩ | ⟨found, hf⟩
    · refine ⟨before, c, after, fault, hs, ?_, hg, Except.error.inj (hc.symm.trans hg.documentOf)⟩
      intro b hb fault' hg'
      obtain ⟨found, hf⟩ := hbefore b hb
      rw [hg'.documentOf] at hf
      cases hf
    · rw [hf] at hc
      cases hc
  · rintro ⟨before, c, after, fault, hs, hbefore, hg, rfl⟩
    refine ⟨before, c, after, hs, ?_, hg.documentOf⟩
    intro b hb
    rcases h.documentOf (hchild before c after hs b (by simp [hb])) with ⟨fault', hg'⟩ | hf
    · exact absurd hg' (hbefore b hb fault')
    · exact hf

theorem Readable.documents_ne_error_iff (h : t.Readable directory home) :
    (∀ e, t.documents directory ≠ .error e) ↔
      ∀ c ∈ t.children home, ∀ fault, ¬ t.Garbled directory home c fault := by
  constructor
  · intro hok c hc fault hg
    cases hd : t.documents directory with
    | error e => exact hok e hd
    | ok documents =>
      simp only [FileTree.documents, h.listed, except_bind_eq_ok] at hd
      obtain ⟨found, hm, _⟩ := hd
      obtain ⟨x, hx⟩ := except_mapM_each hm (mem_sortedChildren.mpr hc)
      rw [hg.documentOf] at hx
      cases hx
  · intro hnone e he
    obtain ⟨before, c, after, fault, hs, _, hg, _⟩ := h.documents_eq_error.mp he
    exact hnone c (mem_sortedChildren.mp (by simp [hs])) fault hg

end FileTree

namespace Plan

/-- Under `skipInvalid` documents in memory always give a plan; a readable directory gives one
exactly if none of its documents is garbled. Otherwise the first garbled document by name ends the
planning with an error about its own table. -/
theorem skipInvalid_isolates_iff (config : Config) (hpolicy : config.policy = .skipInvalid)
    (t : FileTree) :
    (∀ documents, ∃ p, ofSource config t (.memory documents) = .ok p) ∧
    ∀ directory home, t.Readable directory home →
      ((∃ p, ofSource config t (.directory directory) = .ok p) ↔
        ∀ c ∈ t.children home, ∀ fault, ¬ t.Garbled directory home c fault) ∧
      ((∀ e, ofSource config t (.directory directory) = .error e → e.isTableLocal = false) ↔
        ∀ c ∈ t.children home, ∀ fault, ¬ t.Garbled directory home c fault) ∧
      ∀ e, ofSource config t (.directory directory) = .error e ↔ ∃ before c after fault,
        t.sortedChildren home = before ++ c :: after ∧
        (∀ b ∈ before, ∀ fault, ¬ t.Garbled directory home b fault) ∧
        t.Garbled directory home c fault ∧ e = FileTree.garbledError directory c fault := by
  refine ⟨fun documents => ⟨_, ofSource_skipInvalid hpolicy t (.memory documents)⟩, ?_⟩
  intro directory home h
  have herror (e : Error) : ofSource config t (.directory directory) = .error e ↔
      ∃ before c after fault, t.sortedChildren home = before ++ c :: after ∧
        (∀ b ∈ before, ∀ fault, ¬ t.Garbled directory home b fault) ∧
        t.Garbled directory home c fault ∧ e = FileTree.garbledError directory c fault :=
    (ofSource_skipInvalid_eq_error hpolicy).trans h.documents_eq_error
  have hnone : (∀ e, ofSource config t (.directory directory) ≠ .error e) ↔
      ∀ c ∈ t.children home, ∀ fault, ¬ t.Garbled directory home c fault := by
    rw [← h.documents_ne_error_iff]
    exact forall_congr' fun e => not_congr (ofSource_skipInvalid_eq_error hpolicy)
  -- Planning has no errors of its own under this policy, so that both conditions speak of reading.
  refine ⟨?_, ?_, herror⟩
  · rw [← hnone]
    cases ofSource config t (.directory directory) <;> simp
  · rw [← hnone]
    constructor
    · intro hlocal e he
      have hfalse := hlocal e he
      obtain ⟨_, _, _, _, _, _, _, rfl⟩ := (herror e).mp he
      cases hfalse
    · exact fun hok e he => absurd he (hok e)

end Plan

def usersText : String :=
  "\x7b\"tableName\":\"users\",\"columns\":[\x7b\"columnName\":\"id\",\"type\":\"integer\"\x7d],"
    ++ "\"rows\":[\x7b\"id\":1\x7d]\x7d"

def halfGarbled : FileTree where
  entries := [(["home"], .directory), (["home", "schema"], .directory),
    (["home", "schema", "broken.json"], .file "\x7b".toUTF8),
    (["home", "schema", "users.json"], .file usersText.toUTF8)]
  workingDirectory := ["home"]

theorem halfGarbled_children : halfGarbled.children ["home", "schema"] =
    [("broken.json", .file "\x7b".toUTF8), ("users.json", .file usersText.toUTF8)] := rfl

theorem halfGarbled_readable : halfGarbled.Readable "schema" ["home", "schema"] where
  listed := rfl
  followed := by
    intro c hc
    rw [halfGarbled_children] at hc
    simp only [List.mem_cons, List.not_mem_nil, or_false] at hc
    rcases hc with rfl | rfl
    · exact ⟨true, rfl⟩
    · exact ⟨true, rfl⟩
  text := by
    intro c hc _
    rw [halfGarbled_children] at hc
    simp only [List.mem_cons, List.not_mem_nil, or_false] at hc
    rcases hc with rfl | rfl
    · exact ⟨"\x7b", rfl⟩
    · exact ⟨usersText, rfl⟩

theorem halfGarbled_garbled : halfGarbled.Garbled "schema" ["home", "schema"]
    ("broken.json", .file "\x7b".toUTF8) ⟨.unfinishedObject, ⟨1, 1⟩⟩ :=
  ⟨⟨rfl, by decide⟩, "\x7b", rfl, rfl⟩

namespace Plan

theorem skipInvalid_isolates_iff_halfGarbled :
    ({ policy := .skipInvalid } : Config).policy = .skipInvalid ∧
    halfGarbled.Readable "schema" ["home", "schema"] ∧
    ¬ ∃ p, ofSource { policy := .skipInvalid } halfGarbled (.directory "schema") = .ok p := by
  refine ⟨rfl, halfGarbled_readable, ?_⟩
  have h := (skipInvalid_isolates_iff { policy := .skipInvalid } rfl halfGarbled).2
    "schema" ["home", "schema"] halfGarbled_readable
  intro hok
  refine h.1.mp hok _ ?_ _ halfGarbled_garbled
  rw [halfGarbled_children]
  exact List.mem_cons_self

/-- One garbled document takes the whole directory with it, although its error concerns one table
and errors of this kind are to be put aside. -/
theorem halfGarbled_not_isolated : halfGarbled.Readable "schema" ["home", "schema"] ∧
    ∃ e, ofSource { policy := .skipInvalid } halfGarbled (.directory "schema") = .error e ∧
      e.isTableLocal = true := by
  have hsorted : halfGarbled.sortedChildren ["home", "schema"] =
      [("broken.json", .file "\x7b".toUTF8), ("users.json", .file usersText.toUTF8)] :=
    List.mergeSort_of_pairwise (by decide)
  have hdocuments : halfGarbled.documents "schema" = .error (FileTree.garbledError "schema"
      ("broken.json", .file "\x7b".toUTF8) ⟨.unfinishedObject, ⟨1, 1⟩⟩) :=
    halfGarbled_readable.documents_eq_error.mpr
      ⟨[], _, _, _, hsorted, by simp, halfGarbled_garbled, rfl⟩
  exact ⟨halfGarbled_readable, _, (ofSource_skipInvalid_eq_error rfl).mpr hdocuments, rfl⟩

end Plan
end SeedTables
