import SeedTables.Proofs.DelimitedText
import SeedTables.Proofs.PrintedPaths
import SeedTables.Statement

namespace SeedTables

open Text

/-- A name that holds none of the characters that end a name in a statement. -/
def PlainName (name : String) : Prop := ∀ c ∈ [' ', ',', '(', ')', '\''], c ∉ name.toList

instance (name : String) : Decidable (PlainName name) :=
  List.decidableBAll (· ∉ name.toList) [' ', ',', '(', ')', '\'']

/-- A type without commas and without capitals, which only its modifiers have. -/
def PlainType (type : String) : Prop := ∀ c ∈ type.toList, c ≠ ',' ∧ c.isUpper = false

instance (type : String) : Decidable (PlainType type) :=
  List.decidableBAll (fun c => c ≠ ',' ∧ c.isUpper = false) type.toList

theorem delimited_names : Delimited PlainName String.toList ',' :=
  delimited_of_not_mem (fun _ h => h ',' (by decide)) fun _ _ _ _ h => String.toList_inj.mp h

/-- Two texts that each go on with a word or do without it go on in the same way, if the second
letter of the word tells it from what else is there. -/
theorem flag_append_inj {word rest rest' : List Char} {letter : Char} {b b' : Bool}
    (hword : word[1]? = some letter) (hr : rest[1]? ≠ some letter) (hr' : rest'[1]? ≠ some letter)
    (h : (if b then word else []) ++ rest = (if b' then word else []) ++ rest') :
    b = b' ∧ rest = rest' := by
  have hsecond (more : List Char) : (word ++ more)[1]? = some letter := by
    rw [List.getElem?_append_left (List.getElem?_eq_some_iff.mp hword).1, hword]
  cases b with
  | false =>
    cases b' with
    | false => exact ⟨rfl, h⟩
    | true => exact absurd (congrArg (·[1]?) h |>.trans (hsecond rest')) hr
  | true =>
    cases b' with
    | false => exact absurd ((congrArg (·[1]?) h).symm.trans (hsecond rest)) hr'
    | true => exact ⟨rfl, List.append_cancel_left h⟩

theorem toList_flag (b : Bool) (s : String) :
    (if b then s else "").toList = if b then s.toList else [] := by
  cases b <;> rfl

namespace ColumnDef

structure Plain (c : ColumnDef) : Prop where
  name : PlainName c.name
  type : PlainType c.type
  references : ∀ key ∈ c.references, PlainName key.table ∧ PlainName key.column

instance (c : ColumnDef) : Decidable c.Plain :=
  decidable_of_iff (PlainName c.name ∧ PlainType c.type ∧
      ∀ key ∈ c.references, PlainName key.table ∧ PlainName key.column)
    ⟨fun ⟨hname, htype, hreferences⟩ => ⟨hname, htype, hreferences⟩,
      fun h => ⟨h.name, h.type, h.references⟩⟩

def referencesText : Option ForeignKey → String
  | some key => " REFERENCES " ++ key.table ++ "(" ++ key.column ++ ")"
  | none => ""

/-- What follows the type of a column. -/
def modifiers (c : ColumnDef) : String :=
  (if c.primaryKey then " PRIMARY KEY" else "") ++ (if c.notNull then " NOT NULL" else "")
    ++ referencesText c.references

theorem text_eq (c : ColumnDef) : c.text = c.name ++ " " ++ c.type ++ c.modifiers := by
  have htext : c.text = c.name ++ " " ++ c.type ++ (if c.primaryKey then " PRIMARY KEY" else "")
    ++ (if c.notNull then " NOT NULL" else "") ++ referencesText c.references := rfl
  simp only [htext, modifiers, String.append_assoc]

theorem toList_text (c : ColumnDef) :
    c.text.toList = c.name.toList ++ ' ' :: (c.type.toList ++ c.modifiers.toList) := by
  simp only [text_eq, String.toList_append, List.append_assoc]
  rfl

theorem toList_modifiers (c : ColumnDef) : c.modifiers.toList =
    (if c.primaryKey then " PRIMARY KEY".toList else []) ++
      ((if c.notNull then " NOT NULL".toList else []) ++ (referencesText c.references).toList) := by
  simp only [modifiers, String.toList_append, List.append_assoc, toList_flag]

theorem toList_referencesText (key : ForeignKey) : (referencesText (some key)).toList =
    " REFERENCES ".toList ++ (key.table.toList ++ '(' :: (key.column.toList ++ [')'])) := by
  change (" REFERENCES " ++ key.table ++ "(" ++ key.column ++ ")").toList = _
  simp only [String.toList_append, List.append_assoc]
  rfl

/-- Modifiers start with a capital behind a blank. -/
theorem modifiers_start (c : ColumnDef) : c.modifiers.toList = [] ∨
    ∃ u rest, c.modifiers.toList = ' ' :: u :: rest ∧ u.isUpper = true := by
  rw [toList_modifiers]
  cases c.primaryKey with
  | true => exact .inr ⟨'P', _, rfl, by decide⟩
  | false =>
    cases c.notNull with
    | true => exact .inr ⟨'N', _, rfl, by decide⟩
    | false =>
      cases c.references with
      | some key =>
        rw [toList_referencesText]
        exact .inr ⟨'R', _, rfl, by decide⟩
      | none => exact .inl rfl

theorem referencesText_second (references : Option ForeignKey) :
    (referencesText references).toList[1]? = none ∨
      (referencesText references).toList[1]? = some 'R' := by
  cases references with
  | none => exact .inl rfl
  | some key =>
    rw [toList_referencesText]
    exact .inr rfl

theorem referencesText_inj {r r' : Option ForeignKey}
    (hr : ∀ key ∈ r, PlainName key.table ∧ PlainName key.column)
    (hr' : ∀ key ∈ r', PlainName key.table ∧ PlainName key.column)
    (h : (referencesText r).toList = (referencesText r').toList) : r = r' := by
  cases r with
  | none =>
    cases r' with
    | none => rfl
    | some key' =>
      rw [toList_referencesText] at h
      cases h
  | some key =>
    cases r' with
    | none =>
      rw [toList_referencesText] at h
      cases h
    | some key' =>
      rw [toList_referencesText, toList_referencesText] at h
      obtain ⟨htable, h⟩ := append_cons_inj ((hr key rfl).1 '(' (by decide))
        ((hr' key' rfl).1 '(' (by decide)) (List.append_cancel_left h)
      have hcolumn := String.toList_inj.mp (List.append_cancel_right h)
      rw [String.toList_inj] at htable
      cases key
      cases key'
      rw [Option.some.injEq, ForeignKey.mk.injEq]
      exact ⟨htable, hcolumn⟩

theorem modifiers_inj {c d : ColumnDef} (hc : c.Plain) (hd : d.Plain)
    (h : c.modifiers.toList = d.modifiers.toList) :
    c.primaryKey = d.primaryKey ∧ c.notNull = d.notNull ∧ c.references = d.references := by
  have hreferences (x : ColumnDef) : (referencesText x.references).toList[1]? ≠ some 'N' := by
    rcases referencesText_second x.references with hx | hx <;> simp [hx]
  have hnotNull (x : ColumnDef) : ((if x.notNull then " NOT NULL".toList else []) ++
      (referencesText x.references).toList)[1]? ≠ some 'P' := by
    cases x.notNull with
    | true => exact (by decide : some 'N' ≠ some 'P')
    | false => rcases referencesText_second x.references with hx | hx <;> simp [hx]
  rw [toList_modifiers, toList_modifiers] at h
  obtain ⟨hkey, h⟩ := flag_append_inj rfl (hnotNull c) (hnotNull d) h
  obtain ⟨hnull, h⟩ := flag_append_inj rfl (hreferences c) (hreferences d) h
  exact ⟨hkey, hnull, referencesText_inj hc.references hd.references h⟩

theorem type_append_inj {c d : ColumnDef} (hc : PlainType c.type) (hd : PlainType d.type)
    (h : c.type.toList ++ c.modifiers.toList = d.type.toList ++ d.modifiers.toList) :
    c.type = d.type ∧ c.modifiers.toList = d.modifiers.toList := by
  have hlower {x : ColumnDef} (hx : PlainType x.type) :
      ∀ a ∈ x.type.toList ++ [' '], ¬ a.isUpper = true := by
    intro a ha
    rcases List.mem_append.mp ha with ha | ha
    · simp [(hx a ha).2]
    · rw [List.mem_singleton.mp ha]
      decide
  -- The first capital of the text is the first letter of the modifiers, if there are any.
  rcases c.modifiers_start with hc' | ⟨u, rest, hc', hu⟩
  · rcases d.modifiers_start with hd' | ⟨v, rest', hd', hv⟩
    · rw [hc', hd', List.append_cancel_right_eq, String.toList_inj] at h
      exact ⟨h, hc'.trans hd'.symm⟩
    · have hmem : v ∈ c.type.toList ++ c.modifiers.toList := by simp [h, hd']
      rw [hc', List.append_nil] at hmem
      exact absurd hv (by simp [(hc v hmem).2])
  · rcases d.modifiers_start with hd' | ⟨v, rest', hd', hv⟩
    · have hmem : u ∈ d.type.toList ++ d.modifiers.toList := by simp [← h, hc']
      rw [hd', List.append_nil] at hmem
      exact absurd hu (by simp [(hd u hmem).2])
    · rw [hc', hd', List.append_cons, List.append_cons d.type.toList] at h
      obtain ⟨htype, hrest⟩ := append_inj_of_stops (p := (Char.isUpper · = true)) (hlower hc)
        (hlower hd) (stops_cons.mpr hu) (stops_cons.mpr hv) h
      rw [List.append_cancel_right_eq, String.toList_inj] at htype
      exact ⟨htype, by rw [hc', hd', hrest]⟩

theorem comma_not_mem_text {c : ColumnDef} (hc : c.Plain) : ',' ∉ c.text.toList := by
  have hreferences : ',' ∉ (referencesText c.references).toList := by
    cases hr : c.references with
    | none => exact List.not_mem_nil
    | some key =>
      obtain ⟨htable, hcolumn⟩ := hc.references key hr
      rw [toList_referencesText]
      simp [htable ',' (by decide), hcolumn ',' (by decide)]
  have hmodifiers : ',' ∉ c.modifiers.toList := by
    rw [toList_modifiers]
    cases c.primaryKey <;> cases c.notNull <;> simp [hreferences]
  have htype : ',' ∉ c.type.toList := fun h => (hc.type ',' h).1 rfl
  rw [toList_text]
  simp [hc.name ',' (by decide), htype, hmodifiers]

theorem text_inj {c d : ColumnDef} (hc : c.Plain) (hd : d.Plain)
    (h : c.text.toList = d.text.toList) : c = d := by
  rw [toList_text, toList_text] at h
  obtain ⟨hname, h⟩ := append_cons_inj (hc.name ' ' (by decide)) (hd.name ' ' (by decide)) h
  obtain ⟨htype, h⟩ := type_append_inj hc.type hd.type h
  obtain ⟨hkey, hnull, hreferences⟩ := modifiers_inj hc hd h
  rw [String.toList_inj] at hname
  cases c
  cases d
  rw [ColumnDef.mk.injEq]
  exact ⟨hname, htype, hkey, hnull, hreferences⟩

theorem delimited : Delimited Plain (fun c => c.text.toList) ',' :=
  delimited_of_not_mem (fun _ h => comma_not_mem_text h) fun _ _ hx hy h => text_inj hx hy h

end ColumnDef

namespace Literal

/-- A quoted text ends at a quote, and a bare one at a comma. A bare one must not look quoted. -/
def Plain : Literal → Prop
  | quoted text => '\'' ∉ text.toList
  | bare text => '\'' ∉ text.toList ∧ ',' ∉ text.toList

instance : DecidablePred Plain
  | quoted text => inferInstanceAs (Decidable ('\'' ∉ text.toList))
  | bare text => inferInstanceAs (Decidable ('\'' ∉ text.toList ∧ ',' ∉ text.toList))

theorem quote_cons_ne {xs ys rest : List Char} (hy : '\'' ∉ ys) (hr : Stops (· = ',') rest) :
    '\'' :: xs ≠ ys ++ rest := by
  intro h
  cases ys with
  | nil =>
    rw [List.nil_append] at h
    subst h
    exact absurd (stops_cons.mp hr) (by decide)
  | cons y ys =>
    obtain rfl := (List.cons.inj h).1
    exact hy List.mem_cons_self

theorem delimited : Delimited Plain (fun l => l.text.toList) ',' := by
  intro l m rest rest' hl hm hr hr' h
  cases l with
  | quoted s =>
    cases m with
    | quoted s' =>
      simp only [text, String.toList_append, List.append_assoc] at h
      obtain ⟨hs, hrest⟩ := append_cons_inj hl hm (List.append_cancel_left h)
      exact ⟨congrArg quoted (String.toList_inj.mp hs), hrest⟩
    | bare s' =>
      simp only [text, String.toList_append, List.append_assoc] at h
      exact absurd h (quote_cons_ne hm.1 hr')
  | bare s =>
    cases m with
    | quoted s' =>
      simp only [text, String.toList_append, List.append_assoc] at h
      exact absurd h.symm (quote_cons_ne hl.1 hr)
    | bare s' =>
      obtain ⟨hs, hrest⟩ := append_inj_of_not_mem hl.2 hm.2 hr hr' h
      exact ⟨congrArg bare (String.toList_inj.mp hs), hrest⟩

end Literal

namespace Statement

/-- The words that a statement of a kind starts with. -/
def Kind.keyword : Kind → String
  | createTable => "CREATE TABLE "
  | exportTable => "copy (select * from "
  | createSequence => "CREATE SEQUENCE "
  | createIndex => "CREATE INDEX "
  | insert => "INSERT INTO "

theorem toList_createTable (table : String) (columns : List ColumnDef) :
    (createTable table columns).text.toList = "CREATE TABLE ".toList ++ (table.toList ++
      ' ' :: '(' :: ([',', ' '].intercalate (columns.map fun c => c.text.toList) ++
        ");".toList)) := by
  change ("CREATE TABLE " ++ table ++ " (" ++ columnList columns ++ ");").toList = _
  simp only [columnList, String.toList_append, String.toList_intercalate, List.append_assoc,
    List.map_map]
  rfl

theorem toList_exportTable (table : String) (path : RawPath) :
    (exportTable table path).text.toList = "copy (select * from ".toList ++ (table.toList ++
      ')' :: (" to '".toList ++ (path.text.toList ++ "' (format 'parquet');".toList))) := by
  change ("copy (select * from " ++ table ++ ") to '" ++ path.text ++
    "' (format 'parquet');").toList = _
  simp only [String.toList_append, List.append_assoc]
  rfl

theorem toList_createSequence (table : String) :
    (createSequence table).text.toList =
      "CREATE SEQUENCE ".toList ++ (table.toList ++ "_sequence START 1;".toList) := by
  change ("CREATE SEQUENCE " ++ table ++ "_sequence START 1;").toList = _
  simp only [String.toList_append, List.append_assoc]

theorem toList_createIndex (i : IndexDef) :
    (createIndex i).text.toList = "CREATE INDEX ".toList ++ (i.name.toList ++
      ((if i.unique then " UNIQUE".toList else []) ++ (" ON ".toList ++ (i.table.toList ++
        ' ' :: '(' :: ([',', ' '].intercalate (i.fields.map String.toList) ++
          ");".toList))))) := by
  change ("CREATE INDEX " ++ i.name ++ (if i.unique then " UNIQUE" else "") ++ " ON " ++ i.table
    ++ " (" ++ String.intercalate ", " i.fields ++ ");").toList = _
  simp only [String.toList_append, String.toList_intercalate, List.append_assoc, toList_flag]
  rfl

theorem toList_insert (i : Insert) :
    (insert i).text.toList = "INSERT INTO ".toList ++ (i.table.toList ++
      ' ' :: '(' :: ([','].intercalate (i.columns.map String.toList) ++
        ')' :: (" values (".toList ++ ([','].intercalate (i.values.map fun l => l.text.toList) ++
          ");".toList)))) := by
  change ("INSERT INTO " ++ i.table ++ " (" ++ String.intercalate "," i.columns ++ ") values ("
    ++ String.intercalate "," (i.values.map Literal.text) ++ ");").toList = _
  simp only [String.toList_append, String.toList_intercalate, List.append_assoc, List.map_map]
  rfl

theorem toList_text (st : Statement) :
    ∃ rest, st.text.toList = st.kind.keyword.toList ++ rest := by
  cases st with
  | createTable table columns => exact ⟨_, toList_createTable table columns⟩
  | exportTable table path => exact ⟨_, toList_exportTable table path⟩
  | createSequence table => exact ⟨_, toList_createSequence table⟩
  | createIndex i => exact ⟨_, toList_createIndex i⟩
  | insert i => exact ⟨_, toList_insert i⟩

/-- The first eight letters of a statement tell its kind. -/
theorem Kind.keyword_inj {k k' : Kind} {rest rest' : List Char}
    (h : k.keyword.toList ++ rest = k'.keyword.toList ++ rest') : k = k' := by
  have hlong (k : Kind) : 8 ≤ k.keyword.toList.length := by
    cases k <;> decide
  have hstart := congrArg (List.take 8) h
  rw [List.take_append_of_le_length (hlong k), List.take_append_of_le_length (hlong k')] at hstart
  revert hstart
  cases k <;> cases k' <;> decide

/-- A statement of plain names, types and literals, of which it lists at least one. The path of an
export may be any bytes. -/
def Plain : Statement → Prop
  | createTable table columns => PlainName table ∧ columns ≠ [] ∧ ∀ c ∈ columns, c.Plain
  | exportTable table _ => PlainName table
  | createSequence table => PlainName table
  | createIndex i =>
    PlainName i.name ∧ PlainName i.table ∧ i.fields ≠ [] ∧ ∀ field ∈ i.fields, PlainName field
  | insert i =>
    PlainName i.table ∧ (i.columns ≠ [] ∧ ∀ name ∈ i.columns, PlainName name) ∧
      i.values ≠ [] ∧ ∀ l ∈ i.values, l.Plain

instance : DecidablePred Plain
  | createTable table columns =>
    inferInstanceAs (Decidable (PlainName table ∧ columns ≠ [] ∧ ∀ c ∈ columns, c.Plain))
  | exportTable table _ | createSequence table => inferInstanceAs (Decidable (PlainName table))
  | createIndex i => inferInstanceAs (Decidable (PlainName i.name ∧ PlainName i.table ∧
      i.fields ≠ [] ∧ ∀ field ∈ i.fields, PlainName field))
  | insert i => inferInstanceAs (Decidable (PlainName i.table ∧
      (i.columns ≠ [] ∧ ∀ name ∈ i.columns, PlainName name) ∧
        i.values ≠ [] ∧ ∀ l ∈ i.values, l.Plain))

def HasTextPath : Statement → Prop
  | exportTable _ path => path.IsText
  | createTable .. | createSequence _ | createIndex _ | insert _ => True

/-- Statements that are the same but for the path of an export, and there print the same. -/
inductive Alike : Statement → Statement → Prop
  | same (s : Statement) : Alike s s
  | exports (table : String) {path path' : RawPath} (printed : path.text = path'.text) :
      Alike (exportTable table path) (exportTable table path')

theorem Alike.eq {a b : Statement} (h : Alike a b) (ha : a.HasTextPath) (hb : b.HasTextPath) :
    a = b := by
  cases h with
  | same => rfl
  | exports table printed => rw [RawPath.IsText.text_inj ha hb printed]

theorem createTable_inj {table table' : String} {columns columns' : List ColumnDef}
    (ha : (createTable table columns).Plain) (hb : (createTable table' columns').Plain)
    (h : (createTable table columns).text.toList = (createTable table' columns').text.toList) :
    createTable table columns = createTable table' columns' := by
  obtain ⟨ht, hne, hc⟩ := ha
  obtain ⟨kt, kne, kc⟩ := hb
  rw [toList_createTable, toList_createTable] at h
  obtain ⟨htable, h⟩ := append_cons_inj (ht ' ' (by decide)) (kt ' ' (by decide))
    (List.append_cancel_left h)
  have hcolumns := ColumnDef.delimited.intercalate_inj hc kc hne kne
    (List.append_cancel_right (List.cons.inj h).2)
  rw [String.toList_inj.mp htable, hcolumns]

theorem exportTable_alike {table table' : String} {path path' : RawPath}
    (ha : (exportTable table path).Plain) (hb : (exportTable table' path').Plain)
    (h : (exportTable table path).text.toList = (exportTable table' path').text.toList) :
    Alike (exportTable table path) (exportTable table' path') := by
  rw [toList_exportTable, toList_exportTable] at h
  obtain ⟨htable, h⟩ := append_cons_inj (ha ')' (by decide)) (hb ')' (by decide))
    (List.append_cancel_left h)
  have hpath := List.append_cancel_right (List.append_cancel_left h)
  rw [String.toList_inj.mp htable]
  exact .exports table' (String.toList_inj.mp hpath)

theorem createSequence_inj {table table' : String}
    (h : (createSequence table).text.toList = (createSequence table').text.toList) :
    createSequence table = createSequence table' := by
  rw [toList_createSequence, toList_createSequence] at h
  have htable := List.append_cancel_right (List.append_cancel_left h)
  rw [String.toList_inj.mp htable]

theorem createIndex_inj {i j : IndexDef} (ha : (createIndex i).Plain) (hb : (createIndex j).Plain)
    (h : (createIndex i).text.toList = (createIndex j).text.toList) :
    createIndex i = createIndex j := by
  obtain ⟨hn, ht, hne, hf⟩ := ha
  obtain ⟨kn, kt, kne, kf⟩ := hb
  -- Behind the name stands a blank, with `UNIQUE` or without it.
  have hstops (b : Bool) (rest : List Char) :
      Stops (· = ' ') ((if b then " UNIQUE".toList else []) ++ (" ON ".toList ++ rest)) := by
    cases b <;> exact stops_cons.mpr rfl
  rw [toList_createIndex, toList_createIndex] at h
  obtain ⟨hname, h⟩ := append_inj_of_not_mem (hn ' ' (by decide)) (kn ' ' (by decide))
    (hstops _ _) (hstops _ _) (List.append_cancel_left h)
  have hO (rest : List Char) : (" ON ".toList ++ rest)[1]? ≠ some 'U' :=
    (by decide : some 'O' ≠ some 'U')
  obtain ⟨hunique, h⟩ := flag_append_inj rfl (hO _) (hO _) h
  obtain ⟨htable, h⟩ := append_cons_inj (ht ' ' (by decide)) (kt ' ' (by decide))
    (List.append_cancel_left h)
  have hfields := delimited_names.intercalate_inj hf kf hne kne
    (List.append_cancel_right (List.cons.inj h).2)
  rw [String.toList_inj] at hname htable
  cases i
  cases j
  rw [createIndex.injEq, IndexDef.mk.injEq]
  exact ⟨hname, hunique, htable, hfields⟩

theorem insert_inj {i j : Insert} (ha : (insert i).Plain) (hb : (insert j).Plain)
    (h : (insert i).text.toList = (insert j).text.toList) : insert i = insert j := by
  obtain ⟨ht, ⟨hcne, hc⟩, hvne, hv⟩ := ha
  obtain ⟨kt, ⟨kcne, kc⟩, kvne, kv⟩ := hb
  have hclose {names : List String} (hnames : ∀ name ∈ names, PlainName name) :
      ')' ∉ [','].intercalate (names.map String.toList) :=
    not_mem_intercalate (by decide) fun name hname => hnames name hname ')' (by decide)
  rw [toList_insert, toList_insert] at h
  obtain ⟨htable, h⟩ := append_cons_inj (ht ' ' (by decide)) (kt ' ' (by decide))
    (List.append_cancel_left h)
  obtain ⟨hcolumns, h⟩ := append_cons_inj (hclose hc) (hclose kc) (List.cons.inj h).2
  have hnames := delimited_names.intercalate_inj hc kc hcne kcne hcolumns
  have hvalues := Literal.delimited.intercalate_inj hv kv hvne kvne
    (List.append_cancel_right (List.append_cancel_left h))
  rw [String.toList_inj] at htable
  cases i
  cases j
  rw [insert.injEq, Insert.mk.injEq]
  exact ⟨htable, hnames, hvalues⟩

theorem alike_of_text {a b : Statement} (ha : a.Plain) (hb : b.Plain) (htext : a.text = b.text) :
    Alike a b := by
  have h := congrArg String.toList htext
  obtain ⟨_, hrest⟩ := toList_text a
  obtain ⟨_, hrest'⟩ := toList_text b
  have hkind : a.kind = b.kind := Kind.keyword_inj (hrest.symm.trans (h.trans hrest'))
  cases a with
  | createTable table columns =>
    cases b with
    | createTable table' columns' => exact createTable_inj ha hb h ▸ .same _
    | _ => cases hkind
  | exportTable table path =>
    cases b with
    | exportTable table' path' => exact exportTable_alike ha hb h
    | _ => cases hkind
  | createSequence table =>
    cases b with
    | createSequence table' => exact createSequence_inj h ▸ .same _
    | _ => cases hkind
  | createIndex i =>
    cases b with
    | createIndex j => exact createIndex_inj ha hb h ▸ .same _
    | _ => cases hkind
  | insert i =>
    cases b with
    | insert j => exact insert_inj ha hb h ▸ .same _
    | _ => cases hkind

theorem Alike.text_eq {a b : Statement} (h : Alike a b) : a.text = b.text := by
  cases h with
  | same => rfl
  | exports table printed =>
    exact congrArg ("copy (select * from " ++ table ++ ") to '" ++ · ++ "' (format 'parquet');")
      printed

/-- Plain statements of any kinds have the same text only if they are the same statement, or exports
of one table to paths that print alike. If these paths are text, they are the same too. -/
theorem text_eq_iff {a b : Statement} (ha : a.Plain) (hb : b.Plain) :
    (a.text = b.text ↔ Alike a b) ∧
    (a.HasTextPath → b.HasTextPath → (a.text = b.text ↔ a = b)) := by
  refine ⟨⟨alike_of_text ha hb, Alike.text_eq⟩, ?_⟩
  intro hpath hpath'
  constructor
  · exact fun h => (alike_of_text ha hb h).eq hpath hpath'
  · rintro rfl
    rfl

/-- One quoted value with a comma in it. -/
def onePoint : Statement := insert ⟨"points", ["at"], [.quoted "1,2"]⟩

def twoPoints : Statement := insert ⟨"points", ["at"], [.quoted "1", .quoted "2"]⟩

/-- An export to a path that reads as if the statement ended in it. -/
def exportBeside : Statement := exportTable "points" "a' (format 'parquet');"

theorem text_eq_iff_points :
    onePoint.Plain ∧ twoPoints.Plain ∧ exportBeside.Plain ∧ exportBeside.HasTextPath ∧
    (onePoint.text = twoPoints.text ↔ onePoint = twoPoints) ∧
    (exportBeside.text = (exportTable "points" "a").text ↔
      exportBeside = exportTable "points" "a") := by
  have hone : onePoint.Plain := by decide
  have htwo : twoPoints.Plain := by decide
  have hexport : exportBeside.Plain := by decide
  have hplain : (exportTable "points" "a").Plain := by decide
  have hpath : exportBeside.HasTextPath := ⟨"a' (format 'parquet');", rfl⟩
  have hshort : (exportTable "points" "a").HasTextPath := ⟨"a", rfl⟩
  refine ⟨hone, htwo, hexport, hpath, ?_, ?_⟩
  · exact (text_eq_iff hone htwo).2 trivial trivial
  · exact (text_eq_iff hexport hplain).2 hpath hshort

/-- A byte that is no character prints as the replacement, and so does the replacement. -/
theorem text_eq_of_stray :
    let a := exportTable "t" "\uFFFD"
    let b := exportTable "t" ⟨[0xFF]⟩
    a.Plain ∧ b.Plain ∧ a.text = "copy (select * from t) to '\uFFFD' (format 'parquet');" ∧
      a.text = b.text ∧ a ≠ b := by
  decide

end Statement
end SeedTables
