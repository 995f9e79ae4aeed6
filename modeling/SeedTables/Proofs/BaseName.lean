import Mathlib.Data.List.Forall2
import Mathlib.Data.List.TakeWhile
import SeedTables.Proofs.DelimitedText
import SeedTables.Schema.Basic

namespace SeedTables

namespace Text

/-- The text before the first of a character, or all of it if there is none. -/
def Before (stop : Char) (text front : List Char) : Prop :=
  stop ∉ front ∧ ∃ rest, text = front ++ rest ∧ Stops (· = stop) rest

/-- A text without the blanks at its two ends. -/
structure Trimmed (text core : List Char) : Prop where
  around : ∃ left right, text = left ++ core ++ right ∧ ∀ c ∈ left ++ right, isBlank c = true
  first : Stops (isBlank · = false) core
  last : Stops (isBlank · = false) core.reverse

/-- Characters that are one, or the two cases of one ASCII letter. -/
inductive SameLetter : Char → Char → Prop
  | same (c : Char) : SameLetter c c
  | lowered {a b : Char} (upper : a.isUpper = true) (lower : b.toNat = a.toNat + 32) :
      SameLetter a b
  | raised {a b : Char} (upper : b.isUpper = true) (lower : a.toNat = b.toNat + 32) :
      SameLetter a b

/-- Texts that are equal up to the case of ASCII letters. -/
def SameLetters (s s' : String) : Prop := List.Forall₂ SameLetter s.toList s'.toList

section Ends

variable {text core front : List Char} {stop : Char}

theorem takeWhile_eq_of_before (h : Before stop text front) :
    text.takeWhile (· ≠ stop) = front := by
  obtain ⟨hclear, rest, rfl, hrest⟩ := h
  refine takeWhile_append_of_stops ?_ ?_
  · exact fun c hc => decide_eq_true fun he => hclear (he ▸ hc)
  · exact fun c hc => decide_eq_false fun hne => hne (hrest c hc)

theorem before_takeWhile (stop : Char) (text : List Char) :
    Before stop text (text.takeWhile (· ≠ stop)) := by
  refine ⟨?_, text.dropWhile (· ≠ stop), List.takeWhile_append_dropWhile.symm, ?_⟩
  · intro hmem
    have hne := List.mem_takeWhile_imp hmem
    simp at hne
  · intro c hc
    simpa using stops_dropWhile (· ≠ stop) text c hc

theorem Trimmed.trim_eq (h : Trimmed text core) : trim text = core := by
  obtain ⟨left, right, rfl, hblank⟩ := h.around
  rw [List.forall_mem_append] at hblank
  obtain ⟨hleft, hright⟩ := hblank
  cases core with
  | nil =>
    -- Nothing stops the blanks on the left here: they go on to the end.
    have hall : (left ++ [] ++ right).dropWhile isBlank = [] := by
      rw [List.append_nil, List.dropWhile_append_of_pos hleft, List.dropWhile_eq_nil_iff]
      exact hright
    rw [trim, hall]
    rfl
  | cons c cs =>
    have hfirst : Stops (isBlank · = false) (c :: cs ++ right) :=
      stops_cons.mpr (stops_cons.mp h.first)
    have hright' : ∀ d ∈ right.reverse, isBlank d = true :=
      fun d hd => hright d (List.mem_reverse.mp hd)
    rw [trim, List.append_assoc, dropWhile_append_of_stops hleft hfirst, List.reverse_append,
      dropWhile_append_of_stops hright' h.last, List.reverse_reverse]

theorem trimmed_trim (text : List Char) : Trimmed text (trim text) := by
  have hmiddle : text.dropWhile isBlank = trim text ++
      ((text.dropWhile isBlank).reverse.takeWhile isBlank).reverse := by
    rw [trim, ← List.reverse_append, List.takeWhile_append_dropWhile, List.reverse_reverse]
  refine ⟨⟨text.takeWhile isBlank, ((text.dropWhile isBlank).reverse.takeWhile isBlank).reverse,
    ?_, ?_⟩, ?_, ?_⟩
  · rw [List.append_assoc, ← hmiddle, List.takeWhile_append_dropWhile]
  · intro c hc
    rw [List.mem_append, List.mem_reverse] at hc
    rcases hc with hc | hc
    · exact List.mem_takeWhile_imp hc
    · exact List.mem_takeWhile_imp hc
  · intro c hc
    refine stops_dropWhile isBlank text c ?_
    rw [hmiddle, List.head?_append, Option.mem_def.mp hc]
    rfl
  · rw [trim, List.reverse_reverse]
    exact stops_dropWhile isBlank _

end Ends

theorem isUpper_iff {c : Char} : c.isUpper = true ↔ 65 ≤ c.toNat ∧ c.toNat ≤ 90 := by
  have hval : c.isUpper = true ↔ c.val ≥ 'A'.val ∧ c.val ≤ 'Z'.val := decide_eq_true_iff
  rw [hval, ge_iff_le, UInt32.le_iff_toNat_le, UInt32.le_iff_toNat_le]
  rfl

theorem toNat_toLower (c : Char) :
    c.toLower.toNat = if c.isUpper = true then c.toNat + 32 else c.toNat := by
  by_cases h : c.val ≥ 'A'.val ∧ c.val ≤ 'Z'.val
  · have hupper : c.isUpper = true := decide_eq_true h
    have hle := (isUpper_iff.mp hupper).2
    have hlt : c.toNat + 32 < 2 ^ 32 := by omega
    have hlower : c.toLower = _ := dif_pos h
    rw [hlower, if_pos hupper]
    change (c.val + 32).toNat = c.toNat + 32
    rw [UInt32.toNat_add]
    exact Nat.mod_eq_of_lt hlt
  · have hupper : ¬ c.isUpper = true := fun he => h (of_decide_eq_true he)
    have hlower : c.toLower = c := dif_neg h
    rw [hlower, if_neg hupper]

theorem toLower_eq_toLower {a b : Char} : a.toLower = b.toLower ↔ SameLetter a b := by
  have hnat : a.toLower = b.toLower ↔ a.toLower.toNat = b.toLower.toNat := Char.toNat_inj.symm
  rw [hnat, toNat_toLower, toNat_toLower]
  constructor
  · intro h
    by_cases ha : a.isUpper = true
    · by_cases hb : b.isUpper = true
      · rw [if_pos ha, if_pos hb] at h
        obtain rfl : a = b := Char.toNat_inj.mp (Nat.add_right_cancel h)
        exact .same a
      · rw [if_pos ha, if_neg hb] at h
        exact .lowered ha h.symm
    · by_cases hb : b.isUpper = true
      · rw [if_neg ha, if_pos hb] at h
        exact .raised hb h
      · rw [if_neg ha, if_neg hb] at h
        obtain rfl : a = b := Char.toNat_inj.mp h
        exact .same a
  · -- Behind the capital letters come no others at a distance of 32.
    intro h
    cases h with
    | same => rfl
    | lowered upper lower =>
      have hb : ¬ b.isUpper = true := by
        rw [isUpper_iff] at *
        omega
      rw [if_pos upper, if_neg hb, lower]
    | raised upper lower =>
      have ha : ¬ a.isUpper = true := by
        rw [isUpper_iff] at *
        omega
      rw [if_neg ha, if_pos upper, lower]

theorem toList_toLower (s : String) : s.toLower.toList = s.toList.map Char.toLower :=
  String.toList_map

theorem sameLetters_iff {s s' : String} : SameLetters s s' ↔ s.toLower = s'.toLower := by
  rw [← String.toList_inj, toList_toLower, toList_toLower, ← List.forall₂_eq_eq_eq,
    List.forall₂_map_left_iff, List.forall₂_map_right_iff]
  simp only [toLower_eq_toLower]
  rfl

end Text

namespace SqlType

/-- The base name of a declared type, in the letters that it is declared with: what stands before
the first parenthesis, without the blanks around it. -/
def HasBase (declared base : String) : Prop :=
  ∃ front, Text.Before '(' declared.toList front ∧ Text.Trimmed front base.toList

/-- A declared type whose base name is one of the vocabulary. -/
def Listed (declared : String) : Prop :=
  ∃ base, HasBase declared base ∧ base.toLower ∈ vocabulary.map Prod.fst

variable {declared base : String}

theorem exists_hasBase (declared : String) : ∃ base, HasBase declared base := by
  refine ⟨String.ofList (Text.trim (declared.toList.takeWhile (· ≠ '('))),
    _, Text.before_takeWhile '(' _, ?_⟩
  rw [String.toList_ofList]
  exact Text.trimmed_trim _

theorem baseName_eq (h : HasBase declared base) : baseName declared = base.toLower := by
  obtain ⟨front, hfront, hbase⟩ := h
  rw [baseName, Text.takeWhile_eq_of_before hfront, hbase.trim_eq, ← String.toList_inj,
    String.toList_ofList, Text.toList_toLower]

/-- A declared type is known by its base name alone. -/
theorem ofDeclared?_eq_some_iff : (∃ type, ofDeclared? declared = some type) ↔ Listed declared := by
  have hword (word : String) : (∃ type, vocabulary.lookup word = some type) ↔
      word ∈ vocabulary.map Prod.fst := by
    rw [← Option.isSome_iff_exists, List.lookup_isSome_iff, List.mem_map]
    simp only [beq_iff_eq, @eq_comm _ word]
  rw [ofDeclared?, hword]
  constructor
  · intro h
    obtain ⟨base, hbase⟩ := exists_hasBase declared
    exact ⟨base, hbase, baseName_eq hbase ▸ h⟩
  · rintro ⟨base, hbase, h⟩
    exact baseName_eq hbase ▸ h

end SqlType
end SeedTables
