import SeedTables.Proofs.RepeatedMembers
import SeedTables.Proofs.TextGrammar
import SeedTables.Proofs.WholeNumbers
import SeedTables.Source

namespace SeedTables.Json

mutual

/-- How deep arrays and objects nest in a value. -/
def Value.depth : Value → Nat
  | .array vs => depths vs + 1
  | .object ms => memberDepths ms + 1
  | _ => 0

def depths : List Value → Nat
  | [] => 0
  | v :: vs => max v.depth (depths vs)

def memberDepths : List (String × Value) → Nat
  | [] => 0
  | (_, v) :: ms => max v.depth (memberDepths ms)

end

/-- A value in whose objects no key is repeated, and whose numbers are whole and have 64 bits, with
a sign or without one. -/
inductive Value.Plain : Value → Prop
  | null : Plain .null
  | bool (b : Bool) : Plain (.bool b)
  | int {n : Int} (least : -2 ^ 63 ≤ n) (greatest : n < 2 ^ 64) : Plain (.number (.int n))
  | string (s : String) : Plain (.string s)
  | array {vs : List Value} (each : ∀ v ∈ vs, Plain v) : Plain (.array vs)
  | object {ms : Members} (distinct : (ms.map Prod.fst).Nodup) (each : ∀ m ∈ ms, Plain m.2) :
    Plain (.object ms)

theorem depth_le_depths {v : Value} {vs : List Value} (h : v ∈ vs) : v.depth ≤ depths vs := by
  induction vs with
  | nil => cases h
  | cons u vs ih =>
    rw [depths]
    rcases List.mem_cons.mp h with rfl | h
    · exact Nat.le_max_left _ _
    · exact Nat.le_trans (ih h) (Nat.le_max_right _ _)

theorem depth_le_memberDepths {m : String × Value} {ms : List (String × Value)} (h : m ∈ ms) :
    m.2.depth ≤ memberDepths ms := by
  induction ms with
  | nil => cases h
  | cons n ms ih =>
    obtain ⟨key, u⟩ := n
    rw [memberDepths]
    rcases List.mem_cons.mp h with rfl | h
    · exact Nat.le_max_left _ _
    · exact Nat.le_trans (ih h) (Nat.le_max_right _ _)

theorem hexDigit?_digitChar {n : Nat} (h : n < 16) : hexDigit? (Nat.digitChar n) = some n := by
  interval_cases n <;> rfl

/-- A control character without a letter of its own, by its code point. -/
theorem controlChar_spelled {c : Char} (h : c.toNat < 0x20) : EscapeSpelledBy c
    ['u', '0', '0', Nat.digitChar (c.toNat / 16), Nat.digitChar (c.toNat % 16)] := by
  have hzero : hexDigit? '0' = some 0 := rfl
  have hhigh : hexDigit? (Nat.digitChar (c.toNat / 16)) = some (c.toNat / 16) :=
    hexDigit?_digitChar (by omega)
  have hlow : hexDigit? (Nat.digitChar (c.toNat % 16)) = some (c.toNat % 16) :=
    hexDigit?_digitChar (by omega)
  have hunit := HexUnit.digits hzero hzero hhigh hlow
  have hvalue : ((0 * 16 + 0) * 16 + c.toNat / 16) * 16 + c.toNat % 16 = c.toNat := by omega
  rw [hvalue] at hunit
  have hleading : isLeadingSurrogate c.toNat = false := by
    simp only [isLeadingSurrogate, Bool.and_eq_false_iff, decide_eq_false_iff_not]
    omega
  have htrailing : isTrailingSurrogate c.toNat = false := by
    simp only [isTrailingSurrogate, Bool.and_eq_false_iff, decide_eq_false_iff_not]
    omega
  have hspelled := EscapeSpelledBy.unit hunit hleading htrailing
  rwa [Char.ofNat_toNat] at hspelled

theorem escapedChar_spelled (c : Char) : CharSpelledBy c (escapedChar c) := by
  unfold escapedChar
  split_ifs with hquote hbackslash hb ht hn hf hr hcontrol
  · subst hquote
    exact .escape (.letter rfl)
  · subst hbackslash
    exact .escape (.letter rfl)
  · subst hb
    exact .escape (.letter rfl)
  · subst ht
    exact .escape (.letter rfl)
  · subst hn
    exact .escape (.letter rfl)
  · subst hf
    exact .escape (.letter rfl)
  · subst hr
    exact .escape (.letter rfl)
  · exact .escape (controlChar_spelled hcontrol)
  · exact .plain hquote hbackslash (Nat.not_lt.mp hcontrol)

theorem escapedChars_spelled (cs : List Char) : CharsSpelledBy cs (cs.flatMap escapedChar) := by
  induction cs with
  | nil => exact .nil
  | cons c cs ih =>
    rw [List.flatMap_cons]
    exact .cons (escapedChar_spelled c) ih

theorem elements_spelled {item : Written → List Char → Prop} (v : Value) (vs : List Value)
    (h : ∀ x ∈ v :: vs, ∃ w : Written, w.value = x ∧ item w x.chars) :
    ∃ ws cs, Written.values ws = v :: vs ∧ Listed item ws cs ∧
      v.chars ++ elementChars vs = cs ++ [']'] := by
  induction vs generalizing v with
  | nil =>
    obtain ⟨w, hv, hw⟩ := h v List.mem_cons_self
    exact ⟨[w], v.chars, by rw [Written.values, hv]; rfl, .compactOne hw, rfl⟩
  | cons u us ih =>
    obtain ⟨w, hv, hw⟩ := h v List.mem_cons_self
    obtain ⟨ws, cs, hvalues, hlisted, hchars⟩ := ih u fun x hx => h x (List.mem_cons_of_mem _ hx)
    refine ⟨w :: ws, v.chars ++ ',' :: cs, by rw [Written.values, hv, hvalues],
      .compactMore hw hlisted, ?_⟩
    rw [elementChars, List.cons_append, hchars]
    simp

theorem members_spelled {item : Written → List Char → Prop} (m : String × Value)
    (ms : List (String × Value))
    (h : ∀ x ∈ m :: ms, ∃ w : Written, w.value = x.2 ∧ item w x.2.chars) :
    ∃ ws cs, Written.memberValues ws = m :: ms ∧ Listed (MemberSpelledBy item) ws cs ∧
      stringText m.1 ++ ':' :: m.2.chars ++ memberChars ms = cs ++ ['}'] := by
  have hmember : ∀ x ∈ m :: ms, ∃ w : Written, w.value = x.2 ∧
      MemberSpelledBy item (x.1, w) (stringText x.1 ++ ':' :: x.2.chars) := by
    intro x hx
    obtain ⟨w, hw, hitem⟩ := h x hx
    have hparts := MemberSpelledBy.parts (escapedChars_spelled x.1.toList) gap_nil gap_nil hitem
    refine ⟨w, hw, ?_⟩
    simpa [stringText] using hparts
  clear h
  induction ms generalizing m with
  | nil =>
    obtain ⟨w, hv, hw⟩ := hmember m List.mem_cons_self
    exact ⟨[(m.1, w)], _, by rw [Written.memberValues, hv]; rfl, .compactOne hw, rfl⟩
  | cons n ms ih =>
    obtain ⟨w, hv, hw⟩ := hmember m List.mem_cons_self
    obtain ⟨ws, cs, hvalues, hlisted, hchars⟩ :=
      ih n fun x hx => hmember x (List.mem_cons_of_mem _ hx)
    refine ⟨(m.1, w) :: ws, _, by rw [Written.memberValues, hv, hvalues],
      .compactMore hw hlisted, ?_⟩
    obtain ⟨key, v⟩ := n
    rw [memberChars]
    simp only [List.append_assoc, List.cons_append] at hchars ⊢
    rw [hchars]

theorem spelledWithin_eq (n : Nat) : ∃ inner, Written.SpelledWithin n = ValueSpelledBy inner := by
  cases n with
  | zero => exact ⟨none, rfl⟩
  | succ n => exact ⟨_, rfl⟩

/-- The compact text of a plain value spells it. -/
theorem Value.Plain.spelled {v : Value} (h : v.Plain) {n : Nat} (hdepth : v.depth ≤ n) :
    ∃ w : Written, w.value = v ∧ w.SpelledWithin n v.chars := by
  obtain ⟨inner, hinner⟩ := spelledWithin_eq n
  induction h generalizing n inner with
  | null => exact ⟨.null, rfl, hinner ▸ .null⟩
  | bool b =>
    cases b with
    | true => exact ⟨.bool true, rfl, hinner ▸ .true⟩
    | false => exact ⟨.bool false, rfl, hinner ▸ .false⟩
  | @int k least greatest =>
    have hword := NumberToken.ofInt_isWord least greatest
    have hvalue := hword.value?
    rw [NumberToken.integer_ofInt] at hvalue
    refine ⟨.number ⟨.ofInt k, .int k, hvalue⟩, rfl, ?_⟩
    rw [hinner]
    exact .number (NumberToken.ofInt_spelled hword)
  | string s =>
    exact ⟨.string s, rfl, hinner ▸ .string (escapedChars_spelled s.toList)⟩
  | @array vs _ ih =>
    obtain ⟨m, rfl⟩ : ∃ m, n = m + 1 := ⟨n - 1, by rw [depth] at hdepth; omega⟩
    rw [depth, Nat.add_le_add_iff_right] at hdepth
    cases vs with
    | nil => exact ⟨.array [], rfl, .array rfl (.empty gap_nil)⟩
    | cons v vs =>
      obtain ⟨inner', hinner'⟩ := spelledWithin_eq m
      have heach : ∀ x ∈ v :: vs, ∃ w : Written, w.value = x ∧ w.SpelledWithin m x.chars :=
        fun x hx => ih x hx (Nat.le_trans (depth_le_depths hx) hdepth) inner' hinner'
      obtain ⟨ws, cs, hvalues, hlisted, hchars⟩ := elements_spelled v vs heach
      refine ⟨.array ws, congrArg Value.array hvalues, ?_⟩
      rw [chars, List.cons_append, hchars]
      exact .array rfl (.items hlisted)
  | @object ms distinct _ ih =>
    obtain ⟨m, rfl⟩ : ∃ m, n = m + 1 := ⟨n - 1, by rw [depth] at hdepth; omega⟩
    rw [depth, Nat.add_le_add_iff_right] at hdepth
    cases ms with
    | nil => exact ⟨.object [], rfl, .object rfl (.empty gap_nil)⟩
    | cons x ms =>
      obtain ⟨inner', hinner'⟩ := spelledWithin_eq m
      have heach : ∀ y ∈ x :: ms, ∃ w : Written, w.value = y.2 ∧ w.SpelledWithin m y.2.chars :=
        fun y hy => ih y hy (Nat.le_trans (depth_le_memberDepths hy) hdepth) inner' hinner'
      obtain ⟨ws, cs, hvalues, hlisted, hchars⟩ := members_spelled x ms heach
      refine ⟨.object ws, ?_, ?_⟩
      · rw [Written.value, hvalues, Members.ofList_of_nodup distinct]
      · obtain ⟨key, v⟩ := x
        have htext : (Value.object ((key, v) :: ms)).chars = '{' :: (cs ++ ['}']) := by
          rw [← hchars, chars]
          simp
        rw [htext]
        exact .object rfl (.items hlisted)

/-- Reading the compact text of a plain value gives the value back. -/
theorem Value.Plain.ofText_text {v : Value} (h : v.Plain) (hdepth : v.depth ≤ greatestDepth) :
    ofText v.text = .ok v := by
  obtain ⟨w, hv, hw⟩ := h.spelled hdepth
  have hspelled : w.SpelledBy v.text := by
    refine ⟨[], v.chars, [], ?_, gap_nil, gap_nil, hw⟩
    rw [text, String.toList_ofList, List.nil_append, List.append_nil]
  rw [ofText, Written.ofText_eq_ok.mpr hspelled, ← hv]
  rfl

/-- An object inside a list, with the least and the greatest number that is plain. Its keys hold a
quote, a backslash and a control character. -/
def Value.extremes : Value :=
  .array [.object [("\"", .number (.int (-2 ^ 63))), ("\\\x1f", .number (.int (2 ^ 64 - 1)))]]

theorem Value.plain_extremes : extremes.Plain := by
  apply Plain.array
  intro v hv
  obtain rfl := List.mem_singleton.mp hv
  apply Plain.object (by decide)
  simp only [List.forall_mem_cons, List.not_mem_nil, IsEmpty.forall_iff, implies_true, and_true]
  exact ⟨.int (by decide) (by decide), .int (by decide) (by decide)⟩

end SeedTables.Json
namespace SeedTables

open Json (Value)

/-- A plain value and its compact text say the same: the text is read as the value, it adds the same
document to those held, and it has the same schema or the same fault. -/
theorem Source.withText_text {v : Value} (plain : v.Plain)
    (shallow : v.depth ≤ Json.greatestDepth) :
    Value.ofText v.text = .ok v ∧
      (∀ origin held, withText origin v.text held = .ok (withDocument origin v held)) ∧
      Schema.ofText v.text = Schema.ofDocument v := by
  have hread := plain.ofText_text shallow
  refine ⟨hread, ?_, ?_⟩
  · intro origin held
    rw [withText, Document.ofText, hread]
    rfl
  · rw [Schema.ofText, hread]
    rfl

theorem Source.withText_text_extremes :
    let v := Value.extremes
    v.text = "[\x7b\"\\\"\":-9223372036854775808,\"\\\\\\u001f\":18446744073709551615\x7d]" ∧
      Value.ofText v.text = .ok v ∧
      (∀ origin held, withText origin v.text held = .ok (withDocument origin v held)) ∧
      Schema.ofText v.text = Schema.ofDocument v := by
  have hdepth : Value.extremes.depth ≤ Json.greatestDepth := by decide
  exact ⟨rfl, withText_text Value.plain_extremes hdepth⟩

end SeedTables
