import Mathlib.Data.List.Induction
import Mathlib.Tactic.IntervalCases
import SeedTables.Json.Printer
import SeedTables.Proofs.TokenSpelling

namespace SeedTables.Json

theorem toNat_of_isDigit {c : Char} (h : c.isDigit = true) : 48 ≤ c.toNat ∧ c.toNat ≤ 57 := by
  simp only [Char.isDigit, Bool.and_eq_true, decide_eq_true_eq, UInt32.le_iff_toNat_le] at h
  exact h

theorem digitValue_lt {c : Char} (h : c.isDigit = true) : digitValue c < 10 := by
  have hc := toNat_of_isDigit h
  have hzero : ('0' : Char).toNat = 48 := rfl
  unfold digitValue
  omega

theorem digitValue_digitChar {n : Nat} (h : n < 10) : digitValue (Nat.digitChar n) = n := by
  interval_cases n <;> rfl

theorem digitChar_digitValue {c : Char} (h : c.isDigit = true) :
    Nat.digitChar (digitValue c) = c := by
  obtain ⟨hleast, hgreatest⟩ := toNat_of_isDigit h
  have hc : c = Char.ofNat c.toNat := (Char.ofNat_toNat c).symm
  unfold digitValue
  generalize c.toNat = n at *
  subst hc
  interval_cases n <;> rfl

theorem natural_concat (ds : List Char) (d : Char) :
    natural (ds ++ [d]) = 10 * natural ds + digitValue d := by
  rw [natural, List.foldl_append, List.foldl_cons, List.foldl_nil, natural]

theorem natural_toDigits (n : Nat) : natural (Nat.toDigits 10 n) = n := by
  induction n using Nat.strongRecOn with
  | ind n ih =>
    rw [Nat.toDigits_eq_if (by decide)]
    by_cases h : n < 10
    · rw [if_pos h, ← List.nil_append [_], natural_concat, digitValue_digitChar h]
      exact Nat.zero_add n
    · rw [if_neg h, natural_concat, ih (n / 10) (by omega),
        digitValue_digitChar (Nat.mod_lt n (by decide))]
      omega

theorem toDigits_natural_of_head {ds : List Char} (hall : ∀ d ∈ ds, d.isDigit = true)
    (hhead : ∃ d rest, ds = d :: rest ∧ d ≠ '0') :
    0 < natural ds ∧ Nat.toDigits 10 (natural ds) = ds := by
  induction ds using List.reverseRecOn with
  | nil =>
    obtain ⟨d, rest, hnil, _⟩ := hhead
    cases hnil
  | append_singleton ds d ih =>
    have hd : d.isDigit = true := hall d (by simp)
    have hlast : Nat.toDigits 10 (digitValue d) = [d] := by
      rw [Nat.toDigits_of_lt_base (digitValue_lt hd), digitChar_digitValue hd]
    obtain ⟨first, rest, hfirst, hne⟩ := hhead
    rw [natural_concat]
    cases ds with
    | nil =>
      obtain ⟨rfl, -⟩ := List.cons.inj hfirst
      have hpos : digitValue d ≠ 0 := by
        intro h0
        rw [h0] at hlast
        exact hne (List.cons.inj hlast).1.symm
      have hnatural : 10 * natural [] + digitValue d = digitValue d := Nat.zero_add _
      rw [hnatural]
      exact ⟨Nat.pos_of_ne_zero hpos, hlast⟩
    | cons e es =>
      obtain ⟨rfl, -⟩ := List.cons.inj hfirst
      obtain ⟨hpos, hdigits⟩ := ih (fun x hx => hall x (List.mem_append_left _ hx)) ⟨_, _, rfl, hne⟩
      refine ⟨by omega, ?_⟩
      rw [← Nat.toDigits_append_toDigits (by decide) hpos (digitValue_lt hd), hdigits, hlast]

theorem toDigits_natural {ds : List Char} (h : Whole ds) : Nat.toDigits 10 (natural ds) = ds := by
  obtain ⟨d, rest, rfl, _⟩ := h.cases
  by_cases hzero : d = '0'
  · subst hzero
    rw [h.zero rfl]
    rfl
  · exact (toDigits_natural_of_head h.all ⟨d, rest, rfl, hzero⟩).2

theorem whole_toDigits (n : Nat) : Whole (Nat.toDigits 10 n) := by
  have hrun : ∀ m, DigitRun (Nat.toDigits 10 m) := fun m =>
    ⟨Nat.toDigits_ne_nil, fun _ hd => Nat.isDigit_of_mem_toDigits (by decide) (by decide) hd⟩
  refine ⟨hrun n, ?_⟩
  induction n using Nat.strongRecOn with
  | ind n ih =>
    rw [Nat.toDigits_eq_if (by decide)]
    by_cases h : n < 10
    · rw [if_pos h]
      intro hhead
      rw [Option.some.inj hhead]
    · rw [if_neg h]
      intro hhead
      obtain ⟨d, rest, hd, _⟩ := (hrun (n / 10)).cases
      have hsmall : n / 10 < n := by omega
      have hzero := ih (n / 10) hsmall (by rw [hd] at hhead ⊢; exact hhead)
      have hnatural := natural_toDigits (n / 10)
      rw [hzero] at hnatural
      have hnone : natural ['0'] = 0 := rfl
      omega

theorem le_foldl_digits (n : Nat) (ds : List Char) :
    n ≤ ds.foldl (fun n d => 10 * n + digitValue d) n := by
  induction ds generalizing n with
  | nil => exact Nat.le_refl n
  | cons d ds ih =>
    have h := ih (10 * n + digitValue d)
    rw [List.foldl_cons]
    omega

/-- Digits are all taken if their number fits a word. -/
theorem absorb_eq_of_le {n : Nat} {ds : List Char}
    (h : ds.foldl (fun n d => 10 * n + digitValue d) n ≤ greatestWord) :
    absorb n ds = (ds.foldl (fun n d => 10 * n + digitValue d) n, []) := by
  induction ds generalizing n with
  | nil => rfl
  | cons d ds ih =>
    rw [List.foldl_cons] at h ⊢
    have hfits := Nat.le_trans (le_foldl_digits (10 * n + digitValue d) ds) h
    rw [absorb, if_pos hfits, ih h]

namespace NumberToken

/-- The number that a token of digits alone stands for. -/
def integer (t : NumberToken) : Int := if t.negative then -natural t.whole else natural t.whole

/-- A token of digits alone whose number has 64 bits, with a sign or without one. Minus zero is not
such a number. -/
structure IsWord (t : NumberToken) : Prop where
  noFraction : t.fraction = []
  noExponent : t.exponent = none
  notMinusZero : ¬ (t.negative = true ∧ natural t.whole = 0)
  least : -2 ^ 63 ≤ t.integer
  greatest : t.integer < 2 ^ 64

theorem IsWord.value? {t : NumberToken} (h : t.IsWord) : t.value? = some (.int t.integer) := by
  have hleast := h.least
  have hgreatest := h.greatest
  have hlimit : greatestWord = 2 ^ 64 - 1 := rfl
  have hhalf : Nat.pow 2 63 = 2 ^ 63 := rfl
  unfold integer at hleast hgreatest ⊢
  unfold NumberToken.value?
  cases hnegative : t.negative with
  | false =>
    rw [hnegative, if_neg Bool.false_ne_true] at hgreatest
    have hword : natural t.whole ≤ greatestWord := by omega
    have habsorb : absorb 0 t.whole = (natural t.whole, []) := absorb_eq_of_le hword
    simp [habsorb, h.noFraction, h.noExponent]
  | true =>
    rw [hnegative, if_pos rfl] at hleast
    have hword : natural t.whole ≤ greatestWord := by omega
    have habsorb : absorb 0 t.whole = (natural t.whole, []) := absorb_eq_of_le hword
    have hpos : 0 < natural t.whole :=
      Nat.pos_of_ne_zero fun hzero => h.notMinusZero ⟨hnegative, hzero⟩
    have hfits : natural t.whole ≤ Nat.pow 2 63 := by omega
    simp [habsorb, h.noFraction, h.noExponent, hpos, hfits]

theorem IsWord.spelled {t : NumberToken} (h : t.IsWord) {cs : List Char} (hcs : t.SpelledBy cs) :
    Whole t.whole ∧ cs = t.sign ++ t.whole := by
  cases hcs with
  | parts whole behindPoint power =>
    rw [h.noFraction] at behindPoint
    rw [h.noExponent] at power
    cases power
    cases behindPoint with
    | absent => exact ⟨whole, by simp⟩
    | digits run => exact absurd rfl run.some

/-- The text of a number is the token that it was written as. -/
theorem IsWord.text {t : NumberToken} (h : t.IsWord) {cs : List Char} (hcs : t.SpelledBy cs) :
    (Number.int t.integer).text.toList = cs := by
  obtain ⟨hwhole, rfl⟩ := h.spelled hcs
  unfold integer sign
  cases hnegative : t.negative with
  | false =>
    change (Nat.repr (natural t.whole)).toList = _
    rw [Nat.toList_repr, toDigits_natural hwhole]
    rfl
  | true =>
    have hpos : 0 < natural t.whole :=
      Nat.pos_of_ne_zero fun hzero => h.notMinusZero ⟨hnegative, hzero⟩
    obtain ⟨n, hn⟩ := Nat.exists_eq_succ_of_ne_zero (Nat.ne_of_gt hpos)
    have htext : (Number.int (-(natural t.whole : Int))).text = "-" ++ Nat.repr (natural t.whole) := by
      rw [hn]
      rfl
    rw [if_pos rfl, if_pos rfl, htext, String.toList_append, Nat.toList_repr,
      toDigits_natural hwhole]
    rfl

/-- A whole number as it is written. -/
def ofInt (n : Int) : NumberToken := ⟨n < 0, Nat.toDigits 10 n.natAbs, [], none⟩

theorem integer_ofInt (n : Int) : (ofInt n).integer = n := by
  unfold integer ofInt
  rw [natural_toDigits]
  by_cases h : n < 0
  · rw [if_pos (decide_eq_true h)]
    omega
  · rw [if_neg (by simpa using h)]
    omega

theorem ofInt_isWord {n : Int} (least : -2 ^ 63 ≤ n) (greatest : n < 2 ^ 64) :
    (ofInt n).IsWord := by
  refine ⟨rfl, rfl, ?_, by rwa [integer_ofInt], by rwa [integer_ofInt]⟩
  intro hminus
  obtain ⟨hnegative, hzero⟩ := hminus
  have hn : n < 0 := of_decide_eq_true hnegative
  rw [ofInt, natural_toDigits] at hzero
  omega

theorem ofInt_spelled {n : Int} (h : (ofInt n).IsWord) :
    (ofInt n).SpelledBy (Number.int n).text.toList := by
  have hparts := SpelledBy.parts (t := ofInt n) (whole_toDigits n.natAbs) .absent .absent
  have htext := h.text hparts
  rw [integer_ofInt] at htext
  exact htext ▸ hparts

end NumberToken
end SeedTables.Json
