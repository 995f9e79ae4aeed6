import Mathlib.Algebra.Order.Field.Rat
import Mathlib.Tactic.FieldSimp
import Mathlib.Tactic.Linarith
import Mathlib.Tactic.Positivity
import Mathlib.Tactic.Ring
import SeedTables.Proofs.WholeNumbers

namespace SeedTables

def Decimal.rational (d : Decimal) : ℚ := d.digits * 10 ^ d.exponent

namespace Json

namespace NumberToken

/-- The power of ten by which the digits of a token are to be multiplied. -/
def power (t : NumberToken) : ℤ :=
  (t.exponent.map ExponentPart.value).getD 0 - t.fraction.length

/-- The number that a token stands for, without its sign. -/
def magnitude (t : NumberToken) : ℚ := natural (t.whole ++ t.fraction) * 10 ^ t.power

def rational (t : NumberToken) : ℚ := if t.negative then -t.magnitude else t.magnitude

/-- A token of digits alone stands for a whole number. -/
theorem rational_of_integer {t : NumberToken} (noFraction : t.fraction = [])
    (noExponent : t.exponent = none) : t.rational = t.integer := by
  have hpower : t.power = 0 := by
    rw [power, noFraction, noExponent]
    rfl
  rw [rational, integer, magnitude, hpower, noFraction, List.append_nil, zpow_zero, mul_one]
  split_ifs <;> simp

theorem SpelledBy.unique {t t' : NumberToken} {cs : List Char} (h : t.SpelledBy cs)
    (h' : t'.SpelledBy cs) : t = t' := by
  have hends : EndsNumber [] := Text.stops_nil _
  have hread := (numberToken_of_spelled h hends).symm.trans (numberToken_of_spelled h' hends)
  simp only [Except.ok.injEq, Prod.mk.injEq, and_true] at hread
  exact hread

end NumberToken

def Denotes (cs : List Char) (q : ℚ) : Prop :=
  ∃ t : NumberToken, t.SpelledBy cs ∧ t.rational = q

theorem Denotes.unique {cs : List Char} {q q' : ℚ} (h : Denotes cs q) (h' : Denotes cs q') :
    q = q' := by
  obtain ⟨t, ht, rfl⟩ := h
  obtain ⟨t', ht', rfl⟩ := h'
  rw [ht.unique ht']

theorem natural_append (ds es : List Char) :
    natural (ds ++ es) = natural ds * 10 ^ es.length + natural es := by
  induction es using List.reverseRecOn with
  | nil => simp [natural]
  | append_singleton es e ih =>
    rw [← List.append_assoc, natural_concat, natural_concat, ih, List.length_append,
      List.length_singleton, Nat.pow_succ]
    ring

theorem natural_replicate_zero (n : ℕ) : natural (List.replicate n '0') = 0 := by
  induction n with
  | zero => rfl
  | succ n ih =>
    rw [List.replicate_succ', natural_concat, ih]
    rfl

end Json

theorem length_digits_pos (n : ℕ) : 0 < (Nat.toDigits 10 n).length :=
  List.length_pos_iff.mpr Nat.toDigits_ne_nil

namespace Json

theorem Whole.take {ds : List Char} (h : Whole ds) {n : ℕ} (hn : 0 < n) : Whole (ds.take n) := by
  obtain ⟨d, rest, rfl, _⟩ := h.cases
  obtain ⟨m, rfl⟩ := Nat.exists_eq_succ_of_ne_zero (Nat.ne_of_gt hn)
  refine ⟨⟨by simp, fun c hc => h.all c (List.mem_of_mem_take hc)⟩, ?_⟩
  intro hhead
  rw [h.zero hhead, List.take_succ_cons, List.take_nil]

theorem DigitRun.drop {ds : List Char} (h : DigitRun ds) {n : ℕ} (hn : n < ds.length) :
    DigitRun (ds.drop n) := by
  refine ⟨?_, fun c hc => h.all c (List.mem_of_mem_drop hc)⟩
  rw [Ne, List.drop_eq_nil_iff]
  omega

theorem digitRun_zeros (n : ℕ) : DigitRun (List.replicate (n + 1) '0') := by
  refine ⟨by simp, ?_⟩
  intro c hc
  rw [List.eq_of_mem_replicate hc]
  rfl

/-- Digits go on behind a number that is not zero. -/
theorem Whole.append {ds es : List Char} (h : Whole ds) (hpos : natural ds ≠ 0)
    (hes : ∀ e ∈ es, e.isDigit = true) : Whole (ds ++ es) := by
  obtain ⟨d, rest, rfl, _⟩ := h.cases
  refine ⟨⟨by simp, ?_⟩, ?_⟩
  · intro c hc
    rcases List.mem_append.mp hc with hc | hc
    · exact h.all c hc
    · exact hes c hc
  · intro hhead
    rw [h.zero hhead] at hpos
    exact absurd rfl hpos

theorem whole_zero : Whole ['0'] := whole_toDigits 0

end Json

namespace Decimal

open Json

/-- A token without its sign that a text spells, and that stands for a decimal. -/
def Shows (d : Decimal) (cs : List Char) : Prop :=
  ∀ negative, ∃ t : NumberToken, t.negative = negative ∧ t.SpelledBy (t.sign ++ cs) ∧
    t.magnitude = d.rational

variable {d : Decimal}

theorem Shows.denotes {cs : List Char} (h : d.Shows cs) : Denotes cs d.rational := by
  obtain ⟨t, hnegative, hspelled, hmagnitude⟩ := h false
  refine ⟨t, ?_, ?_⟩
  · rw [NumberToken.sign, hnegative] at hspelled
    exact hspelled
  · rw [NumberToken.rational, hnegative]
    exact hmagnitude

/-- A text whose digits are those of a decimal, perhaps with zeros behind them. -/
theorem Shows.parts (zeros : ℕ) {whole fraction fs es : List Char} {e : Option ExponentPart}
    (hwhole : Whole whole) (hfraction : FractionSpelledBy fraction fs)
    (hexponent : ExponentSpelledBy e es)
    (digits : natural (whole ++ fraction) = d.digits * 10 ^ zeros)
    (place : (e.map ExponentPart.value).getD 0 - fraction.length + zeros = d.exponent) :
    d.Shows (whole ++ (fs ++ es)) := by
  intro negative
  refine ⟨⟨negative, whole, fraction, e⟩, rfl, .parts hwhole hfraction hexponent, ?_⟩
  have hten : (10 : ℚ) ≠ 0 := by norm_num
  rw [NumberToken.magnitude, NumberToken.power, digits, rational, ← place, zpow_add₀ hten _ zeros]
  push_cast
  rw [zpow_natCast]
  ring

/-- The place of the first digit, as a layout counts it. -/
def first (d : Decimal) : ℤ := d.exponent + (Nat.toDigits 10 d.digits).length - 1

theorem shows_integer (h : 0 ≤ d.exponent) (hzero : d.digits = 0 → d.exponent ≤ 0) :
    d.Shows (Nat.toDigits 10 d.digits ++ List.replicate d.exponent.toNat '0' ++ ['.', '0']) := by
  have hdigits := natural_toDigits d.digits
  have hwhole : Whole (Nat.toDigits 10 d.digits ++ List.replicate d.exponent.toNat '0') := by
    by_cases hd : d.digits = 0
    · have hexponent : d.exponent.toNat = 0 := by
        have hle := hzero hd
        omega
      rw [hexponent, List.replicate_zero, List.append_nil]
      exact whole_toDigits _
    · refine (whole_toDigits _).append (by rwa [hdigits]) ?_
      intro c hc
      rw [List.eq_of_mem_replicate hc]
      rfl
  have hfraction : FractionSpelledBy ['0'] ['.', '0'] := .digits (digitRun_zeros 0)
  refine Shows.parts (d.exponent.toNat + 1) hwhole hfraction .absent ?_ ?_
  · rw [natural_append, natural_append, hdigits, natural_replicate_zero, List.length_replicate,
      Nat.pow_succ]
    have hnone : natural ['0'] = 0 := rfl
    rw [hnone, List.length_singleton]
    ring
  · simp only [Option.map_none, Option.getD_none, List.length_singleton]
    omega

theorem shows_split (h : d.exponent < 0) (hfirst : 0 ≤ d.first) :
    d.Shows ((Nat.toDigits 10 d.digits).take (d.first + 1).toNat ++
      '.' :: (Nat.toDigits 10 d.digits).drop (d.first + 1).toNat) := by
  have hlength : (d.first + 1).toNat < (Nat.toDigits 10 d.digits).length := by
    unfold first at hfirst ⊢
    omega
  have hwhole := (whole_toDigits d.digits).take (n := (d.first + 1).toNat) (by omega)
  have hfraction := FractionSpelledBy.digits ((whole_toDigits d.digits).drop hlength)
  have hshows := Shows.parts (d := d) 0 hwhole hfraction .absent ?_ ?_
  · rwa [List.append_nil] at hshows
  · rw [List.take_append_drop, natural_toDigits, Nat.pow_zero, Nat.mul_one]
  · simp only [Option.map_none, Option.getD_none, List.length_drop]
    unfold first at hfirst hlength ⊢
    omega

theorem shows_fraction (hfirst : d.first < 0) :
    d.Shows
      ('0' :: '.' :: List.replicate (-d.first - 1).toNat '0' ++ Nat.toDigits 10 d.digits) := by
  have hrun : DigitRun (List.replicate (-d.first - 1).toNat '0' ++ Nat.toDigits 10 d.digits) := by
    refine ⟨by simp [Nat.toDigits_ne_nil], ?_⟩
    intro c hc
    rcases List.mem_append.mp hc with hc | hc
    · rw [List.eq_of_mem_replicate hc]
      rfl
    · exact (whole_toDigits d.digits).all c hc
  have hshows := Shows.parts (d := d) 0 whole_zero (.digits hrun) .absent ?_ ?_
  · rwa [List.append_nil] at hshows
  · rw [natural_append, natural_append, natural_replicate_zero, natural_toDigits]
    have hnone : natural ['0'] = 0 := rfl
    rw [hnone]
    ring
  · have hlength := length_digits_pos d.digits
    simp only [Option.map_none, Option.getD_none, List.length_append, List.length_replicate]
    unfold first at hfirst ⊢
    omega

/-- The exponent of a decimal as it is laid out. -/
theorem exponent_spelled (n : ℤ) : ∃ e : ExponentPart, e.value = n ∧ ExponentSpelledBy (some e)
    ('e' :: (if n < 0 then '-' else '+') :: Nat.toDigits 10 n.natAbs) := by
  have hrun := (whole_toDigits n.natAbs).toDigitRun
  by_cases h : n < 0
  · refine ⟨⟨true, Nat.toDigits 10 n.natAbs⟩, ?_, ?_⟩
    · rw [ExponentPart.value, if_pos rfl, natural_toDigits]
      omega
    · rw [if_pos h]
      exact .minus (.inl rfl) hrun
  · refine ⟨⟨false, Nat.toDigits 10 n.natAbs⟩, ?_, ?_⟩
    · rw [ExponentPart.value, if_neg Bool.false_ne_true, natural_toDigits]
      omega
    · rw [if_neg h]
      exact .plus (.inl rfl) hrun

theorem shows_exponent (d : Decimal) :
    d.Shows ((if (Nat.toDigits 10 d.digits).length = 1 then Nat.toDigits 10 d.digits
      else (Nat.toDigits 10 d.digits).take 1 ++ '.' :: (Nat.toDigits 10 d.digits).drop 1) ++
        'e' :: (if d.first < 0 then '-' else '+') :: Nat.toDigits 10 d.first.natAbs) := by
  obtain ⟨e, hvalue, hexponent⟩ := exponent_spelled d.first
  by_cases hone : (Nat.toDigits 10 d.digits).length = 1
  · rw [if_pos hone]
    refine Shows.parts 0 (whole_toDigits _) .absent hexponent ?_ ?_
    · rw [List.append_nil, natural_toDigits, Nat.pow_zero, Nat.mul_one]
    · simp only [Option.map_some, Option.getD_some, hvalue, List.length_nil]
      unfold first
      omega
  · rw [if_neg hone, List.append_assoc]
    have hlength := length_digits_pos d.digits
    have hrun := (whole_toDigits d.digits).drop (n := 1) (by omega)
    have hwhole := (whole_toDigits d.digits).take (n := 1) (by decide)
    refine Shows.parts 0 hwhole (.digits hrun) hexponent ?_ ?_
    · rw [List.take_append_drop, natural_toDigits, Nat.pow_zero, Nat.mul_one]
    · simp only [Option.map_some, Option.getD_some, hvalue, List.length_drop]
      unfold first
      omega

theorem render_eq (layout : Layout) (d : Decimal) :
    let ds := Nat.toDigits 10 d.digits
    d.render layout =
      if layout.leastPlain ≤ d.first ∧ d.first ≤ layout.greatestPlain then
        if 0 ≤ d.exponent then ds ++ List.replicate d.exponent.toNat '0' ++ ['.', '0']
        else if 0 ≤ d.first then ds.take (d.first + 1).toNat ++ '.' :: ds.drop (d.first + 1).toNat
        else '0' :: '.' :: List.replicate (-d.first - 1).toNat '0' ++ ds
      else
        (if ds.length = 1 then ds else ds.take 1 ++ '.' :: ds.drop 1) ++
          'e' :: (if d.first < 0 then '-' else '+') :: Nat.toDigits 10 d.first.natAbs := rfl

/-- However a decimal is laid out, its text stands for it. -/
theorem shows_render (layout : Layout) (h : d.digits = 0 → d.exponent ≤ 0) :
    d.Shows (d.render layout) := by
  rw [render_eq]
  by_cases hplain : layout.leastPlain ≤ d.first ∧ d.first ≤ layout.greatestPlain
  · rw [if_pos hplain]
    by_cases hexponent : 0 ≤ d.exponent
    · rw [if_pos hexponent]
      exact shows_integer hexponent h
    · rw [if_neg hexponent]
      by_cases hfirst : 0 ≤ d.first
      · rw [if_pos hfirst]
        exact shows_split (not_le.mp hexponent) hfirst
      · rw [if_neg hfirst]
        exact shows_fraction (not_le.mp hfirst)
  · rw [if_neg hplain]
    exact d.shows_exponent

end Decimal
end SeedTables
