import SeedTables.Proofs.ShortestDecimal

namespace SeedTables

open Binary64 (HasDigits)

namespace Json

theorem Number.float_denotes (negative : Bool) (size : Binary64) :
    Denotes (Number.float negative size).text.toList
      (if negative then -size.shortest.rational else size.shortest.rational) := by
  obtain ⟨t, rfl, hspelled, hmagnitude⟩ :=
    Decimal.shows_render numberLayout Binary64.shortest_exponent_of_zero negative
  refine ⟨t, ?_, ?_⟩
  · rw [Number.text, String.toList_ofList]
    exact hspelled
  · rw [NumberToken.rational, hmagnitude]

/-- The text of a double, with the sign of a token, denotes what the token stands for exactly if
that is the shortest decimal of the double. -/
theorem NumberToken.float_denotes_iff (t : NumberToken) (size : Binary64) :
    Denotes (Number.float t.negative size).text.toList t.rational ↔
      size.shortest.rational = t.magnitude := by
  have hdenotes := Number.float_denotes t.negative size
  have hsigned : size.shortest.rational = t.magnitude ↔
      t.rational = if t.negative then -size.shortest.rational else size.shortest.rational := by
    unfold rational
    split_ifs
    · rw [neg_inj, eq_comm]
    · exact eq_comm
  rw [hsigned]
  constructor
  · intro h
    exact h.unique hdenotes
  · intro h
    rw [h]
    exact hdenotes

theorem absorb_eq_nil {n word : ℕ} {ds : List Char} (hn : n ≤ greatestWord)
    (h : absorb n ds = (word, [])) :
    word = ds.foldl (fun n d => 10 * n + digitValue d) n ∧ word ≤ greatestWord := by
  induction ds generalizing n with
  | nil =>
    obtain ⟨rfl, -⟩ := Prod.mk.inj h
    exact ⟨rfl, hn⟩
  | cons d ds ih =>
    rw [absorb] at h
    by_cases hfits : 10 * n + digitValue d ≤ greatestWord
    · rw [if_pos hfits] at h
      exact ih hfits h
    · rw [if_neg hfits] at h
      cases (Prod.mk.inj h).2

namespace NumberToken

/-- A token with a fraction or an exponent, or of digits alone whose number has more than 64 bits,
with a sign and without one. -/
def IsWide (t : NumberToken) : Prop :=
  t.fraction ≠ [] ∨ t.exponent ≠ none ∨ t.integer < -2 ^ 63 ∨ 2 ^ 64 ≤ t.integer

variable {t : NumberToken}

theorem value?_eq_scale? {word : ℕ} {dropped : List Char}
    (habsorb : absorb 0 t.whole = (word, dropped))
    (h : ¬ (t.fraction = [] ∧ t.exponent = none ∧ dropped = [])) : t.value? = (do
      let x ← Binary64.ofNat? (absorb word t.fraction).1
      let size ← scale? x
        ((dropped.length : ℤ) - (t.fraction.length - (absorb word t.fraction).2.length : ℕ) +
          (t.exponent.map ExponentPart.value).getD 0)
      return .float t.negative size) := by
  unfold value?
  simp only [habsorb, if_neg h]

theorem IsWide.number {number : Number} (h : t.IsWide) (hvalue : t.value? = some number) :
    ∃ size, number = .float t.negative size := by
  obtain ⟨word, dropped, habsorb⟩ : ∃ word dropped, absorb 0 t.whole = (word, dropped) :=
    ⟨_, _, rfl⟩
  by_cases hplain : t.fraction = [] ∧ t.exponent = none ∧ dropped = []
  · obtain ⟨hfraction, hexponent, rfl⟩ := hplain
    obtain ⟨hword, hfits⟩ := absorb_eq_nil (Nat.zero_le _) habsorb
    have hinteger : t.integer < -2 ^ 63 ∨ 2 ^ 64 ≤ t.integer :=
      (h.resolve_left (absurd hfraction)).resolve_left (absurd hexponent)
    have hlimit : greatestWord = 2 ^ 64 - 1 := rfl
    have hhalf : Nat.pow 2 63 = 2 ^ 63 := rfl
    have hnatural : word = natural t.whole := hword
    unfold integer at hinteger
    unfold value? at hvalue
    simp only [habsorb, hfraction, hexponent, and_self, if_true] at hvalue
    cases hnegative : t.negative with
    | false =>
      rw [hnegative, if_neg Bool.false_ne_true] at hinteger
      omega
    | true =>
      rw [hnegative, if_pos rfl] at hinteger
      have hgreat : ¬ (0 < word ∧ word ≤ Nat.pow 2 63) := by omega
      simp only [hnegative, Bool.not_true, Bool.false_eq_true, if_false, if_neg hgreat] at hvalue
      obtain ⟨size, _, hsize⟩ := Option.map_eq_some_iff.mp hvalue
      exact ⟨size, hsize.symm⟩
  · rw [value?_eq_scale? habsorb hplain] at hvalue
    obtain ⟨x, _, hx⟩ := Option.bind_eq_some_iff.mp hvalue
    obtain ⟨size, _, hsize⟩ := Option.bind_eq_some_iff.mp hx
    exact ⟨size, (Option.some.inj hsize).symm⟩

end NumberToken

theorem scale?_eq {x : Binary64} {e : ℤ} (h : e.natAbs ≤ greatestPower) : scale? x e =
    (Binary64.ofNat? (Nat.pow 10 e.natAbs)).bind fun power =>
      if 0 ≤ e then x.mul? power else x.div? power := by
  rw [scale?, if_pos h]
  rfl

theorem ofNat?_pow_ten {k : ℕ} (h : k ≤ 22) :
    ∃ p, Binary64.ofNat? (Nat.pow 10 k) = some p ∧ p.rational = 10 ^ (k : ℤ) := by
  have heq : Nat.pow 10 k = 5 ^ k * 2 ^ k := by
    rw [← Nat.mul_pow, Nat.pow_eq]
  have hfive : 5 ^ k < 2 ^ 53 :=
    Nat.lt_of_le_of_lt (Nat.pow_le_pow_right (by decide) h) (by decide)
  obtain ⟨p, hp, hrational⟩ := Binary64.ofNat?_exact (Nat.pow_pos (by decide)) heq hfive (by omega)
  refine ⟨p, hp, ?_⟩
  rw [hrational, zpow_natCast]
  push_cast
  rfl

theorem short_bounds {n : ℕ} {e : ℤ} (hpos : 0 < n) (hn : n < 10 ^ 15) (he : e.natAbs ≤ 22) :
    (10 : ℚ) ^ (-22 : ℤ) ≤ n * 10 ^ e ∧ (n * 10 ^ e : ℚ) < 10 ^ (37 : ℤ) := by
  have hten : (10 : ℚ) ≠ 0 := by norm_num
  have hone : (1 : ℚ) ≤ n := by exact_mod_cast hpos
  have hlow : (10 : ℚ) ^ (-22 : ℤ) ≤ 10 ^ e := zpow_le_zpow_right₀ (by norm_num) (by omega)
  have hhigh : (10 : ℚ) ^ e ≤ 10 ^ (22 : ℤ) := zpow_le_zpow_right₀ (by norm_num) (by omega)
  refine ⟨hlow.trans (le_mul_of_one_le_left (ten_zpow_pos e).le hone), ?_⟩
  have hlt : (n : ℚ) < 10 ^ (15 : ℤ) := by exact_mod_cast hn
  calc (n : ℚ) * 10 ^ e ≤ n * 10 ^ (22 : ℤ) := mul_le_mul_of_nonneg_left hhigh (by linarith)
    _ < 10 ^ (15 : ℤ) * 10 ^ (22 : ℤ) := mul_lt_mul_of_pos_right hlt (ten_zpow_pos _)
    _ = 10 ^ (37 : ℤ) := by rw [← zpow_add₀ hten]; rfl

/-- A number of at most fifteen digits is scaled by one rounding. -/
theorem scale?_rounds {x : Binary64} {n : ℕ} {e : ℤ} (hx : x.rational = n) (hpos : 0 < n)
    (hn : n < 10 ^ 15) (he : e.natAbs ≤ 22) :
    ∃ y, scale? x e = some y ∧ y.Rounds (n * 10 ^ e) ∧ Binary64.leastNormal ≤ y.mantissa := by
  obtain ⟨p, hp, hrational⟩ := ofNat?_pow_ten he
  have hpower : 0 < p.rational := hrational ▸ ten_zpow_pos _
  have hsize : 0 < x.rational := by
    rw [hx]
    exact_mod_cast hpos
  obtain ⟨hlow, hhigh⟩ := short_bounds hpos hn he
  have hleast : (2 : ℚ) ^ (-1022 : ℤ) ≤ n * 10 ^ e := by
    have hsmall : (2 : ℚ) ^ (-1022 : ℤ) ≤ 2 ^ (-88 : ℤ) :=
      zpow_le_zpow_right₀ (by norm_num) (by omega)
    exact (hsmall.trans (by norm_num)).trans hlow
  have hgreatest : (n * 10 ^ e : ℚ) < 2 ^ (1023 : ℕ) := by
    have hgreat : (2 : ℚ) ^ (148 : ℕ) ≤ 2 ^ (1023 : ℕ) :=
      pow_le_pow_right₀ (by norm_num) (by omega)
    exact hhigh.trans_le (le_trans (by norm_num) hgreat)
  have hfits : e.natAbs ≤ greatestPower := by
    simp only [greatestPower]
    omega
  rw [scale?_eq hfits, hp, Option.bind_some]
  by_cases hsign : 0 ≤ e
  · have hproduct : x.rational * p.rational = n * 10 ^ e := by
      rw [hx, hrational, Int.natAbs_of_nonneg hsign]
    rw [if_pos hsign, ← hproduct]
    rw [← hproduct] at hleast hgreatest
    exact Binary64.mul?_rounds hsize hpower hleast hgreatest
  · have hquotient : x.rational / p.rational = n * 10 ^ e := by
      have hexponent : ((e.natAbs : ℕ) : ℤ) = -e := by omega
      rw [hx, hrational, hexponent, zpow_neg, div_inv_eq_mul]
    rw [if_neg hsign, ← hquotient]
    rw [← hquotient] at hleast hgreatest
    exact Binary64.div?_rounds hsize hpower hleast hgreatest

theorem scale?_zero {e : ℤ} (he : e.natAbs ≤ 22) :
    scale? Binary64.zero e = some Binary64.zero := by
  obtain ⟨p, hp, _⟩ := ofNat?_pow_ten he
  have hfits : e.natAbs ≤ greatestPower := by
    simp only [greatestPower]
    omega
  have hzero : Binary64.zero.value.1 = 0 := Nat.zero_mul _
  rw [scale?_eq hfits, hp, Option.bind_some, Binary64.mul?, Binary64.div?, hzero, Nat.zero_mul,
    Nat.zero_mul]
  split_ifs
  · rfl
  · rfl

namespace NumberToken

variable {t : NumberToken}

/-- A number of at most fifteen digits, with a point that is moved by at most twenty-two places. -/
structure IsShort (t : NumberToken) : Prop where
  digits : natural (t.whole ++ t.fraction) < 10 ^ 15
  power : t.power.natAbs ≤ 22

theorem IsShort.absorb (h : t.IsShort) : absorb 0 t.whole = (natural t.whole, []) ∧
    absorb (natural t.whole) t.fraction = (natural (t.whole ++ t.fraction), []) := by
  have happend : natural (t.whole ++ t.fraction) =
      t.fraction.foldl (fun n d => 10 * n + digitValue d) (natural t.whole) := by
    rw [natural, List.foldl_append, natural]
  have hle : natural t.whole ≤ natural (t.whole ++ t.fraction) := by
    rw [happend]
    exact le_foldl_digits _ _
  have hfits : natural (t.whole ++ t.fraction) ≤ greatestWord :=
    Nat.le_trans (Nat.le_of_lt h.digits) (by decide)
  refine ⟨absorb_eq_of_le (Nat.le_trans hle hfits), ?_⟩
  rw [happend] at hfits ⊢
  exact absorb_eq_of_le hfits

theorem IsShort.value? (h : t.IsShort) (wide : t.IsWide) : t.value? = (do
    let x ← Binary64.ofNat? (natural (t.whole ++ t.fraction))
    let size ← scale? x t.power
    return .float t.negative size) := by
  obtain ⟨hwhole, hfraction⟩ := h.absorb
  have hplain : ¬ (t.fraction = [] ∧ t.exponent = none ∧ ([] : List Char) = []) := by
    intro hplain
    have hinteger := (wide.resolve_left (absurd hplain.1)).resolve_left (absurd hplain.2.1)
    have hdigits := h.digits
    rw [hplain.1, List.append_nil] at hdigits
    unfold integer at hinteger
    split_ifs at hinteger <;> omega
  have hpower : (([] : List Char).length : ℤ) - (t.fraction.length - ([] : List Char).length : ℕ) +
      (t.exponent.map ExponentPart.value).getD 0 = t.power := by
    unfold NumberToken.power
    simp only [List.length_nil]
    omega
  rw [value?_eq_scale? hwhole hplain, hfraction, hpower]

/-- A short number is the shortest decimal of the double that it is read as. -/
theorem IsShort.shortest (h : t.IsShort) (wide : t.IsWide) :
    ∃ size, t.value? = some (.float t.negative size) ∧ size.shortest.rational = t.magnitude := by
  rw [h.value? wide]
  by_cases hzero : natural (t.whole ++ t.fraction) = 0
  · have hnone : Binary64.ofNat? 0 = some Binary64.zero := rfl
    refine ⟨Binary64.zero, ?_, ?_⟩
    · rw [hzero, hnone]
      simp only [bind_pure_comp, Option.bind_eq_bind, Option.bind_some, scale?_zero h.power]
      rfl
    · have hshortest : Binary64.zero.shortest = ⟨0, 0⟩ := rfl
      rw [magnitude, hzero, hshortest, Decimal.rational]
      simp
  · have hpos := Nat.pos_of_ne_zero hzero
    obtain ⟨x, hx, hrational⟩ := Binary64.ofNat?_exact (e := 0) hpos (Nat.mul_one _).symm
      (Nat.lt_trans h.digits (by decide)) (by decide)
    obtain ⟨y, hy, hrounds, hnormal⟩ := scale?_rounds hrational hpos h.digits h.power
    refine ⟨y, ?_, ?_⟩
    · rw [hx]
      simp only [bind_pure_comp, Option.bind_eq_bind, Option.bind_some, hy]
      rfl
    · have hleast : (10 : ℚ) ^ (-322 : ℤ) ≤ 10 ^ (-22 : ℤ) :=
        zpow_le_zpow_right₀ (by norm_num) (by omega)
      exact Binary64.shortest_eq_of_rounds hnormal hrounds
        (hleast.trans (short_bounds hpos h.digits h.power).1) ⟨_, _, h.digits, rfl⟩

end NumberToken
end Json
end SeedTables
