import SeedTables.Proofs.BinaryRounding
import SeedTables.Proofs.DecimalText

namespace SeedTables

theorem ten_zpow_pos (e : ℤ) : (0 : ℚ) < 10 ^ e := by positivity

namespace Decimal

theorem value_pos (d : Decimal) : 0 < d.value.2 :=
  (Binary64.ratio_pos 10 (by decide) d.exponent).2

theorem value_div (d : Decimal) : (d.value.1 : ℚ) / d.value.2 = d.rational := by
  have hratio := Binary64.ratio_div 10 (by decide) d.exponent
  have hvalue : d.value =
      (d.digits * (Binary64.ratio 10 d.exponent).1, (Binary64.ratio 10 d.exponent).2) := rfl
  rw [hvalue, rational]
  push_cast at hratio ⊢
  rw [mul_div_assoc, hratio]

theorem trimZeros_rational (d : Decimal) : d.trimZeros.rational = d.rational := by
  fun_induction trimZeros d with
  | case1 d h ih =>
    rw [ih]
    have hten : (10 : ℚ) ≠ 0 := by norm_num
    have hdigits : d.digits = d.digits / 10 * 10 := by omega
    have hcast : (d.digits : ℚ) = (d.digits / 10 : ℕ) * 10 := by exact_mod_cast hdigits
    rw [rational, rational, zpow_add₀ hten, hcast]
    ring
  | case2 d h => rfl

theorem rational_pos {d : Decimal} : 0 < d.rational ↔ d.digits ≠ 0 := by
  have hpos := ten_zpow_pos d.exponent
  rw [rational, mul_pos_iff_of_pos_right hpos]
  simp [Nat.pos_iff_ne_zero]

end Decimal

namespace Binary64

variable {x : Binary64}

theorem compareValues_eq_lt {a b : ℕ × ℕ} (ha : 0 < a.2) (hb : 0 < b.2) :
    compareValues a b = .lt ↔ (a.1 / a.2 : ℚ) < b.1 / b.2 := by
  have ha' : (0 : ℚ) < a.2 := by exact_mod_cast ha
  have hb' : (0 : ℚ) < b.2 := by exact_mod_cast hb
  rw [compareValues, Nat.compare_eq_lt, div_lt_div_iff₀ ha' hb']
  exact_mod_cast Iff.rfl

theorem compareValues_eq_eq {a b : ℕ × ℕ} (ha : 0 < a.2) (hb : 0 < b.2) :
    compareValues a b = .eq ↔ (a.1 / a.2 : ℚ) = b.1 / b.2 := by
  have ha' : (a.2 : ℚ) ≠ 0 := by exact_mod_cast ha.ne'
  have hb' : (b.2 : ℚ) ≠ 0 := by exact_mod_cast hb.ne'
  rw [compareValues, Nat.compare_eq_eq, div_eq_div_iff ha' hb']
  exact_mod_cast Iff.rfl

theorem roundsTo_iff {d : Decimal} : roundsTo d x = true ↔ x.Rounds d.rational := by
  unfold roundsTo
  dsimp only
  simp only [Bool.and_eq_true, Bool.or_eq_true, decide_eq_true_eq]
  rw [compareValues_eq_lt x.lowerBound.value_pos d.value_pos,
    compareValues_eq_eq x.lowerBound.value_pos d.value_pos,
    compareValues_eq_lt d.value_pos x.upperBound.value_pos,
    compareValues_eq_eq d.value_pos x.upperBound.value_pos, value_div, value_div, d.value_div]
  constructor
  · intro h
    obtain ⟨hlow, hhigh⟩ := h
    refine ⟨?_, ?_, ?_⟩
    · rcases hlow with h | h
      · exact h.le
      · exact h.2.le
    · rcases hhigh with h | h
      · exact h.le
      · exact h.2.le
    · intro hodd
      have hnot : ¬ x.mantissa % 2 = 0 := by omega
      exact ⟨hlow.resolve_right fun h => hnot h.1, hhigh.resolve_right fun h => hnot h.1⟩
  · intro h
    by_cases heven : x.mantissa % 2 = 0
    · refine ⟨?_, ?_⟩
      · rcases h.low.lt_or_eq with hlt | heq
        · exact .inl hlt
        · exact .inr ⟨heven, heq⟩
      · rcases h.high.lt_or_eq with hlt | heq
        · exact .inl hlt
        · exact .inr ⟨heven, heq⟩
    · obtain ⟨hlow, hhigh⟩ := h.odd (by omega)
      exact ⟨.inl hlow, .inl hhigh⟩

theorem lowerBound_pos (h : x.mantissa ≠ 0) : 0 < x.lowerBound.rational := by
  have hone : (1 : ℚ) ≤ x.mantissa := by exact_mod_cast Nat.one_le_iff_ne_zero.mpr h
  rw [lowerBound_rational (Nat.pos_of_ne_zero h)]
  refine mul_pos ?_ (two_zpow_pos _)
  split_ifs <;> linarith

theorem scaledUp_bounds (x : Binary64) (p : ℕ) :
    (x.scaledUp p : ℚ) ≤ x.rational * 10 ^ (p : ℤ) ∧
      x.rational * 10 ^ (p : ℤ) < (x.scaledUp p + 1 : ℕ) := by
  have hvalue : ((x.value.1 * Nat.pow 10 p : ℕ) / x.value.2 : ℚ) = x.rational * 10 ^ (p : ℤ) := by
    rw [← value_div x, Nat.pow_eq, Nat.cast_mul, Nat.cast_pow, mul_div_right_comm, zpow_natCast,
      Nat.cast_ofNat]
  obtain ⟨hleast, hgreatest⟩ := floor_bounds (x.value.1 * Nat.pow 10 p) x.value_pos
  rw [hvalue] at hleast hgreatest
  refine ⟨hleast, ?_⟩
  rw [Nat.cast_add, Nat.cast_one]
  exact hgreatest

theorem lt_pow_length (x : Binary64) (p : ℕ) :
    x.rational < 10 ^ ((Nat.toDigits 10 (x.scaledUp p)).length - p : ℤ) := by
  have hten : (10 : ℚ) ≠ 0 := by norm_num
  have hlength := length_digits_pos (x.scaledUp p)
  have hdigits := (Nat.length_toDigits_le_iff (by decide) hlength).mp (Nat.le_refl _)
  have hcast : ((x.scaledUp p + 1 : ℕ) : ℚ) ≤
      10 ^ ((Nat.toDigits 10 (x.scaledUp p)).length : ℤ) := by
    rw [zpow_natCast]
    exact_mod_cast hdigits
  rw [zpow_sub₀ hten, lt_div_iff₀ (ten_zpow_pos _)]
  exact (scaledUp_bounds x p).2.trans_le hcast

theorem pow_length_le (x : Binary64) (p : ℕ) (h : (Nat.toDigits 10 (x.scaledUp p)).length ≠ 1) :
    (10 : ℚ) ^ ((Nat.toDigits 10 (x.scaledUp p)).length - 1 - p : ℤ) ≤ x.rational := by
  have hten : (10 : ℚ) ≠ 0 := by norm_num
  obtain ⟨k, hk⟩ := Nat.exists_eq_succ_of_ne_zero (Nat.ne_of_gt (length_digits_pos (x.scaledUp p)))
  have hdigits : 10 ^ k ≤ x.scaledUp p := by
    by_contra hlt
    have hle := (Nat.length_toDigits_le_iff (by decide) (by omega)).mpr (not_le.mp hlt)
    omega
  have hcast : (10 : ℚ) ^ (k : ℤ) ≤ x.scaledUp p := by
    rw [zpow_natCast]
    exact_mod_cast hdigits
  have hexponent : ((Nat.toDigits 10 (x.scaledUp p)).length - 1 - p : ℤ) = k - p := by
    rw [hk]
    push_cast
    ring
  rw [hexponent, zpow_sub₀ hten, div_le_iff₀ (ten_zpow_pos _)]
  exact hcast.trans (scaledUp_bounds x p).1

theorem lt_of_floorLog10 (x : Binary64) : x.rational < 10 ^ (x.floorLog10 + 1) := by
  have hexponent : x.floorLog10 + 1 = (Nat.toDigits 10 (x.scaledUp 324)).length - (324 : ℕ) := by
    rw [floorLog10]
    push_cast
    ring
  rw [hexponent]
  exact x.lt_pow_length 324

/-- A double is no less than its power of ten, if it is no less than all doubles are. -/
theorem le_of_floorLog10 (x : Binary64) :
    (10 : ℚ) ^ x.floorLog10 ≤ x.rational ∨ x.floorLog10 = -324 := by
  by_cases hone : (Nat.toDigits 10 (x.scaledUp 324)).length = 1
  · right
    rw [floorLog10, hone]
    rfl
  · left
    have hexponent : x.floorLog10 =
        (Nat.toDigits 10 (x.scaledUp 324)).length - 1 - (324 : ℕ) := by
      rw [floorLog10]
      push_cast
      ring
    rw [hexponent]
    exact x.pow_length_le 324 hone

theorem scaledDown (x : Binary64) (e : ℤ) :
    ((x.value.1 * (ratio 10 e).2 : ℕ) / (x.value.2 * (ratio 10 e).1 : ℕ) : ℚ) =
      x.rational / 10 ^ e := by
  have hratio := ratio_div 10 (by decide) e
  push_cast at hratio ⊢
  rw [← value_div x, ← hratio, div_div_div_eq]

/-- The greatest multiple of a power of ten that is not above a double. -/
def below (x : Binary64) (e : ℤ) : ℕ :=
  x.value.1 * (ratio 10 e).2 / (x.value.2 * (ratio 10 e).1)

theorem below_bounds (x : Binary64) (e : ℤ) :
    (x.below e : ℚ) * 10 ^ e ≤ x.rational ∧ x.rational < (x.below e + 1) * 10 ^ e := by
  have hpos := Nat.mul_pos x.value_pos (ratio_pos 10 (by decide) e).1
  obtain ⟨hleast, hgreatest⟩ := floor_bounds (x.value.1 * (ratio 10 e).2) hpos
  rw [scaledDown] at hleast hgreatest
  exact ⟨(le_div_iff₀ (ten_zpow_pos e)).mp hleast, (div_lt_iff₀ (ten_zpow_pos e)).mp hgreatest⟩

/-- The nearest multiple is one of the neighbours. -/
theorem nearestMultiple_mem (x : Binary64) (e : ℤ) :
    x.nearestMultiple e = ⟨x.below e, e⟩ ∨ x.nearestMultiple e = ⟨x.below e + 1, e⟩ := by
  have hnearest : x.nearestMultiple e =
      ⟨roundDiv (x.value.1 * (ratio 10 e).2) (x.value.2 * (ratio 10 e).1), e⟩ := rfl
  rw [hnearest]
  rcases roundDiv_mem (x.value.1 * (ratio 10 e).2) (x.value.2 * (ratio 10 e).1) with h | h
  · rw [h]
    exact .inl rfl
  · rw [h]
    exact .inr rfl

theorem onGrid?_eq_some {e : ℤ} {d : Decimal} (h : x.onGrid? e = some d) :
    (d = ⟨x.below e, e⟩ ∨ d = ⟨x.below e + 1, e⟩) ∧ x.Rounds d.rational := by
  have hfound : [x.nearestMultiple e, ⟨x.below e, e⟩, ⟨x.below e + 1, e⟩].find?
      (roundsTo · x) = some d := h
  refine ⟨?_, roundsTo_iff.mp (List.find?_some (p := (roundsTo · x)) hfound)⟩
  have hmem := List.mem_of_find?_eq_some hfound
  simp only [List.mem_cons, List.not_mem_nil, or_false] at hmem
  rcases hmem with rfl | h | h
  · exact x.nearestMultiple_mem e
  · exact .inl h
  · exact .inr h

theorem onGrid?_isSome {e : ℤ} {n : ℕ} (hn : n = x.below e ∨ n = x.below e + 1)
    (h : x.Rounds (Decimal.rational ⟨n, e⟩)) : (x.onGrid? e).isSome = true := by
  have hfound : x.onGrid? e = [x.nearestMultiple e, ⟨x.below e, e⟩, ⟨x.below e + 1, e⟩].find?
      (roundsTo · x) := rfl
  rw [hfound, List.find?_isSome]
  refine ⟨⟨n, e⟩, ?_, roundsTo_iff.mpr h⟩
  rcases hn with rfl | rfl <;> simp

/-- The decimal found on the coarsest grid that has one, if one is found with so many digits. -/
def coarsest? (x : Binary64) (digits : ℕ) : Option Decimal :=
  (List.range digits).findSome? fun (n : ℕ) => x.onGrid? (x.floorLog10 - n)

theorem coarsest?_eq_some {digits : ℕ} {d : Decimal} (h : x.coarsest? digits = some d) :
    ∃ n < digits, x.onGrid? (x.floorLog10 - n) = some d := by
  obtain ⟨n, hn, hd⟩ := List.exists_of_findSome?_eq_some h
  exact ⟨n, List.mem_range.mp hn, hd⟩

theorem coarsest?_of_isSome {n digits : ℕ} (hn : n < digits)
    (h : (x.onGrid? (x.floorLog10 - n)).isSome = true) :
    ∃ d, x.coarsest? digits = some d := by
  rw [← Option.isSome_iff_exists, coarsest?, List.findSome?_isSome_iff]
  exact ⟨n, List.mem_range.mpr hn, h⟩

theorem coarsest?_mono {digits : ℕ} (more : ℕ) {d : Decimal} (h : x.coarsest? digits = some d) :
    x.coarsest? (digits + more) = some d := by
  unfold coarsest? at h ⊢
  rw [List.range_add, List.findSome?_append, h]
  rfl

theorem shortest_of_coarsest? {d : Decimal} (hx : x.mantissa ≠ 0) (h : x.coarsest? 17 = some d) :
    x.shortest = d.trimZeros := by
  unfold coarsest? at h
  unfold shortest
  rw [if_neg hx]
  simp only [h]

theorem shortest_of_none (hx : x.mantissa ≠ 0) (h : x.coarsest? 17 = none) :
    x.shortest = x.nearestMultiple (x.floorLog10 - 16) := by
  unfold coarsest? at h
  unfold shortest
  rw [if_neg hx]
  simp only [h]

theorem digits_pos_of_rounds {d : Decimal} (hx : x.mantissa ≠ 0) (h : x.Rounds d.rational) :
    d.digits ≠ 0 :=
  Decimal.rational_pos.mp ((lowerBound_pos hx).trans_le h.low)

/-- The shortest decimal has digits, but for zero and where all doubles end. -/
theorem shortest_exponent_of_zero (h : x.shortest.digits = 0) : x.shortest.exponent ≤ 0 := by
  by_cases hx : x.mantissa = 0
  · unfold shortest
    rw [if_pos hx]
  cases hd : x.coarsest? 17 with
  | some d =>
    obtain ⟨n, _, hgrid⟩ := coarsest?_eq_some hd
    have hpos := Decimal.rational_pos.mpr (digits_pos_of_rounds hx (onGrid?_eq_some hgrid).2)
    rw [← d.trimZeros_rational, ← shortest_of_coarsest? hx hd] at hpos
    exact absurd h (Decimal.rational_pos.mp hpos)
  | none =>
    rw [shortest_of_none hx hd] at h ⊢
    have hbelow : x.below (x.floorLog10 - 16) = 0 ∧
        (x.nearestMultiple (x.floorLog10 - 16)).exponent = x.floorLog10 - 16 := by
      rcases x.nearestMultiple_mem (x.floorLog10 - 16) with hnear | hnear
      · rw [hnear] at h ⊢
        exact ⟨h, rfl⟩
      · rw [hnear] at h
        exact absurd h (Nat.succ_ne_zero _)
    rw [hbelow.2]
    have hlt := (x.below_bounds (x.floorLog10 - 16)).2
    rw [hbelow.1, Nat.cast_zero, zero_add, one_mul] at hlt
    rcases x.le_of_floorLog10 with hle | hleast
    · have hpow := (zpow_lt_zpow_iff_right₀ (by norm_num : (1 : ℚ) < 10)).mp (hle.trans_lt hlt)
      omega
    · omega

theorem below_lt (x : Binary64) (n : ℕ) : x.below (x.floorLog10 - n) < 10 ^ (n + 1) := by
  have hten : (10 : ℚ) ≠ 0 := by norm_num
  have hlt := (x.below_bounds (x.floorLog10 - n)).1.trans_lt x.lt_of_floorLog10
  rw [← lt_div_iff₀ (ten_zpow_pos _), ← zpow_sub₀ hten] at hlt
  have hexponent : x.floorLog10 + 1 - (x.floorLog10 - n) = ((n + 1 : ℕ) : ℤ) := by
    push_cast
    ring
  rw [hexponent, zpow_natCast] at hlt
  exact_mod_cast hlt

/-- A number of at most so many digits, in front of zeros or behind the point. -/
def HasDigits (digits : ℕ) (q : ℚ) : Prop := ∃ (m : ℕ) (e : ℤ), m < 10 ^ digits ∧ q = m * 10 ^ e

theorem hasDigits_of_le {digits m : ℕ} {e : ℤ} (hdigits : 0 < digits) (h : m ≤ 10 ^ digits) :
    HasDigits digits (m * 10 ^ e) := by
  rcases h.lt_or_eq with hlt | rfl
  · exact ⟨m, e, hlt, rfl⟩
  · have hten : (10 : ℚ) ≠ 0 := by norm_num
    refine ⟨1, digits + e, Nat.one_lt_pow (Nat.ne_of_gt hdigits) (by decide), ?_⟩
    rw [zpow_add₀ hten, zpow_natCast]
    push_cast
    ring

/-- Seventeen digits are enough for every double. -/
theorem shortest_hasDigits (x : Binary64) : HasDigits 17 x.shortest.rational := by
  have hgrid : ∀ (n : ℕ) (d : Decimal), n < 17 →
      d = ⟨x.below (x.floorLog10 - n), x.floorLog10 - n⟩ ∨
        d = ⟨x.below (x.floorLog10 - n) + 1, x.floorLog10 - n⟩ → HasDigits 17 d.rational := by
    intro n d hn hd
    have hlt := x.below_lt n
    have hle : 10 ^ (n + 1) ≤ 10 ^ 17 := Nat.pow_le_pow_right (by decide) hn
    rcases hd with rfl | rfl
    · exact hasDigits_of_le (by decide) (by dsimp only; omega)
    · exact hasDigits_of_le (by decide) (by dsimp only; omega)
  by_cases hx : x.mantissa = 0
  · refine ⟨0, 0, by decide, ?_⟩
    unfold shortest
    rw [if_pos hx]
    rfl
  cases hd : x.coarsest? 17 with
  | some d =>
    obtain ⟨n, hn, hd'⟩ := coarsest?_eq_some hd
    rw [shortest_of_coarsest? hx hd, d.trimZeros_rational]
    exact hgrid n d hn (onGrid?_eq_some hd').1
  | none =>
    rw [shortest_of_none hx hd]
    exact hgrid 16 _ (by decide) (x.nearestMultiple_mem _)

theorem Rounds.near {q : ℚ} (h : x.Rounds q) (hx : 0 < x.mantissa) :
    x.rational - 2 ^ x.exponent / 2 ≤ q ∧ q ≤ x.rational + 2 ^ x.exponent / 2 := by
  have hunit := two_zpow_pos x.exponent
  have hlow := h.low
  have hhigh := h.high
  rw [lowerBound_rational hx] at hlow
  rw [upperBound_rational] at hhigh
  refine ⟨?_, ?_⟩
  · refine le_trans ?_ hlow
    rw [rational]
    split_ifs <;> linarith
  · refine hhigh.trans (le_of_eq ?_)
    rw [rational]
    ring

/-- In a double of full precision the unit of the last place is small. -/
theorem unit_le (h : leastNormal ≤ x.mantissa) : 2 ^ (52 : ℕ) * 2 ^ x.exponent ≤ x.rational := by
  have hcast : (leastNormal : ℚ) ≤ x.mantissa := by exact_mod_cast h
  rw [leastNormal_eq] at hcast
  exact mul_le_mul_of_nonneg_right hcast (two_zpow_pos _).le

/-- A multiple of a power of ten is one of every power below. -/
theorem exists_multiple (n : ℕ) {e f : ℤ} (h : f ≤ e) :
    ∃ m : ℕ, (n : ℚ) * 10 ^ e = m * 10 ^ f := by
  have hten : (10 : ℚ) ≠ 0 := by norm_num
  obtain ⟨k, hk⟩ := Int.eq_ofNat_of_zero_le (sub_nonneg.mpr h)
  refine ⟨n * 10 ^ k, ?_⟩
  have he : e = k + f := by omega
  rw [he, zpow_add₀ hten, zpow_natCast]
  push_cast
  ring

theorem lt_of_multiples {a b : ℕ} {g : ℚ} (hg : 0 < g) (h : (a : ℚ) * g < b * g) : a < b := by
  exact_mod_cast lt_of_mul_lt_mul_right h hg.le

/-- Multiples of a unit that are less than the unit apart are the same. -/
theorem multiple_unique {a b : ℕ} {g : ℚ} (hg : 0 < g) (h : a * g < b * g + g)
    (h' : b * g < a * g + g) : a = b := by
  have hab : a < b + 1 := lt_of_multiples hg (by push_cast; linarith)
  have hba : b < a + 1 := lt_of_multiples hg (by push_cast; linarith)
  omega

/-- A decimal of at most fifteen digits is a multiple of the fifteenth power of ten from the first
digit of the double that it rounds to, since a double comes that near to it. -/
theorem multiple_of_rounds {q : ℚ} (normal : leastNormal ≤ x.mantissa) (h : x.Rounds q)
    (hfloor : (10 : ℚ) ^ x.floorLog10 ≤ x.rational) (short : HasDigits 15 q) :
    ∃ n : ℕ, q = n * 10 ^ (x.floorLog10 - 14) := by
  have hten : (10 : ℚ) ≠ 0 := by norm_num
  obtain ⟨m, e, hm, rfl⟩ := short
  have hnear := (h.near (lt_of_lt_of_le (by decide) normal)).1
  have hunit := unit_le normal
  have hcast : (m : ℚ) ≤ 10 ^ (15 : ℕ) - 1 := by
    have hsucc : ((m + 1 : ℕ) : ℚ) ≤ (10 ^ 15 : ℕ) := by exact_mod_cast hm
    push_cast at hsucc
    linarith
  have hle : (m : ℚ) * 10 ^ e ≤ (10 ^ (15 : ℕ) - 1) * 10 ^ e :=
    mul_le_mul_of_nonneg_right hcast (ten_zpow_pos e).le
  have hpos := ten_zpow_pos x.floorLog10
  have hlt : (10 : ℚ) ^ x.floorLog10 < 10 ^ (15 + e) := by
    rw [zpow_add₀ hten, zpow_ofNat]
    linarith
  have hexponent := (zpow_lt_zpow_iff_right₀ (by norm_num : (1 : ℚ) < 10)).mp hlt
  exact exists_multiple m (by omega)

/-- The unit of the last place is less than the fifteenth power of ten from the first digit. -/
theorem unit_lt (normal : leastNormal ≤ x.mantissa) :
    2 ^ x.exponent < (10 : ℚ) ^ (x.floorLog10 - 14) := by
  have hten : (10 : ℚ) ≠ 0 := by norm_num
  have hunit := unit_le normal
  have hlt := x.lt_of_floorLog10
  have hexponent : x.floorLog10 + 1 = 15 + (x.floorLog10 - 14) := by ring
  rw [hexponent, zpow_add₀ hten, zpow_ofNat] at hlt
  have hpos := ten_zpow_pos (x.floorLog10 - 14)
  linarith

/-- A double that no small number rounds to is no less than its power of ten. -/
theorem pow_floorLog10_le {q : ℚ} (normal : leastNormal ≤ x.mantissa) (h : x.Rounds q)
    (hleast : (10 : ℚ) ^ (-322 : ℤ) ≤ q) : (10 : ℚ) ^ x.floorLog10 ≤ x.rational := by
  refine x.le_of_floorLog10.resolve_right ?_
  intro hsmall
  have hlt := x.lt_of_floorLog10
  have hhigh := (h.near (lt_of_lt_of_le (by decide) normal)).2
  have hunit := unit_le normal
  have hpos := two_zpow_pos x.exponent
  have hexponent : (-322 : ℤ) = 1 + (x.floorLog10 + 1) := by omega
  rw [hexponent, zpow_add₀ (by norm_num), zpow_one] at hleast
  linarith

/-- A multiple that rounds to a double is one of its two neighbours, if the multiples are further
apart than the double's own unit. -/
theorem mem_neighbours {n : ℕ} {e : ℤ} (hx : 0 < x.mantissa)
    (hunit : 2 ^ x.exponent < (10 : ℚ) ^ e) (h : x.Rounds (n * 10 ^ e)) :
    n = x.below e ∨ n = x.below e + 1 := by
  have hgrid := ten_zpow_pos e
  obtain ⟨hlow, hhigh⟩ := h.near hx
  obtain ⟨hbelow, habove⟩ := x.below_bounds e
  have hge : x.below e < n + 1 := lt_of_multiples hgrid (by push_cast; linarith)
  have hle : n < x.below e + 2 := lt_of_multiples hgrid (by push_cast; linarith)
  omega

/-- A decimal of at most fifteen digits is the shortest one of the double that it rounds to. -/
theorem shortest_eq_of_rounds {q : ℚ} (normal : leastNormal ≤ x.mantissa) (h : x.Rounds q)
    (hleast : (10 : ℚ) ^ (-322 : ℤ) ≤ q) (short : HasDigits 15 q) : x.shortest.rational = q := by
  have hpos : 0 < x.mantissa := lt_of_lt_of_le (by decide) normal
  have hunit := unit_lt normal
  have hgrid := ten_zpow_pos (x.floorLog10 - 14)
  obtain ⟨n, rfl⟩ := multiple_of_rounds normal h (pow_floorLog10_le normal h hleast) short
  -- It is one of the two candidates on its grid, so that the search ends there at the latest.
  have hfound := onGrid?_isSome (mem_neighbours hpos hunit h) h
  obtain ⟨d, hd⟩ := coarsest?_of_isSome (by decide : 14 < 15) hfound
  have hshortest := shortest_of_coarsest? (Nat.ne_of_gt hpos) (coarsest?_mono 2 hd)
  rw [hshortest, d.trimZeros_rational]
  -- What is found is a multiple of the same power, and both are within one unit of the double.
  obtain ⟨k, hk, hgridk⟩ := coarsest?_eq_some hd
  obtain ⟨hmem, hrounds⟩ := onGrid?_eq_some hgridk
  have hcoarse : x.floorLog10 - 14 ≤ x.floorLog10 - k := by omega
  obtain ⟨m, hm⟩ : ∃ m : ℕ, d.rational = m * 10 ^ (x.floorLog10 - 14) := by
    rcases hmem with rfl | rfl
    · exact exists_multiple _ hcoarse
    · exact exists_multiple _ hcoarse
  obtain ⟨hlow, hhigh⟩ := h.near hpos
  obtain ⟨hlow', hhigh'⟩ := hrounds.near hpos
  rw [hm] at hlow' hhigh' ⊢
  rw [multiple_unique (a := m) (b := n) hgrid (by linarith) (by linarith)]

end Binary64
end SeedTables
