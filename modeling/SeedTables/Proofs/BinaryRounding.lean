import Mathlib.Algebra.Order.Field.Power
import Mathlib.Algebra.Order.Field.Rat
import Mathlib.Data.Nat.Cast.Order.Field
import Mathlib.Tactic.FieldSimp
import Mathlib.Tactic.Linarith
import Mathlib.Tactic.Positivity
import Mathlib.Tactic.Ring
import SeedTables.Binary64
import SeedTables.Decimal.Shortest

namespace SeedTables

theorem roundDiv_mem (num den : ℕ) : roundDiv num den = num / den ∨
    roundDiv num den = num / den + 1 := by
  unfold roundDiv
  dsimp only
  split_ifs <;> simp

theorem div_eq_floor_add (num : ℕ) {den : ℕ} (h : 0 < den) :
    (num / den : ℚ) = (num / den : ℕ) + (num % den : ℕ) / (den : ℚ) ∧
      (0 : ℚ) ≤ (num % den : ℕ) / (den : ℚ) ∧ ((num % den : ℕ) / (den : ℚ)) < 1 := by
  have hden : (0 : ℚ) < den := by exact_mod_cast h
  refine ⟨?_, by positivity, ?_⟩
  · have hsplit : (num : ℚ) = den * (num / den : ℕ) + (num % den : ℕ) := by
      exact_mod_cast (Nat.div_add_mod num den).symm
    field_simp
    linarith
  · rw [div_lt_one hden]
    exact_mod_cast Nat.mod_lt num h

theorem floor_bounds (num : ℕ) {den : ℕ} (h : 0 < den) :
    ((num / den : ℕ) : ℚ) ≤ num / den ∧ (num / den : ℚ) < (num / den : ℕ) + 1 := by
  obtain ⟨heq, hleast, hgreatest⟩ := div_eq_floor_add num h
  rw [heq]
  exact ⟨by linarith, by linarith⟩

/-- A quotient is at most a half away from what it is rounded to, and that is even at a half. -/
theorem roundDiv_spec {num den : ℕ} (h : 0 < den) :
    (roundDiv num den : ℚ) - 1 / 2 ≤ num / den ∧ (num / den : ℚ) ≤ roundDiv num den + 1 / 2 ∧
      (roundDiv num den % 2 = 1 → (roundDiv num den : ℚ) - 1 / 2 < num / den ∧
        (num / den : ℚ) < roundDiv num den + 1 / 2) := by
  have hden : (0 : ℚ) < den := by exact_mod_cast h
  obtain ⟨heq, hleast, hgreatest⟩ := div_eq_floor_add num h
  rw [heq]
  unfold roundDiv
  dsimp only
  split_ifs with hbelow habove heven
  · have hhalf : ((num % den : ℕ) / (den : ℚ)) < 1 / 2 := by
      rw [div_lt_iff₀ hden]
      have hcast : (2 * (num % den : ℕ) : ℚ) < den := by exact_mod_cast hbelow
      linarith
    exact ⟨by linarith, by linarith, fun _ => ⟨by linarith, by linarith⟩⟩
  · have hhalf : 1 / 2 < ((num % den : ℕ) / (den : ℚ)) := by
      rw [lt_div_iff₀ hden]
      have hcast : (den : ℚ) < (2 * (num % den : ℕ) : ℚ) := by exact_mod_cast habove
      linarith
    push_cast
    exact ⟨by linarith, by linarith, fun _ => ⟨by linarith, by linarith⟩⟩
  all_goals
    have hhalf : ((num % den : ℕ) / (den : ℚ)) = 1 / 2 := by
      rw [div_eq_iff hden.ne']
      have hcast : (2 * (num % den : ℕ) : ℚ) = den := by exact_mod_cast (by omega)
      linarith
    push_cast
    exact ⟨by linarith, by linarith, fun hodd => by omega⟩

namespace Binary64

def rational (x : Binary64) : ℚ := x.mantissa * 2 ^ x.exponent

theorem ratio_pos (base : ℕ) (h : 0 < base) (e : ℤ) :
    0 < (ratio base e).1 ∧ 0 < (ratio base e).2 :=
  ⟨Nat.pow_pos h, Nat.pow_pos h⟩

theorem ratio_div (base : ℕ) (h : 0 < base) (e : ℤ) :
    ((ratio base e).1 : ℚ) / (ratio base e).2 = (base : ℚ) ^ e := by
  have hbase : (base : ℚ) ≠ 0 := by positivity
  have he : e = (e.toNat : ℤ) - ((-e).toNat : ℤ) := by omega
  have hpow : (base : ℚ) ^ e = (base : ℚ) ^ ((e.toNat : ℤ) - ((-e).toNat : ℤ)) := by rw [← he]
  rw [hpow, zpow_sub₀ hbase, zpow_natCast, zpow_natCast]
  simp only [ratio, Nat.pow_eq, Nat.cast_pow]

theorem value_pos (x : Binary64) : 0 < x.value.2 := (ratio_pos 2 (by decide) x.exponent).2

theorem value_div (x : Binary64) : (x.value.1 : ℚ) / x.value.2 = x.rational := by
  have hratio := ratio_div 2 (by decide) x.exponent
  have hvalue : x.value = (x.mantissa * (ratio 2 x.exponent).1, (ratio 2 x.exponent).2) := rfl
  rw [hvalue, rational]
  push_cast at hratio ⊢
  rw [mul_div_assoc, hratio]

theorem two_zpow_pos (e : ℤ) : (0 : ℚ) < 2 ^ e := by positivity

theorem log2_bounds {n : ℕ} (h : 0 < n) :
    (2 : ℚ) ^ (n.log2 : ℤ) ≤ n ∧ (n : ℚ) < 2 ^ ((n.log2 : ℤ) + 1) := by
  obtain ⟨hleast, hgreatest⟩ := (Nat.log2_eq_iff (Nat.ne_of_gt h)).mp rfl
  have hsucc : (n.log2 : ℤ) + 1 = ((n.log2 + 1 : ℕ) : ℤ) := by push_cast; rfl
  rw [hsucc, zpow_natCast, zpow_natCast]
  exact ⟨by exact_mod_cast hleast, by exact_mod_cast hgreatest⟩

theorem log2_sub_bounds {num den : ℕ} (hnum : 0 < num) (hden : 0 < den) :
    (2 : ℚ) ^ ((num.log2 : ℤ) - den.log2 - 1) ≤ num / den ∧
      (num / den : ℚ) < 2 ^ ((num.log2 : ℤ) - den.log2 + 1) := by
  have hd : (0 : ℚ) < den := by exact_mod_cast hden
  have htwo : (2 : ℚ) ≠ 0 := by norm_num
  obtain ⟨hnumLeast, hnumGreatest⟩ := log2_bounds hnum
  obtain ⟨hdenLeast, hdenGreatest⟩ := log2_bounds hden
  generalize he : (num.log2 : ℤ) - den.log2 = e
  refine ⟨?_, ?_⟩
  · rw [le_div_iff₀ hd]
    calc (2 : ℚ) ^ (e - 1) * den
        ≤ 2 ^ (e - 1) * 2 ^ ((den.log2 : ℤ) + 1) := by
          exact mul_le_mul_of_nonneg_left hdenGreatest.le (two_zpow_pos _).le
      _ = 2 ^ (num.log2 : ℤ) := by
          rw [← zpow_add₀ htwo]
          congr 1
          omega
      _ ≤ num := hnumLeast
  · rw [div_lt_iff₀ hd]
    calc (num : ℚ) < 2 ^ ((num.log2 : ℤ) + 1) := hnumGreatest
      _ = 2 ^ (e + 1) * 2 ^ (den.log2 : ℤ) := by
          rw [← zpow_add₀ htwo]
          congr 1
          omega
      _ ≤ 2 ^ (e + 1) * den := mul_le_mul_of_nonneg_left hdenLeast (two_zpow_pos _).le

theorem lt_ratio_iff {num den : ℕ} (hden : 0 < den) (e : ℤ) :
    num * (ratio 2 e).2 < den * (ratio 2 e).1 ↔ (num / den : ℚ) < 2 ^ e := by
  have hd : (0 : ℚ) < den := by exact_mod_cast hden
  have hb : (0 : ℚ) < (ratio 2 e).2 := by exact_mod_cast (ratio_pos 2 (by decide) e).2
  have hratio := ratio_div 2 (by decide) e
  push_cast at hratio
  rw [← hratio, div_lt_div_iff₀ hd hb, mul_comm ((ratio 2 e).1 : ℚ)]
  exact_mod_cast Iff.rfl

theorem floorLog2_spec {num den : ℕ} (hnum : 0 < num) (hden : 0 < den) :
    (2 : ℚ) ^ floorLog2 num den ≤ num / den ∧ (num / den : ℚ) < 2 ^ (floorLog2 num den + 1) := by
  obtain ⟨hlow, hhigh⟩ := log2_sub_bounds hnum hden
  have hfloor : floorLog2 num den =
      if num * (ratio 2 (num.log2 - den.log2)).2 < den * (ratio 2 (num.log2 - den.log2)).1 then
        (num.log2 : ℤ) - den.log2 - 1
      else (num.log2 : ℤ) - den.log2 := rfl
  rw [hfloor]
  split_ifs with h
  · rw [sub_add_cancel]
    exact ⟨hlow, (lt_ratio_iff hden _).mp h⟩
  · exact ⟨not_lt.mp fun hlt => h ((lt_ratio_iff hden _).mpr hlt), hhigh⟩

/-- A number that rounds to a double. It lies between the double's bounds, and is none of them if
the mantissa is odd. -/
structure Rounds (x : Binary64) (q : ℚ) : Prop where
  low : x.lowerBound.rational ≤ q
  high : q ≤ x.upperBound.rational
  odd : x.mantissa % 2 = 1 → x.lowerBound.rational < q ∧ q < x.upperBound.rational

theorem upperBound_rational (x : Binary64) :
    x.upperBound.rational = (x.mantissa + 1 / 2) * 2 ^ x.exponent := by
  have htwo : (2 : ℚ) ≠ 0 := by norm_num
  rw [rational, upperBound, zpow_sub₀ htwo]
  push_cast
  ring

theorem lowerBound_rational {x : Binary64} (h : 0 < x.mantissa) : x.lowerBound.rational =
    (x.mantissa - if x.mantissa = leastNormal ∧ leastExponent < x.exponent then 1 / 4 else 1 / 2)
      * 2 ^ x.exponent := by
  have htwo : (2 : ℚ) ≠ 0 := by norm_num
  unfold lowerBound
  split_ifs
  · rw [rational, zpow_sub₀ htwo, Nat.cast_sub (by omega)]
    push_cast
    ring
  · rw [rational, zpow_sub₀ htwo, Nat.cast_sub (by omega)]
    push_cast
    ring

def scaleOf (num den : ℕ) : ℤ := max leastExponent (floorLog2 num den - 52)

/-- The mantissa with which a number is rounded, before it is brought below `2^53`. -/
def scaled (num den : ℕ) : ℕ :=
  roundDiv (num * (ratio 2 (scaleOf num den)).2) (den * (ratio 2 (scaleOf num den)).1)

def rounded (num den : ℕ) : Binary64 :=
  if scaled num den = 2 * leastNormal then ⟨leastNormal, scaleOf num den + 1⟩
  else ⟨scaled num den, scaleOf num den⟩

variable {num den : ℕ}

theorem nearest?_eq (hnum : 0 < num) : nearest? num den =
    if (rounded num den).exponent ≤ greatestExponent then some (rounded num den) else none := by
  unfold nearest?
  rw [if_neg (Nat.ne_of_gt hnum)]
  rfl

theorem scaled_div (hden : 0 < den) :
    ((num * (ratio 2 (scaleOf num den)).2 : ℕ) / (den * (ratio 2 (scaleOf num den)).1 : ℕ) : ℚ) =
      num / den / 2 ^ scaleOf num den := by
  have hratio := ratio_div 2 (by decide) (scaleOf num den)
  obtain ⟨ha, hb⟩ := ratio_pos 2 (by decide) (scaleOf num den)
  have hb' : ((ratio 2 (scaleOf num den)).2 : ℚ) ≠ 0 := by positivity
  push_cast at hratio ⊢
  rw [← hratio]
  field_simp

theorem scaled_spec (num : ℕ) {den : ℕ} (hden : 0 < den) :
    (scaled num den : ℚ) - 1 / 2 ≤ num / den / 2 ^ scaleOf num den ∧
      (num / den / 2 ^ scaleOf num den : ℚ) ≤ scaled num den + 1 / 2 ∧
      (scaled num den % 2 = 1 →
        (scaled num den : ℚ) - 1 / 2 < num / den / 2 ^ scaleOf num den ∧
        (num / den / 2 ^ scaleOf num den : ℚ) < scaled num den + 1 / 2) := by
  have hpos := (ratio_pos 2 (by decide) (scaleOf num den)).1
  rw [← scaled_div hden]
  exact roundDiv_spec (Nat.mul_pos hden hpos)

/-- Fewer than `2^53` units of the last place. -/
theorem div_lt_of_scaleOf (hnum : 0 < num) (hden : 0 < den) :
    (num / den / 2 ^ scaleOf num den : ℚ) < 2 ^ (53 : ℕ) := by
  have htwo : (2 : ℚ) ≠ 0 := by norm_num
  rw [div_lt_iff₀ (two_zpow_pos _), ← zpow_natCast, ← zpow_add₀ htwo]
  refine lt_of_lt_of_le (floorLog2_spec hnum hden).2 (zpow_le_zpow_right₀ (by norm_num) ?_)
  have hscale : floorLog2 num den - 52 ≤ scaleOf num den := le_max_right _ _
  push_cast
  omega

/-- At least `2^52` units of the last place, but for the numbers nearest to zero. -/
theorem le_div_of_scaleOf (hnum : 0 < num) (hden : 0 < den)
    (h : leastExponent < scaleOf num den ∨ (2 : ℚ) ^ (-1022 : ℤ) ≤ num / den) :
    (2 : ℚ) ^ (52 : ℕ) ≤ num / den / 2 ^ scaleOf num den := by
  have htwo : (2 : ℚ) ≠ 0 := by norm_num
  rw [le_div_iff₀ (two_zpow_pos _), ← zpow_natCast, ← zpow_add₀ htwo]
  by_cases hscale : leastExponent < scaleOf num den
  · have hfloor : ((52 : ℕ) : ℤ) + scaleOf num den = floorLog2 num den := by
      unfold scaleOf at hscale ⊢
      omega
    rw [hfloor]
    exact (floorLog2_spec hnum hden).1
  · have hleast : ((52 : ℕ) : ℤ) + scaleOf num den = -1022 := by
      unfold scaleOf at hscale ⊢
      simp only [leastExponent] at hscale ⊢
      omega
    rw [hleast]
    exact h.resolve_left hscale

theorem leastNormal_eq : (leastNormal : ℚ) = 2 ^ (52 : ℕ) := by
  rw [leastNormal, Nat.pow_eq]
  norm_num

theorem rounds_units {m : ℕ} {r : ℚ} {e : ℤ} (hlow : (m : ℚ) - 1 / 2 ≤ r) (hhigh : r ≤ m + 1 / 2)
    (hodd : m % 2 = 1 → (m : ℚ) - 1 / 2 < r ∧ r < m + 1 / 2)
    (hnormal : leastExponent < e → (2 : ℚ) ^ (52 : ℕ) ≤ r) (hr : 0 ≤ r) :
    (⟨m, e⟩ : Binary64).Rounds (r * 2 ^ e) := by
  have hunit := two_zpow_pos e
  have hupper := upperBound_rational ⟨m, e⟩
  by_cases hzero : m = 0
  · have hlower : (⟨m, e⟩ : Binary64).lowerBound.rational ≤ 0 := by
      subst hzero
      simp [lowerBound, rational, leastNormal]
    refine ⟨hlower.trans (mul_nonneg hr hunit.le), ?_, ?_⟩
    · rw [hupper]
      exact mul_le_mul_of_nonneg_right hhigh hunit.le
    · intro h
      dsimp only at h
      omega
  have hlower := lowerBound_rational (x := ⟨m, e⟩) (Nat.pos_of_ne_zero hzero)
  -- Just above a power of two the lower bound is nearer, but there the number is no less than it.
  have hbelow : (m : ℚ) - (if m = leastNormal ∧ leastExponent < e then 1 / 4 else 1 / 2) ≤ r ∧
      (m % 2 = 1 →
        (m : ℚ) - (if m = leastNormal ∧ leastExponent < e then 1 / 4 else 1 / 2) < r) := by
    split_ifs with h
    · have hleast := hnormal h.2
      rw [← leastNormal_eq, ← h.1] at hleast
      exact ⟨by linarith, fun _ => by linarith⟩
    · exact ⟨hlow, fun h => (hodd h).1⟩
  refine ⟨?_, ?_, ?_⟩
  · rw [hlower]
    exact mul_le_mul_of_nonneg_right hbelow.1 hunit.le
  · rw [hupper]
    exact mul_le_mul_of_nonneg_right hhigh hunit.le
  · intro h
    rw [hlower, hupper]
    exact ⟨mul_lt_mul_of_pos_right (hbelow.2 h) hunit, mul_lt_mul_of_pos_right (hodd h).2 hunit⟩

/-- A number that rounds to `2^53` units of the last place. -/
theorem rounds_carry {r : ℚ} {e : ℤ} (hleast : leastExponent ≤ e)
    (hlow : (2 : ℚ) ^ (53 : ℕ) - 1 / 2 ≤ r) (hhigh : r ≤ 2 ^ (53 : ℕ) + 1 / 2) :
    (⟨leastNormal, e + 1⟩ : Binary64).Rounds (r * 2 ^ e) := by
  have hunit := two_zpow_pos e
  have htwo : (2 : ℚ) ≠ 0 := by norm_num
  have hdouble : (2 : ℚ) ^ (e + 1) = 2 * 2 ^ e := by
    rw [zpow_add₀ htwo, zpow_one, mul_comm]
  have hpos : 0 < leastNormal := by decide
  have hlower := lowerBound_rational (x := ⟨leastNormal, e + 1⟩) hpos
  have hupper := upperBound_rational ⟨leastNormal, e + 1⟩
  rw [if_pos ⟨rfl, by show leastExponent < e + 1; omega⟩] at hlower
  dsimp only at hlower hupper
  rw [hdouble, leastNormal_eq] at hlower hupper
  refine ⟨?_, ?_, ?_⟩
  · rw [hlower]
    nlinarith
  · rw [hupper]
    nlinarith
  · intro hodd
    have heven : leastNormal % 2 = 0 := by decide
    dsimp only at hodd
    omega

theorem rounded_rounds (hnum : 0 < num) (hden : 0 < den) :
    (rounded num den).Rounds (num / den) := by
  obtain ⟨hlow, hhigh, hodd⟩ := scaled_spec num hden
  have hq : (num / den : ℚ) = num / den / 2 ^ scaleOf num den * 2 ^ scaleOf num den := by
    rw [div_mul_cancel₀ _ (two_zpow_pos _).ne']
  rw [hq]
  unfold rounded
  split_ifs with hcarry
  · have hcast : (scaled num den : ℚ) = 2 ^ (53 : ℕ) := by
      rw [hcarry]
      push_cast
      rw [leastNormal_eq]
      norm_num
    rw [hcast] at hlow hhigh
    exact rounds_carry (le_max_left _ _) hlow hhigh
  · refine rounds_units hlow hhigh hodd ?_ (by positivity)
    exact fun h => le_div_of_scaleOf hnum hden (.inl h)

/-- A number that is not near to zero is rounded to a double of full precision. -/
theorem le_rounded_mantissa (hnum : 0 < num) (hden : 0 < den)
    (h : (2 : ℚ) ^ (-1022 : ℤ) ≤ num / den) : leastNormal ≤ (rounded num den).mantissa := by
  unfold rounded
  split_ifs
  · exact Nat.le_refl _
  · have hleast := le_div_of_scaleOf hnum hden (.inr h)
    have hhigh := (scaled_spec num hden).2.1
    rw [← leastNormal_eq] at hleast
    have hcast : (leastNormal : ℚ) < (scaled num den + 1 : ℕ) := by
      push_cast
      linarith
    have hlt : leastNormal < scaled num den + 1 := by exact_mod_cast hcast
    exact Nat.le_of_lt_succ hlt

theorem rounded_exponent_le (hnum : 0 < num) (hden : 0 < den)
    (h : (num / den : ℚ) < 2 ^ (1023 : ℕ)) : (rounded num den).exponent ≤ greatestExponent := by
  have hfloor := (floorLog2_spec hnum hden).1.trans_lt h
  rw [← zpow_natCast] at hfloor
  have hlt : floorLog2 num den < (1023 : ℕ) := (zpow_lt_zpow_iff_right₀ (by norm_num)).mp hfloor
  have hscale : scaleOf num den < greatestExponent := by
    simp only [scaleOf, leastExponent, greatestExponent]
    omega
  unfold rounded
  split_ifs
  · exact hscale
  · exact hscale.le

/-- A number of neither extreme is rounded to a double of full precision. -/
theorem nearest?_rounds (hnum : 0 < num) (hden : 0 < den)
    (hleast : (2 : ℚ) ^ (-1022 : ℤ) ≤ num / den) (hgreatest : (num / den : ℚ) < 2 ^ (1023 : ℕ)) :
    ∃ x, nearest? num den = some x ∧ x.Rounds (num / den) ∧ leastNormal ≤ x.mantissa := by
  refine ⟨rounded num den, ?_, rounded_rounds hnum hden, le_rounded_mantissa hnum hden hleast⟩
  rw [nearest?_eq hnum, if_pos (rounded_exponent_le hnum hden hgreatest)]

section Exact

variable {m : ℕ} {e : ℤ}

theorem scaleOf_le (hnum : 0 < num) (hden : 0 < den) (heq : (num / den : ℚ) = m * 2 ^ e)
    (hm : m < 2 ^ 53) (hleast : leastExponent ≤ e) : scaleOf num den ≤ e := by
  have htwo : (2 : ℚ) ≠ 0 := by norm_num
  have hlt : (2 : ℚ) ^ floorLog2 num den < 2 ^ ((53 : ℕ) + e) := by
    refine (floorLog2_spec hnum hden).1.trans_lt ?_
    rw [heq, zpow_add₀ htwo, zpow_natCast]
    exact mul_lt_mul_of_pos_right (by exact_mod_cast hm) (two_zpow_pos e)
  have hfloor := (zpow_lt_zpow_iff_right₀ (by norm_num)).mp hlt
  unfold scaleOf
  push_cast at hfloor
  omega

theorem scaled_eq {k : ℕ} (hden : 0 < den) (hunits : (num / den / 2 ^ scaleOf num den : ℚ) = k) :
    scaled num den = k := by
  obtain ⟨hlow, hhigh, -⟩ := scaled_spec num hden
  rw [hunits] at hlow hhigh
  have hle : (scaled num den : ℚ) < (k + 1 : ℕ) := by
    push_cast
    linarith
  have hge : (k : ℚ) < (scaled num den + 1 : ℕ) := by
    push_cast
    linarith
  have hle' : scaled num den < k + 1 := by exact_mod_cast hle
  have hge' : k < scaled num den + 1 := by exact_mod_cast hge
  omega

/-- A number that a double stands for is rounded to that. -/
theorem nearest?_exact (hnum : 0 < num) (hden : 0 < den) (heq : (num / den : ℚ) = m * 2 ^ e)
    (hm : m < 2 ^ 53) (hleast : leastExponent ≤ e) (hgreatest : e ≤ greatestExponent) :
    ∃ x, nearest? num den = some x ∧ x.rational = num / den := by
  have htwo : (2 : ℚ) ≠ 0 := by norm_num
  have hscale := scaleOf_le hnum hden heq hm hleast
  obtain ⟨k, hk⟩ := Int.eq_ofNat_of_zero_le (sub_nonneg.mpr hscale)
  have hunits : (num / den / 2 ^ scaleOf num den : ℚ) = (m * 2 ^ k : ℕ) := by
    have hexponent : e = k + scaleOf num den := by omega
    have hpow : (2 : ℚ) ^ e = 2 ^ (k + scaleOf num den) := by rw [← hexponent]
    rw [heq, hpow, zpow_add₀ htwo, zpow_natCast]
    push_cast
    field_simp
  have hscaled := scaled_eq hden hunits
  have hcarry : scaled num den ≠ 2 * leastNormal := by
    have hsmall := div_lt_of_scaleOf hnum hden
    rw [hunits, ← hscaled] at hsmall
    have hlt : scaled num den < 2 ^ 53 := by exact_mod_cast hsmall
    rw [leastNormal, Nat.pow_eq]
    omega
  have hrounded : rounded num den = ⟨scaled num den, scaleOf num den⟩ := if_neg hcarry
  refine ⟨rounded num den, ?_, ?_⟩
  · rw [nearest?_eq hnum, if_pos]
    rw [hrounded]
    exact hscale.trans hgreatest
  · rw [hrounded, rational, hscaled, ← hunits, div_mul_cancel₀ _ (two_zpow_pos _).ne']

end Exact

theorem ofNat?_exact {n m e : ℕ} (hn : 0 < n) (heq : n = m * 2 ^ e) (hm : m < 2 ^ 53)
    (he : e ≤ 971) : ∃ x, ofNat? n = some x ∧ x.rational = n := by
  have hvalue : ((n : ℕ) / (1 : ℕ) : ℚ) = m * 2 ^ (e : ℤ) := by
    rw [heq, zpow_natCast]
    push_cast
    ring
  have hexponent : leastExponent ≤ e := by
    simp only [leastExponent]
    omega
  obtain ⟨x, hx, hrational⟩ := nearest?_exact hn Nat.one_pos hvalue hm hexponent (by
    simp only [greatestExponent]
    omega)
  refine ⟨x, hx, ?_⟩
  rw [hrational]
  simp

variable {x y : Binary64}

theorem value_fst_pos (h : 0 < x.rational) : 0 < x.value.1 := by
  have hdiv := value_div x
  rw [← hdiv] at h
  by_contra hzero
  rw [Nat.eq_zero_of_not_pos hzero] at h
  simp at h

/-- A product of neither extreme is rounded once. -/
theorem mul?_rounds (hx : 0 < x.rational) (hy : 0 < y.rational)
    (hleast : (2 : ℚ) ^ (-1022 : ℤ) ≤ x.rational * y.rational)
    (hgreatest : x.rational * y.rational < 2 ^ (1023 : ℕ)) :
    ∃ z, x.mul? y = some z ∧ z.Rounds (x.rational * y.rational) ∧ leastNormal ≤ z.mantissa := by
  have hvalue : ((x.value.1 * y.value.1 : ℕ) / (x.value.2 * y.value.2 : ℕ) : ℚ) =
      x.rational * y.rational := by
    rw [← value_div x, ← value_div y]
    push_cast
    rw [div_mul_div_comm]
  rw [← hvalue] at hleast hgreatest ⊢
  exact nearest?_rounds (Nat.mul_pos (value_fst_pos hx) (value_fst_pos hy))
    (Nat.mul_pos x.value_pos y.value_pos) hleast hgreatest

theorem div?_rounds (hx : 0 < x.rational) (hy : 0 < y.rational)
    (hleast : (2 : ℚ) ^ (-1022 : ℤ) ≤ x.rational / y.rational)
    (hgreatest : x.rational / y.rational < 2 ^ (1023 : ℕ)) :
    ∃ z, x.div? y = some z ∧ z.Rounds (x.rational / y.rational) ∧ leastNormal ≤ z.mantissa := by
  have hvalue : ((x.value.1 * y.value.2 : ℕ) / (x.value.2 * y.value.1 : ℕ) : ℚ) =
      x.rational / y.rational := by
    rw [← value_div x, ← value_div y]
    push_cast
    rw [div_div_div_eq]
  rw [← hvalue] at hleast hgreatest ⊢
  exact nearest?_rounds (Nat.mul_pos (value_fst_pos hx) y.value_pos)
    (Nat.mul_pos x.value_pos (value_fst_pos hy)) hleast hgreatest

end Binary64
end SeedTables
