import ComponentCompiler.Number.Decimal
import Mathlib.Algebra.Order.Field.Power
import Mathlib.Tactic.FieldSimp
import Mathlib.Tactic.Linarith
import Mathlib.Tactic.NormNum
import Mathlib.Tactic.Ring

/-!
Rounding of ratios to double-precision numbers. Main statement: `ofRatio_eq`, a ratio in the
interval of a number is rounded to that number.
-/

namespace ComponentCompiler.Binary64

open Nat

variable {den m num : Nat}

structure Normal (mantissa : Nat) (exponent : Int) : Prop where
  least : minExponent ≤ exponent
  greatest : exponent ≤ maxExponent
  positive : 0 < mantissa
  below : mantissa < 2 ^ 53
  full : 2 ^ 52 ≤ mantissa ∨ exponent = minExponent

theorem scaled_ratio (num den) (exponent) :
    ((scaled num den exponent).1 : ℚ) / (scaled num den exponent).2 = num / den / 2 ^ exponent := by
  cases exponent with
  | ofNat n =>
    simp only [scaled, shiftLeft_eq, cast_mul, cast_pow, cast_ofNat, Int.ofNat_eq_natCast, zpow_natCast]
    rw [div_div]
  | negSucc n =>
    simp only [scaled, shiftLeft_eq, cast_mul, cast_pow, cast_ofNat, zpow_negSucc]
    rw [div_inv_eq_mul, mul_div_right_comm]

theorem scaled_pos (positive : 0 < den) (exponent) : 0 < (scaled num den exponent).2 := by
  cases exponent with
  | ofNat n =>
    simp only [scaled, shiftLeft_eq]
    positivity
  | negSucc n => exact positive

theorem two_pow_log2_le (positive : 0 < n) : (2 : ℚ) ^ (log2 n : Int) ≤ n := by
  rw [zpow_natCast]
  exact_mod_cast log2_self_le positive.ne'

theorem lt_two_pow_log2 (n : Nat) : (n : ℚ) < 2 ^ ((log2 n : Int) + 1) := by
  have small : n < 2 ^ (log2 n + 1) := lt_log2_self
  have cast : ((log2 n : Int) + 1) = ((log2 n + 1 : Nat) : Int) := by simp
  rw [cast, zpow_natCast]
  exact_mod_cast small

theorem log2_sub_log2_bounds (num_pos : 0 < num) (den_pos : 0 < den) :
    (2 : ℚ) ^ ((log2 num : Int) - log2 den - 1) < num / den ∧
      (num / den : ℚ) < 2 ^ ((log2 num : Int) - log2 den + 1) := by
  have den_pos' : (0 : ℚ) < den := by exact_mod_cast den_pos
  constructor
  · rw [lt_div_iff₀ den_pos']
    calc (2 : ℚ) ^ ((log2 num : Int) - log2 den - 1) * den
        < 2 ^ ((log2 num : Int) - log2 den - 1) * 2 ^ ((log2 den : Int) + 1) :=
          mul_lt_mul_of_pos_left (lt_two_pow_log2 den) (by positivity)
      _ = 2 ^ (log2 num : Int) := by
          rw [← zpow_add₀ two_ne_zero]
          congr 1
          omega
      _ ≤ num := two_pow_log2_le num_pos
  · rw [div_lt_iff₀ den_pos']
    calc (num : ℚ) < 2 ^ ((log2 num : Int) + 1) := lt_two_pow_log2 num
      _ = 2 ^ ((log2 num : Int) - log2 den + 1) * 2 ^ (log2 den : Int) := by
          rw [← zpow_add₀ two_ne_zero]
          congr 1
          omega
      _ ≤ 2 ^ ((log2 num : Int) - log2 den + 1) * den :=
          mul_le_mul_of_nonneg_left (two_pow_log2_le den_pos) (by positivity)

theorem scaled_lt_iff (num) (den_pos : 0 < den) (exponent) :
    (scaled num den exponent).1 < (scaled num den exponent).2 <<< 52 ↔ (num / den : ℚ) < 2 ^ (exponent + 52) := by
  have pos : (0 : ℚ) < (scaled num den exponent).2 := by exact_mod_cast scaled_pos den_pos exponent
  have power : (2 : ℚ) ^ (exponent + 52) = 2 ^ (52 : Nat) * 2 ^ exponent := by
    rw [zpow_add₀ two_ne_zero, mul_comm]
    rfl
  rw [power, ← div_lt_iff₀ (by positivity), ← scaled_ratio, div_lt_iff₀ pos, shiftLeft_eq, mul_comm]
  exact_mod_cast Iff.rfl

theorem exponentFor_spec (num_pos : 0 < num) (den_pos : 0 < den) :
    ∃ exact : Int, exponentFor num den = max exact minExponent ∧ (2 : ℚ) ^ (exact + 52) ≤ num / den ∧
      (num / den : ℚ) < 2 ^ (exact + 53) := by
  obtain ⟨low, high⟩ := log2_sub_log2_bounds num_pos den_pos
  have small := scaled_lt_iff num den_pos ((log2 num : Int) - log2 den - 52)
  unfold exponentFor
  dsimp only
  split
  · rename_i less
    refine ⟨_, rfl, ?_, ?_⟩
    · refine le_trans (le_of_eq ?_) low.le
      congr 1
      omega
    · refine lt_of_lt_of_eq (small.mp less) ?_
      congr 1
      omega
  · rename_i more
    refine ⟨_, rfl, not_lt.mp fun less => more (small.mpr less), ?_⟩
    refine lt_of_lt_of_eq high ?_
    congr 1
    omega

theorem roundQuotient_eq (den_pos : 0 < den) (low : 2 * (m * den) ≤ 2 * num + den)
    (high : 2 * num ≤ 2 * (m * den) + den)
    (tie : m % 2 = 1 → 2 * (m * den) < 2 * num + den ∧ 2 * num < 2 * (m * den) + den) : roundQuotient num den = m := by
  have split := div_add_mod num den
  have rest := mod_lt num den_pos
  unfold roundQuotient
  dsimp only
  generalize num / den = q at split
  generalize num % den = r at split rest
  subst split
  have upper : q ≤ m := by
    by_contra more
    have : m * den + den ≤ q * den := by
      rw [← succ_mul]
      exact Nat.mul_le_mul_right _ (by omega)
    rw [Nat.mul_comm den q] at high
    omega
  have lower : m ≤ q + 1 := by
    by_contra less
    have : q * den + den + den ≤ m * den := by
      rw [← succ_mul, ← succ_mul]
      exact Nat.mul_le_mul_right _ (by omega)
    rw [Nat.mul_comm den q] at low
    omega
  rw [Nat.mul_comm den q] at low high tie
  rcases Nat.lt_or_ge q m with less | same
  · obtain rfl : m = q + 1 := by omega
    have expand : (q + 1) * den = q * den + den := succ_mul q den
    split_ifs <;> omega
  · obtain rfl : q = m := by omega
    split_ifs <;> omega

/-- The ratios that are rounded to a number: no further from it than half of a last place, or a quarter below a power of
two, the ends only if the mantissa is even. -/
structure Rounds (mantissa : Nat) (exponent : Int) (q : ℚ) : Prop where
  low : (4 * mantissa - if mantissa = 2 ^ 52 ∧ minExponent < exponent then 1 else 2 : ℚ) * 2 ^ (exponent - 2) ≤ q
  high : q ≤ (4 * mantissa + 2 : ℚ) * 2 ^ (exponent - 2)
  tie : mantissa % 2 = 1 → (4 * mantissa - 2 : ℚ) * 2 ^ (exponent - 2) < q ∧ q < (4 * mantissa + 2 : ℚ) * 2 ^ (exponent - 2)

theorem roundQuotient_near (den_pos : 0 < den) (low : (m - 1 / 2 : ℚ) ≤ num / den) (high : (num / den : ℚ) ≤ m + 1 / 2)
    (tie : m % 2 = 1 → (m - 1 / 2 : ℚ) < num / den ∧ (num / den : ℚ) < m + 1 / 2) : roundQuotient num den = m := by
  have pos : (0 : ℚ) < den := by exact_mod_cast den_pos
  have scale : ∀ a : ℚ, a ≤ num / den ↔ a * den ≤ num := fun a => le_div_iff₀ pos
  rw [le_div_iff₀ pos] at low
  rw [div_le_iff₀ pos] at high
  rw [lt_div_iff₀ pos, div_lt_iff₀ pos] at tie
  refine roundQuotient_eq den_pos ?_ ?_ fun odd => ⟨?_, ?_⟩
  · have : (2 * (m * den) : ℚ) ≤ 2 * num + den := by linarith
    exact_mod_cast this
  · have : (2 * num : ℚ) ≤ 2 * (m * den) + den := by linarith
    exact_mod_cast this
  · have : (2 * (m * den) : ℚ) < 2 * num + den := by linarith [(tie odd).1]
    exact_mod_cast this
  · have : (2 * num : ℚ) < 2 * (m * den) + den := by linarith [(tie odd).2]
    exact_mod_cast this

theorem two_zpow_eq {a b : Int} {k : Nat} (same : a = b + k) : (2 : ℚ) ^ a = 2 ^ k * 2 ^ b := by
  rw [same, zpow_add₀ two_ne_zero, zpow_natCast, mul_comm]

theorem Rounds.lowest (rounds : Rounds m e q) : (4 * m - 2 : ℚ) * 2 ^ (e - 2) ≤ q := by
  refine le_trans (mul_le_mul_of_nonneg_right ?_ (by positivity)) rounds.low
  split_ifs <;> linarith

section Interval

variable {num den m : Nat} {e : Int} (normal : Normal m e) (rounds : Rounds m e (num / den))

include normal rounds

theorem Rounds.positive : 0 < num := by
  have least : (1 : ℚ) ≤ m := by exact_mod_cast normal.positive
  have positive : (0 : ℚ) < num / den := by
    refine lt_of_lt_of_le (mul_pos ?_ (by positivity)) rounds.low
    split_ifs <;> linarith
  rcases Nat.eq_zero_or_pos num with zero | positive'
  · simp [zero] at positive
  · exact positive'

theorem Rounds.exponentFor (den_pos : 0 < den) : exponentFor num den = e ∨
    exponentFor num den = e - 1 ∧ m = 2 ^ 52 ∧ minExponent < e ∧ (num / den : ℚ) < 2 ^ (e + 52) := by
  obtain ⟨exact, chosen, low, high⟩ := exponentFor_spec (rounds.positive normal) den_pos
  have unit : (0 : ℚ) < 2 ^ (e - 2) := by positivity
  have lowest := rounds.lowest
  have least := normal.least
  have upper : exact ≤ e := by
    by_contra more
    have reach : (2 : ℚ) ^ (e + 53) = 2 ^ 55 * 2 ^ (e - 2) := two_zpow_eq (by omega)
    have above : (2 : ℚ) ^ (e + 53) ≤ num / den := le_trans (zpow_le_zpow_right₀ one_le_two (by omega)) low
    have below : (4 * m + 2 : ℚ) < 2 ^ 55 := by
      have := normal.below
      have : 4 * m + 2 < 2 ^ 55 := by omega
      exact_mod_cast this
    have := mul_lt_mul_of_pos_right below unit
    linarith [rounds.high]
  rw [chosen]
  rcases le_or_gt ((2 : ℚ) ^ (e + 52)) (num / den) with reached | short
  · have reach : e + 52 < exact + 53 := (zpow_lt_zpow_iff_right₀ one_lt_two).mp (lt_of_le_of_lt reached high)
    exact .inl (by omega)
  rcases eq_or_lt_of_le normal.least with same | above
  · exact .inl (by omega)
  -- Only the least mantissa has ratios below its power of two.
  have full := normal.full.resolve_right above.ne'
  have reach : (2 : ℚ) ^ (e + 52) = 2 ^ 54 * 2 ^ (e - 2) := two_zpow_eq (by omega)
  have least : m = 2 ^ 52 := by
    have : (4 * m - 2 : ℚ) < 2 ^ 54 := lt_of_mul_lt_mul_right (by linarith) unit.le
    have : (4 * m : ℚ) < 2 ^ 54 + 2 := by linarith
    have : 4 * m < 2 ^ 54 + 2 := by exact_mod_cast this
    omega
  have quarter : (2 : ℚ) ^ (e + 51) ≤ num / den := by
    have half : (2 : ℚ) ^ (e + 51) = 2 ^ 53 * 2 ^ (e - 2) := two_zpow_eq (by omega)
    have quarter := rounds.low
    rw [if_pos ⟨least, above⟩, least] at quarter
    rw [half]
    refine le_trans (mul_le_mul_of_nonneg_right ?_ unit.le) quarter
    norm_num
  have strict : exact + 52 < e + 52 := (zpow_lt_zpow_iff_right₀ one_lt_two).mp (lt_of_le_of_lt low short)
  have reach : e + 51 < exact + 53 := (zpow_lt_zpow_iff_right₀ one_lt_two).mp (lt_of_le_of_lt quarter high)
  exact .inr ⟨by omega, least, above, short⟩

end Interval

theorem ofRatio_eq (normal : Normal m e) (den_pos : 0 < den) (rounds : Rounds m e (num / den)) :
    ofRatio false num den = .finite false m e := by
  have unit : (0 : ℚ) < 2 ^ (e - 2) := by positivity
  have lowest := rounds.lowest
  have high := rounds.high
  have tie := rounds.tie
  have greatest := normal.greatest
  have positive := rounds.positive normal
  rw [ofRatio, if_neg positive.ne']
  rcases rounds.exponentFor normal den_pos with same | ⟨less, least, above, short⟩
  · have power : (2 : ℚ) ^ e = 2 ^ 2 * 2 ^ (e - 2) := two_zpow_eq (by omega)
    have mantissa : roundQuotient (scaled num den e).1 (scaled num den e).2 = m := by
      refine roundQuotient_near (scaled_pos den_pos e) ?_ ?_ fun odd => ⟨?_, ?_⟩ <;> rw [scaled_ratio, power]
      · rw [le_div_iff₀ (by positivity)]
        linarith
      · rw [div_le_iff₀ (by positivity)]
        linarith
      · rw [lt_div_iff₀ (by positivity)]
        linarith [(tie odd).1]
      · rw [div_lt_iff₀ (by positivity)]
        linarith [(tie odd).2]
    have below : m ≠ Nat.pow 2 53 := normal.below.ne
    dsimp only
    rw [same, mantissa, if_neg below]
    dsimp only
    rw [if_neg (by omega)]
  · have power : (2 : ℚ) ^ (e - 1) = 2 ^ 1 * 2 ^ (e - 2) := two_zpow_eq (by omega)
    have reach : (2 : ℚ) ^ (e + 52) = 2 ^ 54 * 2 ^ (e - 2) := two_zpow_eq (by omega)
    have quarter := rounds.low
    rw [if_pos ⟨least, above⟩, least] at quarter
    have mantissa : roundQuotient (scaled num den (e - 1)).1 (scaled num den (e - 1)).2 = Nat.pow 2 53 := by
      have cast : ((Nat.pow 2 53 : Nat) : ℚ) = 2 ^ 53 := by norm_num
      refine roundQuotient_near (scaled_pos den_pos _) ?_ ?_ fun odd => absurd odd (by decide) <;>
        rw [scaled_ratio, power, cast]
      · rw [le_div_iff₀ (by positivity)]
        push_cast at quarter
        linarith
      · rw [div_le_iff₀ (by positivity)]
        linarith
    dsimp only
    rw [less, mantissa, if_pos rfl]
    dsimp only
    have mantissa : Nat.pow 2 52 = m := least.symm
    rw [if_neg (by omega), mantissa, Int.sub_add_cancel]

/-! ### What rounding gives -/

def IsRounded : Binary64 → Prop
  | .finite negative mantissa exponent =>
    negative = false ∧ (mantissa = 0 ∧ exponent = minExponent ∨ Normal mantissa exponent)
  | .infinite negative => negative = false
  | .nan => False

theorem roundQuotient_le (den_pos : 0 < den) (high : num ≤ m * den) : roundQuotient num den ≤ m := by
  have split := div_add_mod num den
  have rest := mod_lt num den_pos
  have quotient : num / den ≤ m := Nat.div_le_of_le_mul (by rwa [Nat.mul_comm])
  unfold roundQuotient
  dsimp only
  rcases Nat.lt_or_ge (num / den) m with less | same
  · split_ifs <;> omega
  · have equal : num / den = m := by omega
    rw [equal, Nat.mul_comm] at split
    rw [equal]
    split_ifs <;> omega

theorem le_roundQuotient (den_pos : 0 < den) (low : m * den ≤ num) : m ≤ roundQuotient num den := by
  have quotient : m ≤ num / den := (Nat.le_div_iff_mul_le den_pos).mpr low
  unfold roundQuotient
  dsimp only
  split_ifs <;> omega

theorem ofRatio_isRounded (num) (den_pos : 0 < den) : IsRounded (ofRatio false num den) := by
  by_cases zero : num = 0
  · rw [ofRatio, if_pos zero]
    exact ⟨rfl, .inl ⟨rfl, rfl⟩⟩
  obtain ⟨exact, chosen, low, high⟩ := exponentFor_spec (Nat.pos_of_ne_zero zero) den_pos
  rw [ofRatio, if_neg zero]
  dsimp only
  generalize exponent : exponentFor num den = e at chosen
  have den_pos' : 0 < (scaled num den e).2 := scaled_pos den_pos e
  have pos : (0 : ℚ) < (scaled num den e).2 := by exact_mod_cast den_pos'
  have ratio := scaled_ratio num den e
  have most : roundQuotient (scaled num den e).1 (scaled num den e).2 ≤ 2 ^ 53 := by
    refine roundQuotient_le den_pos' ?_
    have : ((scaled num den e).1 : ℚ) ≤ 2 ^ 53 * (scaled num den e).2 := by
      rw [← div_le_iff₀ pos, ratio, div_le_iff₀ (by positivity), ← two_zpow_eq (a := e + 53) rfl]
      exact le_trans high.le (zpow_le_zpow_right₀ one_le_two (by omega))
    exact_mod_cast this
  have least : e = minExponent ∨ 2 ^ 52 ≤ roundQuotient (scaled num den e).1 (scaled num den e).2 := by
    by_cases minimal : e = minExponent
    · exact .inl minimal
    · refine .inr (le_roundQuotient den_pos' ?_)
      have : (2 ^ 52 * (scaled num den e).2 : ℚ) ≤ (scaled num den e).1 := by
        rw [← le_div_iff₀ pos, ratio, le_div_iff₀ (by positivity), ← two_zpow_eq (a := e + 52) rfl]
        exact le_trans (zpow_le_zpow_right₀ one_le_two (by omega)) low
      exact_mod_cast this
  generalize roundQuotient (scaled num den e).1 (scaled num den e).2 = m at most least
  by_cases carried : m = Nat.pow 2 53
  · rw [if_pos carried]
    dsimp only
    by_cases large : maxExponent < e + 1
    · rw [if_pos large]
      rfl
    · rw [if_neg large]
      exact ⟨rfl, .inr ⟨by omega, by omega, by decide, by decide, .inl (Nat.le_refl _)⟩⟩
  · rw [if_neg carried]
    dsimp only
    by_cases large : maxExponent < e
    · rw [if_pos large]
      rfl
    · rw [if_neg large]
      have below : m < 2 ^ 53 := Nat.lt_of_le_of_ne most carried
      refine ⟨rfl, ?_⟩
      rcases Nat.eq_zero_or_pos m with zero | positive
      · refine .inl ⟨zero, least.resolve_right fun full => ?_⟩
        rw [zero] at full
        exact absurd full (by decide)
      · exact .inr ⟨by omega, by omega, positive, below, least.symm⟩

end ComponentCompiler.Binary64
