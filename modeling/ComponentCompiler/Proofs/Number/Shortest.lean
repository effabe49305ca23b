import ComponentCompiler.Proofs.Number.Rounding

/-!
The shortest digits of a number are rounded to it. Main statements: `shortest_spec`, `ofDecimal_eq`.
-/

namespace ComponentCompiler.Decimal

open Binary64 List Nat Bool

variable {den denom digits num : Nat} {k l place : Int}

def value (d : Decimal) : ℚ := d.digits * 10 ^ d.exponent

/-! ### Intervals -/

theorem ratio_eq (mantissa) (exponent) :
    ((ratio mantissa exponent).1 : ℚ) / (ratio mantissa exponent).2 = mantissa * 2 ^ exponent ∧
      0 < (ratio mantissa exponent).2 := by
  cases exponent with
  | ofNat n => simp [ratio, shiftLeft_eq]
  | negSucc n => simp [ratio, shiftLeft_eq, zpow_negSucc, div_eq_mul_inv]

theorem step_eq (place) : ((step place).1 : ℚ) / (step place).2 = 10 ^ place ∧ 0 < (step place).2 := by
  cases place with
  | ofNat n => simp [step]
  | negSucc n => simp [step, zpow_negSucc]

variable {m : Nat} {e : Int}

theorem den_pos (m) (e) : 0 < (Interval.of m e).den := (ratio_eq 1 (e - 2)).2

theorem unit_eq (e) : ((ratio 1 (e - 2)).1 : ℚ) / (ratio 1 (e - 2)).2 = 2 ^ (e - 2) := by
  rw [(ratio_eq 1 (e - 2)).1, cast_one, one_mul]

theorem value_eq (m) (e) : ((Interval.of m e).value : ℚ) / (Interval.of m e).den = m * 2 ^ e := by
  have power : (2 : ℚ) ^ e = 2 ^ 2 * 2 ^ (e - 2) := two_zpow_eq (by omega)
  change ((4 * m * (ratio 1 (e - 2)).1 : Nat) : ℚ) / (ratio 1 (e - 2)).2 = _
  rw [cast_mul, mul_div_assoc, unit_eq, power]
  push_cast
  ring

theorem high_eq (m) (e) :
    ((Interval.of m e).high : ℚ) / (Interval.of m e).den = (4 * m + 2 : ℚ) * 2 ^ (e - 2) := by
  change (((4 * m + 2) * (ratio 1 (e - 2)).1 : Nat) : ℚ) / (ratio 1 (e - 2)).2 = _
  rw [cast_mul, mul_div_assoc, unit_eq]
  push_cast
  rfl

theorem low_eq (positive : 0 < m) (e) : ((Interval.of m e).low : ℚ) / (Interval.of m e).den =
    (4 * m - if m = 2 ^ 52 ∧ minExponent < e then 1 else 2 : ℚ) * 2 ^ (e - 2) := by
  have low : (Interval.of m e).low = (4 * m - if m = 2 ^ 52 ∧ minExponent < e then 1 else 2) * (ratio 1 (e - 2)).1 := by
    rw [Interval.of]
    simp only [and_eq_true, decide_eq_true_eq]
    rfl
  have less : (if m = 2 ^ 52 ∧ minExponent < e then 1 else 2) ≤ 4 * m := by split <;> omega
  change ((Interval.of m e).low : ℚ) / (ratio 1 (e - 2)).2 = _
  rw [low, cast_mul, mul_div_assoc, unit_eq, cast_sub less]
  push_cast
  rfl

theorem rounds_of_contains (denom_pos : 0 < denom) (positive : 0 < m)
    (inside : (Interval.of m e).contains num denom) : Rounds m e (num / denom) := by
  have pos : (0 : ℚ) < (Interval.of m e).den := by exact_mod_cast den_pos m e
  have pos' : (0 : ℚ) < denom := by exact_mod_cast denom_pos
  have low := low_eq positive e
  have high := high_eq m e
  have parity : (Interval.of m e).closed = (m % 2 == 0) := rfl
  unfold Interval.contains at inside
  dsimp only at inside
  split at inside
  · rename_i closed
    simp only [and_eq_true, decide_eq_true_eq] at inside
    obtain ⟨above, below⟩ := inside
    refine ⟨?_, ?_, fun odd => ?_⟩
    · rw [← low, div_le_div_iff₀ pos pos']
      exact_mod_cast above
    · rw [← high, div_le_div_iff₀ pos' pos]
      exact_mod_cast below
    · rw [parity, beq_iff_eq] at closed
      omega
  · simp only [and_eq_true, decide_eq_true_eq] at inside
    obtain ⟨above, below⟩ := inside
    have above' : ((Interval.of m e).low : ℚ) / (Interval.of m e).den < num / denom := by
      rw [div_lt_div_iff₀ pos pos']
      exact_mod_cast above
    have below' : (num / denom : ℚ) < (Interval.of m e).high / (Interval.of m e).den := by
      rw [div_lt_div_iff₀ pos' pos]
      exact_mod_cast below
    rw [low] at above'
    rw [high] at below'
    refine ⟨above'.le, below'.le, fun odd => ⟨lt_of_le_of_lt (mul_le_mul_of_nonneg_right ?_ (by positivity)) above', below'⟩⟩
    split_ifs <;> linarith

theorem contains_of_between (denom_pos : 0 < denom) (positive : 0 < m)
    (above : (4 * m - if m = 2 ^ 52 ∧ minExponent < e then 1 else 2 : ℚ) * 2 ^ (e - 2) < num / denom)
    (below : (num / denom : ℚ) < (4 * m + 2 : ℚ) * 2 ^ (e - 2)) : (Interval.of m e).contains num denom := by
  have pos : (0 : ℚ) < (Interval.of m e).den := by exact_mod_cast den_pos m e
  have pos' : (0 : ℚ) < denom := by exact_mod_cast denom_pos
  rw [← low_eq positive e, div_lt_div_iff₀ pos pos'] at above
  rw [← high_eq m e, div_lt_div_iff₀ pos' pos] at below
  have above' : (Interval.of m e).low * denom < num * (Interval.of m e).den := by exact_mod_cast above
  have below' : num * (Interval.of m e).den < (Interval.of m e).high * denom := by exact_mod_cast below
  unfold Interval.contains
  dsimp only
  split
  · simp only [and_eq_true, decide_eq_true_eq]
    exact ⟨above'.le, below'.le⟩
  · simp only [and_eq_true, decide_eq_true_eq]
    exact ⟨above', below'⟩

/-! ### Grids -/

theorem onGrid?_inside (found : onGrid? i place = some digits) :
    0 < digits ∧ i.contains (digits * (step place).1) (step place).2 := by
  unfold onGrid? at found
  dsimp only at found
  split at found
  · rename_i lower upper
    simp only [and_eq_true, bne_iff_ne] at lower
    cases found
    split_ifs
    · exact ⟨Nat.pos_of_ne_zero lower.2, lower.1⟩
    · exact ⟨succ_pos _, upper⟩
  · rename_i lower upper
    simp only [and_eq_true, bne_iff_ne] at lower
    cases found
    exact ⟨Nat.pos_of_ne_zero lower.2, lower.1⟩
  · rename_i lower upper
    cases found
    exact ⟨succ_pos _, upper⟩
  · cases found

theorem grid_lt_width (normal : Normal m e) (fine : (10 : ℚ) ^ 16 * 10 ^ place ≤ m * 2 ^ e) :
    (10 : ℚ) ^ place < ((if m = 2 ^ 52 ∧ minExponent < e then 1 else 2) + 2) * 2 ^ (e - 2) := by
  have unit : (0 : ℚ) < 2 ^ (e - 2) := by positivity
  have power : (2 : ℚ) ^ e = 2 ^ 2 * 2 ^ (e - 2) := two_zpow_eq (by omega)
  rw [power] at fine
  split
  · rename_i least
    rw [least.1] at fine
    push_cast at fine
    linarith
  · have below : (m : ℚ) ≤ 2 ^ 53 := by exact_mod_cast normal.below.le
    have := mul_le_mul_of_nonneg_right below unit.le
    linarith

theorem onGrid?_isSome (normal : Normal m e) (fine : (10 : ℚ) ^ 16 * 10 ^ place ≤ m * 2 ^ e) :
    (onGrid? (Interval.of m e) place).isSome := by
  have width := grid_lt_width normal fine
  have value := value_eq m e
  have power : (2 : ℚ) ^ e = 2 ^ 2 * 2 ^ (e - 2) := two_zpow_eq (by omega)
  have unit : (0 : ℚ) < 2 ^ (e - 2) := by positivity
  obtain ⟨grid, denom_pos⟩ := step_eq place
  have grid_pos : (0 : ℚ) < 10 ^ place := by positivity
  have pos : (0 : ℚ) < (Interval.of m e).den := by exact_mod_cast den_pos m e
  have pos' : (0 : ℚ) < (step place).2 := by exact_mod_cast denom_pos
  have num_pos : 0 < (step place).1 := by
    refine Nat.pos_of_ne_zero fun zero => ?_
    rw [zero] at grid
    simp at grid
    exact absurd grid.symm grid_pos.ne'
  have whole := div_add_mod ((Interval.of m e).value * (step place).2) ((Interval.of m e).den * (step place).1)
  have rest := mod_lt ((Interval.of m e).value * (step place).2) (Nat.mul_pos (den_pos m e) num_pos)
  unfold onGrid?
  dsimp only
  generalize (Interval.of m e).value * (step place).2 / ((Interval.of m e).den * (step place).1) = lower at whole
  have point : ∀ n : Nat, ((n * (step place).1 : Nat) : ℚ) / (step place).2 = n * 10 ^ place := by
    intro n
    rw [cast_mul, mul_div_assoc, grid]
  have under : (lower * 10 ^ place : ℚ) ≤ m * 2 ^ e := by
    rw [← value, ← point, div_le_div_iff₀ pos' pos]
    have : lower * (step place).1 * (Interval.of m e).den ≤ (Interval.of m e).value * (step place).2 := by
      calc lower * (step place).1 * (Interval.of m e).den = (Interval.of m e).den * (step place).1 * lower := by ring
        _ ≤ _ := by omega
    exact_mod_cast this
  have above : (m * 2 ^ e : ℚ) < (lower + 1) * 10 ^ place := by
    have : ((lower + 1 : Nat) : ℚ) = lower + 1 := by push_cast; rfl
    rw [← value, ← this, ← point, div_lt_div_iff₀ pos pos']
    have : (Interval.of m e).value * (step place).2 < (lower + 1) * (step place).1 * (Interval.of m e).den := by
      calc _ < (Interval.of m e).den * (step place).1 * lower + (Interval.of m e).den * (step place).1 := by omega
        _ = (lower + 1) * (step place).1 * (Interval.of m e).den := by ring
    exact_mod_cast this
  have positive : lower ≠ 0 := by
    rintro rfl
    have := lt_of_le_of_lt fine above
    norm_num at this
    linarith
  split
  · rfl
  · rfl
  · rfl
  · rename_i outside beyond
    rw [power] at under above
    -- If the point below the value is outside, the one above it is not.
    have left : (lower * 10 ^ place : ℚ) ≤ (4 * m - if m = 2 ^ 52 ∧ minExponent < e then 1 else 2) * 2 ^ (e - 2) := by
      by_contra inside
      rw [not_le] at inside
      have : (Interval.of m e).contains (lower * (step place).1) (step place).2 := by
        refine contains_of_between denom_pos normal.positive ?_ ?_ <;> rw [point]
        · exact inside
        · linarith
      simp [this, positive] at outside
    have : (Interval.of m e).contains ((lower + 1) * (step place).1) (step place).2 := by
      refine contains_of_between denom_pos normal.positive ?_ ?_ <;> rw [point] <;> push_cast
      · refine lt_of_le_of_lt ?_ above
        rw [← mul_assoc]
        refine mul_le_mul_of_nonneg_right ?_ unit.le
        split_ifs <;> linarith
      · linarith
    rw [this] at beyond
    cases beyond

/-! ### Powers of ten and of two -/

section Powers

variable {p q : Nat} {k l : Int}

theorem zpow_monotone_of_nonpos {a b : ℚ} (a_pos : 0 < a) (le : a ≤ b) (negative : l ≤ 0) : b ^ l ≤ a ^ l := by
  obtain ⟨n, rfl⟩ : ∃ n : Nat, l = -(n : Int) := ⟨l.natAbs, by omega⟩
  rw [zpow_neg, zpow_neg, zpow_natCast, zpow_natCast]
  exact inv_anti₀ (by positivity) (pow_le_pow_left₀ a_pos.le le n)

theorem ten_zpow_le_two_zpow (low : (2 : ℚ) ^ q ≤ 10 ^ p) (high : (10 : ℚ) ^ p ≤ 2 ^ (q + 1)) (some : q ≠ 0)
    (slope : k * q ≤ p * l) (few : l ≤ q) : (10 : ℚ) ^ k ≤ 2 ^ (l + 1) := by
  refine le_of_pow_le_pow_left₀ some (by positivity) ?_
  calc ((10 : ℚ) ^ k) ^ q = 10 ^ (k * q) := by rw [zpow_mul, zpow_natCast]
    _ ≤ 10 ^ (p * l : Int) := zpow_le_zpow_right₀ (by norm_num) slope
    _ = (10 ^ p) ^ l := by rw [zpow_mul, zpow_natCast]
    _ ≤ 2 ^ ((l + 1) * q) := by
      rcases le_or_gt 0 l with positive | negative
      · calc ((10 : ℚ) ^ p) ^ l ≤ (2 ^ (q + 1)) ^ l := zpow_le_zpow_left₀ positive (by positivity) high
          _ = 2 ^ (((q + 1 : Nat) : Int) * l) := by rw [zpow_mul, zpow_natCast]
          _ ≤ 2 ^ ((l + 1) * q) := zpow_le_zpow_right₀ one_le_two (by push_cast; linarith)
      · calc ((10 : ℚ) ^ p) ^ l ≤ (2 ^ q) ^ l := zpow_monotone_of_nonpos (by positivity) low negative.le
          _ = 2 ^ ((q : Int) * l) := by rw [zpow_mul, zpow_natCast]
          _ ≤ 2 ^ ((l + 1) * q) := zpow_le_zpow_right₀ one_le_two (by linarith)
    _ = (2 ^ (l + 1)) ^ q := by rw [zpow_mul, zpow_natCast]

theorem two_zpow_le_ten_zpow (low : (2 : ℚ) ^ q ≤ 10 ^ p) (high : (10 : ℚ) ^ p ≤ 2 ^ (q + 1)) (some : q ≠ 0)
    (slope : p * l ≤ k * q) (few : -q ≤ l) : (2 : ℚ) ^ (l - 1) ≤ 10 ^ k := by
  have inverse := ten_zpow_le_two_zpow (k := -k) (l := -l) low high some (by linarith) (by linarith)
  rw [zpow_neg, show -l + 1 = -(l - 1) by ring, zpow_neg] at inverse
  exact (inv_le_inv₀ (by positivity) (by positivity)).mp inverse

end Powers

theorem log_ten_bounds : 2 ^ 100000 ≤ 10 ^ 30103 ∧ 10 ^ 30103 ≤ 2 ^ (100000 + 1) := by
  decide +kernel

theorem ten_zpow_le (slope : k * 100000 ≤ 30103 * l) (few : l ≤ 100000) : (10 : ℚ) ^ k ≤ 2 ^ (l + 1) :=
  ten_zpow_le_two_zpow (by exact_mod_cast log_ten_bounds.1) (by exact_mod_cast log_ten_bounds.2) (by decide) slope few

theorem two_zpow_le (slope : 30103 * l ≤ k * 100000) (few : -100000 ≤ l) : (2 : ℚ) ^ (l - 1) ≤ 10 ^ k :=
  two_zpow_le_ten_zpow (by exact_mod_cast log_ten_bounds.1) (by exact_mod_cast log_ten_bounds.2) (by decide) slope few

/-! ### Magnitudes -/

def isBelow (num den : Nat) : Int → Bool
  | .ofNat n => num < den * Nat.pow 10 n
  | .negSucc n => num * Nat.pow 10 (n + 1) < den

theorem isBelow_iff (den_pos : 0 < den) (k) : isBelow num den k ↔ (num / den : ℚ) < 10 ^ k := by
  have den_pos' : (0 : ℚ) < den := by exact_mod_cast den_pos
  cases k with
  | ofNat n =>
    simp only [isBelow, decide_eq_true_eq, Int.ofNat_eq_natCast, zpow_natCast, div_lt_iff₀ den_pos', pow_eq]
    rw [mul_comm den]
    exact_mod_cast Iff.rfl
  | negSucc n =>
    simp only [isBelow, decide_eq_true_eq, zpow_negSucc, div_lt_iff₀ den_pos', pow_eq]
    rw [← div_eq_inv_mul, lt_div_iff₀ (by positivity)]
    exact_mod_cast Iff.rfl

theorem magnitude_eq (estimate : (((log2 num : Int) - log2 den) * 30103).fdiv 100000 = k) :
    magnitude num den = if isBelow num den (k - 1) then k - 1 else if isBelow num den k then k
      else if isBelow num den (k + 1) then k + 1 else if isBelow num den (k + 2) then k + 2 else k + 3 := by
  have unfolded : magnitude num den = ([k - 1, k, k + 1, k + 2].find? (isBelow num den)).getD (k + 3) := by
    rw [← estimate]
    rfl
  rw [unfolded]
  simp only [find?_cons, find?_nil]
  cases isBelow num den (k - 1) <;> cases isBelow num den k <;> cases isBelow num den (k + 1) <;>
    cases isBelow num den (k + 2) <;> rfl

theorem magnitude_spec (num_pos : 0 < num) (den_pos : 0 < den) (log : (log2 num : Int) - log2 den = l)
    (few : l ≤ 100000) :
    (10 : ℚ) ^ (magnitude num den - 1) ≤ num / den ∧ 30103 * l / 100000 - 1 ≤ magnitude num den := by
  have estimate : (((log2 num : Int) - log2 den) * 30103).fdiv 100000 = 30103 * l / 100000 := by
    rw [log, Int.fdiv_eq_ediv_of_nonneg _ (by decide), mul_comm]
  have first : (10 : ℚ) ^ (30103 * l / 100000 - 2) ≤ num / den := by
    have above := ten_zpow_le (k := 30103 * l / 100000) (l := l) (by omega) few
    have bound := (log2_sub_log2_bounds num_pos den_pos).1
    rw [log] at bound
    have power : (2 : ℚ) ^ (l + 1) = 2 ^ 2 * 2 ^ (l - 1) := two_zpow_eq (by omega)
    rw [power] at above
    rw [zpow_sub₀ (by norm_num)]
    refine le_trans ?_ bound.le
    rw [div_le_iff₀ (by norm_num)]
    have : (0 : ℚ) < 2 ^ (l - 1) := by positivity
    norm_num at above ⊢
    linarith
  rw [magnitude_eq estimate]
  generalize 30103 * l / 100000 = k at first
  have reached : ∀ {j : Int}, ¬isBelow num den j → (10 : ℚ) ^ j ≤ num / den := by
    intro j above
    rwa [isBelow_iff den_pos, not_lt] at above
  split_ifs with zero one two three
  · exact ⟨by convert first using 2; omega, Int.le_refl _⟩
  · exact ⟨reached zero, by omega⟩
  · exact ⟨by convert reached one using 2; omega, by omega⟩
  · exact ⟨by convert reached two using 2; omega, by omega⟩
  · exact ⟨by convert reached three using 2; omega, by omega⟩

/-! ### Shortest digits -/

theorem stripZeros_spec (fuel) {d : Decimal} (positive : 0 < d.digits) :
    (stripZeros fuel d).value = d.value ∧ 0 < (stripZeros fuel d).digits ∧ d.exponent ≤ (stripZeros fuel d).exponent := by
  induction fuel generalizing d with
  | zero => exact ⟨rfl, positive, Int.le_refl _⟩
  | succ fuel ih =>
    rw [stripZeros]
    split
    · rename_i round
      obtain ⟨n, even⟩ : ∃ n, d.digits = 10 * n := dvd_of_mod_eq_zero round
      have shorter : d.digits / 10 = n := by omega
      obtain ⟨same, positive', later⟩ := ih (d := ⟨d.digits / 10, d.exponent + 1⟩) (by change 0 < d.digits / 10; omega)
      refine ⟨same.trans ?_, positive', ?_⟩
      · change ((d.digits / 10 : Nat) : ℚ) * 10 ^ (d.exponent + 1) = d.digits * 10 ^ d.exponent
        rw [shorter, even, zpow_add_one₀ (by norm_num)]
        push_cast
        ring
      · change d.exponent + 1 ≤ _ at later
        omega
    · exact ⟨rfl, positive, Int.le_refl _⟩

theorem value_bounds (normal : Normal m e) :
    (2 : ℚ) ^ (-1074 : Int) ≤ m * 2 ^ e ∧ (m * 2 ^ e : ℚ) < 2 ^ (1024 : Int) := by
  have least : (1 : ℚ) ≤ m := by exact_mod_cast normal.positive
  have below : (m : ℚ) < 2 ^ (53 : Int) := by exact_mod_cast normal.below
  have low : (2 : ℚ) ^ (-1074 : Int) ≤ 2 ^ e := zpow_le_zpow_right₀ one_le_two normal.least
  have high : (2 : ℚ) ^ e ≤ 2 ^ (971 : Int) := zpow_le_zpow_right₀ one_le_two normal.greatest
  have unit : (0 : ℚ) < 2 ^ e := by positivity
  constructor
  · calc (2 : ℚ) ^ (-1074 : Int) ≤ 2 ^ e := low
      _ = 1 * 2 ^ e := (one_mul _).symm
      _ ≤ m * 2 ^ e := mul_le_mul_of_nonneg_right least unit.le
  · calc (m * 2 ^ e : ℚ) < 2 ^ (53 : Int) * 2 ^ e := mul_lt_mul_of_pos_right below unit
      _ ≤ 2 ^ (53 : Int) * 2 ^ (971 : Int) := mul_le_mul_of_nonneg_left high (by positivity)
      _ = 2 ^ (1024 : Int) := by rw [← zpow_add₀ two_ne_zero]; rfl

theorem log2_of (normal : Normal m e) :
    ∃ l : Int, (log2 (Interval.of m e).value : Int) - log2 (Interval.of m e).den = l ∧ -1075 ≤ l ∧ l ≤ 1024 ∧
      0 < (Interval.of m e).value := by
  have value := value_eq m e
  obtain ⟨least, most⟩ := value_bounds normal
  have value_pos : 0 < (Interval.of m e).value := by
    refine Nat.pos_of_ne_zero fun zero => ?_
    rw [zero, cast_zero, zero_div] at value
    rw [← value] at least
    exact absurd least (not_le.mpr (by positivity))
  obtain ⟨low, high⟩ := log2_sub_log2_bounds value_pos (den_pos m e)
  rw [value] at low high
  have upper := (zpow_lt_zpow_iff_right₀ one_lt_two).mp (lt_of_le_of_lt least high)
  have lower := (zpow_lt_zpow_iff_right₀ one_lt_two).mp (low.trans most)
  exact ⟨_, rfl, by omega, by omega, value_pos⟩

theorem shortest_spec (normal : Normal m e) :
    0 < (shortest m e).digits ∧ Rounds m e (shortest m e).value ∧ -400 ≤ (shortest m e).exponent := by
  obtain ⟨l, log, least, most, value_pos⟩ := log2_of normal
  obtain ⟨reached, above⟩ := magnitude_spec value_pos (den_pos m e) log (by omega)
  rw [value_eq] at reached
  unfold shortest
  dsimp only
  generalize magnitude (Interval.of m e).value (Interval.of m e).den = top at reached above
  cases found : (range 17).findSome? fun n =>
    (onGrid? (Interval.of m e) (top - (n + 1 : Nat))).map fun digits => stripZeros 20 ⟨digits, top - (n + 1 : Nat)⟩ with
  | none =>
    have last := findSome?_eq_none_iff.mp found 16 (by decide)
    have fine : (10 : ℚ) ^ 16 * 10 ^ (top - ((16 : Nat) + 1 : Nat)) ≤ m * 2 ^ e := by
      refine le_trans (le_of_eq ?_) reached
      rw [← zpow_natCast, ← zpow_add₀ (by norm_num)]
      congr 1
      omega
    have some := onGrid?_isSome normal fine
    rw [Option.map_eq_none_iff.mp last] at some
    cases some
  | some d =>
    obtain ⟨n, mem, chosen⟩ := exists_of_findSome?_eq_some found
    obtain ⟨digits, grid, same⟩ := Option.map_eq_some_iff.mp chosen
    obtain ⟨positive, inside⟩ := onGrid?_inside grid
    obtain ⟨value, positive', later⟩ := stripZeros_spec 20 (d := ⟨digits, top - (n + 1 : Nat)⟩) positive
    obtain ⟨unit, denom_pos⟩ := step_eq (top - (n + 1 : Nat))
    rw [same] at value positive' later
    refine ⟨positive', ?_, ?_⟩
    · have rounds := rounds_of_contains denom_pos normal.positive inside
      rw [cast_mul, mul_div_assoc, unit] at rounds
      change Rounds m e d.value
      rw [value]
      exact rounds
    · have := mem_range.mp mem
      change top - (n + 1 : Nat) ≤ d.exponent at later
      change -400 ≤ d.exponent
      omega

/-! ### Reading of decimals -/

theorem rounds_bounds (normal : Normal m e) (rounds : Rounds m e q) :
    (2 : ℚ) ^ (-1075 : Int) ≤ q ∧ q < 2 ^ (1025 : Int) := by
  have least : (1 : ℚ) ≤ m := by exact_mod_cast normal.positive
  have unit : (0 : ℚ) < 2 ^ (e - 2) := by positivity
  have power : (2 : ℚ) ^ e = 2 ^ 2 * 2 ^ (e - 2) := two_zpow_eq (by omega)
  obtain ⟨-, high⟩ := value_bounds normal
  constructor
  · have start : -1074 ≤ e := normal.least
    calc (2 : ℚ) ^ (-1075 : Int) ≤ 2 ^ (e - 1) := zpow_le_zpow_right₀ one_le_two (by omega)
      _ = 2 ^ 1 * 2 ^ (e - 2) := two_zpow_eq (by omega)
      _ ≤ (4 * m - 2) * 2 ^ (e - 2) := mul_le_mul_of_nonneg_right (by linarith) unit.le
      _ ≤ q := rounds.lowest
  · have double : (2 : ℚ) ^ (1025 : Int) = 2 ^ 1 * 2 ^ (1024 : Int) := two_zpow_eq (by omega)
    have above := rounds.high
    have more := mul_le_mul_of_nonneg_right least unit.le
    rw [double]
    rw [power] at high
    generalize (2 : ℚ) ^ (1024 : Int) = bound at high
    generalize (2 : ℚ) ^ (e - 2) = unit at *
    linarith

theorem ofDecimal_eq {exponent : Int} (normal : Normal m e) (rounds : Rounds m e (digits * 10 ^ exponent))
    (few : log2 digits ≤ 100000) : ofDecimal false digits exponent = .finite false m e := by
  obtain ⟨low, high⟩ := rounds_bounds normal rounds
  have ten : (0 : ℚ) < 10 ^ exponent := by positivity
  have positive : 0 < digits := by
    refine Nat.pos_of_ne_zero fun zero => ?_
    rw [zero, cast_zero, zero_mul] at low
    exact absurd low (not_le.mpr (by positivity))
  have estimate : ((log2 digits : Int) * 30103).fdiv 100000 = 30103 * (log2 digits : Int) / 100000 := by
    rw [Int.fdiv_eq_ediv_of_nonneg _ (by decide), mul_comm]
  have upper : ¬400 < 30103 * (log2 digits : Int) / 100000 + exponent := by
    intro large
    have log := ten_zpow_le (k := 401 - exponent) (l := log2 digits) (by omega) (by exact_mod_cast few)
    have : (2 : ℚ) ^ (1026 : Int) < 2 ^ (1026 : Int) := by
      calc (2 : ℚ) ^ (1026 : Int) ≤ 10 ^ (401 : Int) := two_zpow_le (l := 1027) (by omega) (by omega)
        _ = 10 ^ (401 - exponent) * 10 ^ exponent := by rw [← zpow_add₀ (by norm_num), Int.sub_add_cancel]
        _ ≤ 2 ^ ((log2 digits : Int) + 1) * 10 ^ exponent := mul_le_mul_of_nonneg_right log ten.le
        _ = 2 ^ 1 * 2 ^ (log2 digits : Int) * 10 ^ exponent := by
          rw [← two_zpow_eq (a := (log2 digits : Int) + 1) rfl]
        _ ≤ 2 ^ 1 * digits * 10 ^ exponent := by
          refine mul_le_mul_of_nonneg_right (mul_le_mul_of_nonneg_left (two_pow_log2_le positive) (by norm_num)) ten.le
        _ = 2 ^ 1 * (digits * 10 ^ exponent) := mul_assoc ..
        _ < 2 ^ 1 * 2 ^ (1025 : Int) := mul_lt_mul_of_pos_left high (by norm_num)
        _ = 2 ^ (1026 : Int) := (two_zpow_eq rfl).symm
    exact absurd this (lt_irrefl _)
  have lower : ¬30103 * (log2 digits : Int) / 100000 + exponent < -400 := by
    intro small
    have log := two_zpow_le (k := -400 - exponent) (l := log2 digits) (by omega) (by omega)
    have : (digits * 10 ^ exponent : ℚ) < 2 ^ (-1075 : Int) := by
      calc (digits * 10 ^ exponent : ℚ) < 2 ^ ((log2 digits : Int) + 1) * 10 ^ exponent :=
            mul_lt_mul_of_pos_right (lt_two_pow_log2 digits) ten
        _ = 2 ^ 2 * 2 ^ ((log2 digits : Int) - 1) * 10 ^ exponent := by
          rw [← two_zpow_eq (a := (log2 digits : Int) + 1) (by omega)]
        _ ≤ 2 ^ 2 * 10 ^ (-400 - exponent) * 10 ^ exponent :=
          mul_le_mul_of_nonneg_right (mul_le_mul_of_nonneg_left log (by norm_num)) ten.le
        _ = 2 ^ 2 * 10 ^ (-400 : Int) := by
          rw [mul_assoc, ← zpow_add₀ (by norm_num), Int.sub_add_cancel]
        _ ≤ 2 ^ 2 * 2 ^ (-1328 + 1 : Int) :=
          mul_le_mul_of_nonneg_left (ten_zpow_le (k := -400) (l := -1328) (by omega) (by omega)) (by norm_num)
        _ = 2 ^ (-1325 : Int) := (two_zpow_eq rfl).symm
        _ ≤ 2 ^ (-1075 : Int) := zpow_le_zpow_right₀ one_le_two (by omega)
    exact absurd low (not_le.mpr this)
  unfold ofDecimal
  rw [if_neg positive.ne']
  dsimp only
  rw [estimate, if_neg upper, if_neg lower]
  cases exponent with
  | ofNat n =>
    refine ofRatio_eq normal Nat.one_pos ?_
    simpa [pow_eq] using rounds
  | negSucc n =>
    refine ofRatio_eq normal (Nat.pow_pos (by decide)) ?_
    simpa [pow_eq, zpow_negSucc, div_eq_mul_inv] using rounds

end ComponentCompiler.Decimal
