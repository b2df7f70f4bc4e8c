import BanglaScript.Number.Shortest
import Mathlib.Algebra.Order.Field.Power
import Mathlib.Data.Rat.Cast.Order
import Mathlib.Tactic.FieldSimp
import Mathlib.Tactic.NormNum
import Mathlib.Tactic.Positivity

/-!
# Decimals that round to a number

The shortest decimal of a number lies in the interval of the reals that round to it.
It is found on a grid of powers of ten that is finer than a quarter of the gap to the
next number, or on a coarser one before.  The intervals of different numbers have no
point in common: where they meet, the common end point belongs to at most one of them.
So the value of the shortest decimal tells the number.
-/

namespace BanglaScript

open RoundingInterval

/-- The exact value of a decimal. -/
def Decimal.value (decimal : Decimal) : ℚ := decimal.digits * 10 ^ decimal.exponent

namespace Number

theorem fraction_lt (number : Number) : number.fraction < 2 ^ 52 :=
  Nat.mod_lt _ (Nat.two_pow_pos 52)

/-- A number has the smallest scale and no leading bit, or a leading bit in front of its
fraction. -/
theorem subnormal_or_normal (number : Number) :
    (number.exponentField = 0 ∧ number.significand = number.fraction ∧ number.scale = -1074) ∨
      (0 < number.exponentField ∧ number.significand = 2 ^ 52 + number.fraction ∧
        number.scale = (number.exponentField : ℤ) - 1075) := by
  unfold significand scale
  rcases Nat.eq_zero_or_pos number.exponentField with zero | positive
  · exact .inl ⟨zero, if_pos zero, if_pos zero⟩
  · exact .inr ⟨positive, if_neg positive.ne', if_neg positive.ne'⟩

theorem eq_of_fields {first second : Number} (sign : first.isNegative = second.isNegative)
    (exponents : first.exponentField = second.exponentField)
    (fractions : first.fraction = second.fraction) : first = second := by
  have bound := first.bits.toNat_lt
  have otherBound := second.bits.toNat_lt
  have signs : 2 ^ 63 ≤ first.bits.toNat ↔ 2 ^ 63 ≤ second.bits.toNat := by
    simpa [isNegative] using sign
  simp only [exponentField, fraction, Nat.pow_eq] at exponents fractions
  have same : first.bits.toNat = second.bits.toNat := by omega
  cases first
  cases second
  simpa [UInt64.toNat_inj] using same

end Number

namespace RoundingInterval

variable {interval : RoundingInterval} {point : ℚ} {exponent : ℤ} {digits : ℕ}

/-- The point lies in the interval. -/
def Holds (interval : RoundingInterval) (point : ℚ) : Prop :=
  if interval.closed then
    interval.low * 2 ^ interval.unit ≤ point ∧ point ≤ interval.high * 2 ^ interval.unit
  else
    interval.low * 2 ^ interval.unit < point ∧ point < interval.high * 2 ^ interval.unit

theorem Holds.low_le (holds : interval.Holds point) :
    interval.low * 2 ^ interval.unit ≤ point := by
  unfold Holds at holds
  split at holds
  · exact holds.1
  · exact holds.1.le

theorem Holds.le_high (holds : interval.Holds point) :
    point ≤ interval.high * 2 ^ interval.unit := by
  unfold Holds at holds
  split at holds
  · exact holds.2
  · exact holds.2.le

theorem Holds.strict (holds : interval.Holds point) (isOpen : interval.closed = false) :
    interval.low * 2 ^ interval.unit < point ∧ point < interval.high * 2 ^ interval.unit := by
  simpa [Holds, isOpen] using holds

/-! ## Points of a grid -/

theorem pow_toNat_eq {base : ℚ} (nonzero : base ≠ 0) (exponent : ℤ) :
    base ^ exponent.toNat = base ^ (-exponent).toNat * base ^ exponent := by
  rw [← zpow_natCast, ← zpow_natCast, ← zpow_add₀ nonzero]
  congr 1
  omega

theorem denominator_pos (interval : RoundingInterval) (exponent : ℤ) :
    0 < interval.denominator exponent := by
  simp only [denominator, Nat.pow_eq]
  positivity

/-- Points of the interval and of the grid are counted on one scale. -/
theorem exists_factor (interval : RoundingInterval) (exponent : ℤ) :
    ∃ factor : ℚ, 0 < factor ∧
      (∀ digits : ℕ, ((digits * interval.denominator exponent : ℕ) : ℚ) =
        digits * 10 ^ exponent * factor) ∧
      ∀ units : ℕ, ((units * interval.numerator exponent : ℕ) : ℚ) =
        units * 2 ^ interval.unit * factor := by
  have positive : (0 : ℚ) < interval.denominator exponent := by
    exact_mod_cast interval.denominator_pos exponent
  have twos := pow_toNat_eq (two_ne_zero (α := ℚ)) interval.unit
  have tens := pow_toNat_eq (OfNat.ofNat_ne_zero 10 : (10 : ℚ) ≠ 0) exponent
  refine ⟨interval.denominator exponent / 10 ^ exponent, by positivity, fun digits => ?_,
    fun units => ?_⟩
  · push_cast
    field_simp
  · simp only [numerator, denominator, Nat.pow_eq]
    push_cast
    rw [twos, tens]
    field_simp

theorem contains_iff :
    interval.contains digits exponent ↔ interval.Holds (Decimal.value ⟨digits, exponent⟩) := by
  obtain ⟨_, positive, grid, scale⟩ := interval.exists_factor exponent
  have low_le (units : ℕ) :
      units * interval.numerator exponent ≤ digits * interval.denominator exponent ↔
        (units : ℚ) * 2 ^ interval.unit ≤ digits * 10 ^ exponent := by
    rw [← Nat.cast_le (α := ℚ), grid, scale, mul_le_mul_iff_left₀ positive]
  have le_high (units : ℕ) :
      digits * interval.denominator exponent ≤ units * interval.numerator exponent ↔
        (digits : ℚ) * 10 ^ exponent ≤ units * 2 ^ interval.unit := by
    rw [← Nat.cast_le (α := ℚ), grid, scale, mul_le_mul_iff_left₀ positive]
  unfold contains Holds Decimal.value
  cases interval.closed
  · simp only [Bool.false_eq_true, if_false, decide_eq_true_eq, ← not_le, low_le, le_high]
  · simp only [if_true, decide_eq_true_eq, low_le, le_high]

/-! ## Intervals of different numbers -/

/-- Intervals with a common point overlap, by more than an end point unless both are
closed. -/
theorem Holds.low_le_high {first second : RoundingInterval} (earlier : first.Holds point)
    (later : second.Holds point) (finer : first.unit ≤ second.unit) :
    second.low * 2 ^ (second.unit - first.unit).toNat ≤ first.high ∧
      (second.low * 2 ^ (second.unit - first.unit).toNat = first.high →
        first.closed ∧ second.closed) := by
  have positive : (0 : ℚ) < 2 ^ first.unit := by positivity
  have scaled : (second.low : ℚ) * 2 ^ second.unit =
      (second.low * 2 ^ (second.unit - first.unit).toNat : ℕ) * 2 ^ first.unit := by
    push_cast
    rw [mul_assoc, ← zpow_natCast, ← zpow_add₀ two_ne_zero]
    congr 2
    omega
  have low_le := scaled ▸ later.low_le
  refine ⟨?_, fun same => ?_⟩
  · have overlap := (mul_le_mul_iff_left₀ positive).mp (low_le.trans earlier.le_high)
    exact_mod_cast overlap
  · rw [same] at low_le
    constructor
    · by_contra isOpen
      exact absurd low_le (not_le.mpr (earlier.strict (by simpa using isOpen)).2)
    · by_contra isOpen
      have strict := scaled ▸ (later.strict (by simpa using isOpen)).1
      rw [same] at strict
      exact absurd earlier.le_high (not_le.mpr strict)

variable {first second : Number}

theorem middle_sub_le_low (number : Number) :
    4 * number.significand - 2 ≤ (ofNumber number).low := by
  simp only [ofNumber]
  split <;> omega

/-- The intervals of numbers of different magnitude have no point in common. -/
theorem not_holds_of_lt
    (less : first.exponentField < second.exponentField ∨
      first.exponentField = second.exponentField ∧ first.fraction < second.fraction)
    (earlier : (ofNumber first).Holds point) : ¬ (ofNumber second).Holds point := by
  intro later
  have fields := first.subnormal_or_normal
  have laterFields := second.subnormal_or_normal
  have bound := first.fraction_lt
  have finer : (ofNumber first).unit ≤ (ofNumber second).unit := by
    simp only [ofNumber]
    omega
  obtain ⟨overlap, meeting⟩ := earlier.low_le_high later finer
  rcases finer.eq_or_lt with same | finer
  · -- On one scale the intervals of neighbours meet, and only one of them is closed.
    have low_le := middle_sub_le_low second
    rw [same, sub_self, Int.toNat_zero, pow_zero, mul_one] at overlap meeting
    simp only [ofNumber, decide_eq_true_eq] at same overlap meeting low_le
    omega
  · -- Below the first significand of a scale is the last one of the scale before, an odd one.
    have low_ge : 2 ^ 54 - 1 ≤ (ofNumber second).low := by
      simp only [ofNumber] at finer ⊢
      split <;> omega
    have twice : (ofNumber second).low * 2 ≤ (ofNumber second).low *
        2 ^ ((ofNumber second).unit - (ofNumber first).unit).toNat :=
      Nat.mul_le_mul_left _ (Nat.le_self_pow (by omega) 2)
    have high_eq : (ofNumber first).high = 4 * first.significand + 2 := rfl
    have even := fun same => of_decide_eq_true (meeting same).1
    omega

/-! ## The search -/

theorem contains_of_onGrid? (found : interval.onGrid? exponent = some digits) :
    interval.contains digits exponent := by
  unfold onGrid? at found
  grind

/-- Where the grid is not wider than a unit, its point below the value is in the interval. -/
theorem isSome_onGrid? (low_lt : interval.low < interval.value)
    (lt_high : interval.value < interval.high)
    (fine : interval.denominator exponent ≤ interval.numerator exponent) :
    (interval.onGrid? exponent).isSome := by
  have below : interval.contains
      (interval.value * interval.numerator exponent / interval.denominator exponent) exponent := by
    have positive := interval.denominator_pos exponent
    have least := Nat.div_mul_le_self (interval.value * interval.numerator exponent)
      (interval.denominator exponent)
    have next := Nat.lt_div_mul_add (a := interval.value * interval.numerator exponent) positive
    have above := Nat.mul_lt_mul_of_pos_right lt_high (positive.trans_le fine)
    have under := Nat.mul_le_mul_right (interval.numerator exponent) (Nat.succ_le_of_lt low_lt)
    rw [Nat.succ_mul] at under
    unfold contains
    split <;> simp only [decide_eq_true_eq] <;> constructor <;> omega
  unfold onGrid?
  simp only [below]
  grind

theorem holds_search {steps : ℕ}
    (found : ∃ finer < steps, (interval.onGrid? (exponent - finer)).isSome) :
    interval.Holds (interval.search steps exponent).value := by
  induction steps generalizing exponent with
  | zero => simp at found
  | succ steps ih =>
    rw [search]
    cases here : interval.onGrid? exponent with
    | some => exact contains_iff.mp (contains_of_onGrid? here)
    | none =>
      obtain ⟨finer, _, isSome⟩ := found
      cases finer with
      | zero => simp [here] at isSome
      | succ finer =>
        refine ih ⟨finer, by omega, ?_⟩
        rwa [Nat.cast_succ, add_comm, ← sub_sub] at isSome

theorem pow_le_pow_of_ratio {base other power otherPower first second : ℕ} (positive : 0 < base)
    (nonzero : otherPower ≠ 0) (powers : base ^ power ≤ other ^ otherPower)
    (ratio : otherPower * first ≤ power * second) : base ^ first ≤ other ^ second := by
  rw [← Nat.pow_le_pow_iff_left nonzero]
  calc (base ^ first) ^ otherPower = base ^ (otherPower * first) := by rw [← pow_mul, mul_comm]
    _ ≤ base ^ (power * second) := Nat.pow_le_pow_right positive ratio
    _ = (base ^ power) ^ second := pow_mul ..
    _ ≤ (other ^ otherPower) ^ second := Nat.pow_le_pow_left powers _
    _ = (other ^ second) ^ otherPower := by rw [← pow_mul, ← pow_mul, mul_comm]

/-- The last grid of the search is not wider than a unit.  With `k` the power of ten and `u`
the power of two, `10 ^ k ≤ 2 ^ u` follows from `10 * k ≤ 3 * u` where both are positive,
and from `28 * (-u) ≤ 93 * (-k)` otherwise. -/
theorem denominator_le_numerator (number : Number) (finite : number.isFinite) :
    (ofNumber number).denominator ((ofNumber number).ceiling - 19) ≤
      (ofNumber number).numerator ((ofNumber number).ceiling - 19) := by
  have fields := number.subnormal_or_normal
  have bound := number.fraction_lt
  have field_lt : number.exponentField < 2 ^ 11 := Nat.mod_lt _ (Nat.two_pow_pos 11)
  have field_ne : number.exponentField ≠ 2047 := of_decide_eq_true finite
  have log_lt : (ofNumber number).high.log2 < 55 := by
    refine (Nat.log2_lt (by simp [ofNumber])).mpr ?_
    simp only [ofNumber]
    omega
  have unit_eq : (ofNumber number).unit = number.scale - 2 := rfl
  simp only [denominator, numerator, ceiling, Nat.pow_eq]
  generalize (ofNumber number).high.log2 = log at log_lt ⊢
  generalize (ofNumber number).unit = unit at unit_eq ⊢
  rcases le_total 0 unit with positive | negative
  · have tens : 10 ^ (((log : ℤ) + 1 + unit) * 30103 / 100000 + 1 - 19).toNat ≤
        2 ^ unit.toNat := by
      have powers : 10 ^ 3 ≤ 2 ^ 10 := by norm_num
      exact pow_le_pow_of_ratio (by omega) (by omega) powers (by omega)
    rw [show (-unit).toNat = 0 by omega, pow_zero, one_mul]
    exact tens.trans (Nat.le_mul_of_pos_right _ (by positivity))
  · have twos : 2 ^ (-unit).toNat ≤
        10 ^ (-(((log : ℤ) + 1 + unit) * 30103 / 100000 + 1 - 19)).toNat := by
      have powers : 2 ^ 93 ≤ 10 ^ 28 := by norm_num
      exact pow_le_pow_of_ratio (by omega) (by omega) powers (by omega)
    rw [show (((log : ℤ) + 1 + unit) * 30103 / 100000 + 1 - 19).toNat = 0 by omega, pow_zero,
      mul_one]
    exact twos.trans (Nat.le_mul_of_pos_left _ (by positivity))

end RoundingInterval

namespace Number

variable {number other : Number}

theorem isZero_iff : number.isZero ↔ number.significand = 0 := by
  have fields := number.subnormal_or_normal
  simp only [isZero, decide_eq_true_eq]
  omega

/-- The shortest decimal of a number rounds to the number. -/
theorem holds_shortest (finite : number.isFinite) (nonzero : number.significand ≠ 0) :
    (RoundingInterval.ofNumber number).Holds number.shortest.value := by
  have fine := denominator_le_numerator number finite
  have low_lt : (RoundingInterval.ofNumber number).low < 4 * number.significand := by
    simp only [RoundingInterval.ofNumber]
    split <;> omega
  have lt_high : 4 * number.significand < 4 * number.significand + 2 := by omega
  rw [shortest, if_neg fun isZero => nonzero (isZero_iff.mp isZero)]
  refine holds_search ⟨19, by omega, ?_⟩
  exact isSome_onGrid? low_lt lt_high fine

theorem value_shortest_eq_zero_iff (finite : number.isFinite) :
    number.shortest.value = 0 ↔ number.significand = 0 := by
  constructor
  · intro zero
    by_contra nonzero
    have low_le := (holds_shortest finite nonzero).low_le
    have middle_le := middle_sub_le_low number
    have low_pos : (0 : ℚ) < (RoundingInterval.ofNumber number).low := by
      exact_mod_cast (by omega : 0 < (RoundingInterval.ofNumber number).low)
    have positive : (0 : ℚ) < (RoundingInterval.ofNumber number).low *
        2 ^ (RoundingInterval.ofNumber number).unit := by positivity
    rw [zero] at low_le
    exact absurd low_le (not_le.mpr positive)
  · intro zero
    rw [shortest, if_pos (isZero_iff.mpr zero)]
    simp [Decimal.value]

/-- A finite number is told by its sign and the value of its shortest decimal. -/
theorem eq_of_value_shortest (finite : number.isFinite) (otherFinite : other.isFinite)
    (sign : number.isNegative = other.isNegative)
    (value : number.shortest.value = other.shortest.value) : number = other := by
  have fields := number.subnormal_or_normal
  have otherFields := other.subnormal_or_normal
  have zero_iff := value_shortest_eq_zero_iff finite
  rw [value, value_shortest_eq_zero_iff otherFinite] at zero_iff
  by_cases zero : number.significand = 0
  · have otherZero := zero_iff.mpr zero
    exact eq_of_fields sign (by omega) (by omega)
  · have holds := holds_shortest finite zero
    have otherHolds := holds_shortest otherFinite (mt zero_iff.mp zero)
    rw [← value] at otherHolds
    have notLess := mt (not_holds_of_lt · holds) (not_not.mpr otherHolds)
    have notGreater := mt (not_holds_of_lt · otherHolds) (not_not.mpr holds)
    exact eq_of_fields sign (by omega) (by omega)

end Number

end BanglaScript
