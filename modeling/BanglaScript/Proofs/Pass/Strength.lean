import BanglaScript.Check
import BanglaScript.Instruction.Lowering
import BanglaScript.Pass
import Mathlib.Data.Rat.Floor
import Mathlib.Tactic.Linarith
import Mathlib.Tactic.NormNum

/-!
# Shifts in place of products and quotients

The script computes a shift on words: the left operand loses its fraction and
everything beyond thirty-two bits, and the shift goes by its count modulo
thirty-two.  So a shift need not give the product or the quotient that it
stands for.  It does exactly if the left operand and the result are both signed
words.

Numbers are exact here, as rational numbers, so that nothing is said about the
rounding that the operations have in common.
-/

namespace BanglaScript

/-- The exact value of a finite number. -/
def Number.exact (number : Number) : ℚ :=
  (if number.isNegative then -1 else 1) * number.significand * 2 ^ number.scale

/-- A number is a signed word of thirty-two bits. -/
def IsWord (number : ℚ) : Prop := ∃ whole : ℤ, number = whole ∧ -2 ^ 31 ≤ whole ∧ whole < 2 ^ 31

namespace Script

variable {number : ℚ} {whole : ℤ} {exponent : ℕ}

/-- A number without its fraction. -/
def truncate (number : ℚ) : ℤ := if 0 ≤ number then ⌊number⌋ else ⌈number⌉

/-- The word that a number is converted to. -/
def word (number : ℚ) : BitVec 32 := BitVec.ofInt 32 (truncate number)

/-- How far a shift goes. -/
def shiftCount (number : ℚ) : ℕ := (truncate number % 32).toNat

/-- What the arithmetic operators of the script give on numbers.  A quotient by
zero is no number. -/
def operate? (symbol : String) (lhs rhs : ℚ) : Option ℚ :=
  match symbol with
  | "*" => some (lhs * rhs)
  | "/" => if rhs = 0 then none else some (lhs / rhs)
  | "<<" => some (word lhs <<< shiftCount rhs).toInt
  | ">>" => some ((word lhs).sshiftRight (shiftCount rhs)).toInt
  | _ => none

theorem operate?_div {lhs rhs : ℚ} (nonzero : rhs ≠ 0) :
    operate? Opcode.div.scriptSymbol lhs rhs = some (lhs / rhs) :=
  if_neg nonzero

/-! ## Words -/

theorem truncate_intCast (whole : ℤ) : truncate whole = whole := by
  unfold truncate
  split
  · exact Int.floor_intCast whole
  · exact Int.ceil_intCast whole

/-- Less than one is cut off. -/
theorem abs_sub_truncate_lt (number : ℚ) : |number - truncate number| < 1 := by
  have below := Int.floor_le number
  have above := Int.lt_floor_add_one number
  have ceilBelow := Int.ceil_lt_add_one number
  have ceilAbove := Int.le_ceil number
  unfold truncate
  rw [abs_lt]
  split <;> constructor <;> linarith

theorem truncate_eq_zero (small : |number| < 1) : truncate number = 0 := by
  obtain ⟨_, below⟩ := abs_lt.mp small
  unfold truncate
  split
  · rename_i nonnegative
    exact Int.floor_eq_zero_iff.mpr ⟨nonnegative, below⟩
  · rename_i negative
    refine Int.ceil_eq_iff.mpr ⟨?_, ?_⟩ <;> push_cast <;> linarith

theorem shiftCount_natCast (count : ℕ) : shiftCount count = count % 32 := by
  have whole : truncate count = count := truncate_intCast count
  rw [shiftCount, whole]
  omega

theorem toInt_word (number : ℚ) : (word number).toInt = (truncate number).bmod (2 ^ 32) :=
  BitVec.toInt_ofInt _

theorem isWord_toInt (bits : BitVec 32) : IsWord bits.toInt :=
  ⟨bits.toInt, rfl, bits.le_toInt, bits.toInt_lt⟩

/-- A signed word is converted to itself. -/
theorem bmod_eq_self (lower : -2 ^ 31 ≤ whole) (upper : whole < 2 ^ 31) :
    whole.bmod (2 ^ 32) = whole :=
  Int.bmod_eq_of_le (by omega) (by omega)

/-! ## Shifts -/

theorem toInt_shiftLeft (number : ℚ) (count : ℕ) :
    (word number <<< count).toInt = (truncate number * 2 ^ count).bmod (2 ^ 32) := by
  rw [BitVec.toInt_shiftLeft, Nat.shiftLeft_eq, word, BitVec.toNat_ofInt]
  push_cast
  rw [Int.toNat_of_nonneg (Int.emod_nonneg _ (by decide))]
  exact Int.emod_mul_bmod _ _

theorem toInt_shiftRight (number : ℚ) (count : ℕ) :
    ((word number).sshiftRight count).toInt =
      (truncate number).bmod (2 ^ 32) / 2 ^ count := by
  rw [BitVec.toInt_sshiftRight, toInt_word, Int.shiftRight_eq_div_pow]
  push_cast
  rfl

/-- Only zero stays a word when it is multiplied by more than a word. -/
theorem eq_zero_of_isWord_mul (long : 32 ≤ exponent) (lower : -2 ^ 31 ≤ whole * 2 ^ exponent)
    (upper : whole * 2 ^ exponent < 2 ^ 31) : whole = 0 := by
  obtain ⟨rest, rfl⟩ := Nat.exists_eq_add_of_le long
  have split : whole * 2 ^ (32 + rest) = whole * 2 ^ rest * 2 ^ 32 := by ring
  rw [split] at lower upper
  have multiple : whole * 2 ^ rest = 0 := by omega
  exact (mul_eq_zero.mp multiple).resolve_right (by positivity)

/-- The factor of a word is a word. -/
theorem isWord_of_isWord_mul (product : IsWord (whole * 2 ^ exponent)) : IsWord whole := by
  obtain ⟨result, same, _, _⟩ := product
  have same : whole * 2 ^ exponent = result := by exact_mod_cast same
  have factor : (1 : ℤ) ≤ 2 ^ exponent := one_le_pow₀ (by norm_num)
  refine ⟨whole, rfl, ?_, ?_⟩
  · by_contra below
    nlinarith
  · by_contra above
    nlinarith

/-- A product that a shift by less than a word gives has no fraction. -/
theorem eq_truncate_of_shiftLeft (short : exponent < 32)
    (same : ((word number <<< exponent).toInt : ℚ) = number * 2 ^ exponent) :
    number = truncate number := by
  -- What is cut off would have to be a multiple of a whole word.
  obtain ⟨words, difference⟩ : ((2 ^ 32 : ℕ) : ℤ) ∣
      (word number <<< exponent).toInt - truncate number * 2 ^ exponent := by
    rw [toInt_shiftLeft]
    exact Int.dvd_bmod_sub_self
  have shifted : (number - truncate number) * 2 ^ exponent = 2 ^ 32 * words := by
    have exactly := congrArg (Int.cast : ℤ → ℚ) difference
    push_cast at exactly
    rw [sub_mul, ← same, exactly]
    norm_num
  have bound : |(2 : ℚ) ^ 32 * words| < 2 ^ 32 := by
    calc |(2 : ℚ) ^ 32 * words|
        = |number - truncate number| * 2 ^ exponent := by
          rw [← shifted, abs_mul, abs_of_pos (by positivity : (0 : ℚ) < 2 ^ exponent)]
      _ < 1 * 2 ^ exponent := by
          have less := abs_sub_truncate_lt number
          gcongr
      _ ≤ 2 ^ 32 := by
          rw [one_mul]
          exact pow_le_pow_right₀ (by norm_num) short.le
  have none : words = 0 := by
    rw [abs_lt] at bound
    have lower : (-1 : ℚ) < words := by linarith
    have upper : (words : ℚ) < 1 := by linarith
    have lower : -1 < words := by exact_mod_cast lower
    have upper : words < 1 := by exact_mod_cast upper
    omega
  rw [none, Int.cast_zero, mul_zero] at shifted
  have rest := (mul_eq_zero.mp shifted).resolve_right (by positivity)
  linarith

/-- A shift to the left gives the product exactly on words with a word as their
product. -/
theorem shiftLeft_eq_mul_iff (number : ℚ) (exponent : ℕ) :
    ((word number <<< (exponent % 32)).toInt : ℚ) = number * 2 ^ exponent ↔
      IsWord number ∧ IsWord (number * 2 ^ exponent) := by
  constructor
  · intro same
    have product : IsWord (number * 2 ^ exponent) := same ▸ isWord_toInt _
    refine ⟨?_, product⟩
    by_cases short : exponent < 32
    · rw [Nat.mod_eq_of_lt short] at same
      rw [eq_truncate_of_shiftLeft short same] at product ⊢
      exact isWord_of_isWord_mul product
    · have small : |number| < 1 := by
        obtain ⟨result, value, lower, upper⟩ := product
        have factor : (2 : ℚ) ^ 32 ≤ 2 ^ exponent :=
          pow_le_pow_right₀ (by norm_num) (Nat.le_of_not_lt short)
        have lower : (-2 ^ 31 : ℚ) ≤ number * 2 ^ exponent := by rw [value]; exact_mod_cast lower
        have upper : number * 2 ^ exponent < 2 ^ 31 := by rw [value]; exact_mod_cast upper
        rw [abs_lt]
        constructor <;> by_contra outside <;> nlinarith
      rw [toInt_shiftLeft, truncate_eq_zero small, zero_mul, Int.zero_bmod, Int.cast_zero,
        zero_eq_mul] at same
      rw [same.resolve_right (by positivity)]
      exact ⟨0, rfl, by norm_num, by norm_num⟩
  · rintro ⟨⟨whole, rfl, -⟩, ⟨result, same, lower, upper⟩⟩
    have same : whole * 2 ^ exponent = result := by exact_mod_cast same
    rw [toInt_shiftLeft, truncate_intCast]
    by_cases short : exponent < 32
    · rw [Nat.mod_eq_of_lt short, same, bmod_eq_self lower upper, ← same]
      push_cast
      rfl
    · have zero : whole = 0 :=
        eq_zero_of_isWord_mul (Nat.le_of_not_lt short) (same ▸ lower) (same ▸ upper)
      simp [zero]

/-- A shift to the right gives the quotient exactly on words with a word as
their quotient. -/
theorem shiftRight_eq_div_iff (number : ℚ) (exponent : ℕ) :
    (((word number).sshiftRight (exponent % 32)).toInt : ℚ) = number / 2 ^ exponent ↔
      IsWord number ∧ IsWord (number / 2 ^ exponent) := by
  have nonzero : (2 : ℚ) ^ exponent ≠ 0 := by positivity
  constructor
  · intro same
    refine ⟨?_, same ▸ isWord_toInt _⟩
    generalize quotient : ((word number).sshiftRight (exponent % 32)).toInt = result at same
    have whole : number = ((result * 2 ^ exponent : ℤ) : ℚ) := by
      push_cast
      rw [same, div_mul_cancel₀ _ nonzero]
    rw [toInt_shiftRight, whole, truncate_intCast] at quotient
    by_cases short : exponent < 32
    · -- The word has the same last bits as the number, so nothing is cut off.
      rw [Nat.mod_eq_of_lt short] at quotient
      have divides : (2 : ℤ) ^ exponent ∣ (result * 2 ^ exponent).bmod (2 ^ 32) := by
        have unit : (2 : ℤ) ^ exponent ∣ ((2 ^ 32 : ℕ) : ℤ) := by
          push_cast
          exact pow_dvd_pow 2 short.le
        exact (dvd_sub_left (Dvd.intro_left _ rfl)).mp
          (unit.trans Int.dvd_bmod_sub_self)
      have exactly := Int.ediv_mul_cancel divides
      rw [quotient] at exactly
      rw [whole, exactly, ← BitVec.toInt_ofInt]
      exact isWord_toInt _
    · obtain ⟨rest, rfl⟩ := Nat.exists_eq_add_of_le (Nat.le_of_not_lt short)
      have vanishes : (result * 2 ^ (32 + rest)).bmod (2 ^ 32) = 0 := by
        refine Int.bmod_eq_zero_of_dvd ⟨result * 2 ^ rest, ?_⟩
        push_cast
        ring
      rw [vanishes, Int.zero_ediv] at quotient
      rw [whole, ← quotient, zero_mul]
      exact ⟨0, rfl, by norm_num, by norm_num⟩
  · rintro ⟨⟨whole, rfl, lower, upper⟩, ⟨result, same, -⟩⟩
    have product : whole = result * 2 ^ exponent := by
      have product := (div_eq_iff nonzero).mp same
      exact_mod_cast product
    rw [toInt_shiftRight, truncate_intCast, bmod_eq_self lower upper, same]
    by_cases short : exponent < 32
    · rw [Nat.mod_eq_of_lt short, product, Int.mul_ediv_cancel _ (by positivity)]
    · have zero : result = 0 :=
        eq_zero_of_isWord_mul (Nat.le_of_not_lt short) (product ▸ lower) (product ▸ upper)
      simp [product, zero]

end Script

/-! ## The numbers of the pass -/

namespace Number

/-- A power of two has its value. -/
theorem exact_of_exponentOfTwo? {number : Number} {exponent : ℕ}
    (found : number.exponentOfTwo? = some exponent) :
    number.exact = 2 ^ exponent ∧ exponent < 64 := by
  unfold exponentOfTwo? at found
  split at found
  case isFalse => cases found
  case isTrue power =>
    obtain ⟨nonnegative, noFraction, _, _⟩ := power
    have field : number.exponentField = exponent + 1023 := by
      have := Option.some.inj found
      omega
    have normal : number.exponentField ≠ 0 := by omega
    have significand : number.significand = 2 ^ 52 := by
      rw [Number.significand, if_neg normal, noFraction, Nat.add_zero, Nat.pow_eq]
    have scale : number.scale = (exponent : ℤ) - (52 : ℕ) := by
      rw [Number.scale, if_neg normal, field]
      omega
    refine ⟨?_, by omega⟩
    rw [exact, if_neg nonnegative, significand, scale, zpow_sub₀ (by norm_num), zpow_natCast,
      zpow_natCast, one_mul, Nat.cast_pow, Nat.cast_ofNat, mul_div_cancel₀ _ (by positivity)]

/-- The count of a shift has its value. -/
theorem exact_ofNat {count : ℕ} (small : count < 64) : (ofNat count).exact = count := by
  have parts : ∀ count : Fin 64, (ofNat count).isNegative = false ∧ (ofNat count).scale ≤ 0 ∧
      (ofNat count).significand = count * 2 ^ (ofNat count).scale.natAbs := by
    decide +kernel
  obtain ⟨nonnegative, scale, significand⟩ := parts ⟨count, small⟩
  simp only at nonnegative scale significand
  have power : (2 : ℚ) ^ (ofNat count).scale = (2 ^ (ofNat count).scale.natAbs)⁻¹ := by
    rw [← zpow_natCast, ← zpow_neg]
    congr 1
    omega
  rw [exact, nonnegative, if_neg Bool.false_ne_true, significand, power, one_mul, Nat.cast_mul,
    Nat.cast_pow, Nat.cast_ofNat, mul_assoc, mul_inv_cancel₀ (by positivity), mul_one]

end Number

/-! ## The pass -/

namespace Pass

/-- An instruction stays, or it is a product or a quotient with a power of two
and becomes a shift by the exponent. -/
theorem shiftStep_cases (instruction : Instruction) :
    shiftStep instruction = instruction ∨
      ∃ opcode shift target lhs value exponent,
        instruction = .binary opcode target lhs (.number value) ∧ shift? opcode = some shift ∧
        value.exponentOfTwo? = some exponent ∧
        shiftStep instruction = .binary shift target lhs (.number (.ofNat exponent)) := by
  unfold shiftStep
  split
  · rename_i opcode target lhs value
    split
    · rename_i shift exponent isShift isPower
      exact .inr ⟨opcode, shift, target, lhs, value, exponent, rfl, isShift, isPower, rfl⟩
    · exact .inl rfl
  · exact .inl rfl

/-- A shift gives the value of the operation that it stands for exactly on words
with a word as their result. -/
theorem operate?_shift_iff {opcode shift : Opcode} (isShift : shift? opcode = some shift)
    {exponent : ℕ} (lhs : ℚ) :
    ∃ result, Script.operate? opcode.scriptSymbol lhs (2 ^ exponent) = some result ∧
      (Script.operate? shift.scriptSymbol lhs exponent = some result ↔
        IsWord lhs ∧ IsWord result) := by
  cases opcode with
  | mul =>
    cases isShift
    refine ⟨lhs * 2 ^ exponent, rfl, ?_⟩
    rw [← Script.shiftLeft_eq_mul_iff, ← Script.shiftCount_natCast]
    exact Option.some_inj
  | div =>
    cases isShift
    refine ⟨lhs / 2 ^ exponent, Script.operate?_div (by positivity), ?_⟩
    rw [← Script.shiftRight_eq_div_iff, ← Script.shiftCount_natCast]
    exact Option.some_inj
  | _ => cases isShift

end Pass

/-- Whatever strength reduction changes is an operation that becomes a shift, and
on the numbers that the script computes with the shift has the value of the
operation exactly if the left operand and the value are both signed words. -/
theorem operate?_shiftPowers_iff {code : List Instruction} {position : ℕ} {opcode : Opcode}
    {target : ℕ} {lhs rhs : Operand} {reduced : Instruction}
    (found : code[position]? = some (.binary opcode target lhs rhs))
    (changed : (Pass.shiftPowers code)[position]? = some reduced)
    (different : reduced ≠ .binary opcode target lhs rhs) :
    ∃ shift value count, rhs = .number value ∧
      reduced = .binary shift target lhs (.number count) ∧
      ∀ left : ℚ, ∃ result,
        Script.operate? opcode.scriptSymbol left value.exact = some result ∧
        (Script.operate? shift.scriptSymbol left count.exact = some result ↔
          IsWord left ∧ IsWord result) := by
  rw [Pass.shiftPowers, List.getElem?_map, found, Option.map_some] at changed
  cases changed
  rcases Pass.shiftStep_cases (.binary opcode target lhs rhs) with
    stays | ⟨_, shift, _, _, value, exponent, same, isShift, isPower, becomes⟩
  · exact absurd stays different
  · cases same
    obtain ⟨power, small⟩ := Number.exact_of_exponentOfTwo? isPower
    refine ⟨shift, value, .ofNat exponent, rfl, becomes, fun left => ?_⟩
    rw [power, Number.exact_ofNat small]
    exact Pass.operate?_shift_iff isShift left

/-- A quotient by four. -/
def quartering : List Instruction := [.binary .div 1 (.variable "x") (.number (.ofNat 4))]

/-- A negative multiple of four is a word, and so is its quarter. -/
theorem operate?_shiftPowers_quartering :
    Pass.shiftPowers quartering = [.binary .shr 1 (.variable "x") (.number (.ofNat 2))] ∧
      Script.operate? Opcode.div.scriptSymbol (-8) (Number.ofNat 4).exact = some (-2) ∧
      Script.operate? Opcode.shr.scriptSymbol (-8) (Number.ofNat 2).exact = some (-2) := by
  have reduced : Pass.shiftPowers quartering =
      [.binary .shr 1 (.variable "x") (.number (.ofNat 2))] := by decide
  have changed := congrArg (·[0]?) reduced
  obtain ⟨_, _, _, same, becomes, gives⟩ :=
    operate?_shiftPowers_iff (rfl : quartering[0]? = _) changed (by decide)
  cases same
  cases becomes
  obtain ⟨result, quotient, exactly⟩ := gives (-8)
  have quarter : result = -2 := by
    rw [Number.exact_ofNat (by norm_num), Script.operate?_div (by norm_num)] at quotient
    rw [← Option.some.inj quotient]
    norm_num
  subst quarter
  refine ⟨reduced, quotient, exactly.mpr ⟨⟨-8, by norm_num⟩, ⟨-2, by norm_num⟩⟩⟩

/-- Half of an odd number is printed. -/
def halving : Program :=
  ⟨[.declaration "x" (some (.literal (.number (.ofNat 3)))),
    .print (.binary .divide (.identifier "x") (.literal (.number (.ofNat 2))))]⟩

/-- Twice a fraction is computed, and twice a number beyond the words. -/
def doubling : List Instruction := [.binary .mul 1 (.variable "x") (.number (.ofNat 2))]

/-- A shift need not give the value of the operation that it stands for: half of
three becomes one, twice a half becomes zero, and so does twice the first number
beyond the words. -/
theorem not_operate?_shiftPowers :
    ((halving.check .flat).isValid ∧
      halving.lower[1]? = some (.binary .div 1 (.variable "x") (.number (.ofNat 2))) ∧
      (Pass.shiftPowers halving.lower)[1]? =
        some (.binary .shr 1 (.variable "x") (.number (.ofNat 1))) ∧
      Script.operate? Opcode.div.scriptSymbol 3 (Number.ofNat 2).exact = some (3 / 2) ∧
      Script.operate? Opcode.shr.scriptSymbol 3 (Number.ofNat 1).exact = some 1) ∧
    (Pass.shiftPowers doubling = [.binary .shl 1 (.variable "x") (.number (.ofNat 1))] ∧
      Script.operate? Opcode.mul.scriptSymbol (1 / 2) (Number.ofNat 2).exact = some 1 ∧
      Script.operate? Opcode.shl.scriptSymbol (1 / 2) (Number.ofNat 1).exact = some 0 ∧
      Script.operate? Opcode.mul.scriptSymbol (2 ^ 31) (Number.ofNat 2).exact = some (2 ^ 32) ∧
      Script.operate? Opcode.shl.scriptSymbol (2 ^ 31) (Number.ofNat 1).exact = some 0) := by
  rw [Number.exact_ofNat (by norm_num), Number.exact_ofNat (by norm_num)]
  refine ⟨⟨by decide, by decide, by decide, ?_, by decide +kernel⟩, by decide, ?_,
    by decide +kernel, ?_, by decide +kernel⟩
  · exact Script.operate?_div (by norm_num)
  · exact congrArg some (by norm_num)
  · exact congrArg some (by norm_num)

end BanglaScript
