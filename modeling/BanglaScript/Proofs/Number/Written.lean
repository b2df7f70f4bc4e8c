import BanglaScript.Number.Layout
import BanglaScript.Proofs.Number.Rounding

/-!
# Reading written numbers

A number in positional notation can be read again: the digits before and behind the
point give back the value of its decimal, and so the number itself.
-/

namespace BanglaScript

open List

namespace Layout

variable {layout : Layout}

/-- Every number is in positional notation, and a whole one ends with its last digit. -/
def IsPlain (layout : Layout) : Prop := layout.positional = none ∧ layout.wholeSuffix = ""

/-- The value of digits, of which some may stand behind a point. -/
def readPositional (text : List Char) : ℚ :=
  let whole := text.takeWhile Char.isDigit
  let part := (text.dropWhile Char.isDigit).tail
  Nat.ofDigitChars 10 (whole ++ part) 0 / 10 ^ part.length

theorem readPositional_append {whole rest : List Char} (digits : ∀ char ∈ whole, char.isDigit)
    (ends : rest.takeWhile Char.isDigit = []) :
    readPositional (whole ++ rest) =
      Nat.ofDigitChars 10 (whole ++ rest.tail) 0 / 10 ^ rest.tail.length := by
  have drops : rest.dropWhile Char.isDigit = rest := by
    have parts := takeWhile_append_dropWhile (p := Char.isDigit) (l := rest)
    rwa [ends, nil_append] at parts
  unfold readPositional
  simp only [takeWhile_append_of_pos digits, dropWhile_append_of_pos digits, ends, drops,
    append_nil]

theorem isDigit_of_mem_toDigits {value : ℕ} {char : Char} (member : char ∈ Nat.toDigits 10 value) :
    char.isDigit :=
  Nat.isDigit_of_mem_toDigits (by decide) (by decide) member

section

variable (plain : layout.IsPlain) (decimal : Decimal)

include plain decimal

/-- Written positionally, a decimal is a whole part with its places behind a point. -/
theorem exists_writePositional :
    ∃ whole rest, (layout.writePositional decimal).toList = whole ++ rest ∧ whole ≠ [] ∧
      (∀ char ∈ whole, char.isDigit) ∧ rest.takeWhile Char.isDigit = [] ∧
      (Nat.ofDigitChars 10 (whole ++ rest.tail) 0 : ℚ) / 10 ^ rest.tail.length =
        decimal.value := by
  obtain ⟨value, exponent⟩ := decimal
  have digits (char : Char) (member : char ∈ Nat.toDigits 10 value) : char.isDigit :=
    isDigit_of_mem_toDigits member
  unfold writePositional Decimal.value
  simp only [plain.2]
  rcases le_or_gt 0 exponent with positive | negative
  · -- A whole number has zeros behind its digits and no point.
    obtain ⟨places, rfl⟩ := Int.eq_ofNat_of_zero_le positive
    refine ⟨Nat.toDigits 10 value ++ List.replicate places '0', [], ?_, ?_, ?_, rfl, ?_⟩
    · simp [zeros]
    · simp [Nat.toDigits_ne_nil]
    · intro char member
      rcases mem_append.mp member with digit | zero
      · exact digits char digit
      · rw [eq_of_mem_replicate zero]
        rfl
    · simp [Nat.ofDigitChars_append, Nat.ofDigitChars_replicate_zero, mul_comm]
  · obtain ⟨places, rfl⟩ := Int.exists_eq_neg_ofNat negative.le
    rw [if_neg negative.not_ge, zpow_neg, zpow_natCast, ← div_eq_mul_inv]
    split
    case isTrue inside =>
      -- The point stands between two digits.
      obtain ⟨front, front_eq⟩ := Int.eq_ofNat_of_zero_le inside.le
      have behind : (Nat.toDigits 10 value).length - front = places := by omega
      have nonempty : front ≠ 0 := by omega
      rw [front_eq, Int.toNat_natCast]
      refine ⟨(Nat.toDigits 10 value).take front, '.' :: (Nat.toDigits 10 value).drop front,
        by simp, ?_, fun char member => digits char (mem_of_mem_take member), rfl, ?_⟩
      · simp [Nat.toDigits_ne_nil, nonempty]
      · rw [tail_cons, take_append_drop, Nat.ofDigitChars_ten_toDigits, length_drop, behind]
    case isFalse outside =>
      -- The point stands in front of all digits, with zeros in between.
      obtain ⟨gap, gap_eq⟩ := Int.eq_ofNat_of_zero_le (neg_nonneg.mpr (not_lt.mp outside))
      have behind : gap + (Nat.toDigits 10 value).length = places := by omega
      rw [gap_eq, Int.toNat_natCast]
      refine ⟨['0'], '.' :: (List.replicate gap '0' ++ Nat.toDigits 10 value), by simp [zeros],
        by simp, by simp, rfl, ?_⟩
      simp [Nat.ofDigitChars_cons, Nat.ofDigitChars_append, Nat.ofDigitChars_replicate_zero, behind]

/-- Reading undoes writing. -/
theorem readPositional_writePositional :
    readPositional (layout.writePositional decimal).toList = decimal.value := by
  obtain ⟨_, _, written, -, digits, ends, value⟩ := exists_writePositional plain decimal
  rw [written, readPositional_append digits ends, value]

theorem exists_digit_writePositional :
    ∃ char rest, (layout.writePositional decimal).toList = char :: rest ∧ char.isDigit := by
  obtain ⟨_, rest, written, nonempty, digits, -⟩ := exists_writePositional plain decimal
  obtain ⟨char, others, rfl⟩ := exists_cons_of_ne_nil nonempty
  exact ⟨char, others ++ rest, written, digits char mem_cons_self⟩

end

/-! ## Texts of numbers -/

variable {number other : Number}

section

variable (plain : layout.IsPlain) (finite : number.isFinite)

include plain finite

/-- The text of a finite number is that of its shortest decimal behind its sign. -/
theorem toList_write : (layout.write number).toList = (if number.isNegative then ['-'] else []) ++
      (layout.writePositional number.shortest).toList := by
  have notNaN : number.isNaN = false := by
    simp_all [Number.isFinite, Number.isNaN]
  simp only [write, notNaN, finite, writeDecimal, plain.1, Bool.false_eq_true, if_false, if_true]
  split
  · rw [String.toList_append]
    rfl
  · rfl

/-- The text of a finite number starts with its sign or a digit. -/
theorem exists_write : ∃ char rest, (layout.write number).toList = char :: rest ∧
      (number.isNegative ∧ char = '-' ∨ ¬ number.isNegative ∧ char.isDigit) := by
  obtain ⟨char, rest, written, digit⟩ := exists_digit_writePositional plain number.shortest
  rw [toList_write plain finite, written]
  split
  case isTrue negative => exact ⟨'-', char :: rest, rfl, .inl ⟨negative, rfl⟩⟩
  case isFalse positive => exact ⟨char, rest, rfl, .inr ⟨positive, digit⟩⟩

/-- Finite numbers with the same text are the same number. -/
theorem eq_of_write_eq
    (otherFinite : other.isFinite) (same : layout.write number = layout.write other) :
    number = other := by
  have sign : number.isNegative = other.isNegative := by
    obtain ⟨_, _, written, start⟩ := exists_write plain finite
    obtain ⟨_, _, otherWritten, otherStart⟩ := exists_write plain otherFinite
    rw [same, otherWritten] at written
    obtain ⟨rfl, -⟩ := List.cons.inj written
    rcases start with ⟨negative, rfl⟩ | ⟨positive, digit⟩
    · rcases otherStart with ⟨otherNegative, -⟩ | ⟨-, digit⟩
      · rw [negative, otherNegative]
      · exact absurd digit (by decide)
    · rcases otherStart with ⟨-, rfl⟩ | ⟨otherPositive, -⟩
      · exact absurd digit (by decide)
      · rw [Bool.eq_false_iff.mpr positive, Bool.eq_false_iff.mpr otherPositive]
  -- Behind the same sign both texts are read as the same value.
  have texts := congrArg String.toList same
  rw [toList_write plain finite, toList_write plain otherFinite, sign] at texts
  have values := congrArg readPositional (append_cancel_left texts)
  rw [readPositional_writePositional plain, readPositional_writePositional plain] at values
  exact Number.eq_of_value_shortest finite otherFinite sign values

end

/-- A number is written with digits, signs and the words for what is no finite number. -/
theorem notMem_write {character : Char} (plain : layout.IsPlain)
    (strange : character.isDigit = false ∧ character ∉ ".-NaN".toList ++ layout.infinity.toList)
    (number : Number) : character ∉ (layout.write number).toList := by
  obtain ⟨noDigit, others⟩ := strange
  have digits (value : Nat) : character ∉ Nat.toDigits 10 value := fun member =>
    Bool.false_ne_true (noDigit.symm.trans (isDigit_of_mem_toDigits member))
  have taken (value count : Nat) : character ∉ (Nat.toDigits 10 value).take count :=
    fun member => digits value (mem_of_mem_take member)
  have dropped (value count : Nat) : character ∉ (Nat.toDigits 10 value).drop count :=
    fun member => digits value (mem_of_mem_drop member)
  have zero : character ≠ '0' := by
    rintro rfl
    cases noDigit
  simp only [String.reduceToList, cons_append, nil_append, mem_cons, not_or] at others
  unfold write writeDecimal writePositional
  rw [plain.1, plain.2]
  dsimp only
  split_ifs <;> simp [zeros, digits, taken, dropped, zero, others]

end Layout

end BanglaScript
