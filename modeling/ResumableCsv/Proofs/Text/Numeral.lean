import ResumableCsv.Text.Numeral

/-!
Numerals read back: the decimal digits of a 64-bit counter are read as that counter.
-/

namespace ResumableCsv.Text

theorem digitsValue_eq_ofDigitChars (digits : List Char) :
    digitsValue digits = Nat.ofDigitChars 10 digits 0 := by
  rw [Nat.ofDigitChars_eq_foldl]
  rfl

theorem isAsciiDigit_of_isDigit {c : Char} (digit : c.isDigit = true) : isAsciiDigit c = true := by
  simp only [Char.isDigit, ge_iff_le, UInt32.le_iff_toNat_le, Bool.and_eq_true,
    decide_eq_true_eq] at digit
  simp only [isAsciiDigit, Char.toNat, Bool.and_eq_true, decide_eq_true_eq]
  exact digit

theorem all_isAsciiDigit_decimal (n : Nat) : (decimal n).all isAsciiDigit = true := by
  rw [List.all_eq_true]
  intro c member
  exact isAsciiDigit_of_isDigit (Nat.isDigit_of_mem_toDigits (by decide) (by decide) member)

theorem digitsValue_decimal (n : Nat) : digitsValue (decimal n) = n := by
  rw [digitsValue_eq_ofDigitChars]
  exact Nat.ofDigitChars_ten_toDigits

theorem toList_toString (n : Nat) : (toString n).toList = decimal n := Nat.toList_repr

theorem toString_injective {n m : Nat} (same : toString n = toString m) : n = m := by
  have digits := congrArg String.toList same
  rw [toList_toString, toList_toString] at digits
  rw [← digitsValue_decimal n, digits, digitsValue_decimal]

theorem readDigits?_decimal {n : Nat} (bound : n ≤ maxCounter) :
    readDigits? (decimal n) = some n := by
  have value := digitsValue_decimal n
  have nonempty : decimal n ≠ [] := Nat.toDigits_ne_nil
  rw [readDigits?, if_pos ⟨nonempty, all_isAsciiDigit_decimal n, by rwa [value]⟩, value]

/-- A counter is read back from its own text. -/
theorem readCounter?_toString {n : Nat} (bound : n ≤ maxCounter) :
    readCounter? (toString n).toList = some n := by
  rw [toList_toString]
  unfold readCounter?
  split
  next rest signed =>
    have plain := all_isAsciiDigit_decimal n
    rw [signed] at plain
    simp [isAsciiDigit] at plain
  next => exact readDigits?_decimal bound

theorem le_foldl_digits (value : Nat) (digits : List Char) :
    value ≤ digits.foldl (fun value c => 10 * value + digitValue c) value := by
  induction digits generalizing value with
  | nil => exact Nat.le_refl value
  | cons c digits ih =>
    have later := ih (10 * value + digitValue c)
    simp only [List.foldl_cons]
    omega

/-- More digits make at least ten times as much. -/
theorem digitsValue_append_ge (digits : List Char) {more : List Char} (some_digit : more ≠ []) :
    10 * digitsValue digits ≤ digitsValue (digits ++ more) := by
  obtain ⟨c, more, rfl⟩ := List.exists_cons_of_ne_nil some_digit
  have later := le_foldl_digits (10 * digitsValue digits + digitValue c) more
  rw [digitsValue, digitsValue, List.foldl_append, List.foldl_cons]
  simp only [digitsValue] at later
  omega

theorem decimal_pos_of_length {n : Nat} (long : 1 < (decimal n).length) : 0 < n := by
  rcases Nat.eq_zero_or_pos n with rfl | positive
  · exact absurd long (by decide)
  · exact positive

/-- The beginning of a numeral, where it can be read at all, is the numeral or is less. -/
theorem readCounter?_of_prefix {text : String} {n value : Nat}
    (leading : text.toList <+: (toString n).toList)
    (read : readCounter? text.toList = some value) :
    text = toString n ∧ value = n ∨ value < n := by
  rw [toList_toString] at leading
  obtain ⟨more, whole⟩ := leading
  have digits : readDigits? text.toList = some value := by
    have plain := all_isAsciiDigit_decimal n
    rw [← whole] at plain
    unfold readCounter? at read
    split at read
    next rest signed =>
      rw [signed] at plain
      simp [isAsciiDigit] at plain
    next => exact read
  unfold readDigits? at digits
  split at digits
  next known =>
    obtain rfl := Option.some.inj digits
    by_cases all : more = []
    · subst all
      rw [List.append_nil] at whole
      refine .inl ⟨String.toList_inj.mp (by rw [whole, toList_toString]), ?_⟩
      rw [whole, digitsValue_decimal]
    · have tenfold := digitsValue_append_ge text.toList all
      have long : 1 < (decimal n).length := by
        have some_digit := List.length_pos_iff.mpr known.1
        have some_more := List.length_pos_iff.mpr all
        rw [← whole, List.length_append]
        omega
      have positive := decimal_pos_of_length long
      rw [whole, digitsValue_decimal] at tenfold
      exact .inr (by omega)
  next => cases digits

end ResumableCsv.Text
