import Mathlib.Data.List.DropRight
import Mathlib.Data.Rat.Cast.Order
import Mathlib.Tactic.FieldSimp

/-!
Decimal numbers as texts: the value of a numeral, what padding on the left and trimming on the
right do to it, and reading a number with a decimal point.
-/

namespace LeanDecimal

def IsNumeral (text : List Char) : Prop :=
  text ≠ [] ∧ ∀ character ∈ text, character.isDigit = true

instance : DecidablePred IsNumeral := fun text =>
  inferInstanceAs (Decidable (text ≠ [] ∧ ∀ character ∈ text, character.isDigit = true))

abbrev numeralValue (text : List Char) : Nat := Nat.ofDigitChars 10 text 0

def readDecimal (text : List Char) : Option ℚ :=
  let whole := text.takeWhile (· ≠ '.')
  match text.dropWhile (· ≠ '.') with
  | [] => if IsNumeral whole then some (numeralValue whole) else none
  | _ :: fraction =>
      if IsNumeral whole ∧ IsNumeral fraction then
        some (numeralValue whole + numeralValue fraction / 10 ^ fraction.length)
      else none

def trimZeros (text : List Char) : List Char := text.rdropWhile (· = '0')

section Numerals

variable {text : List Char}

theorem isNumeral_toDigits (value : Nat) : IsNumeral (Nat.toDigits 10 value) :=
  ⟨Nat.toDigits_ne_nil, fun _ => Nat.isDigit_of_mem_toDigits (by decide) (by decide)⟩

theorem IsNumeral.not_mem (numeral : IsNumeral text) (character : Char)
    (other : character.isDigit = false) : character ∉ text := by
  intro member
  rw [numeral.2 character member] at other
  cases other

theorem IsNumeral.leftpad (numeral : IsNumeral text) (width : Nat) :
    IsNumeral (text.leftpad width '0') := by
  refine ⟨?_, fun character member => ?_⟩
  · simp [List.leftpad, numeral.1]
  · rcases List.mem_append.mp member with zero | digit
    · rw [List.eq_of_mem_replicate zero]
      rfl
    · exact numeral.2 character digit

theorem exists_trimZeros_append (text : List Char) :
    ∃ zeros, text = trimZeros text ++ List.replicate zeros '0' := by
  have split : text.rdropWhile (· = '0') ++ text.rtakeWhile (· = '0') = text :=
    List.rdropWhile_append_rtakeWhile
  have zeros : text.rtakeWhile (· = '0') =
      List.replicate (text.rtakeWhile (· = '0')).length '0' := by
    refine List.eq_replicate_of_mem fun character member => ?_
    simpa using List.mem_rtakeWhile_imp member
  refine ⟨(text.rtakeWhile (· = '0')).length, ?_⟩
  rw [trimZeros, ← zeros, split]

theorem IsNumeral.trimZeros (numeral : IsNumeral text) (nonzero : numeralValue text ≠ 0) :
    IsNumeral (trimZeros text) := by
  obtain ⟨zeros, split⟩ := exists_trimZeros_append text
  refine ⟨fun empty => nonzero ?_, fun character member => ?_⟩
  · rw [split, empty, List.nil_append, numeralValue, Nat.ofDigitChars_replicate_zero, Nat.mul_zero]
  · refine numeral.2 character ?_
    rw [split]
    exact List.mem_append_left _ member

theorem trimZeros_last (text : List Char) : (trimZeros text).getLast? ≠ some '0' := by
  intro last
  obtain ⟨rest, ended⟩ := List.getLast?_eq_some_iff.mp last
  have nonempty : trimZeros text ≠ [] := by simp [ended]
  refine List.rdropWhile_last_not _ _ nonempty (decide_eq_true ?_)
  change (trimZeros text).getLast nonempty = '0'
  simp only [ended, List.getLast_concat]

theorem numeralValue_leftpad (width : Nat) :
    numeralValue (text.leftpad width '0') = numeralValue text := by
  rw [numeralValue, List.leftpad, Nat.ofDigitChars_append, Nat.ofDigitChars_replicate_zero,
    Nat.mul_zero]

theorem fraction_trimZeros : (numeralValue (trimZeros text) : ℚ) / 10 ^ (trimZeros text).length =
    numeralValue text / 10 ^ text.length := by
  obtain ⟨zeros, split⟩ := exists_trimZeros_append text
  have length : text.length = (trimZeros text).length + zeros := by
    conv_lhs => rw [split, List.length_append, List.length_replicate]
  have value : numeralValue text = 10 ^ zeros * numeralValue (trimZeros text) := by
    conv_lhs => rw [split, numeralValue, Nat.ofDigitChars_append, Nat.ofDigitChars_replicate_zero]
  rw [length, value, pow_add]
  push_cast
  field_simp

end Numerals

section Reading

variable {whole fraction : List Char}

theorem IsNumeral.noPoint (numeral : IsNumeral whole) :
    ∀ character ∈ whole, decide (character ≠ '.') = true := by
  intro character member
  refine decide_eq_true fun point => ?_
  exact numeral.not_mem '.' rfl (point ▸ member)

theorem readDecimal_whole (numeral : IsNumeral whole) :
    readDecimal whole = some (numeralValue whole : ℚ) := by
  have all := numeral.noPoint
  simp only [readDecimal, List.takeWhile_eq_self_iff.mpr all, List.dropWhile_eq_nil_iff.mpr all,
    if_pos numeral]

theorem readDecimal_point (numeral : IsNumeral whole) (digits : IsNumeral fraction) :
    readDecimal (whole ++ '.' :: fraction) =
      some (numeralValue whole + numeralValue fraction / 10 ^ fraction.length : ℚ) := by
  have all := numeral.noPoint
  have before : (whole ++ '.' :: fraction).takeWhile (· ≠ '.') = whole := by
    rw [List.takeWhile_append_of_pos all]
    simp
  have after : (whole ++ '.' :: fraction).dropWhile (· ≠ '.') = '.' :: fraction := by
    rw [List.dropWhile_append_of_pos all]
    simp
  simp only [readDecimal, before, after, if_pos (And.intro numeral digits)]

end Reading

end LeanDecimal
