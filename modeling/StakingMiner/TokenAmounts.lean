import StakingMiner.DecimalTexts
import StakingMiner.PredictionLogic

/-!
The amounts of a prediction as they are printed: what `planck_to_token` prints for an amount,
read back as a decimal number.
-/

namespace LeanStakingMiner

open LeanDecimal

def amountOf (text : String) : List Char := text.toList.takeWhile (· ≠ ' ')

/-- A point is followed by digits, of which the last is not a zero. -/
def Trimmed (amount : List Char) : Prop :=
  ∀ whole fraction, amount = whole ++ '.' :: fraction →
    fraction ≠ [] ∧ fraction.getLast? ≠ some '0'

/-- The printed amount, read back, stands for the given number of plancks. -/
def Denotes (decimals : Nat) (text : String) (planck : Nat) : Prop :=
  ∃ value : ℚ, readDecimal (amountOf text) = some value ∧ value * 10 ^ decimals = planck

section Amounts

variable {decimals : Nat} (planck : Nat)

def paddedRemainder (decimals : Nat) : List Char :=
  (Nat.toDigits 10 (planck % 10 ^ decimals)).leftpad decimals '0'

def amountText (decimals : Nat) : List Char :=
  let whole := Nat.toDigits 10 (planck / 10 ^ decimals)
  if planck % 10 ^ decimals = 0 then whole
  else whole ++ '.' :: trimZeros (paddedRemainder planck decimals)

variable {planck}

theorem paddedRemainder_length (rest : planck % 10 ^ decimals ≠ 0) :
    (paddedRemainder planck decimals).length = decimals := by
  have positive : 0 < decimals := by
    rcases Nat.eq_zero_or_pos decimals with rfl | positive
    · exact absurd (Nat.mod_one planck) rest
    · exact positive
  have bound : planck % 10 ^ decimals < 10 ^ decimals :=
    Nat.mod_lt _ (Nat.pow_pos (by decide))
  have short := (Nat.length_toDigits_le_iff (by decide) positive).mpr bound
  rw [paddedRemainder, List.length_leftpad, Nat.max_eq_left short]

theorem paddedRemainder_value :
    numeralValue (paddedRemainder planck decimals) = planck % 10 ^ decimals := by
  rw [paddedRemainder, numeralValue_leftpad, numeralValue, Nat.ofDigitChars_ten_toDigits]

theorem trimmedRemainder_isNumeral (rest : planck % 10 ^ decimals ≠ 0) :
    IsNumeral (trimZeros (paddedRemainder planck decimals)) := by
  have numeral : IsNumeral (paddedRemainder planck decimals) :=
    (isNumeral_toDigits _).leftpad decimals
  refine numeral.trimZeros ?_
  rw [paddedRemainder_value]
  exact rest

theorem planckToToken_eq (fits : 10 ^ decimals < 2 ^ 128) (planck : Nat) (symbol : String) :
    planckToToken planck decimals symbol =
      some (String.ofList (amountText planck decimals) ++ " " ++ symbol) := by
  have divisor : 10 ^ decimals % 2 ^ 128 = 10 ^ decimals := Nat.mod_eq_of_lt fits
  have positive : 10 ^ decimals ≠ 0 := (Nat.pow_pos (by decide)).ne'
  by_cases whole : planck % 10 ^ decimals = 0
  · simp only [planckToToken, divisor, if_neg positive, amountText, if_pos whole,
      Nat.toString_eq_ofList_toDigits]
    rfl
  · have nonempty : ¬(((Nat.toDigits 10 (planck % 10 ^ decimals)).leftpad decimals '0').rdropWhile
        (· = '0')).isEmpty = true := by
      rw [List.isEmpty_iff]
      exact (trimmedRemainder_isNumeral whole).1
    simp only [planckToToken, divisor, if_neg positive, if_neg whole, String.toList_ofList,
      Nat.toString_eq_ofList_toDigits, if_neg nonempty, amountText, String.ofList_append,
      String.ofList_cons]
    rw [← String.append_assoc]
    rfl

theorem amountText_no_blank : ' ' ∉ amountText planck decimals := by
  have digits := (isNumeral_toDigits (planck / 10 ^ decimals)).not_mem ' ' rfl
  rw [amountText]
  split
  · exact digits
  · next rest =>
      have fraction := (trimmedRemainder_isNumeral rest).not_mem ' ' rfl
      simp [digits, fraction]

theorem amountOf_printed (symbol : String) :
    amountOf (String.ofList (amountText planck decimals) ++ " " ++ symbol) =
      amountText planck decimals := by
  have all : ∀ character ∈ amountText planck decimals, decide (character ≠ ' ') = true := by
    intro character member
    refine decide_eq_true fun blank => ?_
    exact amountText_no_blank (blank ▸ member)
  rw [amountOf, String.toList_append, String.toList_append, String.toList_ofList,
    List.append_assoc, List.takeWhile_append_of_pos all]
  simp

theorem readDecimal_amountText (planck decimals : Nat) : ∃ value : ℚ,
    readDecimal (amountText planck decimals) = some value ∧ value * 10 ^ decimals = planck := by
  have whole := isNumeral_toDigits (planck / 10 ^ decimals)
  have division : (10 : ℚ) ^ decimals * (planck / 10 ^ decimals : ℕ) +
      (planck % 10 ^ decimals : ℕ) = planck := by
    exact_mod_cast Nat.div_add_mod planck (10 ^ decimals)
  by_cases rest : planck % 10 ^ decimals = 0
  · rw [amountText, if_pos rest]
    refine ⟨_, readDecimal_whole whole, ?_⟩
    rw [numeralValue, Nat.ofDigitChars_ten_toDigits, mul_comm, ← division, rest, Nat.cast_zero,
      add_zero]
  · have nonzero : (10 : ℚ) ^ decimals ≠ 0 := pow_ne_zero _ (by norm_num)
    rw [amountText, if_neg rest]
    refine ⟨_, readDecimal_point whole (trimmedRemainder_isNumeral rest), ?_⟩
    rw [fraction_trimZeros, paddedRemainder_length rest, paddedRemainder_value, numeralValue,
      Nat.ofDigitChars_ten_toDigits, add_mul, div_mul_cancel₀ _ nonzero, mul_comm, division]

theorem amountText_trimmed : Trimmed (amountText planck decimals) := by
  intro whole fraction split
  have digits := isNumeral_toDigits (planck / 10 ^ decimals)
  by_cases rest : planck % 10 ^ decimals = 0
  · rw [amountText, if_pos rest] at split
    refine absurd ?_ (digits.not_mem '.' rfl)
    rw [split]
    simp
  · have numeral := trimmedRemainder_isNumeral rest
    rw [amountText, if_neg rest, List.append_cons_inj_of_notMem (digits.not_mem '.' rfl)
      (numeral.not_mem '.' rfl)] at split
    obtain ⟨_, _, rfl⟩ := split
    exact ⟨numeral.1, trimZeros_last _⟩

theorem amountText_injective {other : Nat}
    (same : amountText other decimals = amountText planck decimals) : other = planck := by
  obtain ⟨value, read, exactly⟩ := readDecimal_amountText planck decimals
  obtain ⟨otherValue, otherRead, otherExactly⟩ := readDecimal_amountText other decimals
  rw [same, read] at otherRead
  cases otherRead
  exact_mod_cast otherExactly.symm.trans exactly

theorem denotes_of_printed (fits : 10 ^ decimals < 2 ^ 128) {symbol text : String}
    (printed : planckToToken planck decimals symbol = some text) :
    Denotes decimals text planck := by
  rw [planckToToken_eq fits] at printed
  cases printed
  rw [Denotes, amountOf_printed]
  exact readDecimal_amountText planck decimals

end Amounts

/-- Without overflow, the printed amount read back is exactly the amount, it is in its shortest
form, and no other amount is printed the same. -/
theorem printed_amount_exact (planck decimals : Nat) (symbol : String)
    (fits : 10 ^ decimals < 2 ^ 128) :
    ∃ text, planckToToken planck decimals symbol = some text ∧
      text = String.ofList (amountOf text) ++ " " ++ symbol ∧
      Denotes decimals text planck ∧ Trimmed (amountOf text) ∧
      ∀ other otherSymbol otherText, planckToToken other decimals otherSymbol = some otherText →
        amountOf otherText = amountOf text → other = planck := by
  have printed := planckToToken_eq fits planck symbol
  refine ⟨_, printed, ?_, denotes_of_printed fits printed, ?_, ?_⟩
  · rw [amountOf_printed]
  · rw [amountOf_printed]
    exact amountText_trimmed
  · intro other otherSymbol otherText prints same
    rw [planckToToken_eq fits other otherSymbol] at prints
    cases prints
    rw [amountOf_printed, amountOf_printed] at same
    exact amountText_injective same

theorem printed_amount_exact_cents :
    planckToToken 5 2 "DOT" = some "0.05 DOT" ∧ Denotes 2 "0.05 DOT" 5 := by
  have printed : planckToToken 5 2 "DOT" = some "0.05 DOT" := by decide
  obtain ⟨text, prints, _, denotes, _⟩ := printed_amount_exact 5 2 "DOT" (by decide)
  rw [printed] at prints
  cases prints
  exact ⟨printed, denotes⟩

end LeanStakingMiner
