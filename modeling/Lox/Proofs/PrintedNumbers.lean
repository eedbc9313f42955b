import Mathlib.Data.List.TakeWhile
import Lox.Proofs.ExactFloats
import Lox.Proofs.Fates
import Lox.Proofs.RespacedLexemes

/-! Printed numbers are numbers of the language, but for a minus sign, and read back as
the floats that they were printed of. -/

namespace Lox
open Float.Model (UnpackedFloat)
open Float.Model.UnpackedFloat (Sign)
open Piece

namespace Decimal

private theorem ofChars_whole {chars : List Char} (digits : chars.all Char.isDigit = true) :
    ofChars chars = ⟨Nat.ofDigitChars 10 chars 0, 0⟩ := by
  have whole : chars.takeWhile Char.isDigit = chars := List.takeWhile_eq_self_iff.mpr (List.all_eq_true.mp digits)
  have rest : chars.drop (chars.length + 1) = [] := List.drop_eq_nil_of_le (Nat.le_succ _)
  rw [ofChars, whole, rest, List.append_nil]
  rfl

private theorem ofChars_pointed {whole : List Char} (digits : whole.all Char.isDigit = true) (fraction : List Char) :
    ofChars (whole ++ '.' :: fraction) = ⟨Nat.ofDigitChars 10 (whole ++ fraction) 0, fraction.length⟩ := by
  have before : (whole ++ '.' :: fraction).takeWhile Char.isDigit = whole := by
    rw [List.takeWhile_append_of_pos (List.all_eq_true.mp digits), List.takeWhile_cons]
    exact List.append_nil whole
  have rest : (whole ++ '.' :: fraction).drop (whole.length + 1) = fraction := by
    rw [List.drop_append]
    simp
  rw [ofChars, before, rest]

private theorem toDigits_all (count : Nat) : (Nat.toDigits 10 count).all Char.isDigit = true :=
  List.all_eq_true.mpr fun _ member => Nat.isDigit_of_mem_toDigits (by decide) (by decide) member

/-- The characters of a numeral, by the digits before and after its point. -/
private theorem toChars_cases (number : Decimal) :
    (number.scale = 0 ∧ number.toChars = Nat.toDigits 10 number.digits) ∨
      ∃ whole fraction : List Char, number.toChars = whole ++ '.' :: fraction ∧ whole ≠ [] ∧ fraction ≠ [] ∧
        (whole ++ fraction).all Char.isDigit = true ∧ Nat.ofDigitChars 10 (whole ++ fraction) 0 = number.digits ∧
        fraction.length = number.scale := by
  by_cases unscaled : number.scale = 0
  · exact .inl ⟨unscaled, by rw [toChars, if_pos unscaled]⟩
  · let written := Nat.toDigits 10 number.digits
    let padded := List.replicate (number.scale + 1 - written.length) '0' ++ written
    have length : number.scale + 1 ≤ padded.length := by
      rw [List.length_append, List.length_replicate]
      omega
    have digits : padded.all Char.isDigit = true := by
      rw [List.all_append, toDigits_all, List.all_replicate]
      simp
    have read : Nat.ofDigitChars 10 padded 0 = number.digits := by
      rw [Nat.ofDigitChars_append, Nat.ofDigitChars_replicate_zero, Nat.mul_zero, Nat.ofDigitChars_ten_toDigits]
    have whole : (padded.take (padded.length - number.scale)).length = padded.length - number.scale :=
      List.length_take_of_le (Nat.sub_le _ _)
    have fraction : (padded.drop (padded.length - number.scale)).length = number.scale := by
      rw [List.length_drop]
      omega
    refine .inr ⟨padded.take (padded.length - number.scale), padded.drop (padded.length - number.scale), ?_, ?_, ?_, ?_,
      ?_, fraction⟩
    · rw [toChars, if_neg unscaled]
    · exact List.ne_nil_of_length_pos (by omega)
    · exact List.ne_nil_of_length_pos (by omega)
    · rwa [List.take_append_drop]
    · rwa [List.take_append_drop]

theorem ofChars_toChars (number : Decimal) : ofChars number.toChars = number := by
  obtain ⟨unscaled, chars⟩ | ⟨whole, fraction, chars, _, _, digits, read, scale⟩ := number.toChars_cases
  · rw [chars, ofChars_whole (toDigits_all _), Nat.ofDigitChars_ten_toDigits, ← unscaled]
  · rw [List.all_append, Bool.and_eq_true] at digits
    rw [chars, ofChars_pointed digits.1, read, scale]

theorem toChars_rule (number : Decimal) : number.toChars ∈ Kind.rule .number := by
  rw [mem_number]
  obtain ⟨_, chars⟩ | ⟨whole, fraction, chars, some, more, digits, _, _⟩ := number.toChars_cases
  · have digits := toDigits_all number.digits
    obtain ⟨first, rest, same⟩ := List.exists_cons_of_ne_nil (@Nat.toDigits_ne_nil number.digits 10)
    rw [same, List.all_cons, Bool.and_eq_true] at digits
    exact ⟨first, rest, [], by rw [chars, same, List.append_nil], digits.1, digits.2, .inl rfl⟩
  · obtain ⟨first, rest, rfl⟩ := List.exists_cons_of_ne_nil some
    obtain ⟨digit, others, rfl⟩ := List.exists_cons_of_ne_nil more
    simp only [List.all_append, List.all_cons, Bool.and_eq_true] at digits
    obtain ⟨⟨leading, before⟩, after, behind⟩ := digits
    exact ⟨first, rest, '.' :: digit :: others, chars, leading, before, .inr ⟨digit, others, rfl, after, behind⟩⟩

end Decimal

def numeral (text : List Char) : Token := Scan.token .number text 1

def withSign (sign : Sign) (value : Float) : Float :=
  match sign with
  | .positive => value
  | .negative => -value

theorem Decimal.shortest_toFloat {target : Float} {mantissa : Nat} {exponent : Int}
    (reads : (exact mantissa exponent).toFloat = target) : (shortest target mantissa exponent).toFloat = target := by
  simp only [shortest]
  cases found : List.findSome? _ _ with
  | none => exact reads
  | some number =>
    obtain ⟨step, _, chosen⟩ := List.exists_of_findSome?_eq_some found
    have nearest := List.find?_some chosen
    exact of_decide_eq_true nearest

/-- A finite number is printed with its sign and the digits of its absolute value. -/
theorem numberText_digits {number : Float} {sign : Sign} (form : Signed sign number.toModel.unpack) :
    ∃ digits : Decimal, numberText number = signed sign (String.ofList digits.toChars) ∧
      withSign sign digits.toFloat = number := by
  have proper : Proper number.toModel.unpack := unpack_proper form.isFinite
  have same := floatOf_unpack number
  rw [numberText, abs_eq]
  generalize number.toModel.unpack = unpacked at form proper same
  subst same
  cases form with
  | zero =>
    refine ⟨⟨0, 0⟩, rfl, ?_⟩
    cases sign with
    | positive => rfl
    | negative =>
      have proper : Proper (.zero .positive) := trivial
      exact neg_floatOf proper
  | @finite mantissa exponent positive =>
    have magnitude : Magnitude mantissa exponent := proper
    have reads := Decimal.shortest_toFloat (magnitude.exact_toFloat positive)
    refine ⟨_, rfl, ?_⟩
    cases sign with
    | positive => exact reads
    | negative =>
      have proper : Proper (.finite .positive mantissa exponent positive) := magnitude
      exact (congrArg Neg.neg reads).trans (neg_floatOf proper)

end Lox
