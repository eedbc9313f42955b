import Mathlib
import Lox.Decimal.Shortest

/-! Floats are known by what they unpack to, and a numeral that is exactly a float is
rounded to it. The general facts about packed bits come with the library as a whole, and
with no smaller part of it. -/

namespace Lox
open Float.Model (totalExponent Format UnpackedFloat)
open Float.Model.UnpackedFloat

def packed (sign : Sign) (high : BitVec 11) (low : BitVec 52) : BitVec Format.binary64.numBits :=
  packComponents Format.binary64 sign high low

section Parts
variable {sign : Sign} {high : BitVec 11} {low : BitVec 52}

private theorem unpack_packed (sign : Sign) (high : BitVec 11) (low : BitVec 52) :
    unpack Format.binary64 (packed sign high low) =
      if high = -1#11 then if low = 0#52 then .infinity sign else .notANumber
      else if high = 0#11 then
        if absent : low = 0#52 then .zero sign
        else .finite sign low.toNat (high.toNat - 1075 + 1) (Nat.pos_of_ne_zero fun empty => absent (BitVec.eq_of_toNat_eq empty))
      else .finite sign (2 ^ 52 + low.toNat) (high.toNat - 1075) (by omega) := by
  have leading : (1#1 ++ low).toNat = 2 ^ 52 + low.toNat := by
    rw [BitVec.toNat_append, ← Nat.shiftLeft_add_eq_or_of_lt low.isLt]
    rfl
  simp only [unpack, packed, unpackSign_packComponents, Sign.ofBitVec_toBitVec, unpackExponent_packComponents,
    unpackMantissa_packComponents, leading]
  rfl

private theorem pack_subnormal (present : 0 < low.toNat) :
    pack Format.binary64 (.finite sign low.toNat (-1074) present) = packed sign 0#11 low := by
  have short : low.toNat.log2 < 52 := (Nat.log2_lt (Nat.ne_of_gt present)).mpr low.isLt
  have few : ¬ low.toNat.log2 + 1 = Format.binary64.mantissaBits := by
    show ¬ low.toNat.log2 + 1 = 53
    omega
  rw [pack, if_neg (by decide), if_neg few, BitVec.ofNat_toNat]
  rfl

private theorem pack_normal (greatest : high ≠ -1#11) :
    pack Format.binary64 (.finite sign (2 ^ 52 + low.toNat) (high.toNat - 1075) (by omega)) = packed sign high low := by
  have biased : ((high.toNat : Int) - 1075 + (Format.binary64.exponentBias : Int) +
      (Format.binary64.mantissaBitsWithoutImplicit : Int)).toNat = high.toNat := by
    show ((high.toNat : Int) - 1075 + 1023 + 52).toNat = high.toNat
    omega
  have inside : ¬ 2 ^ Format.binary64.exponentBits ≤ high.toNat + 1 := by
    have bounded := high.isLt
    have apart : high.toNat ≠ 2047 := fun same => greatest (BitVec.eq_of_toNat_eq same)
    show ¬ 2 ^ 11 ≤ high.toNat + 1
    omega
  have length : (2 ^ 52 + low.toNat).log2 + 1 = Format.binary64.mantissaBits := by
    have bounded := low.isLt
    refine congrArg (· + 1) ((Nat.log2_eq_iff (by omega)).mpr (?_ : _ ∧ _ < 2 ^ 53))
    omega
  have trail : BitVec.ofNat 52 (2 ^ 52 + low.toNat) = low := by
    apply BitVec.eq_of_toNat_eq
    rw [BitVec.toNat_ofNat, Nat.add_mod_left, Nat.mod_eq_of_lt low.isLt]
  rw [pack, biased, if_neg inside, if_pos length, trail, BitVec.ofNat_toNat]
  rfl

end Parts

/-- The magnitudes of floats. Their mantissas have 53 bits, with a leading one unless the exponent is the
least. -/
inductive Magnitude : Nat → Int → Prop where
  | subnormal (low : BitVec 52) (present : low ≠ 0#52) : Magnitude low.toNat (-1074)
  | normal (high : BitVec 11) (low : BitVec 52) (least : high ≠ 0#11) (greatest : high ≠ -1#11) :
    Magnitude (2 ^ 52 + low.toNat) (high.toNat - 1075)

namespace Magnitude
variable {mantissa : Nat} {exponent : Int}

private theorem ranges (magnitude : Magnitude mantissa exponent) :
    0 < mantissa ∧ mantissa < 2 ^ 53 ∧ -1074 ≤ exponent ∧ (2 ^ 52 ≤ mantissa ∨ exponent = -1074) := by
  cases magnitude with
  | subnormal low present =>
    have positive : low.toNat ≠ 0 := fun empty => present (BitVec.eq_of_toNat_eq empty)
    have bounded := low.isLt
    omega
  | normal high low least greatest =>
    have positive : high.toNat ≠ 0 := fun empty => least (BitVec.eq_of_toNat_eq empty)
    have bounded := low.isLt
    omega

end Magnitude

def Proper : UnpackedFloat → Prop
  | .zero _ => True
  | .finite _ mantissa exponent _ => Magnitude mantissa exponent
  | .infinity _ | .notANumber => False

theorem unpack_pack {unpacked : UnpackedFloat} (proper : Proper unpacked) :
    unpack Format.binary64 (pack Format.binary64 unpacked) = unpacked := by
  cases unpacked with
  | zero sign => exact unpack_packed sign 0#11 0#52
  | finite sign mantissa exponent positive =>
    cases proper with
    | subnormal low present =>
      rw [pack_subnormal, unpack_packed, if_neg (by decide), if_pos rfl, dif_neg present]
      rfl
    | normal high low least greatest => rw [pack_normal greatest, unpack_packed, if_neg greatest, if_neg least]
  | infinity | notANumber => exact absurd proper id

/-- Bits unpack to something proper if they are those of a finite float. -/
theorem unpack_proper {bits : BitVec Format.binary64.numBits} (finite : (unpack Format.binary64 bits).isFinite) :
    Proper (unpack Format.binary64 bits) := by
  have parts : packed _ _ _ = bits := packComponents_unpackSign_unpackExponent_unpackMantissa bits
  rw [← parts, unpack_packed] at finite ⊢
  split at finite
  next => split at finite <;> cases finite
  next greatest =>
    rw [if_neg greatest]
    split
    next least =>
      rw [least]
      split
      next => trivial
      next absent => exact .subnormal _ absent
    next least => exact .normal _ _ least greatest

inductive Signed (sign : Sign) : UnpackedFloat → Prop where
  | zero : Signed sign (.zero sign)
  | finite (positive : 0 < mantissa) : Signed sign (.finite sign mantissa exponent positive)

theorem Signed.isFinite {sign : Sign} {unpacked : UnpackedFloat} (form : Signed sign unpacked) :
    unpacked.isFinite = true := by
  cases form <;> rfl

private theorem unpack_signed (sign : Sign) {high : BitVec 11} {low : BitVec 52} (number : high = -1#11 → low = 0#52) :
    unpack Format.binary64 (packed sign high low) = .infinity sign ∨
      Signed sign (unpack Format.binary64 (packed sign high low)) := by
  rw [unpack_packed]
  by_cases greatest : high = -1#11
  · rw [if_pos greatest, if_pos (number greatest)]
    exact .inl rfl
  · rw [if_neg greatest]
    split
    · split
      · exact .inr .zero
      · exact .inr (.finite _)
    · exact .inr (.finite _)

/-- Packing may lead to infinity, but never to another sign. -/
theorem Signed.unpack_pack {sign : Sign} {unpacked : UnpackedFloat} (form : Signed sign unpacked) :
    unpack Format.binary64 (pack Format.binary64 unpacked) = .infinity sign ∨
      Signed sign (unpack Format.binary64 (pack Format.binary64 unpacked)) := by
  cases form with
  | zero => exact @unpack_signed sign 0#11 0#52 nofun
  | @finite mantissa exponent positive =>
    rw [pack]
    split
    next => exact @unpack_signed sign (-1#11) 0#52 fun _ => rfl
    next inside =>
      split
      next =>
        refine unpack_signed sign fun greatest => absurd ?_ inside
        have last := congrArg BitVec.toNat greatest
        rw [BitVec.toNat_ofNat] at last
        exact Nat.succ_le_succ (Nat.le_trans (Nat.le_of_eq last.symm) (Nat.mod_le _ _))
      next => exact @unpack_signed sign 0#11 _ nofun

def floatOf (unpacked : UnpackedFloat) : Float := Float.ofModel (Float.Model.pack unpacked)

private theorem unpack_floatOf {unpacked : UnpackedFloat} (proper : Proper unpacked) :
    (floatOf unpacked).toModel.unpack = unpacked := unpack_pack proper

theorem neg_floatOf {unpacked : UnpackedFloat} (proper : Proper unpacked) :
    -floatOf unpacked = floatOf unpacked.neg :=
  congrArg (fun form => floatOf (UnpackedFloat.neg form)) (unpack_floatOf proper)

theorem abs_eq (number : Float) : number.abs = floatOf number.toModel.unpack.abs := rfl

theorem floatOf_unpack (number : Float) : floatOf number.toModel.unpack = number := by
  have bits : Float.Model.pack number.toModel.unpack = number.toModel := by
    have same := pack_unpack_of_valid number.toModel.valid
    rw [Float.Model.mk.injEq]
    exact congrArg UInt64.ofBitVec same
  exact congrArg Float.ofModel bits

private theorem targetExponent_eq (total : Int) : Format.binary64.targetExponent total = max (total - 53) (-1074) := rfl

namespace Magnitude
variable {mantissa : Nat} {exponent : Int}

private theorem target (magnitude : Magnitude mantissa exponent) :
    Format.binary64.targetExponent (totalExponent mantissa exponent) = exponent := by
  obtain ⟨positive, bits, least, full⟩ := magnitude.ranges
  have longest : mantissa.log2 < 53 := (Nat.log2_lt (Nat.ne_of_gt positive)).mpr bits
  rw [targetExponent_eq, totalExponent]
  obtain long | small := full
  · have leading : 52 ≤ mantissa.log2 := (Nat.le_log2 (Nat.ne_of_gt positive)).mpr long
    omega
  · omega

end Magnitude

private theorem log2_mul_pow {mantissa : Nat} (positive : 0 < mantissa) (zeros : Nat) :
    (mantissa * 2 ^ zeros).log2 = mantissa.log2 + zeros := by
  induction zeros with
  | zero => rw [Nat.pow_zero, Nat.mul_one, Nat.add_zero]
  | succ zeros ih =>
    have more : mantissa * 2 ^ zeros ≠ 0 := Nat.ne_of_gt (Nat.mul_pos positive (Nat.two_pow_pos zeros))
    rw [Nat.pow_succ, ← Nat.mul_assoc, Nat.mul_comm, Nat.log2_two_mul more, ih, Nat.add_assoc]

private theorem shiftRight_exact (mantissa zeros : Nat) :
    ExtendedMantissa.ofMantissaAndAccuracy (mantissa * 2 ^ zeros) .exact >>> zeros = ⟨mantissa, false, false⟩ := by
  show zeros.repeat ExtendedMantissa.shiftRightOne ⟨_, false, false⟩ = _
  induction zeros generalizing mantissa with
  | zero => rw [Nat.pow_zero, Nat.mul_one]; rfl
  | succ zeros ih =>
    have halves : mantissa * 2 ^ (zeros + 1) = mantissa * 2 * 2 ^ zeros := by rw [Nat.pow_succ', Nat.mul_assoc]
    rw [Nat.repeat, halves, ih]
    simp [ExtendedMantissa.shiftRightOne]

section Rounding
variable {mantissa : Nat} {exponent : Int} (magnitude : Magnitude mantissa exponent)
include magnitude

/-- Zeros behind the mantissa are shifted out. -/
private theorem Magnitude.shift_exact (zeros : Nat) :
    shiftToTargetExponent Format.binary64 (mantissa * 2 ^ zeros) (exponent - zeros) .exact =
      (⟨mantissa, false, false⟩, exponent) := by
  have total : totalExponent (mantissa * 2 ^ zeros) (exponent - zeros) = totalExponent mantissa exponent := by
    rw [totalExponent, totalExponent, log2_mul_pow magnitude.ranges.1]
    omega
  have amount : (exponent - (exponent - zeros)).toNat = zeros := by omega
  rw [shiftToTargetExponent, total, magnitude.target, shiftToExponent, amount, shiftRight_exact, Int.sub_add_cancel]

theorem Magnitude.round_exact (sign : Sign) (positive : 0 < mantissa) (zeros : Nat) :
    roundWithAccuracy Format.binary64 sign (mantissa * 2 ^ zeros) (exponent - zeros) .exact =
      .finite sign mantissa exponent positive := by
  have again := magnitude.shift_exact 0
  rw [Nat.pow_zero, Nat.mul_one, Int.natCast_zero, Int.sub_zero] at again
  have rounded : (⟨mantissa, false, false⟩ : ExtendedMantissa).roundedMantissa = mantissa := rfl
  simp only [roundWithAccuracy, magnitude.shift_exact, rounded, again, dif_neg (Nat.ne_of_gt positive)]

/-- The quotient of the digits and a power of ten does not get fewer digits than the mantissa. -/
private theorem Magnitude.quotient_target {places : Nat} (fraction : exponent = -places) :
    Format.binary64.targetExponent (totalExponent (mantissa * 5 ^ places) 0 - totalExponent (10 ^ places) 0) ≤
      exponent := by
  obtain ⟨positive, bits, least, _⟩ := magnitude.ranges
  have digits : mantissa * 5 ^ places ≠ 0 := Nat.ne_of_gt (Nat.mul_pos positive (Nat.pow_pos (by decide)))
  have product : mantissa * 5 ^ places * 2 ^ places = mantissa * 10 ^ places := by
    rw [Nat.mul_assoc, ← Nat.mul_pow]
  have below : 2 ^ ((mantissa * 5 ^ places).log2 + places) ≤ mantissa * 10 ^ places := by
    rw [Nat.pow_add, ← product]
    exact Nat.mul_le_mul_right _ (Nat.log2_self_le digits)
  have above : mantissa * 10 ^ places < 2 ^ (53 + ((10 ^ places).log2 + 1)) := by
    rw [Nat.pow_add]
    exact Nat.mul_lt_mul_of_lt_of_le bits (Nat.le_of_lt Nat.lt_log2_self) (Nat.two_pow_pos _)
  have lengths := (Nat.pow_lt_pow_iff_right (by decide : 1 < 2)).mp (Nat.lt_of_le_of_lt below above)
  rw [targetExponent_eq, totalExponent, totalExponent]
  omega

/-- The digits are divided by a power of ten without a remainder. -/
private theorem Magnitude.divCore_exact {places : Nat} (fraction : exponent = -places) :
    ∃ zeros : Nat, divCore Format.binary64 (mantissa * 5 ^ places) 0 (10 ^ places) 0 =
      (mantissa * 2 ^ zeros, exponent - zeros, .exact) := by
  have reached := magnitude.quotient_target fraction
  rw [divCore]
  generalize Format.binary64.targetExponent _ = target at reached
  obtain ⟨zeros, lower⟩ := Int.eq_ofNat_of_zero_le (show 0 ≤ exponent - target by omega)
  have amount : ((0 : Int) - 0 - min (0 - 0) target).toNat = zeros + places := by omega
  have product : (mantissa * 5 ^ places) <<< (zeros + places) = mantissa * 2 ^ zeros * 10 ^ places := by
    rw [Nat.shiftLeft_eq, Nat.pow_add, show 10 = 5 * 2 from rfl, Nat.mul_pow]
    ring
  have unit : 0 < 10 ^ places := Nat.pow_pos (by decide)
  refine ⟨zeros, ?_⟩
  rw [amount, product, Nat.mul_div_cancel _ unit, Nat.mul_mod_left]
  refine congrArg _ (congrArg (·, _) ?_)
  omega

private theorem Magnitude.ofScientific_whole {zeros : Nat} (whole : exponent = zeros) (positive : 0 < mantissa) :
    ofScientific Format.binary64 (mantissa * 2 ^ zeros) 0 = .finite .positive mantissa exponent positive := by
  have digits : mantissa * 2 ^ zeros ≠ 0 := Nat.ne_of_gt (Nat.mul_pos positive (Nat.two_pow_pos zeros))
  have longer : (mantissa * 2 ^ zeros) <<< 53 * 1 = mantissa * 2 ^ (zeros + 53) := by
    rw [Nat.shiftLeft_eq, Nat.mul_one, Nat.mul_assoc, ← Nat.pow_add]
  have lower : (-53 : Int) + 0 = exponent - (zeros + 53 : Nat) := by omega
  have large : ¬ (0 : Int) < -(2 ^ 11 + (mantissa * 2 ^ zeros).log2) := by omega
  rw [ofScientific, dif_neg digits, if_neg (by decide), if_neg large, if_pos (Int.le_refl 0)]
  show roundWithAccuracy Format.binary64 .positive ((mantissa * 2 ^ zeros) <<< 53 * 1) (-53 + 0) .exact = _
  rw [longer, lower]
  exact magnitude.round_exact .positive positive _

private theorem Magnitude.ofScientific_fraction {places : Nat} (fraction : exponent = -places) (some : 0 < places)
    (positive : 0 < mantissa) :
    ofScientific Format.binary64 (mantissa * 5 ^ places) (-places) = .finite .positive mantissa exponent positive := by
  have digits : mantissa * 5 ^ places ≠ 0 := Nat.ne_of_gt (Nat.mul_pos positive (Nat.pow_pos (by decide)))
  obtain ⟨_, _, least, _⟩ := magnitude.ranges
  have large : ¬ -(places : Int) < -(2 ^ 11 + (mantissa * 5 ^ places).log2) := by omega
  have small : ¬ -(places : Int) > 2 ^ 11 := by omega
  have below : ¬ 0 ≤ -(places : Int) := by omega
  have count : (- -(places : Int)).toNat = places := by omega
  obtain ⟨zeros, quotient⟩ := magnitude.divCore_exact fraction
  rw [ofScientific, dif_neg digits, if_neg small, if_neg large, if_neg below]
  simp only [div, count, quotient]
  exact magnitude.round_exact .positive positive zeros

/-- The numeral with all digits is rounded to the float whose digits they are. -/
theorem Magnitude.exact_toFloat (positive : 0 < mantissa) :
    (Decimal.exact mantissa exponent).toFloat = floatOf (.finite .positive mantissa exponent positive) := by
  by_cases whole : 0 ≤ exponent
  · obtain ⟨zeros, natural⟩ := Int.eq_ofNat_of_zero_le whole
    have count : (-exponent).toNat = 0 := by omega
    have numeral : Decimal.exact mantissa exponent = ⟨mantissa * 2 ^ zeros, 0⟩ := by
      rw [Decimal.exact, count, natural]
      exact congrArg (Decimal.mk · 0) (Nat.mul_one _)
    rw [numeral]
    exact congrArg floatOf (magnitude.ofScientific_whole natural positive)
  · obtain ⟨places, natural⟩ := Int.eq_ofNat_of_zero_le (show 0 ≤ -exponent by omega)
    have fraction : exponent = -places := by omega
    have count : exponent.toNat = 0 := by omega
    have numeral : Decimal.exact mantissa exponent = ⟨mantissa * 5 ^ places, places⟩ := by
      rw [Decimal.exact, count, natural]
      exact congrArg (fun digits => Decimal.mk (digits * 5 ^ places) places) (Nat.mul_one mantissa)
    rw [numeral]
    exact congrArg floatOf (magnitude.ofScientific_fraction fraction (by omega) positive)

end Rounding

private theorem roundWithAccuracy_signed (spec : Format) (sign : Sign) (mantissa : Nat) (exponent : Int) (accuracy : Accuracy) :
    Signed sign (roundWithAccuracy spec sign mantissa exponent accuracy) := by
  simp only [roundWithAccuracy]
  split
  · exact .zero
  · exact .finite _

/-- A numeral has no minus sign, so no float with one is read from it. -/
theorem Decimal.toFloat_signed (number : Decimal) :
    number.toFloat.isInf = true ∨ Signed .positive number.toFloat.toModel.unpack := by
  have signed : ofScientific Format.binary64 number.digits (-number.scale) = .infinity .positive ∨
      Signed .positive (ofScientific Format.binary64 number.digits (-number.scale)) := by
    rw [ofScientific]
    split
    · exact .inr .zero
    · split
      · exact .inl rfl
      · split
        · exact .inr .zero
        · split
          · exact .inr (roundWithAccuracy_signed ..)
          · exact .inr (roundWithAccuracy_signed ..)
  have unpacked : number.toFloat.toModel.unpack = .infinity .positive ∨
      Signed .positive number.toFloat.toModel.unpack := by
    obtain infinite | finite := signed
    · refine .inl ?_
      show unpack Format.binary64 (pack Format.binary64 (ofScientific _ _ _)) = _
      rw [infinite]
      exact unpack_packed .positive (-1#11) 0#52
    · exact finite.unpack_pack
  refine unpacked.imp_left fun infinite => ?_
  show (number.toFloat.toModel.unpack).isInf = true
  rw [infinite]
  rfl

end Lox
