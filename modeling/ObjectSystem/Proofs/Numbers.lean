import Mathlib
import ObjectSystem.Property.Resolve

/-!
# Numbers that doubles are

A finite double is exactly one number (`Decimal.rational?`). The whole numbers among the doubles
are those whose exact number is an integer (`Decimal.wholeNumber?_eq_some`), and every integer of 32
bits is a double exactly (`Decimal.rational?_toFloat`, `Decimal.rational?_ofInt32`): it fits into the
mantissa, so it is shifted to full length and nothing is rounded. A number of a property can
therefore be taken as a double, and from there to the type of the property, without loss
(`Value.rational?_of_toDouble?`, `Property.uintOfDouble?_eq_some`, `Property.intOfDouble?_eq_some`).
-/

namespace ObjectSystem

open Float.Model Float.Model.UnpackedFloat

namespace Decimal

/-! ## Exact values -/

/-- The number that bits stand for; infinities, and what is not a number, stand for none. -/
def Binary.value? : Binary → Option ℚ
  | .finite negative mantissa exponent =>
    some ((if negative then -1 else 1) * (mantissa * 2 ^ exponent))
  | _ => none

/-- The number that a double is exactly. -/
def rational? (x : Float) : Option ℚ :=
  (decode x).value?

/-- A natural number times a power of two is the natural number that the exponent leaves of it. -/
theorem magnitude_eq_some {mantissa n : Nat} {exponent : ℤ} :
    (if exponent ≥ 0 then some (mantissa * Nat.pow 2 exponent.toNat)
      else if mantissa % Nat.pow 2 (-exponent).toNat = 0 then
        some (mantissa / Nat.pow 2 (-exponent).toNat)
      else none) = some n ↔ (mantissa * 2 ^ exponent : ℚ) = n := by
  split
  · next hexp =>
    obtain ⟨k, rfl⟩ := Int.eq_ofNat_of_zero_le hexp
    rw [Option.some_inj, Int.toNat_natCast, zpow_natCast]
    exact_mod_cast Iff.rfl
  · next hexp =>
    obtain ⟨k, hk⟩ := Int.eq_ofNat_of_zero_le (a := -exponent) (by omega)
    obtain rfl : exponent = -(k : ℤ) := by omega
    have hpow : (2 ^ k : ℚ) ≠ 0 := by positivity
    have hunit : 0 < Nat.pow 2 k := Nat.two_pow_pos k
    have hdivides : (mantissa * 2 ^ (-(k : ℤ)) : ℚ) = n ↔ mantissa = n * Nat.pow 2 k := by
      rw [zpow_neg, zpow_natCast, ← div_eq_mul_inv, div_eq_iff hpow]
      exact_mod_cast Iff.rfl
    rw [hdivides, neg_neg, Int.toNat_natCast]
    split
    · next hzero =>
      rw [Option.some_inj, Nat.div_eq_iff_eq_mul_left hunit (Nat.dvd_of_mod_eq_zero hzero)]
    · next hrest =>
      refine iff_of_false nofun fun hwhole => hrest ?_
      rw [hwhole, Nat.mul_mod_left]

/-- **A double is a whole number exactly if its exact value is one.** -/
theorem wholeNumber?_eq_some {x : Float} {n : ℤ} :
    wholeNumber? x = some n ↔ rational? x = some (n : ℚ) := by
  unfold wholeNumber? rational?
  cases decode x with
  | infinite negative => simp [Binary.value?]
  | notANumber => simp [Binary.value?]
  | finite negative mantissa exponent =>
    dsimp only [Binary.value?]
    rw [Option.map_eq_some_iff, Option.some_inj]
    have hnonneg : (0 : ℚ) ≤ mantissa * 2 ^ exponent := by positivity
    constructor
    · rintro ⟨k, hk, rfl⟩
      rw [magnitude_eq_some.mp hk]
      cases negative <;> simp
    · intro hvalue
      -- what is left of the sign is the magnitude
      have hmagnitude : (mantissa * 2 ^ exponent : ℚ) = n.natAbs := by
        have habs : (n.natAbs : ℚ) = |(n : ℚ)| := (Nat.cast_natAbs n).trans Int.cast_abs
        rw [habs, ← hvalue, abs_mul, abs_of_nonneg hnonneg]
        cases negative <;> simp
      refine ⟨n.natAbs, magnitude_eq_some.mpr hmagnitude, ?_⟩
      rw [← Int.cast_inj (α := ℚ), ← hvalue, hmagnitude]
      cases negative
      · exact (one_mul _).symm
      · exact (Int.cast_neg _).trans (neg_one_mul _).symm

/-! ## Doubles of integers -/

/-- The bits of a double are its sign, its exponent and its fraction, one behind the other. -/
theorem toNat_packComponents (sign : Sign) (exponent : BitVec 11) (fraction : BitVec 52) :
    (packComponents Format.binary64 sign exponent fraction).toNat =
      sign.toBitVec.toNat * 2 ^ 63 + exponent.toNat * 2 ^ 52 + fraction.toNat := by
  unfold packComponents
  rw [BitVec.toNat_append, BitVec.toNat_append, ← Nat.shiftLeft_add_eq_or_of_lt exponent.isLt,
    ← Nat.shiftLeft_add_eq_or_of_lt fraction.isLt]
  simp only [Nat.shiftLeft_eq]
  ring

/-- The three parts of the bits of a normal double are read off where they stand. -/
theorem decode_of_toBits {x : Float} {negative : Bool} {biased fraction : Nat}
    (hbits : x.toBits.toNat = negative.toNat * 2 ^ 63 + biased * 2 ^ 52 + fraction)
    (hlow : 0 < biased) (hhigh : biased < 2047) (hfraction : fraction < 2 ^ 52) :
    decode x = .finite negative (fraction + 2 ^ 52) (biased - 1075) := by
  have hsign : negative.toNat ≤ 1 := Bool.toNat_le negative
  have hfirst : x.toBits.toNat / 2 ^ 63 = negative.toNat := by omega
  have hmiddle : x.toBits.toNat / 2 ^ 52 % 2 ^ 11 = biased := by omega
  have hlast : x.toBits.toNat % 2 ^ 52 = fraction := by omega
  unfold decode
  simp only [Nat.pow_eq]
  rw [hfirst, hmiddle, hlast, if_neg (by omega), if_neg (by omega)]
  cases negative <;> rfl

/-- A mantissa of full length is packed without its leading bit. -/
theorem pack_normal {sign : Sign} {mantissa biased : Nat} {exponent : ℤ} (hpos : 0 < mantissa)
    (hlog : mantissa.log2 = 52) (hbiased : exponent + 1075 = biased) (hhigh : biased < 2047) :
    UnpackedFloat.pack Format.binary64 (.finite sign mantissa exponent hpos) =
      packComponents Format.binary64 sign (BitVec.ofNat 11 biased) (BitVec.ofNat 52 mantissa) := by
  have hexponent : (exponent + (Format.binary64.exponentBias : ℤ)
      + (Format.binary64.mantissaBitsWithoutImplicit : ℤ)).toNat = biased := by
    have hbias : (Format.binary64.exponentBias : ℤ) = 1023 := rfl
    have hwidth : (Format.binary64.mantissaBitsWithoutImplicit : ℤ) = 52 := rfl
    omega
  unfold UnpackedFloat.pack
  dsimp only
  rw [hexponent, hlog, if_neg (by omega)]
  exact if_pos rfl

/-- A normal double has the mantissa and the exponent that it was packed from. -/
theorem decode_pack {sign : Sign} {mantissa biased : Nat} {exponent : ℤ} (hpos : 0 < mantissa)
    (hlog : mantissa.log2 = 52) (hbiased : exponent + 1075 = biased) (hlow : 0 < biased)
    (hhigh : biased < 2047) :
    decode (.ofModel (.pack (.finite sign mantissa exponent hpos))) =
      .finite (sign == .negative) mantissa exponent := by
  obtain ⟨hmin, hmax⟩ := (Nat.log2_eq_iff hpos.ne').mp hlog
  have hsign : sign.toBitVec.toNat = (sign == .negative).toNat := by cases sign <;> rfl
  have hexponent : (BitVec.ofNat 11 biased).toNat = biased := by
    rw [BitVec.toNat_ofNat, Nat.mod_eq_of_lt (by omega)]
  have hfraction : (BitVec.ofNat 52 mantissa).toNat = mantissa - 2 ^ 52 := by
    rw [BitVec.toNat_ofNat]
    omega
  have hbits : (Float.ofModel (.pack (.finite sign mantissa exponent hpos))).toBits.toNat =
      (sign == .negative).toNat * 2 ^ 63 + biased * 2 ^ 52 + (mantissa - 2 ^ 52) := by
    show (UnpackedFloat.pack Format.binary64 (.finite sign mantissa exponent hpos)).toNat = _
    rw [pack_normal hpos hlog hbiased hhigh, toNat_packComponents, hsign, hexponent, hfraction]
  rw [decode_of_toBits hbits hlow hhigh (by omega), Nat.sub_add_cancel hmin]
  congr 1
  omega

/-- A number whose leading bit has a certain place has one exponent, if that is not too small. -/
theorem targetExponent_eq {mantissa : Nat} {exponent : ℤ}
    (hlow : -1022 ≤ mantissa.log2 + exponent) :
    Format.binary64.targetExponent (totalExponent mantissa exponent) =
      mantissa.log2 + exponent - 52 := by
  have hmin : Format.binary64.minExponent = -1074 := rfl
  have hbits : (Format.binary64.mantissaBits : ℤ) = 53 := rfl
  unfold Format.targetExponent totalExponent
  omega

/-- A mantissa of full length is not shifted. -/
theorem shiftToTargetExponent_eq {mantissa : Nat} {exponent : ℤ} (hlog : mantissa.log2 = 52)
    (hlow : -1074 ≤ exponent) :
    shiftToTargetExponent Format.binary64 mantissa exponent .exact =
      (⟨mantissa, false, false⟩, exponent) := by
  unfold shiftToTargetExponent shiftToExponent
  dsimp only
  rw [targetExponent_eq (by omega), hlog,
    show ((52 : Nat) : ℤ) + exponent - 52 - exponent = 0 by omega]
  exact Prod.ext rfl (Int.add_zero _)

/-- Nor is it rounded. -/
theorem roundWithAccuracy_eq (sign : Sign) {mantissa : Nat} {exponent : ℤ} (hpos : 0 < mantissa)
    (hlog : mantissa.log2 = 52) (hlow : -1074 ≤ exponent) :
    roundWithAccuracy Format.binary64 sign mantissa exponent .exact =
      .finite sign mantissa exponent hpos := by
  have hrounded : ExtendedMantissa.roundedMantissa ⟨mantissa, false, false⟩ = mantissa := rfl
  simp only [roundWithAccuracy, shiftToTargetExponent_eq hlog hlow, hrounded]
  exact dif_neg hpos.ne'

theorem log2_shiftLeft_to {n bits : Nat} (hpos : 0 < n) (hfits : n.log2 ≤ bits) :
    (n <<< (bits - n.log2)).log2 = bits := by
  obtain ⟨hmin, hmax⟩ := (Nat.log2_eq_iff hpos.ne').mp rfl
  have hlength : 2 ^ n.log2 * 2 ^ (bits - n.log2) = 2 ^ bits := by
    rw [← pow_add, Nat.add_sub_cancel' hfits]
  rw [Nat.shiftLeft_eq, Nat.log2_eq_iff (by positivity), pow_succ, ← hlength]
  constructor
  · exact Nat.mul_le_mul_right _ hmin
  · calc
      n * 2 ^ (bits - n.log2) < 2 ^ (n.log2 + 1) * 2 ^ (bits - n.log2) :=
        Nat.mul_lt_mul_of_pos_right hmax (by positivity)
      _ = _ := by ring

/-- A natural number that fits into a mantissa is shifted to full length and not rounded. -/
theorem round_eq (sign : Sign) {n : Nat} (hpos : 0 < n) (hfits : n.log2 ≤ 52) :
    round Format.binary64 sign n 0 =
      .finite sign (n <<< (52 - n.log2)) (n.log2 - 52) (by rw [Nat.shiftLeft_eq]; positivity) := by
  have hshift : (0 - ((n.log2 : ℤ) + 0 - 52)).toNat = 52 - n.log2 := by omega
  have hexponent : (0 : ℤ) - ((52 - n.log2 : Nat) : ℤ) = n.log2 - 52 := by omega
  unfold UnpackedFloat.round decreaseExponent
  dsimp only
  rw [targetExponent_eq (by omega), hshift, hexponent]
  exact roundWithAccuracy_eq sign _ (log2_shiftLeft_to hpos hfits) (by omega)

theorem log2_le_of_lt {n : Nat} (hfits : n < 2 ^ 53) : n.log2 ≤ 52 := by
  rcases Nat.eq_zero_or_pos n with rfl | hpos
  · decide
  · exact Nat.le_of_lt_succ ((Nat.log2_lt hpos.ne').mpr hfits)

/-- A number that is shifted to full length is what it was. -/
theorem rational?_round (sign : Sign) {n : Nat} (hpos : 0 < n) (hfits : n < 2 ^ 53) :
    rational? (.ofModel (.pack (round Format.binary64 sign n 0))) =
      some ((if sign == .negative then -1 else 1) * (n : ℚ)) := by
  have hlog := log2_le_of_lt hfits
  obtain ⟨biased, hbiased⟩ := Int.eq_ofNat_of_zero_le (a := (n.log2 : ℤ) - 52 + 1075) (by omega)
  have hvalue : ((n <<< (52 - n.log2) : Nat) : ℚ) * 2 ^ ((n.log2 : ℤ) - 52) = n := by
    rw [Nat.shiftLeft_eq, show (n.log2 : ℤ) - 52 = -((52 - n.log2 : Nat) : ℤ) by omega, zpow_neg,
      zpow_natCast]
    push_cast
    field_simp
  rw [round_eq sign hpos hlog, rational?, decode_pack _ (log2_shiftLeft_to hpos hlog) hbiased
    (by omega) (by omega), Binary.value?, hvalue]

/-- **An integer that fits into a mantissa is a double exactly.** -/
theorem rational?_ofInt {n : ℤ} (hfits : n.natAbs < 2 ^ 53) :
    rational? (.ofModel (.ofInt n)) = some (n : ℚ) := by
  unfold Float.Model.ofInt UnpackedFloat.ofInt UnpackedFloat.normalize
  rcases lt_trichotomy n 0 with hneg | rfl | hpos
  · rw [show compare n 0 = .lt from compare_lt_iff_lt.mpr hneg]
    dsimp only
    rw [rational?_round _ (by omega) (by omega)]
    refine congrArg some ((neg_one_mul _).trans ?_)
    rw [← Int.cast_natCast, Int.toNat_of_nonneg (by omega), Int.cast_neg, neg_neg]
  · have hzero : decode (.ofModel (.pack (.zero .positive))) = .finite false 0 (-1074) := by
      decide +kernel
    show (decode (.ofModel (.pack (.zero .positive)))).value? = _
    rw [hzero, Binary.value?, Nat.cast_zero, zero_mul, mul_zero, Int.cast_zero]
  · rw [show compare n 0 = .gt from compare_gt_iff_gt.mpr hpos]
    dsimp only
    rw [rational?_round _ (by omega) (by omega)]
    refine congrArg some ((one_mul _).trans ?_)
    rw [← Int.cast_natCast, Int.toNat_of_nonneg (by omega)]

theorem rational?_toFloat (n : UInt32) : rational? n.toFloat = some (n.toNat : ℚ) := by
  have hbound := n.toNat_lt
  exact rational?_ofInt (n := n.toNat) (by omega)

theorem rational?_ofInt32 (n : Int32) : rational? (ofInt32 n) = some (n.toInt : ℚ) := by
  have hlow := n.le_toInt
  have hhigh := n.toInt_lt
  exact rational?_ofInt (by omega)

end Decimal

namespace Value

/-- The number that a value is, if it is one. -/
def number? : Value → Option ℚ
  | .uint n => some n.toNat
  | .int n => some n.toInt
  | .double x => Decimal.rational? x
  | _ => none

/-- **Numbers are taken as doubles without loss.** -/
theorem rational?_of_toDouble? {v : Value} {x : Float} (h : v.toDouble? = some x) :
    Decimal.rational? x = v.number? := by
  cases v with
  | uint n =>
    cases h
    exact Decimal.rational?_toFloat n
  | int n =>
    cases h
    exact Decimal.rational?_ofInt32 n
  | double y =>
    cases h
    rfl
  | _ => cases h

/-- A value is a number if it is one as a double. -/
theorem number?_eq_some {v : Value} {q : ℚ} :
    v.number? = some q ↔ ∃ x, v.toDouble? = some x ∧ Decimal.rational? x = some q := by
  constructor
  · intro h
    obtain ⟨x, hx⟩ : ∃ x, v.toDouble? = some x := by
      cases v with
      | uint n => exact ⟨_, rfl⟩
      | int n => exact ⟨_, rfl⟩
      | double x => exact ⟨_, rfl⟩
      | _ => cases h
    exact ⟨x, hx, (rational?_of_toDouble? hx).trans h⟩
  · rintro ⟨x, hx, hq⟩
    exact (rational?_of_toDouble? hx).symm.trans hq

end Value

namespace Property

/-! ## Numbers of a type -/

/-- An unsigned number is taken from the double that it equals. -/
theorem uintOfDouble?_eq_some {x : Float} {n : UInt32} :
    uintOfDouble? x = some n ↔ Decimal.rational? x = some (n.toNat : ℚ) := by
  rw [← Int.cast_natCast, ← Decimal.wholeNumber?_eq_some]
  unfold uintOfDouble?
  split
  · next k hk =>
    rw [hk, Option.some_inj]
    constructor
    · intro h
      split at h
      · next hrange =>
        obtain ⟨j, rfl⟩ := Int.eq_ofNat_of_zero_le hrange.1
        cases h
        rw [Int.toNat_natCast, UInt32.toNat_ofNat_of_lt' (by omega)]
      · cases h
    · rintro rfl
      have hbound := n.toNat_lt
      rw [if_pos ⟨by omega, by simpa [UInt32.size] using hbound⟩, Int.toNat_natCast,
        UInt32.ofNat_toNat]
  · next hnone => simp [hnone]

/-- Negative zero is the number 0, and 2 to the 32nd is too large. -/
example : uintOfDouble? (-0.0) = some 0 ∧ uintOfDouble? 4294967296 = none := by
  decide +kernel

/-- A signed number is taken from the double that it equals. -/
theorem intOfDouble?_eq_some {x : Float} {n : Int32} :
    intOfDouble? x = some n ↔ Decimal.rational? x = some (n.toInt : ℚ) := by
  have hmin : Int32.minValue.toInt = -2 ^ 31 := rfl
  have hmax : Int32.maxValue.toInt = 2 ^ 31 - 1 := rfl
  rw [← Decimal.wholeNumber?_eq_some]
  unfold intOfDouble?
  rw [hmin, hmax]
  split
  · next k hk =>
    rw [hk, Option.some_inj]
    constructor
    · intro h
      split at h
      · next hrange =>
        cases h
        rw [Int32.toInt_ofInt_of_le hrange.1 (by omega)]
      · cases h
    · rintro rfl
      rw [if_pos ⟨n.le_toInt, by have := n.toInt_lt; omega⟩, Int32.ofInt_toInt]
  · next hnone => simp [hnone]

theorem doubleOfDouble?_eq_some {x y : Float} :
    doubleOfDouble? x = some y ↔ x = y ∧ x.isNaN = false := by
  unfold doubleOfDouble?
  split <;> simp_all

/-! ## What is filled in -/

theorem uintOfDouble?_zero : uintOfDouble? 0 = some 0 := by
  decide +kernel

theorem uintOfDouble?_largest : uintOfDouble? 4294967295 = some 4294967295 := by
  rfl

theorem intOfDouble?_zero : intOfDouble? 0 = some 0 := by
  decide +kernel

theorem intOfDouble?_largest : intOfDouble? 2147483647 = some Int32.maxValue := by
  rfl

theorem doubleOfDouble?_zero : doubleOfDouble? 0 = some 0 := by
  rfl

theorem doubleOfDouble?_largest : doubleOfDouble? largestDouble = some largestDouble := by
  rfl

end Property
end ObjectSystem
