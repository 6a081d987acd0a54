import Mathlib
import Toolpath.Proofs.Number.Nearest

/-!
# Rounding in machine arithmetic

The platform keeps a quotient as a significand with two more bits while it moves it to its last
place, rounds it there and packs it. `Represents` says what the two bits mean; moving to the right
keeps it, so that what is packed are the bits of the nearest value: `toNat_pack_round`.
-/

namespace Toolpath.Binary

open Float.Model (totalExponent)
open Float.Model.UnpackedFloat

/-! ## Significands with two more bits -/

/-- The significand and its two further bits say where `a / b` lies between two integers: whether it
has come to the middle, and whether it is on neither the integer nor the middle. -/
def Represents (em : ExtendedMantissa) (a b : ℕ) : Prop :=
  em = ⟨a / b, decide (b ≤ 2 * (a % b)), decide (2 * (a % b) % b ≠ 0)⟩

theorem twice_mod {r b : ℕ} (h : r < b) :
    2 * r % b = if b ≤ 2 * r then 2 * r - b else 2 * r := by
  split
  · rw [Nat.mod_eq_sub_mod ‹_›, Nat.mod_eq_of_lt (by omega)]
  · exact Nat.mod_eq_of_lt (by omega)

theorem represents_exact (m : ℕ) : Represents (.ofMantissaAndAccuracy m .exact) m 1 := by
  simp [Represents, ExtendedMantissa.ofMantissaAndAccuracy, Nat.mod_one]

theorem represents_fraction (a : ℕ) {b : ℕ} (hb : 0 < b) :
    Represents (.ofMantissaAndAccuracy (a / b) (accuracyOfFraction (a % b) b)) a b := by
  have hr := Nat.mod_lt a hb
  rw [Represents, twice_mod hr, accuracyOfFraction]
  generalize a % b = r at hr
  split
  case isTrue hzero => simp [ExtendedMantissa.ofMantissaAndAccuracy, hzero, hb.ne']
  case isFalse hne =>
    rcases lt_trichotomy (2 * r) b with h | h | h
    · rw [Nat.compare_eq_lt.2 h, if_neg (by omega)]
      simp [ExtendedMantissa.ofMantissaAndAccuracy, h, hne]
    · rw [Nat.compare_eq_eq.2 h, if_pos (by omega)]
      simp [ExtendedMantissa.ofMantissaAndAccuracy, h]
    · rw [Nat.compare_eq_gt.2 h, if_pos (by omega)]
      simp [ExtendedMantissa.ofMantissaAndAccuracy]
      omega

namespace Represents

variable {em : ExtendedMantissa} {a b : ℕ} (hb : 0 < b) (h : Represents em a b)
include hb h

/-- The bit that is moved out becomes the bit of the middle. -/
theorem shiftRightOne : Represents em.shiftRightOne a (b * 2) := by
  have hr := Nat.mod_lt a hb
  have hr' := Nat.mod_lt a (Nat.mul_pos hb two_pos)
  have hmod : a % (b * 2) = a % b + b * (a / b % 2) := Nat.mod_mul
  rw [Represents] at h ⊢
  rw [h, ExtendedMantissa.shiftRightOne, twice_mod hr', Nat.div_div_eq_div_mul, hmod, twice_mod hr]
  rcases Nat.mod_two_eq_zero_or_one (a / b) with hbit | hbit <;> rw [hbit] <;> congr 1 <;> simp <;>
  grind

theorem shiftRight (k : ℕ) : Represents (em >>> k) a (b * 2 ^ k) := by
  change Represents (k.repeat ExtendedMantissa.shiftRightOne em) a (b * 2 ^ k)
  induction k with
  | zero => simpa [Nat.repeat] using h
  | succ k ih =>
    rw [pow_succ, ← mul_assoc]
    exact ih.shiftRightOne (by positivity)

theorem roundedMantissa : em.roundedMantissa = roundHalfEven a b := by
  have hr := Nat.mod_lt a hb
  rw [Represents, twice_mod hr] at h
  rw [h, ExtendedMantissa.roundedMantissa, roundHalfEven]
  generalize a % b = r at hr
  rcases lt_trichotomy (2 * r) b with hlt | heq | hgt
  · rcases Nat.eq_zero_or_pos r with rfl | hpos
    · simp [ExtendedMantissa.accuracy, hb.ne', hb, Accuracy.roundToNearestEven]
    · simp [ExtendedMantissa.accuracy, Nat.not_le.2 hlt, hpos.ne', hlt,
        Accuracy.roundToNearestEven]
  · simp [ExtendedMantissa.accuracy, heq, Accuracy.roundToNearestEven]
  · have hne : 2 * r - b ≠ 0 := by omega
    simp [ExtendedMantissa.accuracy, hgt.le, hne, hgt, Nat.not_lt.2 hgt.le,
      Accuracy.roundToNearestEven]

end Represents

/-! ## The last place -/

/-- The platform finds the last place of a quotient from its integral part, if that has bits
enough. -/
theorem targetExponent_eq_place {a b : ℕ} {e : ℤ} (ha : 0 < a) (hb : 0 < b)
    (he : e ≤ binary64.place (a / b * 2 ^ e)) :
    Float.Model.Format.binary64.targetExponent (totalExponent (a / b) e) =
      binary64.place (a / b * 2 ^ e) := by
  have hpos : (0 : ℚ) < a / b := by positivity
  simp only [Format.place, binary64, log_mul_zpow hpos, Float.Model.Format.targetExponent,
    totalExponent, Float.Model.Format.mantissaBits, Float.Model.Format.minExponent] at he ⊢
  rcases Nat.eq_zero_or_pos (a / b) with hzero | hone
  · have hlt : Int.log 2 ((a : ℚ) / b) < 0 := by
      rw [← Int.lt_zpow_iff_log_lt one_lt_two hpos, zpow_zero, div_lt_one (by positivity)]
      exact_mod_cast (Nat.div_eq_zero_iff_lt hb).1 hzero
    rw [hzero, Nat.log2_zero]
    push_cast at he ⊢
    omega
  · have hle : (1 : ℚ) ≤ a / b := by
      rw [one_le_div (by positivity)]
      exact_mod_cast (Nat.div_pos_iff.1 hone).2
    rw [Int.log_of_one_le_right 2 hle, Rat.natFloor_natCast_div_natCast, ← Nat.log2_eq_log_two]
    push_cast
    omega

/-- A significand that has no bit too many stays where it is. -/
theorem shiftToTargetExponent_of_lt {m : ℕ} {q : ℤ} (hm : m < 2 ^ 53) (hq : -1074 ≤ q) :
    shiftToTargetExponent .binary64 m q .exact = (⟨m, false, false⟩, q) := by
  have hlog : m.log2 ≤ 52 := by
    rcases Nat.eq_zero_or_pos m with rfl | hpos
    · simp
    · exact Nat.le_of_lt_succ ((Nat.log2_lt hpos.ne').2 hm)
  have hshift :
      (Float.Model.Format.binary64.targetExponent (totalExponent m q) - q).toNat = 0 := by
    simp only [Float.Model.Format.targetExponent, totalExponent, Float.Model.Format.mantissaBits,
      Float.Model.Format.minExponent]
    omega
  simp only [shiftToTargetExponent, shiftToExponent, hshift]
  change (_, q + 0) = _
  rw [add_zero]
  rfl

/-- One bit too many goes into the exponent. -/
theorem shiftToTargetExponent_pow {q : ℤ} (hq : -1074 ≤ q) :
    shiftToTargetExponent .binary64 (2 ^ 53) q .exact = (⟨2 ^ 52, false, false⟩, q + 1) := by
  have hshift :
      (Float.Model.Format.binary64.targetExponent (totalExponent (2 ^ 53) q) - q).toNat = 1 := by
    simp only [Float.Model.Format.targetExponent, totalExponent, Nat.log2_two_pow,
      Float.Model.Format.mantissaBits, Float.Model.Format.minExponent]
    omega
  simp only [shiftToTargetExponent, shiftToExponent, hshift]
  rfl

/-! ## Packing -/

theorem toNat_packComponents (e : BitVec 11) (s : BitVec 52) :
    (packComponents .binary64 .positive e s).toNat = e.toNat * 2 ^ 52 + s.toNat := by
  change (0#1 ++ e ++ s : BitVec 64).toNat = _
  rw [BitVec.toNat_append, BitVec.toNat_append, ← Nat.shiftLeft_add_eq_or_of_lt s.isLt]
  simp [Nat.shiftLeft_eq]

/-- The leading bit of a significand that has all its bits is added to the exponent. -/
theorem toNat_pack_finite {m : ℕ} {q : ℤ} (hm : 0 < m) (hlt : m < 2 ^ 53) (hq : -1074 ≤ q)
    (hfew : m < 2 ^ 52 → q = -1074) :
    (pack .binary64 (.finite .positive m q hm)).toNat =
      min ((q + 1074).toNat * 2 ^ 52 + m) binary64.top := by
  have hlog : m.log2 + 1 = 1 + 52 ↔ 2 ^ 52 ≤ m := by
    have := Nat.log2_eq_iff (k := 52) hm.ne'
    omega
  have hbias : (q + ↑(2 ^ (11 - 1) - 1 : ℕ) + ↑(52 : ℕ)).toNat = (q + 1074).toNat + 1 := by
    push_cast
    omega
  have htop : binary64.top = 2047 * 2 ^ 52 := rfl
  simp only [pack, Float.Model.Format.exponentBias, Float.Model.Format.mantissaBits, hlog, hbias,
    htop]
  split
  case isTrue hhigh =>
    rw [packedInfinity, toNat_packComponents]
    change 2047 * 2 ^ 52 + 0 = _
    omega
  case isFalse hhigh =>
    split
    all_goals
      rw [toNat_packComponents, BitVec.toNat_ofNat, BitVec.toNat_ofNat]
      omega

/-- A significand that rounding has given one bit too many is packed all the same. -/
theorem toNat_pack_roundWithAccuracy {m : ℕ} {e q : ℤ} {accuracy : Accuracy}
    {em : ExtendedMantissa} (hplace : shiftToTargetExponent .binary64 m e accuracy = (em, q))
    (hq : -1074 ≤ q) (hle : em.roundedMantissa ≤ 2 ^ 53)
    (hfew : em.roundedMantissa < 2 ^ 52 → q = -1074) :
    (pack .binary64 (roundWithAccuracy .binary64 .positive m e accuracy)).toNat =
      min ((q + 1074).toNat * 2 ^ 52 + em.roundedMantissa) binary64.top := by
  rw [roundWithAccuracy, hplace]
  dsimp only
  rcases Nat.lt_or_eq_of_le hle with hlt | heq
  · rw [shiftToTargetExponent_of_lt hlt hq]
    dsimp only
    split
    case isTrue hzero =>
      rw [hzero, hfew (by omega)]
      rfl
    case isFalse hm =>
      exact toNat_pack_finite _ hlt hq hfew
  · rw [heq, shiftToTargetExponent_pow hq]
    dsimp only
    rw [dif_neg (by decide), toNat_pack_finite _ (by decide) (by omega) (by omega)]
    exact congrArg (min · binary64.top) (by omega)

/-- What the platform packs are the bits of the nearest value. -/
theorem toNat_pack_round {a b num den : ℕ} {e : ℤ} {accuracy : Accuracy} (ha : 0 < a) (hb : 0 < b)
    (h : Represents (.ofMantissaAndAccuracy (a / b) accuracy) a b)
    (he : e ≤ binary64.place (a / b * 2 ^ e)) (hden : 0 < den)
    (hvalue : (num : ℚ) / den = a / b * 2 ^ e) :
    (pack .binary64 (roundWithAccuracy .binary64 .positive (a / b) e accuracy)).toNat =
      binary64.nearest num den := by
  have hpos : (0 : ℚ) < a / b * 2 ^ e := by positivity
  have hnum : 0 < num := num_pos_of_div_pos (hvalue ▸ hpos)
  have htarget := targetExponent_eq_place ha hb he
  have hbottom : -1074 ≤ binary64.place (a / b * 2 ^ e) := le_max_right _ _
  have hfew : binary64.place (a / b * 2 ^ e) ≠ -1074 →
      -(binary64.bottom : ℤ) ≤ Int.log 2 ((a : ℚ) / b * 2 ^ e) - binary64.fraction := by
    rw [Format.place, bottom_binary64]
    omega
  obtain ⟨k, hk⟩ := Int.eq_ofNat_of_zero_le (sub_nonneg.2 he)
  generalize hq : binary64.place (a / b * 2 ^ e) = q at *
  -- At its last place the quotient is divided by a power of two, and rounded.
  have hpow : 0 < b * 2 ^ k := by positivity
  have hquotient : (a : ℚ) / b * 2 ^ e = a / (b * 2 ^ k : ℕ) * 2 ^ q := by
    rw [show q = e + k by omega, zpow_add₀ two_ne_zero, zpow_natCast]
    push_cast
    field_simp
  rw [hquotient] at hq hfew
  have hround := (h.shiftRight hb k).roundedMantissa hpow
  have hplace : shiftToTargetExponent .binary64 (a / b) e accuracy =
      (ExtendedMantissa.ofMantissaAndAccuracy (a / b) accuracy >>> k, q) := by
    simp only [shiftToTargetExponent, shiftToExponent, htarget, hk]
    congr 1
    omega
  have hle : roundHalfEven a (b * 2 ^ k) ≤ 2 ^ 53 := Format.roundHalfEven_place_le hpow hq
  have hall : roundHalfEven a (b * 2 ^ k) < 2 ^ 52 → q = -1074 := by
    intro hlow
    by_contra hne
    exact absurd (Format.le_roundHalfEven_place ha hpow hq (hfew hne)) (Nat.not_le.2 hlow)
  rw [toNat_pack_roundWithAccuracy hplace hbottom (hround ▸ hle) (hround ▸ hall), hround,
    Format.nearest_eq hnum hden hpow (hvalue.trans hquotient) (hvalue.trans hquotient ▸ hq)]
  rfl

end Toolpath.Binary
