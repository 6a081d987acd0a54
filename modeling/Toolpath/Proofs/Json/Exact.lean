import Mathlib
import Toolpath.Proofs.Json.Numeral
import Toolpath.Proofs.Number.Arithmetic

/-!
# Numerals that are read exactly

A numeral stands for a natural number, its digits without the point, times a power of ten. Where
both are values the reader's one multiplication or division gives the value nearest to the decimal
(`scaled_eq`), so a value that has been written in such a numeral is read back from it:
`real?_ofFloat`.
-/

namespace Toolpath.Json

open Binary (representable_of_lt representable_pow ofNat_eq_ofQuotient ofNat_mul_ofNat
  ofNat_div_ofNat)
open Decimal (digits value valueFrom_value value_append value_digits)

namespace Numeral

/-- The digits behind the point. -/
def decimals (n : Numeral) : List Char := n.frac.getD []

/-- The number that the digits denote without the point. -/
def significand (n : Numeral) : ℕ := value (n.whole ++ n.decimals)

/-- The exponent that is written. -/
def shift (n : Numeral) : ℤ :=
  n.exponent.elim 0 fun e ↦ if e.1 then -(value e.2 : ℤ) else value e.2

/-- The power of ten that the significand is multiplied by. -/
def scale (n : Numeral) : ℤ := n.shift - n.decimals.length

/-- The significand is a value, and so is the power of ten, or its inverse. -/
structure Exact (n : Numeral) : Prop where
  significand_lt : n.significand < 2 ^ 53
  decimals_le : n.decimals.length ≤ 22
  scale_le : n.scale.natAbs ≤ 22

instance (n : Numeral) : Decidable n.Exact :=
  decidable_of_iff
    (n.significand < 2 ^ 53 ∧ n.decimals.length ≤ 22 ∧ n.scale.natAbs ≤ 22)
    ⟨fun h ↦ ⟨h.1, h.2.1, h.2.2⟩, fun h ↦ ⟨h.1, h.2, h.3⟩⟩

/-! ## Reading -/

theorem powerOfTen_eq (k : ℕ) : powerOfTen k = Float.ofNat (10 ^ k) := by
  have hnearest : Decimal.nearest 1 k = Binary.binary64.nearest (10 ^ k) 1 :=
    Decimal.nearest_eq_of_div_eq Nat.one_pos (by simp)
  rw [powerOfTen, hnearest, ofNat_eq_ofQuotient]
  rfl

/-- One multiplication or division of values gives the nearest value to the decimal. -/
theorem scaled_eq (steps : ℕ) {s : ℕ} {e : ℤ} (hs : s < 2 ^ 53) (he : e.natAbs ≤ 22) :
    scaled (steps + 1) (Float.ofNat s) e =
      some (Float.ofBits (Decimal.nearest s e).toUInt64) := by
  have hpow : 0 < 10 ^ e.natAbs := by positivity
  rw [scaled, if_pos (he.trans (by decide)), powerOfTen_eq]
  split
  case isTrue hnonneg =>
    obtain ⟨k, rfl⟩ := Int.eq_ofNat_of_zero_le hnonneg
    rw [Int.natAbs_natCast] at he hpow ⊢
    have hnearest : Decimal.nearest s k = Binary.binary64.nearest (s * 10 ^ k) 1 :=
      Decimal.nearest_eq_of_div_eq Nat.one_pos (by simp)
    have hlt : s * 10 ^ k < 1 * 2 ^ 200 := by
      calc s * 10 ^ k ≤ 2 ^ 53 * 10 ^ 22 :=
            Nat.mul_le_mul hs.le (Nat.pow_le_pow_right (by decide) he)
        _ < 1 * 2 ^ 200 := by decide
    dsimp only
    rw [ofNat_mul_ofNat (representable_of_lt hs) (representable_pow he) hpow,
      Binary.isInf_ofQuotient Nat.one_pos hlt, if_neg Bool.false_ne_true, hnearest]
    rfl
  case isFalse hneg =>
    obtain ⟨k, hk⟩ := Int.eq_ofNat_of_zero_le (show 0 ≤ -e by omega)
    obtain rfl : e = -(k : ℤ) := by omega
    rw [Int.natAbs_neg, Int.natAbs_natCast] at he hpow ⊢
    have hnearest : Decimal.nearest s (-(k : ℤ)) = Binary.binary64.nearest s (10 ^ k) :=
      Decimal.nearest_eq_of_div_eq hpow (by simp [div_eq_mul_inv])
    rw [ofNat_div_ofNat (representable_of_lt hs) (representable_pow he) hpow, hnearest]
    rfl

section Reading

variable {n : Numeral} (h : n.Exact)
include h

theorem Exact.absorb_whole : absorb 0 n.whole = (value n.whole, []) := by
  refine absorb_eq ?_
  change value n.whole ≤ greatest
  have hs := h.significand_lt
  rw [significand, value_append] at hs
  have hle : value n.whole ≤ value n.whole * 10 ^ n.decimals.length :=
    Nat.le_mul_of_pos_right _ (by positivity)
  rw [greatest]
  omega

theorem Exact.absorb_decimals : absorb (value n.whole) n.decimals = (n.significand, []) := by
  have hs := h.significand_lt
  rw [significand] at hs ⊢
  rw [absorb_eq, valueFrom_value]
  rw [valueFrom_value, greatest]
  omega

/-- An exponent that is written is in range. -/
theorem Exact.exponent_le (e : Bool × List Char) (he : n.exponent = some e) :
    ¬2 ^ 31 - 1 < value e.2 := by
  have hlength := h.decimals_le
  have hscale := h.scale_le
  rw [scale, shift, he, Option.elim_some] at hscale
  split at hscale <;> omega

/-- A numeral with a point or an exponent is read by one multiplication or division. -/
theorem Exact.number?_eq (hreal : n.frac ≠ none ∨ n.exponent ≠ none) :
    n.number? = (scaled 4 (Float.ofNat n.significand) n.scale).map fun x ↦
      .real (if n.negative then -x else x) := by
  have hwhole := h.absorb_whole
  have hdecimals := h.absorb_decimals
  have hexponent := h.exponent_le
  generalize hs : n.significand = s at hdecimals
  obtain ⟨negative, whole, frac, exponent⟩ := n
  cases exponent with
  | none =>
    cases frac with
    | none => simp at hreal
    | some ds =>
      rw [decimals, Option.getD_some] at hdecimals
      simp [number?, hwhole, hdecimals, scale, shift, decimals]
  | some e =>
    obtain ⟨below, es⟩ := e
    have hrange : ¬2 ^ 31 - 1 < value es := hexponent _ rfl
    cases frac with
    | none =>
      rw [decimals, Option.getD_none] at hdecimals
      simp only [number?, hwhole, Option.getD_none, hdecimals, if_neg hrange, scale, shift,
        decimals]
      cases below <;> simp
    | some ds =>
      rw [decimals, Option.getD_some] at hdecimals
      simp only [number?, hwhole, Option.getD_some, hdecimals, if_neg hrange, scale, shift,
        decimals]
      congr 2
      cases below <;> simp <;> ring

/-- The value nearest to the decimal is read, with the sign before it. -/
theorem Exact.real?_eq :
    (Document.numeral n).real? =
      some (if n.negative then -Float.ofBits (Decimal.nearest n.significand n.scale).toUInt64
        else Float.ofBits (Decimal.nearest n.significand n.scale).toUInt64) := by
  by_cases hreal : n.frac ≠ none ∨ n.exponent ≠ none
  · rw [Document.real?, h.number?_eq hreal, scaled_eq 3 h.significand_lt h.scale_le]
    rfl
  · obtain ⟨hfrac, hexponent⟩ : n.frac = none ∧ n.exponent = none := by simpa using hreal
    have hwhole := h.absorb_whole
    have hsignificand : n.significand = value n.whole := by simp [significand, decimals, hfrac]
    have hscale : n.scale = 0 := by simp [scale, shift, decimals, hfrac, hexponent]
    have hnearest :
        Decimal.nearest (value n.whole) 0 = Binary.binary64.nearest (value n.whole) 1 :=
      Decimal.nearest_eq_of_div_eq Nat.one_pos (by simp)
    have hofNat : Float.ofBits (Decimal.nearest (value n.whole) 0).toUInt64 =
        Float.ofNat (value n.whole) := by
      rw [hnearest, ofNat_eq_ofQuotient]
      rfl
    rw [hsignificand, hscale, hofNat]
    have hle := h.significand_lt
    rw [hsignificand] at hle
    simp only [Document.real?, number?, hfrac, hexponent, hwhole, List.isEmpty_nil, Bool.not_true,
      Bool.false_eq_true, if_false]
    cases n.negative with
    | false => rfl
    | true =>
      by_cases hzero : value n.whole = 0 ∨ 2 ^ 63 < value n.whole
      · simp only [if_pos hzero]
        rfl
      · simp only [if_neg hzero]
        rfl

end Reading

/-! ## Writing -/

/-- Digits are written in a numeral of the same decimal. -/
theorem significand_ofDigits (negative : Bool) {ds : List Char} (hne : ds ≠ []) (k : ℤ) :
    ((ofDigits negative ds k).significand : ℚ) * 10 ^ (ofDigits negative ds k).scale =
      value ds * 10 ^ (k - ds.length) := by
  by_cases hk : 16 < k ∨ k < -4
  · have hshift : (ofDigits negative ds k).shift = k - 1 := by
      rw [ofDigits, if_pos hk, shift, Option.elim_some, value_digits]
      by_cases hneg : k - 1 < 0
      · rw [if_pos (decide_eq_true hneg)]
        omega
      · rw [if_neg (by simpa using hneg)]
        omega
    have hlength := List.length_pos_iff.2 hne
    have hdigits : (ofDigits negative ds k).whole ++ (ofDigits negative ds k).decimals = ds ∧
        ((ofDigits negative ds k).decimals.length : ℤ) = ds.length - 1 := by
      rw [ofDigits, if_pos hk, decimals]
      dsimp only
      split
      case isTrue hone =>
        refine ⟨?_, ?_⟩
        · rw [Option.getD_none, List.append_nil, List.take_of_length_le hone]
        · rw [Option.getD_none, List.length_nil]
          omega
      case isFalse hmore =>
        refine ⟨List.take_append_drop 1 ds, ?_⟩
        rw [Option.getD_some, List.length_drop]
        omega
    rw [significand, hdigits.1, scale, hshift, hdigits.2]
    congr 2
    ring
  · rw [ofDigits_eq_point hk, significand, scale, shift, decimals, Option.elim_none,
      Option.getD_some, zero_sub]
    exact Decimal.value_point ds k

theorem negative_ofDigits (negative : Bool) (ds : List Char) (k : ℤ) :
    (ofDigits negative ds k).negative = negative := by
  by_cases hk : 16 < k ∨ k < -4
  · rw [ofDigits, if_pos hk]
  · rw [ofDigits_eq_point hk]

/-- The numeral of a value has its sign and denotes its magnitude. -/
theorem nearest_ofFloat? {x : Float} {n : Numeral} (h : ofFloat? x = some n) :
    n.negative = decide (2 ^ 63 ≤ x.toBits.toNat) ∧
      Float.ofBits (Decimal.nearest n.significand n.scale).toUInt64 = Binary.magnitude x := by
  unfold ofFloat? at h
  split at h
  case h_2 => cases h
  case h_1 negative m q hx =>
    have hsign := Binary.negative_of_decode hx
    split at h
    case isTrue hm =>
      subst hm
      obtain rfl := Option.some.inj h
      refine ⟨hsign, ?_⟩
      have hzero : value (['0'] ++ ['0']) = 0 := rfl
      rw [Binary.magnitude_zero hx, significand, decimals, Option.getD_some, hzero,
        Decimal.nearest_zero]
      rfl
    case isFalse hm =>
      obtain ⟨d, e, hs⟩ : ∃ d e, Decimal.shortest .even m q = (d, e) := ⟨_, _, rfl⟩
      rw [hs] at h
      obtain rfl := Option.some.inj h
      have hvalue := significand_ofDigits negative (Decimal.digits_ne_nil d) ((digits d).length + e)
      rw [value_digits, add_sub_cancel_left] at hvalue
      refine ⟨(negative_ofDigits ..).trans hsign, ?_⟩
      rw [Decimal.nearest_eq_of_eq hvalue, Binary.ofBits_nearest_shortest hx hs]

end Numeral

/-- A value whose numeral is exact is read back from it. -/
theorem Document.real?_ofFloat {x : Float} {n : Numeral} (h : Numeral.ofFloat? x = some n)
    (hexact : n.Exact) : (Document.ofFloat x).real? = some x := by
  obtain ⟨hsign, hvalue⟩ := Numeral.nearest_ofFloat? h
  have hdocument : Document.ofFloat x = .numeral n := by
    rw [Document.ofFloat, h]
  rw [hdocument, hexact.real?_eq, hvalue, hsign]
  have hx := Binary.eq_signed_magnitude x
  by_cases hneg : 2 ^ 63 ≤ x.toBits.toNat
  · rw [if_pos hneg] at hx
    rw [if_pos (decide_eq_true hneg), ← hx]
  · rw [if_neg hneg] at hx
    rw [if_neg (by simpa using hneg), ← hx]

end Toolpath.Json
