import Mathlib
import Toolpath.Proofs.Number.Magnitude
import Toolpath.Proofs.Number.Rounding

/-!
# Machine arithmetic is exact arithmetic, rounded

A product and a quotient of values without a sign are the values nearest to the product and the
quotient of the numbers that they are, and so is the value of a natural number: `mul_eq_ofQuotient`,
`div_eq_ofQuotient`, `ofNat_eq_ofQuotient`. A natural number with few enough digits in base two is a
value itself, so that one operation on two of them rounds once.
-/

namespace Toolpath.Binary

open Float.Model (totalExponent)
open Float.Model.UnpackedFloat

/-! ## Taking values apart -/

/-- The platform takes a value apart into the same significand and exponent. -/
theorem unpack_of_decode {x : Float} {m : ℕ} {q : ℤ} (h : decode x = .finite false m q)
    (hm : 0 < m) : x.toModel.unpack = .finite .positive m q hm := by
  have hexponent := toNat_unpackExponent x.toBits.toBitVec
  have hmantissa := toNat_unpackMantissa x.toBits.toBitVec
  have hsign := toNat_unpackSign x.toBits.toBitVec
  rw [UInt64.toNat_toBitVec] at hexponent hmantissa hsign
  have hbias : (Float.Model.Format.binary64.exponentBias : ℤ) = 1023 := rfl
  have hall : (-1#11).toNat = 2047 := rfl
  change unpack .binary64 x.toBits.toBitVec = _
  generalize hn : x.toBits.toNat = n at hexponent hmantissa hsign
  simp only [decode, Format.decode, hn, signBit_binary64, top_binary64, fraction_binary64,
    bottom_binary64] at h
  split at h
  · cases h
  split at h
  · cases h
  have hpositive : n < 2 ^ 63 → @unpackSign .binary64 x.toBits.toBitVec = 0#1 := fun hlt ↦
    BitVec.eq_of_toNat_eq (by rw [hsign, BitVec.toNat_ofNat]; omega)
  have hone : ¬@unpackExponent .binary64 x.toBits.toBitVec = -1#11 := by
    rw [← BitVec.toNat_inj, hexponent, hall]
    omega
  have hzero : @unpackExponent .binary64 x.toBits.toBitVec = 0#11 ↔ n % 2 ^ 63 / 2 ^ 52 = 0 := by
    rw [← BitVec.toNat_inj, hexponent, BitVec.toNat_zero]
    omega
  rw [unpack]
  dsimp only
  rw [if_neg hone]
  split at h
  case isTrue he =>
    obtain ⟨hneg, hsignificand, hq⟩ := Decoded.finite.inj h
    have hne : ¬@unpackMantissa .binary64 x.toBits.toBitVec = 0#52 := by
      rw [← BitVec.toNat_inj, hmantissa, BitVec.toNat_zero]
      omega
    rw [if_pos (hzero.2 he), dif_neg hne, hpositive (by simpa using hneg), finite.injEq,
      hexponent, hmantissa, hbias]
    refine ⟨rfl, ?_, ?_⟩ <;> omega
  case isFalse he =>
    obtain ⟨hneg, hsignificand, hq⟩ := Decoded.finite.inj h
    have happend : (1#1 ++ @unpackMantissa .binary64 x.toBits.toBitVec).toNat =
        2 ^ 52 + n % 2 ^ 52 := by
      rw [BitVec.toNat_append, ← Nat.shiftLeft_add_eq_or_of_lt (BitVec.isLt _), hmantissa]
      rfl
    rw [if_neg (mt hzero.1 he), hpositive (by simpa using hneg), finite.injEq, happend, hexponent,
      hbias]
    refine ⟨rfl, ?_, ?_⟩ <;> omega

/-- A significand has all its bits, unless the value is too small for that. -/
theorem significand_of_decode {x : Float} {negative : Bool} {m : ℕ} {q : ℤ}
    (h : decode x = .finite negative m q) : -1074 ≤ q ∧ (m < 2 ^ 52 → q = -1074) := by
  simp only [decode, Format.decode, fraction_binary64, bottom_binary64] at h
  split at h
  · cases h
  split at h
  · cases h
  split at h <;>
  · cases h
    omega

/-! ## Putting values together -/

/-- The bits of a value that is not above infinity are kept. -/
theorem toNat_toBits_ofBits {n : ℕ} (h : n ≤ binary64.top) :
    (Float.ofBits n.toUInt64).toBits.toNat = n := by
  rw [top_binary64] at h
  have hn : n.toUInt64.toBitVec.toNat = n := by
    rw [UInt64.toNat_toBitVec, Nat.toUInt64_eq, UInt64.toNat_ofNat']
    omega
  have hall : (-1#11).toNat = 2047 := rfl
  have valid : Float.Model.Format.binary64.Valid n.toUInt64.toBitVec := by
    refine ⟨fun he hm ↦ absurd ?_ hm⟩
    rw [← BitVec.toNat_inj, toNat_unpackExponent, hn, hall] at he
    rw [← BitVec.toNat_inj, toNat_unpackMantissa, hn, BitVec.toNat_zero]
    omega
  have hbits : (Float.ofBits n.toUInt64).toBits.toBitVec = n.toUInt64.toBitVec :=
    pack_unpack_of_valid valid
  rw [← UInt64.toNat_toBitVec, hbits, hn]

/-- A value with the bits of a nearest value is that value. -/
theorem eq_ofQuotient {x : Float} {num den : ℕ}
    (h : x.toBits.toNat = binary64.nearest num den) : x = ofQuotient num den := by
  rw [ofQuotient, ← h]
  simp

/-- The bits of an exponent with a significand added to it. -/
theorem decode_bits {e n : ℕ} (he : e ≤ 2044) (hn : n < 2 ^ 53) (hfew : n < 2 ^ 52 → e = 0) :
    binary64.decode (e * 2 ^ 52 + n) = .finite false n (e - 1074) := by
  have hmod : (e * 2 ^ 52 + n) % 2 ^ 63 = e * 2 ^ 52 + n := Nat.mod_eq_of_lt (by omega)
  simp only [Format.decode, signBit_binary64, top_binary64, fraction_binary64, bottom_binary64,
    hmod]
  rw [if_neg (by omega), if_neg (by omega), decide_eq_false (by omega)]
  split <;>
  · rw [Decoded.finite.injEq]
    refine ⟨rfl, ?_, ?_⟩ <;> omega

/-- A number that has its place among the values is a value. -/
theorem decode_ofQuotient {num den m : ℕ} {q : ℤ} (hden : 0 < den)
    (hvalue : (num : ℚ) / den = m * 2 ^ q) (hm : 0 < m) (hlt : m < 2 ^ 53) (hlow : -1074 ≤ q)
    (hhigh : q ≤ 970) :
    ∃ n r, decode (ofQuotient num den) = .finite false n r ∧ 0 < n ∧
      (n : ℚ) * 2 ^ r = num / den := by
  have hpos : (0 : ℚ) < m * 2 ^ q := by positivity
  have hnum : 0 < num := num_pos_of_div_pos (hvalue ▸ hpos)
  have hlog : m.log2 < 53 := (Nat.log2_lt hm.ne').2 hlt
  have hplace : binary64.place (num / den) = max (m.log2 + q - 52) (-1074) := by
    rw [hvalue, Format.place, log_natCast_mul_zpow hm]
    rfl
  have hless := binary64.lt_place (num / den)
  have hge := Format.place_le (f := binary64) (hvalue ▸ hpos)
  generalize hr : binary64.place (num / den) = r at *
  -- The significand gets as many bits as it can.
  obtain ⟨k, hk⟩ := Int.eq_ofNat_of_zero_le (show 0 ≤ q - r by omega)
  have hquotient : (num : ℚ) / den = (m * 2 ^ k : ℕ) * 2 ^ r := by
    rw [hvalue, show q = k + r by omega, zpow_add₀ two_ne_zero, zpow_natCast]
    push_cast
    ring
  have hpow : (0 : ℚ) < 2 ^ r := by positivity
  have hn : m * 2 ^ k < 2 ^ 53 := by
    rw [hquotient, mul_lt_mul_iff_left₀ hpow] at hless
    exact_mod_cast hless
  have hfew : m * 2 ^ k < 2 ^ 52 → (r + 1074).toNat = 0 := by
    intro hsmall
    by_contra hne
    have hlarge := hge (by
      rw [hvalue, log_natCast_mul_zpow hm, bottom_binary64, fraction_binary64]
      omega)
    rw [hquotient, mul_le_mul_iff_left₀ hpow] at hlarge
    have : 2 ^ 52 ≤ m * 2 ^ k := by exact_mod_cast hlarge
    omega
  have htop : (r + 1074).toNat * 2 ^ 52 + m * 2 ^ k < 2047 * 2 ^ 52 := by omega
  have hbits : binary64.nearest num den = (r + 1074).toNat * 2 ^ 52 + m * 2 ^ k := by
    rw [Format.nearest_of_multiple hnum hden hquotient hr, fraction_binary64, bottom_binary64,
      top_binary64]
    exact min_eq_left htop.le
  refine ⟨m * 2 ^ k, r, ?_, by positivity, hquotient.symm⟩
  rw [decode, ofQuotient, toNat_toBits_ofBits (Format.nearest_le_top _ _), hbits,
    decode_bits (by omega) hn hfew]
  congr 1
  omega

/-- What is nearest to a number of moderate size is finite. -/
theorem isInf_ofQuotient {num den : ℕ} (hden : 0 < den) (h : num < den * 2 ^ 200) :
    (ofQuotient num den).isInf = false := by
  rcases Nat.eq_zero_or_pos num with rfl | hnum
  · rw [ofQuotient, Format.nearest, if_pos rfl]
    decide +kernel
  refine isInf_eq_false (isFinite_iff.2 ?_)
  have hlog : Int.log 2 ((num : ℚ) / den) < 200 := by
    rw [← Int.lt_zpow_iff_log_lt one_lt_two (by positivity), div_lt_iff₀' (by positivity)]
    exact_mod_cast h
  have hle := Format.nearest_le (f := binary64) hnum hden
  rw [Format.place, fraction_binary64, bottom_binary64] at hle
  rw [ofQuotient, toNat_toBits_ofBits (Format.nearest_le_top _ _), top_binary64]
  omega

/-! ## Products and quotients -/

theorem toNat_pack_round_exact {m num den : ℕ} {e : ℤ} (hm : 0 < m)
    (he : e ≤ binary64.place (m * 2 ^ e)) (hden : 0 < den)
    (hvalue : (num : ℚ) / den = m * 2 ^ e) :
    (pack .binary64 (roundWithAccuracy .binary64 .positive m e .exact)).toNat =
      binary64.nearest num den := by
  have hone : (m : ℚ) / (1 : ℕ) = m := by rw [Nat.cast_one, div_one]
  have hexact : Represents (.ofMantissaAndAccuracy (m / 1) .exact) m 1 := by
    rw [Nat.div_one]
    exact represents_exact m
  rw [← hone] at he hvalue
  have hround := toNat_pack_round hm Nat.one_pos hexact he hden hvalue
  rwa [Nat.div_one] at hround

section Operations

variable {x y : Float} {m n num den : ℕ} {q r : ℤ} (hx : decode x = .finite false m q)
  (hy : decode y = .finite false n r) (hm : 0 < m) (hn : 0 < n) (hden : 0 < den)
include hx hy hm hn hden

/-- A product is rounded once. -/
theorem mul_eq_ofQuotient (hvalue : (num : ℚ) / den = m * 2 ^ q * (n * 2 ^ r)) :
    x * y = ofQuotient num den := by
  refine eq_ofQuotient ?_
  change (pack .binary64 (mul .binary64 x.toModel.unpack y.toModel.unpack)).toNat = _
  rw [unpack_of_decode hx hm, unpack_of_decode hy hn, mul]
  obtain ⟨hq, hfew⟩ := significand_of_decode hx
  obtain ⟨hr, hfew'⟩ := significand_of_decode hy
  have hproduct : 0 < m * n := Nat.mul_pos hm hn
  refine toNat_pack_round_exact hproduct ?_ hden ?_
  · rw [Format.place, log_natCast_mul_zpow hproduct, fraction_binary64, bottom_binary64]
    by_cases hlow : m < 2 ^ 52 ∧ n < 2 ^ 52
    · have := hfew hlow.1
      have := hfew' hlow.2
      omega
    · have hlog : 52 ≤ (m * n).log2 := by
        rw [Nat.le_log2 hproduct.ne']
        rcases not_and_or.1 hlow with h | h
        · exact (Nat.le_of_not_lt h).trans (Nat.le_mul_of_pos_right m hn)
        · exact (Nat.le_of_not_lt h).trans (Nat.le_mul_of_pos_left n hm)
      omega
  · rw [hvalue, zpow_add₀ two_ne_zero]
    push_cast
    ring

/-- A quotient is rounded once. -/
theorem div_eq_ofQuotient (hvalue : (num : ℚ) / den = m * 2 ^ q / (n * 2 ^ r)) :
    x / y = ofQuotient num den := by
  refine eq_ofQuotient ?_
  change (pack .binary64 (div .binary64 x.toModel.unpack y.toModel.unpack)).toNat = _
  rw [unpack_of_decode hx hm, unpack_of_decode hy hn, div]
  simp only [divCore, Nat.shiftLeft_eq, Float.Model.Format.targetExponent, totalExponent,
    Float.Model.Format.mantissaBits, Float.Model.Format.minExponent]
  generalize ht : min (q - r) _ = t
  obtain ⟨k, hk⟩ := Int.eq_ofNat_of_zero_le (show 0 ≤ q - r - t by omega)
  have hquotient : (m : ℚ) * 2 ^ q / (n * 2 ^ r) = (m * 2 ^ k : ℕ) / n * 2 ^ t := by
    rw [show q = r + k + t by omega, zpow_add₀ two_ne_zero, zpow_add₀ two_ne_zero, zpow_natCast]
    push_cast
    field_simp
  have hlog := (log_div (a := m * 2 ^ q) (b := n * 2 ^ r) (by positivity) (by positivity)).1
  rw [log_natCast_mul_zpow hm, log_natCast_mul_zpow hn] at hlog
  rw [hk, Int.toNat_natCast]
  refine toNat_pack_round (by positivity) hn (represents_fraction _ hn) ?_ hden
    (hvalue.trans hquotient)
  -- The platform looks for the last place where it cannot come after it.
  rw [← hquotient, Format.place, fraction_binary64, bottom_binary64]
  push_cast at ht ⊢
  omega

end Operations

/-! ## Natural numbers -/

/-- An integer above zero is rounded once. -/
theorem toNat_pack_normalize {n : ℕ} {e : ℤ} {s : Sign} (hn : 0 < n) :
    (pack .binary64 (Float.Model.UnpackedFloat.normalize .binary64 n e s)).toNat =
      binary64.near (n * 2 ^ e) := by
  have hcompare : compare (n : ℤ) 0 = .gt := by
    rw [Int.compare_eq_gt]
    omega
  simp only [Float.Model.UnpackedFloat.normalize, hcompare, Int.toNat_natCast,
    Float.Model.UnpackedFloat.round, decreaseExponent, Nat.shiftLeft_eq,
    Float.Model.Format.targetExponent, totalExponent, Float.Model.Format.mantissaBits,
    Float.Model.Format.minExponent]
  generalize hk : Int.toNat _ = k
  have hvalue : (n : ℚ) * 2 ^ e = (n * 2 ^ k : ℕ) * 2 ^ (e - (k : ℤ)) := by
    rw [zpow_sub₀ two_ne_zero, zpow_natCast]
    push_cast
    field_simp
  refine toNat_pack_round_exact (by positivity) ?_ (Rat.den_pos _) ?_
  · rw [← hvalue, Format.place, log_natCast_mul_zpow hn, fraction_binary64, bottom_binary64]
    push_cast
    omega
  · exact (Format.toNat_num_div_den (by positivity)).trans hvalue

/-- A machine word is converted to the nearest value. -/
theorem toFloat_eq_ofQuotient {w : UInt64} (hw : 0 < w.toNat) :
    w.toFloat = ofQuotient w.toNat 1 := by
  refine eq_ofQuotient ?_
  change (pack .binary64 (ofInt .binary64 w.toNat)).toNat = _
  rw [ofInt, toNat_pack_normalize hw, zpow_zero, mul_one, ← Format.near_div _ Nat.one_pos,
    Nat.cast_one, div_one]

/-- A natural number is converted to the nearest value. -/
theorem ofNat_eq_ofQuotient (n : ℕ) : Float.ofNat n = ofQuotient n 1 := by
  rcases Nat.eq_zero_or_pos n with rfl | hn
  · rfl
  change Float.ofScientific n false 0 = _
  rw [Float.ofScientific]
  split
  case isTrue h =>
    have hone :
        decode (Float.exactlyRepresentablePowersOfTen[0]) = .finite false (2 ^ 52) (-52) := by
      decide +kernel
    have hword : n.toUInt64.toNat = n := by
      rw [Nat.toUInt64_eq, UInt64.toNat_ofNat']
      omega
    have hx := toFloat_eq_ofQuotient (w := n.toUInt64) (hword.symm ▸ hn)
    rw [hword] at hx
    have hself : (n : ℚ) / (1 : ℕ) = n * 2 ^ (0 : ℤ) := by simp
    obtain ⟨m, q, hdecode, hm, hvalue⟩ :=
      decode_ofQuotient Nat.one_pos hself hn h.1 (by decide) (by decide)
    rw [if_neg Bool.false_ne_true, hx]
    refine mul_eq_ofQuotient hdecode hone hm (by positivity) Nat.one_pos ?_
    rw [hvalue]
    norm_num
  case isFalse h =>
    refine eq_ofQuotient ?_
    change (pack .binary64 (ofScientific .binary64 n 0)).toNat = _
    rw [ofScientific, dif_neg hn.ne', if_neg (by decide), if_neg (by push_cast; omega),
      if_pos le_rfl, mul, Nat.shiftLeft_eq, Int.toNat_zero, pow_zero, mul_one, add_zero]
    have hvalue : (n : ℚ) / (1 : ℕ) = (n * 2 ^ Float.Model.Format.binary64.mantissaBits : ℕ) *
        2 ^ (-(Float.Model.Format.binary64.mantissaBits : ℤ)) := by
      rw [zpow_neg, zpow_natCast]
      push_cast
      field_simp
    refine toNat_pack_round_exact (by positivity) ?_ Nat.one_pos hvalue
    rw [← hvalue, Nat.cast_one, div_one, Format.place, Int.log_natCast, ← Nat.log2_eq_log_two,
      fraction_binary64, bottom_binary64]
    change (-53 : ℤ) ≤ _
    omega

/-- A natural number that is a value: one with few enough digits in base two, but for zeros at its
end. -/
def Representable (n : ℕ) : Prop := ∃ m k, n = m * 2 ^ k ∧ m < 2 ^ 53 ∧ k ≤ 970

theorem representable_of_lt {n : ℕ} (h : n < 2 ^ 53) : Representable n :=
  ⟨n, 0, by simp, h, by decide⟩

/-- A power of ten has the digits of a power of five. -/
theorem representable_pow {k : ℕ} (h : k ≤ 22) : Representable (10 ^ k) :=
  ⟨5 ^ k, k, by rw [← Nat.mul_pow], (Nat.pow_le_pow_right (by decide) h).trans_lt (by decide),
    by omega⟩

section Naturals

variable {a b : ℕ} (ha : Representable a) (hb : Representable b) (hpos : 0 < b)

include ha in
theorem Representable.decode_ofNat (hpos : 0 < a) :
    ∃ m q, decode (Float.ofNat a) = .finite false m q ∧ 0 < m ∧ (m : ℚ) * 2 ^ q = a := by
  obtain ⟨m, k, rfl, hlt, hk⟩ := ha
  have hvalue : ((m * 2 ^ k : ℕ) : ℚ) / (1 : ℕ) = m * 2 ^ (k : ℤ) := by
    rw [zpow_natCast]
    push_cast
    ring
  obtain ⟨n, q, hdecode, hn, hexact⟩ := decode_ofQuotient Nat.one_pos hvalue
    (Nat.pos_of_mul_pos_right hpos) hlt (by omega) (by omega)
  refine ⟨n, q, by rwa [ofNat_eq_ofQuotient], hn, ?_⟩
  rw [hexact, Nat.cast_one, div_one]

theorem unpack_ofNat_zero : (Float.ofNat 0).toModel.unpack = .zero .positive := rfl

include ha hb hpos

theorem ofNat_mul_ofNat : Float.ofNat a * Float.ofNat b = ofQuotient (a * b) 1 := by
  obtain ⟨n, r, hy, hn, hvalue⟩ := hb.decode_ofNat hpos
  rcases Nat.eq_zero_or_pos a with rfl | hpos'
  · refine eq_ofQuotient ?_
    change (pack .binary64
      (mul .binary64 (Float.ofNat 0).toModel.unpack (Float.ofNat b).toModel.unpack)).toNat = _
    rw [unpack_of_decode hy hn, unpack_ofNat_zero, Nat.zero_mul]
    rfl
  · obtain ⟨m, q, hx, hm, hvalue'⟩ := ha.decode_ofNat hpos'
    refine mul_eq_ofQuotient hx hy hm hn Nat.one_pos ?_
    rw [hvalue, hvalue', Nat.cast_one, div_one, Nat.cast_mul]

theorem ofNat_div_ofNat : Float.ofNat a / Float.ofNat b = ofQuotient a b := by
  obtain ⟨n, r, hy, hn, hvalue⟩ := hb.decode_ofNat hpos
  rcases Nat.eq_zero_or_pos a with rfl | hpos'
  · refine eq_ofQuotient ?_
    change (pack .binary64
      (div .binary64 (Float.ofNat 0).toModel.unpack (Float.ofNat b).toModel.unpack)).toNat = _
    rw [unpack_of_decode hy hn, unpack_ofNat_zero]
    rfl
  · obtain ⟨m, q, hx, hm, hvalue'⟩ := ha.decode_ofNat hpos'
    refine div_eq_ofQuotient hx hy hm hn hpos ?_
    rw [hvalue, hvalue']

end Naturals

end Toolpath.Binary
