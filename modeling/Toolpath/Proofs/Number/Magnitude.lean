import Mathlib
import Toolpath.Number.Machine
import Toolpath.Proofs.Number.Shortest

/-!
# Signs and magnitudes

The bits of a finite value are a magnitude and a sign (`eq_signed_magnitude`). Only three values are
not finite, and `decode` tells them from the others: `decode_of_isFinite`.
-/

namespace Toolpath.Binary

open Float.Model.UnpackedFloat

/-! ## Parts of the bits -/

theorem toNat_unpackExponent (b : BitVec 64) :
    (@unpackExponent .binary64 b).toNat = b.toNat / 2 ^ 52 % 2 ^ 11 := by
  simp [unpackExponent, Nat.shiftRight_eq_div_pow]

theorem toNat_unpackMantissa (b : BitVec 64) :
    (@unpackMantissa .binary64 b).toNat = b.toNat % 2 ^ 52 := by
  simp [unpackMantissa]

theorem toNat_unpackSign (b : BitVec 64) :
    (@unpackSign .binary64 b).toNat = b.toNat / 2 ^ 63 := by
  have := b.isLt
  simp [unpackSign, Nat.shiftRight_eq_div_pow]
  omega

/-- The parts of a value whose sign bit is set, but for the sign, are those of the rest of its
bits. -/
theorem unpack_eq_neg {b c : BitVec 64} (valid : Float.Model.Format.binary64.Valid b)
    (h : b.toNat = c.toNat + 2 ^ 63) :
    Float.Model.Format.binary64.Valid c ∧
      unpack .binary64 b = (unpack .binary64 c).neg := by
  have hb := b.isLt
  have hmantissa : @unpackMantissa .binary64 b = @unpackMantissa .binary64 c := by
    apply BitVec.eq_of_toNat_eq
    rw [toNat_unpackMantissa, toNat_unpackMantissa]
    omega
  have hexponent : @unpackExponent .binary64 b = @unpackExponent .binary64 c := by
    apply BitVec.eq_of_toNat_eq
    rw [toNat_unpackExponent, toNat_unpackExponent]
    omega
  have hsign : @unpackSign .binary64 b = 1#1 := by
    apply BitVec.eq_of_toNat_eq
    rw [toNat_unpackSign, BitVec.toNat_ofNat]
    omega
  have hsign' : @unpackSign .binary64 c = 0#1 := by
    apply BitVec.eq_of_toNat_eq
    rw [toNat_unpackSign, BitVec.toNat_ofNat]
    omega
  -- The one value that is no number has no sign.
  have hnumber : @unpackExponent .binary64 b = -1#_ →
      @unpackMantissa .binary64 b = 0#_ := by
    intro he
    by_contra hm
    rw [valid.eq_packedNaN he hm] at h
    have : (packedNaN Float.Model.Format.binary64).toNat < 2 ^ 63 := by decide
    omega
  refine ⟨⟨fun he hm ↦ absurd (hmantissa ▸ hnumber (hexponent.trans he)) hm⟩, ?_⟩
  simp only [unpack, hmantissa, hexponent, hsign, hsign']
  split
  · split <;> rfl
  · split
    · split <;> rfl
    · rfl

/-- A value without its sign. -/
def magnitude (x : Float) : Float := Float.ofBits (x.toBits.toNat % 2 ^ 63).toUInt64

/-- A value has the sign that its first bit says. -/
theorem eq_signed_magnitude (x : Float) :
    x = if 2 ^ 63 ≤ x.toBits.toNat then -magnitude x else magnitude x := by
  have hx := x.toBits.toNat_lt
  split
  case isFalse h =>
    rw [magnitude, Nat.mod_eq_of_lt (by omega)]
    simp
  case isTrue h =>
    have hc : x.toBits.toBitVec.toNat =
        (x.toBits.toNat % 2 ^ 63).toUInt64.toBitVec.toNat + 2 ^ 63 := by
      rw [UInt64.toNat_toBitVec, UInt64.toNat_toBitVec, Nat.toUInt64_eq, UInt64.toNat_ofNat']
      omega
    obtain ⟨valid, hunpack⟩ := unpack_eq_neg x.toModel.valid hc
    have hpack : x.toBits.toBitVec = pack .binary64 (unpack .binary64 x.toBits.toBitVec) :=
      (pack_unpack_of_valid x.toModel.valid).symm
    have hmagnitude : (magnitude x).toBits.toBitVec = (x.toBits.toNat % 2 ^ 63).toUInt64.toBitVec :=
      pack_unpack_of_valid valid
    have hneg : (-magnitude x).toBits.toBitVec =
        pack .binary64 (unpack .binary64 (magnitude x).toBits.toBitVec).neg := rfl
    rw [← Float.toBits_inj, ← UInt64.toBitVec_inj, hneg, hmagnitude, ← hunpack]
    exact hpack

/-! ## Values that are not finite -/

theorem unpackExponent_eq_iff {x : Float} :
    @unpackExponent .binary64 x.toBits.toBitVec = -1#11 ↔
      binary64.top ≤ x.toBits.toNat % 2 ^ 63 := by
  rw [← BitVec.toNat_inj, toNat_unpackExponent]
  change x.toBits.toNat / 2 ^ 52 % 2 ^ 11 = 2047 ↔ 0x7FF0000000000000 ≤ _
  omega

theorem isFinite_unpack {spec : Float.Model.Format} (b : BitVec spec.numBits) :
    (unpack spec b).isFinite = true ↔ unpackExponent b ≠ -1#_ := by
  simp only [unpack]
  split
  case isTrue h =>
    refine iff_of_false ?_ (not_not_intro h)
    split <;> exact Bool.noConfusion
  case isFalse h =>
    refine iff_of_true ?_ h
    split
    · split <;> rfl
    · rfl

/-- A value is finite if its magnitude is below that of infinity. -/
theorem isFinite_iff {x : Float} : x.isFinite = true ↔ x.toBits.toNat % 2 ^ 63 < binary64.top := by
  rw [← Nat.not_le, ← unpackExponent_eq_iff, Float.isFinite, Float.Model.isFinite,
    Float.Model.unpack]
  exact @isFinite_unpack .binary64 x.toBits.toBitVec

/-- Only the infinities and the value that is no number are not finite. -/
theorem toBits_of_not_isFinite {x : Float} (h : x.isFinite = false) :
    x.toBits ∈ [0x7FF0000000000000, 0xFFF0000000000000, 0x7FF8000000000000] := by
  have hx := x.toBits.toNat_lt
  have htop : 0x7FF0000000000000 ≤ x.toBits.toNat % 2 ^ 63 :=
    Nat.le_of_not_lt (mt isFinite_iff.2 (by simp [h]))
  simp only [List.mem_cons, List.not_mem_nil, or_false, ← UInt64.toNat_inj]
  by_cases hm : @unpackMantissa .binary64 x.toBits.toBitVec = 0#52
  · have hzero : x.toBits.toNat % 2 ^ 52 = 0 := by
      rw [← UInt64.toNat_toBitVec, ← toNat_unpackMantissa, hm]
      rfl
    change x.toBits.toNat = 0x7FF0000000000000 ∨ x.toBits.toNat = 0xFFF0000000000000 ∨ _
    omega
  · have hnan := x.toModel.valid.eq_packedNaN (unpackExponent_eq_iff.2 htop) hm
    exact .inr (.inr (congrArg BitVec.toNat hnan))

/-- A finite value is decoded to a multiple of a power of two with its sign. -/
theorem decode_of_isFinite {x : Float} (h : x.isFinite = true) :
    ∃ m q, decode x = .finite (decide (2 ^ 63 ≤ x.toBits.toNat)) m q := by
  have hlt := isFinite_iff.1 h
  rw [decode, Format.decode]
  simp only [signBit_binary64]
  rw [if_neg (by omega), if_neg (by omega)]
  split
  · exact ⟨_, _, rfl⟩
  · exact ⟨_, _, rfl⟩

/-- The sign of a finite value is its first bit. -/
theorem negative_of_decode {x : Float} {negative : Bool} {m : ℕ} {q : ℤ}
    (h : decode x = .finite negative m q) : negative = decide (2 ^ 63 ≤ x.toBits.toNat) := by
  simp only [decode, Format.decode, signBit_binary64] at h
  split at h
  · cases h
  split at h
  · cases h
  split at h <;>
  · cases h
    rfl

theorem isInf_eq_false {x : Float} (h : x.isFinite = true) : x.isInf = false := by
  rw [Float.isFinite, Float.Model.isFinite] at h
  rw [Float.isInf, Float.Model.isInf]
  cases hu : x.toModel.unpack with
  | notANumber | zero sign | finite sign m e hm => rfl
  | infinity sign =>
    rw [hu] at h
    cases h

theorem isNaN_eq_false {x : Float} (h : x.isFinite = true) : x.isNaN = false := by
  rw [Float.isFinite, Float.Model.isFinite] at h
  rw [Float.isNaN, Float.Model.isNaN]
  cases hu : x.toModel.unpack with
  | infinity sign | zero sign | finite sign m e hm => rfl
  | notANumber =>
    rw [hu] at h
    cases h

/-! ## Magnitudes read back -/

theorem magnitude_zero {x : Float} {negative : Bool} {q : ℤ} (h : decode x = .finite negative 0 q) :
    magnitude x = 0 := by
  have hbits : binary64.nearest 0 1 = x.toBits.toNat % binary64.signBit :=
    Format.nearest_of_decode h Nat.one_pos (by simp)
  rw [signBit_binary64] at hbits
  rw [magnitude, ← hbits]
  rfl

/-- The digits chosen for a value are nearest to the rest of its bits behind the first. -/
theorem nearest_shortest_eq_mod {x : Float} {negative : Bool} {tie : Decimal.Tie} {m d : ℕ}
    {q e : ℤ} (h : decode x = .finite negative m q) (hs : Decimal.shortest tie m q = (d, e)) :
    Decimal.nearest d e = x.toBits.toNat % 2 ^ 63 := by
  have hpos : 0 < (if 0 ≤ q then 1 else 2 ^ (-q).toNat : ℕ) := by split <;> positivity
  rw [Decimal.nearest_shortest hpos (Decimal.quotient_eq m q) hs,
    Format.nearest_of_decode h hpos (Decimal.quotient_eq m q), signBit_binary64]

/-- The digits chosen for a value read back to it but for its sign. -/
theorem ofBits_nearest_shortest {x : Float} {negative : Bool} {tie : Decimal.Tie} {m d : ℕ}
    {q e : ℤ} (h : decode x = .finite negative m q) (hs : Decimal.shortest tie m q = (d, e)) :
    Float.ofBits (Decimal.nearest d e).toUInt64 = magnitude x := by
  rw [magnitude, nearest_shortest_eq_mod h hs]

/-- The digits chosen for a value other than zero do not denote zero. -/
theorem shortest_pos {x : Float} {negative : Bool} {tie : Decimal.Tie} {m d : ℕ} {q e : ℤ}
    (h : decode x = .finite negative m q) (hm : m ≠ 0) (hs : Decimal.shortest tie m q = (d, e)) :
    0 < d := by
  refine Nat.pos_of_ne_zero ?_
  rintro rfl
  have hzero : x.toBits.toNat % 2 ^ 63 = 0 := by
    rw [← nearest_shortest_eq_mod h hs, Decimal.nearest_zero]
  simp only [decode, Format.decode, signBit_binary64, hzero] at h
  rw [if_neg (by decide), if_neg (by decide), if_pos (by decide)] at h
  cases h
  exact hm rfl

end Toolpath.Binary
