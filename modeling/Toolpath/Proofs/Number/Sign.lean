import Mathlib
import Toolpath.Proofs.Number.Order

/-!
# Signs of results

Of values that are not below zero no operation on machine numbers makes one that is, unless it takes
the greater from the lesser: signs are decided before anything is rounded, and rounding keeps them.
A zero has a sign too but is not below zero by it, and neither is the undefined value.
-/

namespace Toolpath.Binary

open Float.Model (UnpackedFloat)
open Float.Model.UnpackedFloat

/-- Zero and what is above it, and the undefined value. -/
def NotBelow (u : UnpackedFloat) : Prop := sign? u ≠ some .negative

theorem not_neg_iff {x : Float} : ¬x < 0 ↔ NotBelow x.toModel.unpack := by
  refine not_congr (decide_eq_true_iff.trans ?_)
  change UnpackedFloat.lt x.toModel.unpack (.zero .positive) = true ↔ _
  rcases x.toModel.unpack with s | _ | s | ⟨s, m, e, hm⟩ <;> (try cases s) <;>
    simp [UnpackedFloat.lt, UnpackedFloat.compare, sign?]

/-! ## Rounding and packing -/

theorem NotBelow.pack {u : UnpackedFloat} (h : NotBelow u) :
    NotBelow (unpack .binary64 (pack .binary64 u)) := fun hs ↦ h (sign?_of_pack hs)

/-- An integer that is not negative is rounded to a value that is not below zero. -/
theorem notBelow_normalize {m e : ℤ} {s : Sign} (hm : 0 ≤ m) :
    NotBelow (Float.Model.UnpackedFloat.normalize .binary64 m e s) := by
  intro h
  rw [Float.Model.UnpackedFloat.normalize] at h
  split at h
  case h_1 hlt => exact absurd (compare_lt_iff_lt.1 hlt) hm.not_gt
  case h_2 => cases h
  case h_3 => cases sign?_roundWithAccuracy h

/-!
## Operations

In each case but that of two finite values the signs decide.
-/

section Operations

variable {u v : UnpackedFloat} (hu : NotBelow u) (hv : NotBelow v)

theorem NotBelow.positive {s : Sign} {m : ℕ} {e : ℤ} {hm : 0 < m}
    (h : NotBelow (.finite s m e hm)) : s = .positive := by
  cases s with
  | positive => rfl
  | negative => exact absurd rfl h

include hu hv

theorem NotBelow.add : NotBelow (add .binary64 u v) := by
  rcases u with s | _ | s | ⟨s, m, e, hm⟩ <;> rcases v with s' | _ | s' | ⟨s', m', e', hm'⟩
  case finite.finite =>
    rw [hu.positive, hv.positive]
    exact notBelow_normalize (by simp only [Sign.apply]; positivity)
  all_goals
    try cases s
    all_goals
      try cases s'
      all_goals first | exact hu | exact hv | rintro ⟨⟩

theorem NotBelow.mul : NotBelow (mul .binary64 u v) := by
  rcases u with s | _ | s | ⟨s, m, e, hm⟩ <;> rcases v with s' | _ | s' | ⟨s', m', e', hm'⟩
  case finite.finite =>
    rw [hu.positive, hv.positive]
    intro h
    cases sign?_roundWithAccuracy h
  all_goals
    try cases s
    all_goals
      try cases s'
      all_goals first | exact hu | exact hv | rintro ⟨⟩

end Operations

/-- A difference is not below zero unless a greater value is taken from a lesser. -/
theorem notBelow_sub {x y : Float.Model} (h : ¬x.unpack.lt y.unpack = true) :
    NotBelow (sub .binary64 x.unpack y.unpack) := by
  have hx {s m e hm} (h : x.unpack = .finite s m e hm) := canonical_of_unpack h
  have hy {s m e hm} (h : y.unpack = .finite s m e hm) := canonical_of_unpack h
  generalize x.unpack = u at *
  generalize y.unpack = v at *
  rcases u with s | _ | s | ⟨s, m, e, hm⟩ <;> rcases v with s' | _ | s' | ⟨s', m', e', hm'⟩
  case finite.finite =>
    have hle : ¬(toLex (s.apply 1, toLex (s.apply e, s.apply m)) <
        toLex (s'.apply 1, toLex (s'.apply e', s'.apply m'))) := fun hlt ↦
      h (unpacked_lt_iff.2 ⟨_, _, rfl, rfl, hlt⟩)
    have hsigned := signed_le_signed (hy rfl) (hx rfl) (not_lt.1 hle)
    rw [min_comm] at hsigned
    exact notBelow_normalize (sub_nonneg.2 hsigned)
  all_goals
    try cases s
    all_goals
      try cases s'
      all_goals first | exact absurd rfl h | rintro ⟨⟩

/-- A quotient is not below zero either, unless it is one by the zero with a sign. -/
theorem NotBelow.div {u v : UnpackedFloat} (hu : NotBelow u) (hv : NotBelow v)
    (hz : v ≠ .zero .negative) : NotBelow (div .binary64 u v) := by
  rcases u with s | _ | s | ⟨s, m, e, hm⟩ <;> rcases v with s' | _ | s' | ⟨s', m', e', hm'⟩
  case finite.finite =>
    rw [hu.positive, hv.positive]
    intro h
    cases sign?_roundWithAccuracy h
  all_goals
    try cases s
    all_goals
      try cases s'
      all_goals first | exact hu | exact hv | exact absurd rfl hz | rintro ⟨⟩

theorem notBelow_sqrt (u : UnpackedFloat) : NotBelow (sqrt .binary64 u) := by
  rcases u with s | _ | s | ⟨s, m, e, hm⟩
  case finite =>
    cases s with
    | negative => rintro ⟨⟩
    | positive =>
      intro h
      cases sign?_roundWithAccuracy h
  case infinity => cases s <;> rintro ⟨⟩
  case notANumber => rintro ⟨⟩
  case zero => rintro ⟨⟩

/-- A value without a sign bit is neither below zero nor the zero with a sign. -/
theorem notBelow_of_lt {x : Float} (h : x.toBits.toNat < 2 ^ 63) :
    NotBelow x.toModel.unpack ∧ x.toModel.unpack ≠ .zero .negative := by
  have hsign : @unpackSign .binary64 x.toBits.toBitVec = 0#1 := by
    apply BitVec.eq_of_toNat_eq
    rw [toNat_unpackSign, UInt64.toNat_toBitVec, BitVec.toNat_ofNat]
    omega
  change NotBelow (unpack .binary64 x.toBits.toBitVec) ∧
    unpack .binary64 x.toBits.toBitVec ≠ .zero .negative
  rw [unpack, hsign]
  dsimp only
  split
  · split <;> constructor <;> rintro ⟨⟩
  · split
    · split <;> constructor <;> rintro ⟨⟩
    · constructor <;> rintro ⟨⟩

theorem toNat_toBits_ofNat_lt (n : ℕ) : (Float.ofNat n).toBits.toNat < 2 ^ 63 := by
  have htop := Format.nearest_le_top (f := binary64) n 1
  rw [ofNat_eq_ofQuotient, ofQuotient, toNat_toBits_ofBits htop]
  exact htop.trans_lt (by decide)

section

variable {x y : Float}

theorem not_neg_add (hx : ¬x < 0) (hy : ¬y < 0) : ¬x + y < 0 :=
  not_neg_iff.2 ((not_neg_iff.1 hx).add (not_neg_iff.1 hy)).pack

theorem not_neg_mul (hx : ¬x < 0) (hy : ¬y < 0) : ¬x * y < 0 :=
  not_neg_iff.2 ((not_neg_iff.1 hx).mul (not_neg_iff.1 hy)).pack

theorem not_neg_sub (h : ¬x < y) : ¬x - y < 0 :=
  not_neg_iff.2 (notBelow_sub fun hlt ↦ h (decide_eq_true_iff.2 hlt)).pack

theorem not_neg_ofNat (n : ℕ) : ¬Float.ofNat n < 0 :=
  not_neg_iff.2 (notBelow_of_lt (toNat_toBits_ofNat_lt n)).1

theorem not_neg_div_ofNat (hx : ¬x < 0) (n : ℕ) : ¬x / Float.ofNat n < 0 :=
  have ⟨hb, hz⟩ := notBelow_of_lt (toNat_toBits_ofNat_lt n)
  not_neg_iff.2 ((not_neg_iff.1 hx).div hb hz).pack

theorem not_neg_sqrt (x : Float) : ¬x.sqrt < 0 := not_neg_iff.2 (notBelow_sqrt _).pack

end

end Toolpath.Binary
