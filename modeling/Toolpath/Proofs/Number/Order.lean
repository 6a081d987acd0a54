import Mathlib
import Toolpath.Number.Exact
import Toolpath.Proofs.Number.Arithmetic

/-!
# The order of machine numbers

Every value but the undefined one has a rank, and a comparison compares ranks: `le_iff_rank?`,
`lt_iff_rank?`. So the numbers are in a total order, in which only the two zeros are not told apart
(`eq_or_zero_of_le_of_ge`). A difference of two numbers in their order is not above zero, however it
is rounded, and neither is its quotient by a number above zero (`not_pos_sub_div`).

`Scalar.Ordered` is what machine numbers share with an ordered field.
-/

namespace Toolpath

/-- Scalars whose numbers are in a total order. What is not in order with itself is no number. -/
class Scalar.Ordered (α : Type) [Scalar α] : Prop where
  le_trans {a b c : α} : a ≤ b → b ≤ c → a ≤ c
  le_total {a b : α} : a ≤ a → b ≤ b → a ≤ b ∨ b ≤ a
  lt_iff_le_not_ge {a b : α} : a < b ↔ a ≤ b ∧ ¬b ≤ a
  le_self_of_le {a b : α} : a ≤ b → a ≤ a ∧ b ≤ b
  le_self_of_isFinite {a : α} : Scalar.isFinite a = true → a ≤ a
  /-- No step leads from a number to one that is not below it. -/
  ceil_sub_div {a b q : α} : a ≤ b → 0 < q → Scalar.ceil ((a - b) / q) = 0

namespace Scalar.Ordered

variable {α : Type} [Scalar α] [Ordered α] {a b c : α}

theorem le_of_lt (h : a < b) : a ≤ b := (lt_iff_le_not_ge.1 h).1

theorem not_ge (h : a < b) : ¬b ≤ a := (lt_iff_le_not_ge.1 h).2

theorem lt_of_not_ge (ha : a ≤ a) (hb : b ≤ b) (h : ¬b ≤ a) : a < b :=
  lt_iff_le_not_ge.2 ⟨(le_total ha hb).resolve_right h, h⟩

theorem lt_of_le_of_lt (hab : a ≤ b) (hbc : b < c) : a < c :=
  lt_iff_le_not_ge.2 ⟨le_trans hab (le_of_lt hbc), fun hca ↦ not_ge hbc (le_trans hca hab)⟩

theorem lt_trans (hab : a < b) (hbc : b < c) : a < c := lt_of_le_of_lt (le_of_lt hab) hbc

end Scalar.Ordered

instance exactOrdered {K : Type} [Field K] [LinearOrder K] [IsStrictOrderedRing K]
    [FloorSemiring K] : Scalar.Ordered K where
  le_trans := le_trans
  le_total _ _ := le_total _ _
  lt_iff_le_not_ge := lt_iff_le_not_ge
  le_self_of_le _ := ⟨le_rfl, le_rfl⟩
  le_self_of_isFinite _ := le_rfl
  ceil_sub_div h hq := Nat.ceil_eq_zero.2 (div_nonpos_of_nonpos_of_nonneg (sub_nonpos.2 h) hq.le)

namespace Binary

open Float.Model (UnpackedFloat)
open Float.Model.UnpackedFloat

/-! ## Ranks -/

/-- The place of a value in the order of all values: its sign and whether it is infinite, then its
exponent, then its significand. -/
def rank? : UnpackedFloat → Option (ℤ ×ₗ ℤ ×ₗ ℤ)
  | .notANumber => none
  | .infinity s => some (toLex (s.apply 2, toLex (0, 0)))
  | .zero _ => some (toLex (0, toLex (0, 0)))
  | .finite s m e _ => some (toLex (s.apply 1, toLex (s.apply e, s.apply m)))

theorem unpacked_lt_iff {u v : UnpackedFloat} :
    u.lt v = true ↔ ∃ r s, rank? u = some r ∧ rank? v = some s ∧ r < s := by
  -- Between finite values of one sign both sides compare exponents, then significands; in the
  -- other cases constructors and signs decide.
  rcases u with s | _ | s | ⟨s, m, e, hm⟩ <;> rcases v with s' | _ | s' | ⟨s', m', e', hm'⟩ <;>
    (try cases s) <;> (try cases s') <;>
    simp [UnpackedFloat.lt, UnpackedFloat.compare, rank?, Sign.apply, Prod.Lex.toLex_lt_toLex,
      Ordering.then_eq_lt, Ordering.then_eq_gt, compare_lt_iff_lt, compare_gt_iff_gt]
  all_goals decide

theorem unpacked_le_iff {u v : UnpackedFloat} :
    u.le v = true ↔ ∃ r s, rank? u = some r ∧ rank? v = some s ∧ r ≤ s := by
  rcases u with s | _ | s | ⟨s, m, e, hm⟩ <;> rcases v with s' | _ | s' | ⟨s', m', e', hm'⟩ <;>
    (try cases s) <;> (try cases s') <;>
    simp [UnpackedFloat.le, UnpackedFloat.compare, rank?, Sign.apply, Prod.Lex.toLex_le_toLex,
      Ordering.isLE_then_iff_or, -Ordering.isLE_swap, Ordering.swap_then, Int.compare_swap,
      Nat.compare_swap, compare_lt_iff_lt, Nat.isLE_compare]
  all_goals first | decide | simp only [eq_comm]

section

variable {x y : Float}

theorem le_iff : x ≤ y ↔ x.toModel.unpack.le y.toModel.unpack = true := decide_eq_true_iff

theorem lt_iff_rank? : x < y ↔ ∃ r s, rank? x.toModel.unpack = some r ∧
    rank? y.toModel.unpack = some s ∧ r < s :=
  decide_eq_true_iff.trans unpacked_lt_iff

theorem le_iff_rank? : x ≤ y ↔ ∃ r s, rank? x.toModel.unpack = some r ∧
    rank? y.toModel.unpack = some s ∧ r ≤ s :=
  le_iff.trans unpacked_le_iff

end

/-! ## Signs -/

/-- A value above zero, infinite or not. -/
def isPos : UnpackedFloat → Bool
  | .infinity .positive | .finite .positive .. => true
  | _ => false

theorem unpacked_pos_iff {u : UnpackedFloat} :
    (UnpackedFloat.zero .positive).lt u = true ↔ isPos u = true := by
  rcases u with s | _ | s | ⟨s, m, e, hm⟩ <;> (try cases s) <;>
    simp [UnpackedFloat.lt, UnpackedFloat.compare, isPos]

theorem pos_iff {x : Float} : 0 < x ↔ isPos x.toModel.unpack = true :=
  decide_eq_true_iff.trans unpacked_pos_iff

theorem unpackSign_packComponents (s : Sign) (e : BitVec 11) (m : BitVec 52) :
    @unpackSign .binary64 (packComponents .binary64 s e m) = s.toBitVec := by
  apply BitVec.eq_of_toNat_eq
  rw [toNat_unpackSign]
  change (s.toBitVec ++ e ++ m : BitVec 64).toNat / _ = _
  rw [BitVec.toNat_append, BitVec.toNat_append, ← Nat.shiftLeft_add_eq_or_of_lt m.isLt,
    ← Nat.shiftLeft_add_eq_or_of_lt e.isLt]
  simp only [Nat.shiftLeft_eq]
  omega

/-- The sign of a value that is neither zero nor undefined. -/
def sign? : UnpackedFloat → Option Sign
  | .infinity s | .finite s .. => some s
  | .zero _ | .notANumber => none

theorem isPos_iff {u : UnpackedFloat} : isPos u = true ↔ sign? u = some .positive := by
  rcases u with s | _ | s | ⟨s, m, e, hm⟩ <;> (try cases s) <;> simp [isPos, sign?]

/-- What has been packed with a sign has no other. -/
theorem sign?_unpack_packComponents {s t : Sign} {e : BitVec 11} {m : BitVec 52}
    (h : sign? (unpack .binary64 (packComponents .binary64 s e m)) = some t) : s = t := by
  have hs : Sign.ofBitVec s.toBitVec = s := by cases s <;> rfl
  rw [unpack, unpackSign_packComponents] at h
  dsimp only at h
  rw [hs] at h
  split at h
  · split at h
    · exact Option.some.inj h
    · cases h
  · split at h
    · split at h
      · cases h
      · exact Option.some.inj h
    · exact Option.some.inj h

theorem sign?_of_pack {u : UnpackedFloat} {s : Sign}
    (h : sign? (unpack .binary64 (pack .binary64 u)) = some s) : sign? u = some s := by
  rcases u with t | _ | t | ⟨t, m, e, hm⟩
  case infinity => exact congrArg some (sign?_unpack_packComponents h)
  case notANumber => exact h
  case zero => cases t <;> exact h
  case finite =>
    refine congrArg some ?_
    rw [pack] at h
    dsimp only at h
    split at h
    · exact sign?_unpack_packComponents h
    · split at h <;> exact sign?_unpack_packComponents h

theorem sign?_roundWithAccuracy {s t : Sign} {m : ℕ} {e : ℤ} {accuracy : Accuracy}
    (h : sign? (roundWithAccuracy .binary64 s m e accuracy) = some t) : s = t := by
  rw [roundWithAccuracy] at h
  dsimp only at h
  split at h
  · cases h
  · exact Option.some.inj h

theorem isPos_of_pack {u : UnpackedFloat}
    (h : isPos (unpack .binary64 (pack .binary64 u)) = true) : isPos u = true :=
  isPos_iff.2 (sign?_of_pack (isPos_iff.1 h))

theorem isPos_roundWithAccuracy {s : Sign} {m : ℕ} {e : ℤ} {accuracy : Accuracy}
    (h : isPos (roundWithAccuracy .binary64 s m e accuracy) = true) : s = .positive :=
  sign?_roundWithAccuracy (isPos_iff.1 h)

theorem isPos_normalize {m e : ℤ}
    (h : isPos (Float.Model.UnpackedFloat.normalize .binary64 m e .positive) = true) : 0 < m := by
  rw [Float.Model.UnpackedFloat.normalize] at h
  split at h
  case h_1 => cases isPos_roundWithAccuracy h
  case h_2 => cases h
  case h_3 hm => exact compare_gt_iff_gt.1 hm

/-! ## Differences and quotients -/

/-- The significand has all its bits, unless the value is too small for that. -/
structure Canonical (m : ℕ) (e : ℤ) : Prop where
  low : -1074 ≤ e
  lt : m < 2 ^ 53
  eq_low : m < 2 ^ 52 → e = -1074

theorem canonical_of_unpack {b : BitVec 64} {s : Sign} {m : ℕ} {e : ℤ} {hm : 0 < m}
    (h : unpack .binary64 b = .finite s m e hm) : Canonical m e := by
  have hmantissa := toNat_unpackMantissa b
  have hbias : (Float.Model.Format.binary64.exponentBias : ℤ) = 1023 := rfl
  simp only [unpack] at h
  split at h
  · split at h <;> cases h
  split at h
  case isTrue he =>
    split at h
    · cases h
    · injection h with _ hm he'
      rw [he, hbias, BitVec.toNat_zero] at he'
      constructor <;> omega
  case isFalse he =>
    injection h with _ hm he'
    have happend : (1#1 ++ @unpackMantissa .binary64 b).toNat = 2 ^ 52 + b.toNat % 2 ^ 52 := by
      rw [BitVec.toNat_append, ← Nat.shiftLeft_add_eq_or_of_lt (BitVec.isLt _), hmantissa]
      rfl
    have hpos : (@unpackExponent .binary64 b).toNat ≠ 0 := fun h ↦ he (BitVec.eq_of_toNat_eq h)
    rw [happend] at hm
    constructor <;> omega

section

variable {s s' : Sign} {m m' : ℕ} {e e' : ℤ} (h : Canonical m e) (h' : Canonical m' e')
include h h'

/-- Exponent and significand are in the order of the numbers. -/
theorem shiftLeft_le_shiftLeft (hle : e < e' ∨ e = e' ∧ m ≤ m') :
    m <<< (e - min e e').toNat ≤ m' <<< (e' - min e e').toNat := by
  obtain ⟨hlow, hlt, -⟩ := h
  have hlong := h'.eq_low
  rcases hle with he | ⟨rfl, hm⟩
  · obtain ⟨k, hk⟩ := Int.eq_ofNat_of_zero_le (show 0 ≤ e' - e - 1 by omega)
    rw [min_eq_left he.le, sub_self, Int.toNat_zero, Nat.shiftLeft_zero,
      show (e' - e).toNat = k + 1 by omega, Nat.shiftLeft_eq, pow_succ]
    calc m ≤ m' * 2 := by omega
      _ ≤ m' * (2 ^ k * 2) := Nat.mul_le_mul_left _ (Nat.le_mul_of_pos_left _ (by positivity))
  · simpa using hm

theorem signed_le_signed (hle : toLex (s.apply 1, toLex (s.apply e, s.apply m)) ≤
      toLex (s'.apply 1, toLex (s'.apply e', s'.apply m'))) :
    s.apply (m <<< (e - min e e').toNat : ℕ) ≤ s'.apply (m' <<< (e' - min e e').toNat : ℕ) := by
  cases s <;> cases s' <;> simp only [Sign.apply, Prod.Lex.toLex_le_toLex] at hle ⊢
  case negative.negative =>
    rw [min_comm]
    exact neg_le_neg (Int.ofNat_le.2 (shiftLeft_le_shiftLeft h' h (by omega)))
  case negative.positive =>
    exact (neg_nonpos.2 (Int.natCast_nonneg _)).trans (Int.natCast_nonneg _)
  case positive.negative => omega
  case positive.positive => exact Int.ofNat_le.2 (shiftLeft_le_shiftLeft h h' (by omega))

end

/-- A difference of two numbers in their order is not above zero. -/
theorem isPos_sub {x y : Float.Model} (hle : x.unpack.le y.unpack = true) :
    isPos (sub .binary64 x.unpack y.unpack) = false := by
  have hx {s m e hm} (h : x.unpack = .finite s m e hm) := canonical_of_unpack h
  have hy {s m e hm} (h : y.unpack = .finite s m e hm) := canonical_of_unpack h
  generalize x.unpack = u at *
  generalize y.unpack = v at *
  rcases u with s | _ | s | ⟨s, m, e, hm⟩ <;> rcases v with s' | _ | s' | ⟨s', m', e', hm'⟩
  case finite.finite =>
    obtain ⟨r, r', hr, hr', hle⟩ := unpacked_le_iff.1 hle
    cases hr
    cases hr'
    have hsigned := signed_le_signed (hx rfl) (hy rfl) hle
    exact Bool.eq_false_iff.2 fun h ↦ (isPos_normalize h).not_ge (sub_nonpos.2 hsigned)
  -- Unless both are finite and not zero, the signs decide.
  all_goals
    try cases s
    all_goals
      try cases s'
      all_goals first | rfl | cases hle

/-- A quotient by a number above zero is not above zero unless the dividend is. -/
theorem isPos_div {u v : UnpackedFloat} (hu : isPos u = false) (hv : isPos v = true) :
    isPos (div .binary64 u v) = false := by
  rcases u with s | _ | s | ⟨s, m, e, hm⟩ <;> rcases v with s' | _ | s' | ⟨s', m', e', hm'⟩
  case finite.finite =>
    cases s with
    | positive => cases hu
    | negative =>
      cases s' with
      | negative => cases hv
      | positive => exact Bool.eq_false_iff.2 fun h ↦ by cases isPos_roundWithAccuracy h
  all_goals
    try cases s
    all_goals
      try cases s'
      all_goals first | rfl | (cases hu; done) | cases hv

theorem not_pos_sub_div {a b q : Float} (hab : a ≤ b) (hq : 0 < q) : ¬0 < (a - b) / q := by
  have hsub : isPos (a - b).toModel.unpack = false :=
    Bool.eq_false_iff.2 fun h ↦ by simpa [isPos_sub (le_iff.1 hab)] using isPos_of_pack h
  rw [pos_iff]
  exact fun h ↦ by simpa [isPos_div hsub (pos_iff.1 hq)] using isPos_of_pack h

/-- What is not above zero is cut off to zero. -/
theorem toUInt64_eq_zero {u : UnpackedFloat} (h : isPos u = false) : u.toUInt64 = 0 := by
  rcases u with s | _ | s | ⟨s, m, e, hm⟩
  case infinity =>
    cases s
    · rfl
    · cases h
  case notANumber => rfl
  case zero => rfl
  case finite =>
    cases s
    · simp [UnpackedFloat.toUInt64, toInt, roundToInt, Sign.apply]
      rfl
    · cases h

theorem ceil_of_not_pos {x : Float} (h : ¬0 < x) : ceil x = 0 := by
  have hfloor : floor x = 0 := by
    rw [pos_iff, Bool.not_eq_true] at h
    exact congrArg UInt64.toNat (toUInt64_eq_zero h)
  rw [ceil, hfloor]
  exact if_neg (not_and.2 fun hpos ↦ absurd hpos h)

/-! ## The order -/

theorem eq_of_unpack {a b : Float} (h : a.toModel.unpack = b.toModel.unpack) : a = b := by
  refine Float.toBits_inj.1 (UInt64.toBitVec_inj.1 ?_)
  calc a.toBits.toBitVec = pack .binary64 a.toModel.unpack :=
        (pack_unpack_of_valid a.toModel.valid).symm
    _ = pack .binary64 b.toModel.unpack := by rw [h]
    _ = b.toBits.toBitVec := pack_unpack_of_valid b.toModel.valid

theorem beq_zero_of_unpack {a : Float} {s : Sign} (h : a.toModel.unpack = .zero s) :
    (a == 0) = true := by
  change UnpackedFloat.beq a.toModel.unpack (.zero .positive) = true
  rw [h]
  rfl

/-- Only the zeros share a rank. -/
theorem eq_or_zero_of_rank? {u v : UnpackedFloat} {r : ℤ ×ₗ ℤ ×ₗ ℤ} (hu : rank? u = some r)
    (hv : rank? v = some r) : u = v ∨ (∃ s, u = .zero s) ∧ ∃ s, v = .zero s := by
  have h := hu.trans hv.symm
  clear hu hv
  rcases u with s | _ | s | ⟨s, m, e, hm⟩ <;> rcases v with s' | _ | s' | ⟨s', m', e', hm'⟩ <;>
    (try cases s) <;> (try cases s') <;> simp_all [rank?, Sign.apply]

/-- In the order of the numbers only the two zeros are not told apart. -/
theorem eq_or_zero_of_le_of_ge {a b : Float} (h : a ≤ b) (h' : b ≤ a) :
    a = b ∨ (a == 0) = true ∧ (b == 0) = true := by
  obtain ⟨r, s, hr, hs, hrs⟩ := le_iff_rank?.1 h
  obtain ⟨s', r', hs', hr', hsr⟩ := le_iff_rank?.1 h'
  cases hr.symm.trans hr'
  cases hs.symm.trans hs'
  cases hrs.antisymm hsr
  rcases eq_or_zero_of_rank? hr hs with h | ⟨⟨t, ha⟩, t', hb⟩
  · exact .inl (eq_of_unpack h)
  · exact .inr ⟨beq_zero_of_unpack ha, beq_zero_of_unpack hb⟩

instance : Scalar.Ordered Float where
  le_trans hab hbc := by
    obtain ⟨r, s, hr, hs, hrs⟩ := le_iff_rank?.1 hab
    obtain ⟨s', t, hs', ht, hst⟩ := le_iff_rank?.1 hbc
    cases hs.symm.trans hs'
    exact le_iff_rank?.2 ⟨r, t, hr, ht, hrs.trans hst⟩
  le_total ha hb := by
    obtain ⟨r, -, hr, -⟩ := le_iff_rank?.1 ha
    obtain ⟨s, -, hs, -⟩ := le_iff_rank?.1 hb
    rcases le_total r s with h | h
    · exact .inl (le_iff_rank?.2 ⟨r, s, hr, hs, h⟩)
    · exact .inr (le_iff_rank?.2 ⟨s, r, hs, hr, h⟩)
  lt_iff_le_not_ge := by
    intro a b
    constructor
    · intro h
      obtain ⟨r, s, hr, hs, hrs⟩ := lt_iff_rank?.1 h
      refine ⟨le_iff_rank?.2 ⟨r, s, hr, hs, hrs.le⟩, fun h ↦ ?_⟩
      obtain ⟨s', r', hs', hr', hsr⟩ := le_iff_rank?.1 h
      cases hr.symm.trans hr'
      cases hs.symm.trans hs'
      exact hsr.not_gt hrs
    · rintro ⟨hle, hge⟩
      obtain ⟨r, s, hr, hs, hrs⟩ := le_iff_rank?.1 hle
      exact lt_iff_rank?.2 ⟨r, s, hr, hs, lt_of_not_ge fun h ↦
        hge (le_iff_rank?.2 ⟨s, r, hs, hr, h⟩)⟩
  le_self_of_le h := by
    obtain ⟨r, s, hr, hs, -⟩ := le_iff_rank?.1 h
    exact ⟨le_iff_rank?.2 ⟨r, r, hr, hr, le_rfl⟩, le_iff_rank?.2 ⟨s, s, hs, hs, le_rfl⟩⟩
  le_self_of_isFinite := by
    intro a h
    change a.toModel.unpack.isFinite = true at h
    refine le_iff_rank?.2 ?_
    generalize a.toModel.unpack = u at h
    cases u with
    | notANumber => cases h
    | infinity | zero | finite => exact ⟨_, _, rfl, rfl, le_rfl⟩
  ceil_sub_div hab hq := ceil_of_not_pos (not_pos_sub_div hab hq)

end Binary

end Toolpath
