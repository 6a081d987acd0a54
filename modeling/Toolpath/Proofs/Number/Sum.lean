import Mathlib
import Toolpath.Proofs.Number.Sign

/-!
# Sums and differences, rounded

A sum of two machine numbers that are not below zero is their sum rounded once, and so is a
difference of the greater and the lesser: `Unsigned.add`, `Unsigned.sub`. As rounding keeps the
order, a number below what is left of a length does not go beyond the length when it is added
(`add_le_of_lt_sub`), although both the rest and the sum may have been rounded.

`Analytic.Metric` is what machine numbers share with the reals in which lengths and times are
measured.
-/

namespace Toolpath

namespace Binary

open Float.Model (UnpackedFloat)
open Float.Model.UnpackedFloat

/-! ## Values without a sign -/

/-- The bits of a value without its sign. -/
def packed (u : UnpackedFloat) : ℕ := (pack .binary64 u).toNat % 2 ^ 63

theorem packed_eq_near {u : UnpackedFloat} {r : ℚ}
    (h : (pack .binary64 u).toNat = binary64.near r) : packed u = binary64.near r := by
  rw [packed, h]
  exact Nat.mod_eq_of_lt ((Format.nearest_le_top _ _).trans_lt (by decide))

theorem packed_normalize (n : ℕ) (e : ℤ) :
    packed (Float.Model.UnpackedFloat.normalize .binary64 n e .positive) =
      binary64.near (n * 2 ^ e) := by
  rcases Nat.eq_zero_or_pos n with rfl | hn
  · rw [show ((0 : ℕ) : ℚ) * 2 ^ e = 0 by simp]
    rfl
  · exact packed_eq_near (toNat_pack_normalize hn)

theorem packed_zero (s : Sign) : packed (.zero s) = 0 := by cases s <;> rfl

theorem packed_finite {m : ℕ} {e : ℤ} (hm : 0 < m) (h : Canonical m e) :
    packed (.finite .positive m e hm) = min ((e + 1074).toNat * 2 ^ 52 + m) binary64.top := by
  rw [packed, toNat_pack_finite hm h.lt h.low h.eq_low, top_binary64]
  exact Nat.mod_eq_of_lt (by omega)

theorem packed_unpack (x : Float) : packed x.toModel.unpack = x.toBits.toNat % 2 ^ 63 := by
  have hbits : pack .binary64 x.toModel.unpack = x.toBits.toBitVec :=
    pack_unpack_of_valid x.toModel.valid
  rw [packed, hbits, UInt64.toNat_toBitVec]

theorem packed_lt_iff {x : Float} : packed x.toModel.unpack < binary64.top ↔ x.isFinite = true := by
  rw [packed_unpack]
  exact isFinite_iff.symm

theorem shiftLeft_mul_zpow (m : ℕ) {e low : ℤ} (h : low ≤ e) :
    ((m <<< (e - low).toNat : ℕ) : ℚ) * 2 ^ low = m * 2 ^ e := by
  obtain ⟨k, rfl⟩ := Int.le.dest h
  rw [add_sub_cancel_left, Int.toNat_natCast, Nat.shiftLeft_eq, zpow_add₀ two_ne_zero, zpow_natCast]
  push_cast
  ring

/-- The number that a finite value is if it is not below zero. -/
inductive Unsigned : UnpackedFloat → ℚ → Prop
  | zero (s : Sign) : Unsigned (.zero s) 0
  | finite {m : ℕ} {e : ℤ} (hm : 0 < m) (h : Canonical m e) :
    Unsigned (.finite .positive m e hm) (m * 2 ^ e)

theorem exists_unsigned {x : Float} (h : ¬x < 0) (hf : x.isFinite = true) :
    ∃ r, Unsigned x.toModel.unpack r := by
  have hx {s m e hm} (h : x.toModel.unpack = .finite s m e hm) := canonical_of_unpack h
  rw [not_neg_iff] at h
  change x.toModel.unpack.isFinite = true at hf
  generalize x.toModel.unpack = u at *
  rcases u with s | _ | s | ⟨s, m, e, hm⟩
  case infinity => cases hf
  case notANumber => cases hf
  case zero => exact ⟨0, .zero s⟩
  case finite =>
    obtain rfl := h.positive
    exact ⟨_, .finite hm (hx rfl)⟩

namespace Unsigned

variable {u v : UnpackedFloat} {r s : ℚ} (hu : Unsigned u r) (hv : Unsigned v s)
include hu

/-- A value is nearest to its number. -/
theorem pack : packed u = binary64.near r := by
  cases hu with
  | zero s => cases s <;> rfl
  | @finite m e hm h =>
    have hplace : binary64.place (m * 2 ^ e) = e := by
      rw [Format.place, log_natCast_mul_zpow hm, fraction_binary64, bottom_binary64]
      have hlow := h.low
      have hlog := (Nat.log2_lt hm.ne').2 h.lt
      by_cases hfew : m < 2 ^ 52
      · have := h.eq_low hfew
        have := (Nat.log2_lt hm.ne').2 hfew
        omega
      · have := (Nat.le_log2 hm.ne').2 (Nat.le_of_not_lt hfew)
        omega
    rw [packed_finite hm h, Format.near_multiple hm hplace]
    rfl

include hv

/-- A sum is rounded once. -/
theorem add : packed (add .binary64 u v) = binary64.near (r + s) := by
  cases hu with
  | zero t =>
    rw [zero_add, ← hv.pack]
    cases hv with
    | zero t' => cases t <;> cases t' <;> rfl
    | finite => rfl
  | @finite m e hm h =>
    cases hv with
    | zero =>
      rw [add_zero]
      exact (Unsigned.finite hm h).pack
    | @finite m' e' hm' h' =>
      rw [← shiftLeft_mul_zpow m (min_le_left e e'), ← shiftLeft_mul_zpow m' (min_le_right e e'),
        ← add_mul, ← Nat.cast_add, ← packed_normalize]
      rfl

/-- A difference is rounded once. -/
theorem sub (h : s ≤ r) : packed (sub .binary64 u v) = binary64.near (r - s) := by
  cases hu with
  | zero t =>
    cases hv with
    | zero t' =>
      rw [sub_zero]
      cases t <;> cases t' <;> rfl
    | finite hm => exact absurd h (not_le.2 (by positivity))
  | @finite m e hm hc =>
    cases hv with
    | zero =>
      rw [sub_zero]
      exact (Unsigned.finite hm hc).pack
    | @finite m' e' hm' hc' =>
      rw [← shiftLeft_mul_zpow m (min_le_left e e'), ← shiftLeft_mul_zpow m' (min_le_right e e')]
        at h ⊢
      have hle : m' <<< (e' - min e e').toNat ≤ m <<< (e - min e e').toNat := by
        exact_mod_cast le_of_mul_le_mul_right h (by positivity)
      rw [← sub_mul, ← Nat.cast_sub hle, ← packed_normalize, Int.ofNat_sub hle]
      rfl

/-- Values are in the order of their numbers. -/
theorem le (h : u.le v = true) : r ≤ s := by
  cases hu with
  | zero =>
    cases hv with
    | zero => exact le_rfl
    | finite => positivity
  | @finite m e hm hc =>
    cases hv with
    | zero => cases h
    | @finite m' e' hm' hc' =>
      obtain ⟨r, r', hr, hr', hle⟩ := unpacked_le_iff.1 h
      cases hr
      cases hr'
      have hsigned := signed_le_signed hc hc' hle
      rw [← shiftLeft_mul_zpow m (min_le_left e e'), ← shiftLeft_mul_zpow m' (min_le_right e e')]
      gcongr
      exact Int.ofNat_le.1 hsigned

/-- Values are in the order of their bits. -/
theorem le_of_packed (h : packed u ≤ packed v) (hlt : packed v < binary64.top) :
    u.le v = true := by
  rw [top_binary64] at hlt
  cases hu with
  | zero t =>
    cases hv with
    | zero t' => cases t <;> cases t' <;> rfl
    | finite => cases t <;> rfl
  | @finite m e hm hc =>
    rw [packed_finite hm hc, top_binary64] at h
    cases hv with
    | zero t' =>
      rw [packed_zero] at h
      omega
    | @finite m' e' hm' hc' =>
      rw [packed_finite hm' hc', top_binary64] at h hlt
      obtain ⟨hlow, -, hfew⟩ := hc
      obtain ⟨hlow', hlt', -⟩ := hc'
      refine unpacked_le_iff.2 ⟨_, _, rfl, rfl, ?_⟩
      refine Prod.Lex.toLex_le_toLex.2 (.inr ⟨rfl, Prod.Lex.toLex_le_toLex.2 ?_⟩)
      simp only [Sign.apply]
      omega

end Unsigned

/-! ## Machine numbers -/

theorem le_of_packed {x y : Float} (hx : ¬x < 0) (hy : ¬y < 0) (hf : y.isFinite = true)
    (h : packed x.toModel.unpack ≤ packed y.toModel.unpack) : x ≤ y := by
  have hlt := packed_lt_iff.2 hf
  obtain ⟨r, hr⟩ := exists_unsigned hx (packed_lt_iff.1 (h.trans_lt hlt))
  obtain ⟨s, hs⟩ := exists_unsigned hy hf
  exact le_iff.2 (hr.le_of_packed hs h hlt)

/-- Nothing is above infinity. -/
theorem isFinite_of_lt {x y : Float} (hx : ¬x < 0) (h : x < y) : x.isFinite = true := by
  replace h : x.toModel.unpack.lt y.toModel.unpack = true := decide_eq_true_iff.1 h
  rw [not_neg_iff] at hx
  change x.toModel.unpack.isFinite = true
  generalize x.toModel.unpack = u at *
  generalize y.toModel.unpack = v at *
  rcases u with s | _ | s | ⟨s, m, e, hm⟩
  case notANumber => cases h
  case zero => rfl
  case finite => rfl
  case infinity =>
    cases s with
    | negative => exact absurd rfl hx
    | positive =>
      rcases v with s | _ | s | ⟨s, m, e, hm⟩
      case notANumber => cases h
      all_goals cases s <;> cases h

theorem lt_infinity {x : Float} (hx : x.isFinite = true) : x < Float.ofBits 0x7FF0000000000000 := by
  refine decide_eq_true_iff.2 ?_
  change x.toModel.unpack.isFinite = true at hx
  change x.toModel.unpack.lt (.infinity .positive) = true
  generalize x.toModel.unpack = u at *
  rcases u with s | _ | s | ⟨s, m, e, hm⟩
  case infinity => cases hx
  case notANumber => cases hx
  case zero => rfl
  case finite => rfl

/-- What is less than the remainder does not go too far, rounded as both may be. -/
theorem add_le_of_lt_sub {a b d : Float} (ha : 0 ≤ a) (hab : a ≤ b) (hb : b.isFinite = true)
    (hd : ¬d < 0) (h : d < b - a) : a + d ≤ b := by
  have ha' : ¬a < 0 := fun hlt ↦ Scalar.Ordered.not_ge hlt ha
  have hb' : ¬b < 0 := fun hlt ↦ Scalar.Ordered.not_ge hlt (Scalar.Ordered.le_trans ha hab)
  have hba : ¬b < a := fun hlt ↦ Scalar.Ordered.not_ge hlt hab
  have hfa : a.isFinite = true :=
    isFinite_of_lt ha' (Scalar.Ordered.lt_of_le_of_lt hab (lt_infinity hb))
  have hfd := isFinite_of_lt hd h
  obtain ⟨r, hr⟩ := exists_unsigned ha' hfa
  obtain ⟨s, hs⟩ := exists_unsigned hb' hb
  obtain ⟨t, ht⟩ := exists_unsigned hd hfd
  have hsum : packed (a + d).toModel.unpack = binary64.near (r + t) := by
    rw [packed_unpack]
    exact hr.add ht
  have hdiff : packed (b - a).toModel.unpack = binary64.near (s - r) := by
    rw [packed_unpack]
    exact hs.sub hr (hr.le hs (le_iff.1 hab))
  -- Rounding keeps the order, and the values that are compared with are their own rounding.
  rcases le_or_gt (r + t) s with hle | hlt
  · refine le_of_packed (not_neg_add ha' hd) hb' hb ?_
    rw [hsum, hs.pack]
    gcongr
  · refine absurd (le_of_packed (not_neg_sub hba) hd hfd ?_) (Scalar.Ordered.not_ge h)
    rw [hdiff, ht.pack]
    gcongr
    linarith

end Binary

/-- Scalars that lengths and times are measured in. -/
class Analytic.Metric (α : Type) [Analytic α] : Prop extends Scalar.Ordered α where
  zero_le_zero : (0 : α) ≤ 0
  not_neg_natCast (n : ℕ) : ¬(n : α) < 0
  not_neg_add {a b : α} : ¬a < 0 → ¬b < 0 → ¬a + b < 0
  not_neg_sub {a b : α} : ¬a < b → ¬a - b < 0
  not_neg_mul {a b : α} : ¬a < 0 → ¬b < 0 → ¬a * b < 0
  not_neg_div_natCast {a : α} : ¬a < 0 → ∀ n : ℕ, ¬a / n < 0
  not_neg_sqrt (a : α) : ¬Analytic.sqrt a < 0
  /-- What is less than the remainder does not go too far. -/
  add_le_of_lt_sub {a b d : α} : 0 ≤ a → a ≤ b → Scalar.isFinite b = true → ¬d < 0 → d < b - a →
    a + d ≤ b

namespace Analytic.Metric

variable {α : Type} [Analytic α] [Metric α] {a : α}

theorem nonneg (ha : a ≤ a) (h : ¬a < 0) : 0 ≤ a := by
  by_contra hle
  exact h (Scalar.Ordered.lt_of_not_ge ha zero_le_zero hle)

theorem not_neg (h : 0 ≤ a) : ¬a < 0 := fun hlt ↦ Scalar.Ordered.not_ge hlt h

theorem not_neg_of_isPositive (h : Scalar.isPositive a = true) : ¬a < 0 :=
  not_neg (Scalar.Ordered.le_of_lt (of_decide_eq_true (Bool.and_eq_true_iff.1 h).2))

end Analytic.Metric

noncomputable instance : Analytic.Metric ℝ where
  zero_le_zero := le_rfl
  not_neg_natCast n := not_lt.2 n.cast_nonneg
  not_neg_add ha hb := not_lt.2 (add_nonneg (not_lt.1 ha) (not_lt.1 hb))
  not_neg_sub h := not_lt.2 (sub_nonneg.2 (not_lt.1 h))
  not_neg_mul ha hb := not_lt.2 (mul_nonneg (not_lt.1 ha) (not_lt.1 hb))
  not_neg_div_natCast ha n := not_lt.2 (div_nonneg (not_lt.1 ha) n.cast_nonneg)
  not_neg_sqrt a := not_lt.2 a.sqrt_nonneg
  add_le_of_lt_sub _ _ _ _ h := (lt_sub_iff_add_lt'.1 h).le

instance : Analytic.Metric Float where
  zero_le_zero := by decide +kernel
  not_neg_natCast := Binary.not_neg_ofNat
  not_neg_add := Binary.not_neg_add
  not_neg_sub := Binary.not_neg_sub
  not_neg_mul := Binary.not_neg_mul
  not_neg_div_natCast := Binary.not_neg_div_ofNat
  not_neg_sqrt := Binary.not_neg_sqrt
  add_le_of_lt_sub := Binary.add_le_of_lt_sub

end Toolpath
