import Mathlib.Algebra.Order.Field.Rat
import Mathlib.Tactic.FieldSimp
import Mathlib.Tactic.Linarith
import Mathlib.Tactic.Positivity
import Toolpath.Number.Binary

/-!
# Natural numbers among binary values

A finite binary value is a rational number, `Decoded.rational?`. Its natural number is found by
arithmetic on naturals alone, and `natural?_eq_some_iff` says that this finds each value that is a
natural number and no other.
-/

namespace Toolpath.Binary.Decoded

/-- The rational number that a value is. -/
def rational? : Decoded → Option ℚ
  | .undefined | .infinite _ => none
  | .finite negative m q => some ((if negative then -1 else 1) * m * 2 ^ q)

/-- A value without a sign, or zero of either sign. -/
theorem natural?_eq_some_iff_of_nonneg {negative : Bool} {m n : ℕ} {q : ℤ}
    (h : (negative && m != 0) = false) :
    (finite negative m q).natural? = some n ↔ (m : ℚ) * 2 ^ q = n := by
  simp only [natural?, h, Bool.false_eq_true, if_false]
  split
  case isTrue hq =>
    obtain ⟨k, rfl⟩ := Int.eq_ofNat_of_zero_le hq
    rw [Option.some_inj, Int.toNat_natCast, zpow_natCast]
    constructor
    · intro hn
      rw [← hn]
      push_cast
      rfl
    · intro hn
      exact_mod_cast hn
  case isFalse hq =>
    obtain ⟨k, hk⟩ := Int.eq_ofNat_of_zero_le (show 0 ≤ -q by omega)
    have hpos : 0 < 2 ^ k := Nat.two_pow_pos k
    have hexact : (m : ℚ) * 2 ^ q = n ↔ m = n * 2 ^ k := by
      rw [show q = -(k : ℤ) by omega, zpow_neg, zpow_natCast, mul_inv_eq_iff_eq_mul₀ (by positivity)]
      exact_mod_cast Iff.rfl
    rw [hexact, hk, Int.toNat_natCast]
    split
    case isTrue hdvd =>
      rw [Option.some_inj]
      constructor
      · intro hn
        rw [← hn, Nat.div_mul_cancel (Nat.dvd_of_mod_eq_zero hdvd)]
      · intro hn
        rw [hn, Nat.mul_div_cancel _ hpos]
    case isFalse hdvd =>
      refine iff_of_false (fun hn => by cases hn) ?_
      intro hn
      exact hdvd (by rw [hn, Nat.mul_mod_left])

/-- The natural number of a value is found exactly when the value is one. -/
theorem natural?_eq_some_iff {d : Decoded} {n : ℕ} :
    d.natural? = some n ↔ d.rational? = some (n : ℚ) := by
  cases d with
  | undefined => exact iff_of_false (fun h => by cases h) (fun h => by cases h)
  | infinite negative => exact iff_of_false (fun h => by cases h) (fun h => by cases h)
  | finite negative m q =>
    rw [rational?, Option.some_inj]
    cases hbelow : negative && m != 0 with
    | false =>
      rw [natural?_eq_some_iff_of_nonneg hbelow]
      cases negative with
      | false => rw [if_neg Bool.false_ne_true, one_mul]
      | true =>
        obtain rfl : m = 0 := by simpa using hbelow
        simp
    | true =>
      obtain ⟨rfl, hm⟩ : negative = true ∧ m ≠ 0 := by simpa using hbelow
      refine iff_of_false (by simp [natural?, hm]) ?_
      have hvalue : 0 < (m : ℚ) * 2 ^ q :=
        mul_pos (Nat.cast_pos.2 (Nat.pos_of_ne_zero hm)) (zpow_pos two_pos q)
      have hn : (0 : ℚ) ≤ n := Nat.cast_nonneg n
      rw [if_pos rfl, neg_one_mul, neg_mul]
      intro h
      linarith

end Toolpath.Binary.Decoded
