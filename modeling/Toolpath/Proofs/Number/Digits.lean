import Mathlib.Algebra.Order.Ring.Nat
import Mathlib.Tactic.Ring
import Toolpath.Number.Decimal
import Toolpath.Proofs.Text.Run

/-!
# Runs of digits

The number that a run of digits denotes, and the run of digits of a number.
-/

namespace Toolpath.Decimal

open Text (isAsciiDigit isAsciiDigit_iff)

/-- A run of digits. -/
def Digits (ds : List Char) : Prop := ∀ d ∈ ds, isAsciiDigit d = true

/-! ## The number of a run -/

/-- Digits that are continued count by their place. -/
theorem valueFrom_eq (start : ℕ) (ds : List Char) :
    valueFrom start ds = start * 10 ^ ds.length + value ds := by
  rw [Nat.mul_comm]
  exact Nat.ofDigitChars_eq_ofDigitChars_zero

theorem valueFrom_value (ds es : List Char) : valueFrom (value ds) es = value (ds ++ es) :=
  (List.foldl_append ..).symm

theorem value_append (ds es : List Char) :
    value (ds ++ es) = value ds * 10 ^ es.length + value es := by
  rw [← valueFrom_value, valueFrom_eq]

theorem value_cons (d : Char) (ds : List Char) :
    value (d :: ds) = (d.toNat - '0'.toNat) * 10 ^ ds.length + value ds := by
  rw [value, valueFrom, List.foldl_cons, Nat.mul_zero, Nat.zero_add]
  exact valueFrom_eq _ ds

@[simp] theorem value_zeros (n : ℕ) : value (List.replicate n '0') = 0 := by
  induction n with
  | zero => rfl
  | succ n ih => rw [List.replicate_succ, value_cons, ih]; simp

theorem Digits.value_lt {ds : List Char} (h : Digits ds) : value ds < 10 ^ ds.length := by
  induction ds with
  | nil => decide
  | cons d ds ih =>
    have hd := isAsciiDigit_iff.1 (h d List.mem_cons_self)
    have hds := ih fun e he ↦ h e (List.mem_cons_of_mem d he)
    have hdigit : d.toNat - '0'.toNat ≤ 9 := by
      change d.toNat - 48 ≤ 9
      omega
    rw [value_cons, List.length_cons, pow_succ]
    have := Nat.mul_le_mul_right (10 ^ ds.length) hdigit
    omega

theorem digits_zeros (n : ℕ) : Digits (List.replicate n '0') := by
  intro d hd
  rw [List.eq_of_mem_replicate hd]
  decide

theorem Digits.append {ds es : List Char} (h : Digits ds) (h' : Digits es) : Digits (ds ++ es) :=
  fun d hd ↦ (List.mem_append.1 hd).elim (h d) (h' d)

/-! ## The run of a number -/

/-- The digits of a number denote it. -/
@[simp] theorem value_digits (n : ℕ) : value (digits n) = n := Nat.ofDigitChars_ten_toDigits

theorem digits_ne_nil (n : ℕ) : digits n ≠ [] := Nat.toDigits_ne_nil

theorem digits_digits (n : ℕ) : Digits (digits n) := by
  intro d hd
  have hdigit := Nat.isDigit_of_mem_toDigits (by decide) (by decide) hd
  simp only [Char.isDigit, Bool.and_eq_true, decide_eq_true_eq, ge_iff_le] at hdigit
  exact decide_eq_true hdigit

/-- A number has more digits than a power of ten that is not above it has zeros. -/
theorem lt_pow_length_digits (n : ℕ) : n < 10 ^ (digits n).length :=
  (Nat.length_toDigits_le_iff (by decide) Nat.length_toDigits_pos).1 (Nat.le_refl _)

theorem pow_length_digits_le {n : ℕ} (hn : 0 < n) : 10 ^ ((digits n).length - 1) ≤ n := by
  by_cases h : (digits n).length - 1 = 0
  · rw [h]
    exact hn
  · refine Nat.le_of_not_lt fun hlt ↦ ?_
    have hlength : (digits n).length ≤ (digits n).length - 1 :=
      (Nat.length_toDigits_le_iff (by decide) (Nat.pos_of_ne_zero h)).2 hlt
    omega

/-- The first digit of a positive number is not zero. -/
theorem exists_digits_cons {n : ℕ} (hn : 0 < n) : ∃ d ds, digits n = d :: ds ∧ d ≠ '0' := by
  cases hds : digits n with
  | nil => exact absurd hds (digits_ne_nil n)
  | cons d ds =>
    refine ⟨d, ds, rfl, ?_⟩
    rintro rfl
    have hlt : value ds < 10 ^ ds.length :=
      Digits.value_lt fun e he ↦ digits_digits n e (hds ▸ List.mem_cons_of_mem _ he)
    have hle := pow_length_digits_le hn
    have hvalue := value_digits n
    rw [hds, value_cons, Nat.sub_self, Nat.zero_mul, Nat.zero_add] at hvalue
    rw [hds, List.length_cons, Nat.add_sub_cancel] at hle
    omega

/-- The digits of a number have no needless zero. -/
theorem digits_leading (n : ℕ) : digits n = ['0'] ∨ ∃ d ds, digits n = d :: ds ∧ d ≠ '0' := by
  rcases Nat.eq_zero_or_pos n with rfl | hn
  · exact .inl rfl
  · exact .inr (exists_digits_cons hn)

end Toolpath.Decimal
