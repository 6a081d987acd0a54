import Mathlib
import Toolpath.Json.Reader
import Toolpath.Json.Writer
import Toolpath.Proofs.Number.Point

/-!
# Numerals of JSON read back

A numeral is read back from its text: `numeral?_text`. The numerals that numbers are written by are
well formed, and a number in a machine word is found in its numeral again: `number?_ofNat`.
-/

namespace Toolpath.Json

open Text (isAsciiDigit takeWhile_append dropWhile_append)
open Decimal (Digits Pointed digits digits_digits digits_ne_nil digits_leading value_digits
  valueFrom valueFrom_eq point pointed_point pointed_zero)

/-- What may follow a number: nothing, or a character that could not continue it. -/
def Stops (rest : List Char) : Prop := ∀ c ∈ rest.head?, c ∈ [',', '\n']

theorem Stops.stop {rest : List Char} (h : Stops rest) {c : Char} (hc : c ∈ rest.head?) :
    isAsciiDigit c = false ∧ c ∉ ['.', 'e', 'E'] := by
  have hmem := h c hc
  simp only [List.mem_cons, List.not_mem_nil, or_false] at hmem
  rcases hmem with rfl | rfl <;> decide

namespace Numeral

/-- Digits stand wherever a number has them, and a zero that begins it stands alone. -/
structure WellFormed (n : Numeral) : Prop where
  digits_whole : Digits n.whole
  leading : n.whole = ['0'] ∨ ∃ d ds, n.whole = d :: ds ∧ d ≠ '0'
  frac : ∀ ds ∈ n.frac, Digits ds ∧ ds ≠ []
  exponent : ∀ e ∈ n.exponent, Digits e.2 ∧ e.2 ≠ []

theorem WellFormed.exists_cons_whole {n : Numeral} (h : n.WellFormed) :
    ∃ d ds, n.whole = d :: ds := by
  rcases h.leading with hw | ⟨d, ds, hw, -⟩
  · exact ⟨_, _, hw⟩
  · exact ⟨_, _, hw⟩

/-! ## Reading -/

/-- The point and the digits behind it. -/
def fracText (n : Numeral) : List Char := n.frac.elim [] ('.' :: ·)

/-- The mark, the sign and the digits of the exponent. -/
def exponentText (n : Numeral) : List Char :=
  n.exponent.elim [] fun e ↦ 'e' :: (if e.1 then '-' else '+') :: e.2

theorem text_eq (n : Numeral) :
    n.text = (if n.negative then ['-'] else []) ++ (n.whole ++ (n.fracText ++ n.exponentText)) := by
  obtain ⟨negative, whole, frac, exponent⟩ := n
  rcases frac with _ | ds <;> rcases exponent with _ | e <;>
  simp [text, fracText, exponentText]

section Reading

variable {n : Numeral} (h : n.WellFormed) {rest : List Char} (hrest : Stops rest)
include h hrest

theorem exponent?_text : exponent? (n.exponentText ++ rest) = some (n.exponent, rest) := by
  rw [exponentText]
  rcases he : n.exponent with _ | ⟨negative, ds⟩
  · cases rest with
    | nil => rfl
    | cons c rest =>
      have hc := (hrest.stop (c := c) rfl).2
      change exponent? (c :: rest) = some (none, c :: rest)
      unfold exponent?
      split
      · rename_i hh
        exact absurd (by rw [(List.cons.inj hh).1]; decide) hc
      · rename_i hh
        exact absurd (by rw [(List.cons.inj hh).1]; decide) hc
      · rfl
  · obtain ⟨hds, hne⟩ := h.exponent (negative, ds) he
    have htake := takeWhile_append hds fun c hc ↦ (hrest.stop hc).1
    have hdrop := dropWhile_append hds fun c hc ↦ (hrest.stop hc).1
    cases negative <;> simp [exponent?, htake, hdrop, hne]

omit h in
/-- Neither a point nor a digit follows what stands before an exponent. -/
theorem head_exponentText {c : Char} (hc : c ∈ (n.exponentText ++ rest).head?) :
    isAsciiDigit c = false ∧ c ≠ '.' := by
  rw [exponentText] at hc
  rcases he : n.exponent with _ | e
  · rw [he] at hc
    exact ⟨(hrest.stop hc).1, fun hpoint ↦ (hrest.stop hc).2 (by rw [hpoint]; decide)⟩
  · rw [he] at hc
    obtain rfl := Option.some.inj hc
    decide

theorem magnitude?_text :
    magnitude? n.negative (n.whole ++ (n.fracText ++ (n.exponentText ++ rest))) =
      some (n, rest) := by
  have hhead : ∀ c ∈ (n.fracText ++ (n.exponentText ++ rest)).head?, isAsciiDigit c = false := by
    intro c hc
    rw [fracText] at hc
    rcases hf : n.frac with _ | ds
    · rw [hf] at hc
      exact (head_exponentText hrest hc).1
    · rw [hf] at hc
      obtain rfl := Option.some.inj hc
      decide
  have hleading : (n.whole.isEmpty || (n.whole.head? == some '0' && decide (1 < n.whole.length))) =
      false := by
    rcases h.leading with hw | ⟨d, ds, hw, hd⟩
    · rw [hw]
      rfl
    · simp [hw, hd]
  have hexponent := exponent?_text h hrest
  simp only [magnitude?, takeWhile_append h.digits_whole hhead,
    dropWhile_append h.digits_whole hhead, hleading]
  rw [if_neg Bool.false_ne_true, fracText]
  rcases hf : n.frac with _ | ds
  · simp only [Option.elim_none, List.nil_append]
    split
    · rename_i more hmore
      exact absurd rfl (head_exponentText (n := n) hrest (c := '.') (by rw [hmore]; rfl)).2
    · rw [hexponent, ← hf]
      rfl
  · obtain ⟨hds, hne⟩ := h.frac ds hf
    have hstop : ∀ c ∈ (n.exponentText ++ rest).head?, isAsciiDigit c = false :=
      fun c hc ↦ (head_exponentText hrest hc).1
    simp only [Option.elim_some, List.cons_append, takeWhile_append hds hstop,
      dropWhile_append hds hstop, List.isEmpty_eq_false_iff.2 hne, hexponent]
    rw [if_neg Bool.false_ne_true, ← hf]
    rfl

/-- A numeral is read back from its text. -/
theorem numeral?_text : numeral? (n.text ++ rest) = some (n, rest) := by
  have hmagnitude := magnitude?_text h hrest
  simp only [text_eq, List.append_assoc]
  cases hneg : n.negative with
  | true =>
    rw [hneg] at hmagnitude
    exact hmagnitude
  | false =>
    rw [hneg] at hmagnitude
    obtain ⟨d, ds, hwhole⟩ := h.exists_cons_whole
    have hd : isAsciiDigit d = true := h.digits_whole d (hwhole ▸ List.mem_cons_self)
    rw [if_neg Bool.false_ne_true, List.nil_append, ← hmagnitude, hwhole]
    refine numeral?.eq_2 _ fun cs hh ↦ ?_
    rw [(List.cons.inj hh).1] at hd
    exact absurd hd (by decide)

end Reading

/-- A numeral begins with a sign or a digit. -/
theorem exists_cons_text {n : Numeral} (h : n.WellFormed) :
    ∃ c cs, n.text = c :: cs ∧ (c = '-' ∨ isAsciiDigit c = true) := by
  rw [text_eq]
  cases n.negative with
  | true => exact ⟨_, _, rfl, .inl rfl⟩
  | false =>
    obtain ⟨d, ds, hwhole⟩ := h.exists_cons_whole
    rw [hwhole]
    exact ⟨d, _, rfl, .inr (h.digits_whole d (hwhole ▸ List.mem_cons_self))⟩

/-! ## The numerals of numbers -/

theorem wellFormed_ofNat (n : ℕ) : (ofNat n).WellFormed where
  digits_whole := digits_digits n
  leading := digits_leading n
  frac := by rintro ds ⟨⟩
  exponent := by rintro e ⟨⟩

/-- In the middle range digits are written with a point among them. -/
theorem ofDigits_eq_point {k : ℤ} (h : ¬(16 < k ∨ k < -4)) (negative : Bool) (ds : List Char) :
    ofDigits negative ds k =
      { negative, whole := (point ds k).1, frac := some (point ds k).2 } := by
  unfold ofDigits point
  rw [if_neg h]
  split
  · rfl
  · split <;> rfl

theorem wellFormed_ofDigits (negative : Bool) {n : ℕ} (hn : 0 < n) (k : ℤ) :
    (ofDigits negative (digits n) k).WellFormed := by
  by_cases hk : 16 < k ∨ k < -4
  · obtain ⟨d, ds, hds, hd⟩ := Decimal.exists_digits_cons hn
    have hdigits : Digits (d :: ds) := hds ▸ digits_digits n
    rw [ofDigits, if_pos hk, hds]
    refine ⟨hdigits.take 1, .inr ⟨d, [], rfl, hd⟩, fun es hes ↦ ?_, fun e he ↦ ?_⟩
    · cases ds with
      | nil => cases hes
      | cons c ds =>
        obtain rfl := Option.some.inj hes
        exact ⟨hdigits.drop 1, List.cons_ne_nil _ _⟩
    · obtain rfl := Option.some.inj he
      exact ⟨digits_digits _, digits_ne_nil _⟩
  · have hpoint := pointed_point hn k
    rw [ofDigits_eq_point hk]
    refine ⟨hpoint.digits_whole, hpoint.leading, fun es hes ↦ ?_, fun e he ↦ ?_⟩
    · obtain rfl := Option.some.inj hes
      exact ⟨hpoint.digits_frac, hpoint.frac_ne_nil⟩
    · cases he

theorem wellFormed_ofFloat? {x : Float} {n : Numeral} (h : ofFloat? x = some n) :
    n.WellFormed := by
  unfold ofFloat? at h
  split at h
  · rename_i negative m q hx
    split at h
    · obtain rfl := Option.some.inj h
      refine ⟨pointed_zero.digits_whole, pointed_zero.leading, fun es hes ↦ ?_, fun e he ↦ ?_⟩
      · obtain rfl := Option.some.inj hes
        exact ⟨pointed_zero.digits_frac, pointed_zero.frac_ne_nil⟩
      · cases he
    · rename_i hm
      obtain rfl := Option.some.inj h
      exact wellFormed_ofDigits negative (Binary.shortest_pos hx hm rfl) _
  · cases h

/-- Digits that denote no number above the range are taken in one after another. -/
theorem absorb_eq {start : ℕ} {ds : List Char} (h : valueFrom start ds ≤ greatest) :
    absorb start ds = (valueFrom start ds, []) := by
  induction ds generalizing start with
  | nil => rfl
  | cons d ds ih =>
    have hstep : valueFrom start (d :: ds) = valueFrom (valueFrom start [d]) ds := rfl
    have hle : valueFrom start [d] ≤ valueFrom start (d :: ds) := by
      rw [hstep, valueFrom_eq (valueFrom start [d])]
      exact Nat.le_add_right_of_le (Nat.le_mul_of_pos_right _ (by positivity))
    rw [absorb, if_neg (Nat.not_lt.2 (hle.trans h)), ih (hstep ▸ h), hstep]

/-- A number in a machine word is found again. -/
theorem number?_ofNat {n : ℕ} (hn : n < 2 ^ 64) : (ofNat n).number? = some (.natural n) := by
  have hvalue : valueFrom 0 (digits n) = n := value_digits n
  have habsorb : absorb 0 (digits n) = (n, []) := by
    rw [absorb_eq, hvalue]
    rw [hvalue, greatest]
    omega
  simp [number?, ofNat, habsorb]

end Numeral

end Toolpath.Json
