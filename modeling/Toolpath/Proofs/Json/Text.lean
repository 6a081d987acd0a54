import Mathlib.Tactic.IntervalCases
import Toolpath.Json.Reader
import Toolpath.Json.Writer

/-!
# Texts of JSON read back

A text between quotes is read back, whatever characters it has: `string?_quoted`. Characters are
escaped one by one, and none of them is half of a pair of units.
-/

namespace Toolpath.Json

theorem hex4?_hex4 {n : ℕ} (hn : n < 0x20) :
    ∃ a b c d, hex4 n = [a, b, c, d] ∧ hex4? a b c d = some n := by
  interval_cases n <;> exact ⟨_, _, _, _, rfl, by decide⟩

/-- The unit of an escaped character is its number. -/
theorem units?_escape (c : Char) (rest : List Char) :
    units? (escape c ++ rest) = (units? rest).map fun (units, rest) ↦ (c.toNat :: units, rest) := by
  unfold escape
  split
  case h_8 hquote hslash _ _ _ _ _ =>
    split
    case isTrue hcontrol =>
      obtain ⟨a, b, d, e, hhex, hread⟩ := hex4?_hex4 hcontrol
      simp only [hhex, List.cons_append, List.nil_append, units?, hread]
    case isFalse hplain =>
      rw [List.singleton_append, units?.eq_5 _ _ hquote (fun _ _ _ _ _ h ↦ absurd h hslash)
        (fun _ _ h ↦ absurd h hslash), if_neg hplain]
  all_goals rfl

theorem units?_flatMap_escape (cs rest : List Char) :
    units? (cs.flatMap escape ++ '"' :: rest) = some (cs.map Char.toNat, rest) := by
  induction cs with
  | nil => rfl
  | cons c cs ih =>
    rw [List.flatMap_cons, List.append_assoc, units?_escape, ih]
    rfl

/-- No character is half of a pair. -/
theorem half_toNat (c : Char) : isLeading c.toNat = false ∧ isTrailing c.toNat = false := by
  have hvalid : c.toNat < 55296 ∨ 57343 < c.toNat ∧ c.toNat < 1114112 := c.valid
  simp only [isLeading, isTrailing, decide_eq_false_iff_not]
  omega

theorem ofUnits?_map_toNat (cs : List Char) : ofUnits? (cs.map Char.toNat) = some cs := by
  induction cs with
  | nil => rfl
  | cons c cs ih =>
    obtain ⟨hleading, htrailing⟩ := half_toNat c
    cases cs with
    | nil => simp [ofUnits?, hleading, htrailing, Char.ofNat_toNat]
    | cons d cs =>
      rw [List.map_cons, List.map_cons, ofUnits?, hleading, htrailing, ← List.map_cons, ih]
      simp [Char.ofNat_toNat]

/-- A text between quotes is read back behind the first quote. -/
theorem string?_quoted (t : Option String) :
    ∃ cs, quoted t = '"' :: cs ∧ ∀ rest, string? (cs ++ rest) = some (t, rest) := by
  cases t with
  | none => exact ⟨_, rfl, fun rest ↦ rfl⟩
  | some t =>
    refine ⟨_, rfl, fun rest ↦ ?_⟩
    rw [List.append_assoc, List.singleton_append, string?, units?_flatMap_escape, Option.map_some]
    simp only [ofUnits?_map_toNat, Option.map_some, String.ofList_toList]

end Toolpath.Json
