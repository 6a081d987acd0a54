import Toolpath.Program.Reader

/-!
# Lines that cut a character

The first two bytes of each part of a command to repeat are compared with `P=`. A part in which they
end inside a character has no such bytes, and the line cannot be read: `Statement.Cuts` says of the
text of a line that this happens, and `read_eq_cut_iff` that nothing else refuses a line that way.
-/

namespace Toolpath

open Text

/-- The bytes that a text takes up. -/
def Text.bytes : List Char → Nat
  | [] => 0
  | c :: cs => c.utf8Size + bytes cs

namespace Statement

/-! ## The first two bytes of a part -/

/-- A part is cut when it is longer than two bytes and none of its beginnings takes up two. -/
theorem cutsCharacter_iff (part : List Char) :
    cutsCharacter part = true ↔ 2 < bytes part ∧ ∀ n, bytes (part.take n) ≠ 2 := by
  match part with
  | [] => simp [cutsCharacter, bytes]
  | [c] =>
    simp only [cutsCharacter, decide_eq_true_eq, bytes, Nat.add_zero]
    constructor
    · intro h
      refine ⟨h, ?_⟩
      intro n
      cases n with
      | zero => simp [bytes]
      | succ n =>
        simp only [List.take_succ_cons, List.take_nil, bytes, Nat.add_zero]
        omega
    · rintro ⟨h, -⟩
      exact h
  | c :: d :: rest =>
    have hc := c.utf8Size_pos
    have hd := d.utf8Size_pos
    simp only [cutsCharacter, Bool.or_eq_true, Bool.and_eq_true, beq_iff_eq, decide_eq_true_eq,
      bytes]
    constructor
    · intro h
      refine ⟨by omega, ?_⟩
      intro n
      match n with
      | 0 => simp [bytes]
      | 1 =>
        simp only [List.take_succ_cons, List.take_zero, bytes]
        omega
      | n + 2 =>
        simp only [List.take_succ_cons, bytes]
        omega
    · rintro ⟨hlong, hnone⟩
      have hone := hnone 1
      have htwo := hnone 2
      simp only [List.take_succ_cons, List.take_zero, bytes, Nat.add_zero] at hone htwo
      omega

/-! ## The parts of a command to repeat -/

/-- Among the parts of a command to repeat, read from the left, one is cut before a count without a
value is found. -/
inductive CutsParts : List (List Char) → Prop where
  | here {part : List Char} {parts : List (List Char)} (h : cutsCharacter part = true) :
      CutsParts (part :: parts)
  | later {part : List Char} {parts : List (List Char)}
      (h : ∀ text, countText? part = some text → ∃ value, Value.read? text = some value)
      (rest : CutsParts parts) : CutsParts (part :: parts)

theorem cutsParts_cons_iff {part : List Char} {parts : List (List Char)} :
    CutsParts (part :: parts) ↔ cutsCharacter part = true ∨
      (∀ text, countText? part = some text → ∃ value, Value.read? text = some value) ∧
        CutsParts parts := by
  constructor
  · intro h
    cases h with
    | here h => exact .inl h
    | later h rest => exact .inr ⟨h, rest⟩
  · rintro (h | ⟨h, rest⟩)
    · exact .here h
    · exact .later h rest

theorem repeatParts_eq_cut_iff (count : Option Value) (parts : List (List Char)) :
    repeatParts count parts = .error .cutCharacter ↔ CutsParts parts := by
  induction parts generalizing count with
  | nil =>
    constructor
    · intro h
      cases h
    · intro h
      cases h
  | cons part parts ih =>
    rw [repeatParts, cutsParts_cons_iff]
    by_cases hcut : cutsCharacter part = true
    · rw [if_pos hcut]
      exact ⟨fun _ ↦ .inl hcut, fun _ ↦ rfl⟩
    · rw [if_neg hcut, or_iff_right hcut]
      cases countText? part with
      | none =>
        rw [and_iff_right (fun text h ↦ by cases h), ← ih count]
        dsimp only
        cases repeatParts count parts with
        | error refusal => exact ⟨fun h ↦ by cases h; rfl, fun h ↦ by cases h; rfl⟩
        | ok result => exact iff_of_false (fun h ↦ by cases h) (fun h ↦ by cases h)
      | some text =>
        cases hvalue : Value.read? text with
        | some value =>
          simp only [hvalue, ih]
          refine (and_iff_right fun text' h ↦ ?_).symm
          obtain rfl : text = text' := Option.some.inj h
          exact ⟨value, hvalue⟩
        | none =>
          simp only [hvalue]
          refine iff_of_false (fun h ↦ by cases h) ?_
          rintro ⟨h, -⟩
          obtain ⟨value, hv⟩ := h text rfl
          rw [hvalue] at hv
          cases hv

theorem readRepeat_eq_cut_iff (parts : List (List Char)) :
    (readRepeat parts).result = .error .cutCharacter ↔ CutsParts parts := by
  rw [readRepeat, ← repeatParts_eq_cut_iff none parts]
  split
  · rename_i refusal h
    rw [h]
    exact ⟨fun h ↦ by cases h; rfl, fun h ↦ by cases h; rfl⟩
  all_goals
    rename_i h
    rw [h]
    exact iff_of_false (fun h ↦ by cases h) (fun h ↦ by cases h)

/-! ## Other lines -/

theorem addAll_ne_cut (b : Block) (words : List Word) :
    (b.addAll words).result ≠ .error .cutCharacter := by
  induction words generalizing b with
  | nil =>
    intro h
    cases h
  | cons w words ih =>
    rw [Block.addAll]
    split
    · intro h
      cases h
    · exact ih _

theorem readBlock_ne_cut (code : List Char) : (Block.read code).result ≠ .error .cutCharacter := by
  rw [Block.read]
  dsimp only
  split
  · intro h
    cases h
  · exact addAll_ne_cut _ _

theorem readAction_eq_cut_iff (code : List Char) :
    (readAction code).result = .error .cutCharacter ↔
      ∃ first parts, tokens code = first :: parts ∧ sameLetters first "REPEAT".toList = true ∧
        CutsParts parts := by
  rw [readAction]
  cases tokens code with
  | nil => exact iff_of_false (fun h ↦ by cases h) (by rintro ⟨first, parts, h, -⟩; cases h)
  | cons first parts =>
    by_cases hrepeat : sameLetters first "REPEAT".toList = true
    · simp only [hrepeat, if_true, readRepeat_eq_cut_iff]
      constructor
      · intro h
        exact ⟨first, parts, rfl, hrepeat, h⟩
      · rintro ⟨first', parts', h, -, hc⟩
        cases h
        exact hc
    · refine iff_of_false ?_ ?_
      · dsimp only
        rw [if_neg hrepeat]
        split
        · dsimp only
          split
          all_goals
            intro h
            cases h
        · split
          · intro h
            dsimp only at h
            cases hb : (Block.read code).result with
            | error refusal =>
              rw [hb] at h
              cases h
              exact readBlock_ne_cut code hb
            | ok block =>
              rw [hb] at h
              cases h
          · intro h
            cases h
      · rintro ⟨first', parts', h, hr, -⟩
        cases h
        exact hrepeat hr

/-! ## Whole lines -/

/-- What is left of the text of a line without its comment and its labels. -/
def body (text : List Char) : List Char :=
  let code := closeUp (trim (stripComment (trim text)))
  (takeLabels code.length code).2

/-- The text of a line is a command to repeat that cuts one of its parts. -/
def Cuts (text : List Char) : Prop :=
  ∃ first parts, tokens (body text) = first :: parts ∧
    sameLetters first "REPEAT".toList = true ∧ CutsParts parts

theorem not_cuts_of_body_eq_nil {text : List Char} (h : body text = []) : ¬ Cuts text := by
  rintro ⟨first, parts, ht, -⟩
  rw [h] at ht
  cases ht

theorem readCode_eq_cut_iff (code : List Char) :
    (readCode code).result = .error .cutCharacter ↔
      (readAction (takeLabels code.length code).2).result = .error .cutCharacter := by
  rw [readCode]
  dsimp only
  cases (readAction (takeLabels code.length code).2).result with
  | error refusal => exact ⟨fun h ↦ by cases h; rfl, fun h ↦ by cases h; rfl⟩
  | ok action => exact iff_of_false (fun h ↦ by cases h) (fun h ↦ by cases h)

/-- A line is refused for a cut character exactly when it is a command to repeat that cuts one of
its parts. -/
theorem read_eq_cut_iff (text : List Char) :
    (read text).result = .error .cutCharacter ↔ Cuts text := by
  rw [read]
  split
  · rename_i h
    refine iff_of_false (fun h ↦ by cases h) (not_cuts_of_body_eq_nil ?_)
    rw [body, h]
    rfl
  · rename_i h
    refine iff_of_false (fun h ↦ by cases h) (not_cuts_of_body_eq_nil ?_)
    rw [body, h]
    rfl
  · rename_i h
    refine iff_of_false (fun h ↦ by cases h) (not_cuts_of_body_eq_nil ?_)
    rw [body, h]
    rfl
  · rw [readCode_eq_cut_iff, readAction_eq_cut_iff]
    rfl

end Statement

end Toolpath
