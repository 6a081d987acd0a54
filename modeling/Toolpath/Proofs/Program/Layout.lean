import Toolpath.Proofs.Program.Written
import Toolpath.Proofs.Text.Run

/-!
# Layout

What the steps around the recognition of a statement do to text in general: the cutting of blanks
and comments, the closing up of `=`, the cutting into tokens, and the taking of labels.

Names, keywords and numbers are made of solid characters. These are never blank, and are none of
the signs that a line is taken apart at.
-/

namespace Toolpath

open Text

namespace Text

/-- A character of names and numbers. -/
def isSolid (c : Char) : Bool := Statement.isNamePart c || Word.isLiteral c

/-- A text of solid characters. -/
def Solid (cs : List Char) : Prop := ∀ c ∈ cs, isSolid c = true

/-- A text that begins with a solid character. -/
def Starts (cs : List Char) : Prop := ∃ c rest, cs = c :: rest ∧ isSolid c = true

/-- A text with something at its end that is not blank. -/
def Ends (cs : List Char) : Prop := ∃ init c, cs = init ++ [c] ∧ isBlank c = false

/-! ## Characters -/

theorem isSolid_of_isNamePart {c : Char} (h : Statement.isNamePart c = true) :
    isSolid c = true := by
  simp [isSolid, h]

theorem isSolid_of_isLiteral {c : Char} (h : Word.isLiteral c = true) : isSolid c = true := by
  simp [isSolid, h]

theorem isSolid_of_isAsciiLetter {c : Char} (h : isAsciiLetter c = true) : isSolid c = true :=
  isSolid_of_isNamePart (by simp [Statement.isNamePart, Statement.isNameStart, h])

theorem toNat_of_isSolid {c : Char} (h : isSolid c = true) : 43 ≤ c.toNat ∧ c.toNat ≤ 122 := by
  simp only [isSolid, Statement.isNamePart, Statement.isNameStart, Word.isLiteral, Bool.or_eq_true,
    beq_iff_eq, isAsciiLetter_iff, isAsciiDigit_iff] at h
  rcases h with (((h | h) | rfl) | h) | (((h | rfl) | rfl) | rfl)
  · omega
  · omega
  · decide
  · omega
  · omega
  · decide
  · decide
  · decide

theorem not_isBlank_of_isSolid {c : Char} (h : isSolid c = true) : isBlank c = false := by
  have := toNat_of_isSolid h
  simp only [isBlank, Bool.or_eq_false_iff, decide_eq_false_iff_not, beq_eq_false_iff_ne]
  omega

theorem not_isAsciiDigit_of_not_isLiteral {c : Char} (h : Word.isLiteral c = false) :
    isAsciiDigit c = false := by
  simp only [Word.isLiteral, Bool.or_eq_false_iff] at h
  exact h.1.1.1

theorem not_isLiteral_of_isAsciiLetter {c : Char} (h : isAsciiLetter c = true) :
    Word.isLiteral c = false := by
  rw [isAsciiLetter_iff] at h
  refine Bool.eq_false_iff.2 fun hliteral => ?_
  simp only [Word.isLiteral, Bool.or_eq_true, isAsciiDigit_iff, beq_iff_eq] at hliteral
  rcases hliteral with ((hdigit | rfl) | rfl) | rfl
  · omega
  all_goals simp at h

/-- The digits of other scripts lie beyond ASCII. -/
theorem isDigit_of_lt {c : Char} (h : c.toNat < 128) : isDigit c = isAsciiDigit c := by
  have hbeyond : ∀ range ∈ digitRanges.tail, 128 ≤ range.1 := by decide
  have htail : (digitRanges.tail.any fun range =>
      decide (range.1 ≤ c.toNat ∧ c.toNat < range.1 + range.2)) = false := by
    refine List.any_eq_false.2 fun range hrange hc => ?_
    have := hbeyond range hrange
    have := (of_decide_eq_true hc).1
    omega
  change (decide (48 ≤ c.toNat ∧ c.toNat < 58) || digitRanges.tail.any _) = _
  rw [htail, Bool.or_false, Bool.eq_iff_iff, decide_eq_true_iff, isAsciiDigit_iff]
  omega

theorem not_isAsciiLetter_of_isLiteral {c : Char} (h : Word.isLiteral c = true) :
    isAsciiLetter c = false := by
  refine Bool.eq_false_iff.2 fun hletter => ?_
  rw [not_isLiteral_of_isAsciiLetter hletter] at h
  cases h

theorem isDigit_of_isAsciiDigit {c : Char} (h : isAsciiDigit c = true) : isDigit c = true := by
  rw [isDigit_of_lt (lt_of_le_of_lt (isAsciiDigit_iff.1 h).2 (by decide))]
  exact h

theorem not_isDigit_of_isAsciiLetter {c : Char} (h : isAsciiLetter c = true) :
    isDigit c = false := by
  have hc := toNat_of_isSolid (isSolid_of_isAsciiLetter h)
  rw [isDigit_of_lt (by omega)]
  exact not_isAsciiDigit_of_not_isLiteral (not_isLiteral_of_isAsciiLetter h)

theorem utf8Size_of_isSolid {c : Char} (h : isSolid c = true) : c.utf8Size = 1 :=
  Char.utf8Size_eq_one_iff.2
    (UInt32.le_iff_toNat_le.2 (le_trans (toNat_of_isSolid h).2 (by decide)))

theorem toUpper_of_not_small {c : Char} (h : ¬ (97 ≤ c.toNat ∧ c.toNat ≤ 122)) : c.toUpper = c :=
  dif_neg (by simpa [UInt32.le_iff_toNat_le] using h)

theorem isAsciiLetter_of_toUpper {c : Char} (h : isAsciiLetter c.toUpper = true) :
    isAsciiLetter c = true := by
  by_cases hsmall : 97 ≤ c.toNat ∧ c.toNat ≤ 122
  · exact isAsciiLetter_iff.2 (.inl hsmall)
  · rwa [toUpper_of_not_small hsmall] at h

theorem ne_of_isSolid {c d : Char} (h : isSolid c = true) (hd : isSolid d = false) : c ≠ d := by
  rintro rfl
  rw [h] at hd
  cases hd

theorem Solid.cons {c : Char} {cs : List Char} (hc : isSolid c = true) (h : Solid cs) :
    Solid (c :: cs) :=
  List.forall_mem_cons.2 ⟨hc, h⟩

theorem Starts.append {cs : List Char} (h : Starts cs) (ds : List Char) : Starts (cs ++ ds) := by
  obtain ⟨c, rest, rfl, hc⟩ := h
  exact ⟨c, rest ++ ds, rfl, hc⟩

theorem Solid.not_blank {cs : List Char} (h : Solid cs) : ∀ c ∈ cs, isBlank c = false :=
  fun c hc => not_isBlank_of_isSolid (h c hc)

theorem Solid.starts {cs : List Char} (h : Solid cs) (hne : cs ≠ []) : Starts cs := by
  cases cs with
  | nil => exact absurd rfl hne
  | cons c cs => exact ⟨c, cs, rfl, h c (.head _)⟩

/-! ## Blanks at the ends -/

theorem trimEnd_cons_of_not_blank {c : Char} (hc : isBlank c = false) (cs : List Char) :
    trimEnd (c :: cs) = c :: trimEnd cs := by
  rw [trimEnd]
  cases trimEnd cs with
  | nil => simp [hc]
  | cons d ds => rfl

theorem trimEnd_eq_nil {cs : List Char} (h : ∀ c ∈ cs, isBlank c = true) : trimEnd cs = [] := by
  induction cs with
  | nil => rfl
  | cons c cs ih =>
    rw [trimEnd, ih fun d hd => h d (.tail _ hd)]
    simp [h c (.head _)]

theorem Ends.append {cs : List Char} (h : Ends cs) (ds : List Char) : Ends (ds ++ cs) := by
  obtain ⟨init, c, rfl, hc⟩ := h
  exact ⟨ds ++ init, c, by rw [List.append_assoc], hc⟩

theorem Solid.ends {cs : List Char} (h : Solid cs) (hne : cs ≠ []) : Ends cs :=
  ⟨cs.dropLast, cs.getLast hne, (List.dropLast_append_getLast hne).symm,
    not_isBlank_of_isSolid (h _ (List.getLast_mem hne))⟩

theorem trimEnd_append {cs : List Char} (h : Ends cs) (ds : List Char) :
    trimEnd (cs ++ ds) = cs ++ trimEnd ds := by
  obtain ⟨init, c, rfl, hc⟩ := h
  induction init with
  | nil => exact trimEnd_cons_of_not_blank hc ds
  | cons d init ih =>
    rw [List.cons_append, List.cons_append, trimEnd, ih]
    cases init with
    | nil => rfl
    | cons e init => rfl

theorem trimEnd_append_of_ne_nil {cs : List Char} (h : trimEnd cs ≠ []) (ds : List Char) :
    trimEnd (ds ++ cs) = ds ++ trimEnd cs := by
  induction ds with
  | nil => rfl
  | cons d ds ih =>
    rw [List.cons_append, trimEnd, ih]
    split
    case h_1 hnil => exact absurd (List.append_eq_nil_iff.1 hnil).2 h
    case h_2 => rfl

theorem trimEnd_prefix_self (cs : List Char) : trimEnd cs <+: cs := by
  induction cs with
  | nil => exact List.prefix_rfl
  | cons c cs ih =>
    rw [trimEnd]
    split
    case h_1 =>
      split
      case isTrue => exact List.nil_prefix
      case isFalse => exact ⟨cs, rfl⟩
    case h_2 rest h =>
      exact List.cons_prefix_cons.2 ⟨rfl, ih⟩

theorem Starts.dropWhile_append {cs : List Char} (h : Starts cs) {ds : List Char}
    (hds : ∀ c ∈ ds, isBlank c = true) : (ds ++ cs).dropWhile isBlank = cs := by
  obtain ⟨c, rest, rfl, hc⟩ := h
  rw [List.dropWhile_append_of_pos hds, List.dropWhile_cons_of_neg]
  simp [not_isBlank_of_isSolid hc]

/-- Blanks before a text go, and so do all at the end of what follows it. -/
theorem trim_append {before cs after : List Char} (hbefore : ∀ c ∈ before, isBlank c = true)
    (hstarts : Starts cs) (hends : Ends cs) :
    trim (before ++ (cs ++ after)) = cs ++ trimEnd after := by
  rw [trim, (hstarts.append after).dropWhile_append hbefore, trimEnd_append hends]

/-- What begins a trimmed text is not blank. -/
theorem not_blank_of_trim (cs : List Char) : ∀ c ∈ (trim cs).head?, isBlank c = false := by
  intro c hc
  obtain ⟨more, hmore⟩ := trimEnd_prefix_self (cs.dropWhile isBlank)
  obtain ⟨rest, hrest⟩ := List.head?_eq_some_iff.1 hc
  rw [← trim, hrest] at hmore
  have hhead := List.head?_dropWhile_not isBlank cs
  rw [← hmore] at hhead
  exact hhead

/-! ## Tokens -/

theorem runs_fst (cs : List Char) : (runs cs).1 = cs.takeWhile (!isBlank ·) := by
  induction cs with
  | nil => rfl
  | cons c cs ih =>
    rw [runs, List.takeWhile_cons, ← ih]
    cases isBlank c <;> rfl

theorem runs_append {cs : List Char} (h : ∀ c ∈ cs, isBlank c = false) (rest : List Char) :
    runs (cs ++ rest) = (cs ++ (runs rest).1, (runs rest).2) := by
  induction cs with
  | nil => rfl
  | cons c cs ih =>
    rw [List.cons_append, runs, ih fun d hd => h d (.tail _ hd)]
    simp [h c (.head _)]

theorem runs_cons_of_blank {c : Char} (h : isBlank c = true) (rest : List Char) :
    runs (c :: rest) = ([], tokens rest) := by
  simp [runs, tokens, h]

theorem tokens_blanks_append {gap : List Char} (h : ∀ c ∈ gap, isBlank c = true)
    (rest : List Char) : tokens (gap ++ rest) = tokens rest := by
  induction gap with
  | nil => rfl
  | cons c gap ih =>
    rw [List.cons_append, tokens, runs_cons_of_blank (h c (.head _))]
    exact ih fun d hd => h d (.tail _ hd)

theorem runs_of_gap {gap : List Char} (h : ∀ c ∈ gap, isBlank c = true) (hne : gap ≠ [])
    (rest : List Char) : runs (gap ++ rest) = ([], tokens rest) := by
  cases gap with
  | nil => exact absurd rfl hne
  | cons c gap =>
    rw [List.cons_append, runs_cons_of_blank (h c (.head _)),
      tokens_blanks_append fun d hd => h d (.tail _ hd)]

/-- The token that a text begins with. -/
theorem tokens_append {cs : List Char} (h : ∀ c ∈ cs, isBlank c = false) (hne : cs ≠ [])
    (rest : List Char) : tokens (cs ++ rest) = (cs ++ (runs rest).1) :: (runs rest).2 := by
  simp [tokens, runs_append h, hne]

end Text

namespace Written

/-- Items that gaps keep apart are the tokens of their text. -/
theorem tokens_spread {α : Type} {text : α → List Char}
    (hsolid : ∀ a, (∀ c ∈ text a, isBlank c = false) ∧ text a ≠ []) {items : List (Gap × α)}
    (hseparate : ∀ item ∈ items, item.1.text ≠ []) {cs : List Char}
    (hcs : ∀ c ∈ cs, isBlank c = false) (hne : cs ≠ []) :
    tokens (cs ++ spread text items) = cs :: items.map fun item => text item.2 := by
  induction items generalizing cs with
  | nil =>
    rw [spread, List.flatMap_nil, tokens_append hcs hne]
    simp [runs]
  | cons item items ih =>
    have hrest := ih (fun item' h => hseparate item' (.tail _ h)) (hsolid item.2).1 (hsolid item.2).2
    rw [tokens_append hcs hne, spread, List.flatMap_cons, List.append_assoc,
      runs_of_gap item.1.blank (hseparate item (.head _)), List.append_nil, List.map_cons]
    exact congrArg (cs :: ·) hrest

end Written

/-! ## Comments and the sign `=` -/

namespace Statement

theorem stripComment_append {cs : List Char} (h : ∀ c ∈ cs, c ≠ '(' ∧ c ≠ ';') (rest : List Char) :
    stripComment (cs ++ rest) = cs ++ stripComment rest := by
  refine List.takeWhile_append_of_pos fun c hc => ?_
  simp [h c hc]

theorem stripComment_prefix_of {cs ds : List Char} (h : cs <+: ds) :
    stripComment cs <+: stripComment ds := by
  obtain ⟨more, rfl⟩ := h
  rw [stripComment, stripComment, List.takeWhile_append]
  split
  case isTrue => exact (List.takeWhile_prefix _).trans (List.prefix_append _ _)
  case isFalse => exact List.prefix_rfl

theorem closeUp_cons {c : Char} (hc : isBlank c = false) (heq : c ≠ '=') (rest : List Char) :
    closeUp (c :: rest) = c :: closeUp rest := by
  simp [closeUp, hc, heq]

/-- A text keeps the character it begins with, unless it is blank. -/
theorem exists_closeUp_cons {c : Char} (hc : isBlank c = false) (cs : List Char) :
    ∃ rest, closeUp (c :: cs) = c :: rest := by
  by_cases heq : c = '='
  · rw [closeUp, heq]
    exact ⟨_, rfl⟩
  · exact ⟨_, closeUp_cons hc heq cs⟩

theorem closeUp_append {cs : List Char} (h : Solid cs) (rest : List Char) :
    closeUp (cs ++ rest) = cs ++ closeUp rest := by
  induction cs with
  | nil => rfl
  | cons c cs ih =>
    have hc := h c (.head _)
    rw [List.cons_append, closeUp_cons (not_isBlank_of_isSolid hc) (ne_of_isSolid hc (by decide)),
      ih fun d hd => h d (.tail _ hd)]
    rfl

theorem closeUp_cons_of_blank {c : Char} (hc : isBlank c = true) {rest : List Char}
    (hrest : ∀ ds, closeUp rest ≠ '=' :: ds) : closeUp (c :: rest) = c :: closeUp rest := by
  have heq : c ≠ '=' := by
    rintro rfl
    cases hc
  simp only [closeUp, hc, beq_iff_eq, if_neg heq, if_true]

/-- Blanks before a text that does not begin with `=` stay. -/
theorem closeUp_gap {gap : List Char} (hgap : ∀ c ∈ gap, isBlank c = true) {cs : List Char}
    (h : Starts cs) : closeUp (gap ++ cs) = gap ++ closeUp cs := by
  induction gap with
  | nil => rfl
  | cons b gap ih =>
    have hrest := ih fun c hc => hgap c (.tail _ hc)
    rw [List.cons_append, closeUp_cons_of_blank (hgap b (.head _)), hrest, List.cons_append]
    intro ds hds
    rw [hrest] at hds
    cases gap with
    | nil =>
      obtain ⟨c, rest, rfl, hc⟩ := h
      have hne := ne_of_isSolid hc (d := '=') (by decide)
      rw [List.nil_append, closeUp_cons (not_isBlank_of_isSolid hc) hne] at hds
      injection hds with hhead
      exact hne hhead
    | cons c gap =>
      injection hds with hhead
      have := hgap c (.tail _ (.head _))
      rw [hhead] at this
      cases this

theorem closeUp_gap_equals {gap : List Char} (hgap : ∀ c ∈ gap, isBlank c = true)
    {cs ds : List Char} (h : closeUp cs = '=' :: ds) : closeUp (gap ++ cs) = '=' :: ds := by
  induction gap with
  | nil => exact h
  | cons b gap ih =>
    have hb := hgap b (.head _)
    have heq : b ≠ '=' := by
      rintro rfl
      cases hb
    rw [List.cons_append, closeUp, ih fun c hc => hgap c (.tail _ hc)]
    simp [hb, heq]

/-- The blanks around `=` go. -/
theorem closeUp_equals (e : Written.Equals) {cs : List Char} (h : Starts cs) :
    closeUp (e.text ++ cs) = '=' :: closeUp cs := by
  rw [Written.Equals.text, List.append_assoc, List.cons_append]
  refine closeUp_gap_equals e.before.blank ?_
  rw [closeUp, closeUp_gap e.after.blank h]
  obtain ⟨c, rest, rfl, hc⟩ := h
  have hblank := not_isBlank_of_isSolid hc
  rw [closeUp_cons hblank (ne_of_isSolid hc (by decide)), List.dropWhile_append_of_pos e.after.blank,
    List.dropWhile_cons_of_neg (by simp [hblank])]
  rfl

/-! ## Labels -/

theorem label?_of_not_mem {cs : List Char} (h : ':' ∉ cs) : label? cs = none := by
  rw [label?]
  split
  case h_1 heq =>
    exact absurd ((List.dropWhile_sublist _).mem (by rw [heq]; exact .head _)) h
  case h_2 => rfl

/-- A name is no label where something else than a colon follows it. -/
theorem label?_of_ne {name : List Char} (hname : ∀ c ∈ name, isNamePart c = true) {c : Char}
    (hc : isNamePart c = false) (hne : c ≠ ':') (rest : List Char) :
    label? (name ++ c :: rest) = none := by
  have hc' : ¬ isNamePart c = true := by simp [hc]
  rw [label?, List.dropWhile_append_of_pos hname, List.dropWhile_cons_of_neg hc']
  split
  case h_1 heq => exact absurd (List.cons.inj heq).1 hne
  case h_2 => rfl

theorem label?_name (name : Written.Name) {rest : List Char} (h : '\n' ∉ rest) :
    label? (name.text ++ ':' :: rest) = some (name.text, trim rest) := by
  have hcolon : ¬ isNamePart ':' = true := by decide
  rw [label?, List.takeWhile_append_of_pos name.isNamePart_text,
    List.dropWhile_append_of_pos name.isNamePart_text,
    List.takeWhile_cons_of_neg hcolon, List.dropWhile_cons_of_neg hcolon, List.append_nil]
  simp [Written.Name.text, name.isStart, h]

end Statement

end Toolpath
