import Toolpath.Proofs.Program.Spelling

/-!
# Reading back what is written

A statement written on a line, in any of its forms, is read back as it is. Each kind of body is
recognised for what it is: the text of no other kind looks like it where it is looked at first.
-/

namespace Toolpath.Written

open Text

/-! ## Assignments -/

namespace Assignment

theorem not_blank_text (a : Assignment) : ∀ c ∈ a.text Equals.closed, isBlank c = false :=
  List.forall_mem_append.2 ⟨a.register.solid_text.not_blank,
    List.forall_mem_append.2 ⟨a.equals.not_blank_closed, a.operand.solid_text.not_blank⟩⟩

theorem text_ne_nil (a : Assignment) : a.text Equals.closed ≠ [] := List.cons_ne_nil _ _

theorem assignment?_text (a : Assignment) :
    Statement.assignment? (a.text Equals.closed) =
      some (a.register.digits.text, a.operand.text) := by
  have hdigits : ∀ c ∈ a.register.digits.text, isDigit c = true :=
    fun c hc => isDigit_of_isAsciiDigit (a.register.digits.isAsciiDigit_text c hc)
  have hstop : ∀ c ∈ ('=' :: a.operand.text).head?, isDigit c = false := by
    rintro c ⟨⟩
    decide
  have htake := takeWhile_append hdigits hstop
  have hdrop := dropWhile_append hdigits hstop
  obtain ⟨c, cs, htext, -⟩ := a.operand.starts_text
  have htext' : a.text Equals.closed =
      inCase a.register.small 'R' :: (a.register.digits.text ++ '=' :: a.operand.text) := rfl
  rw [htext']
  cases hdig : a.register.digits.text with
  | nil => exact absurd (Digits.text_eq_nil.1 hdig) a.register.ne_nil
  | cons d ds =>
    rw [hdig] at htake hdrop
    rcases a.register.letter_cases with h | h
    all_goals
      rw [h, Statement.assignment?, htake, hdrop, htext]
      rfl

theorem readAssignment_text (a : Assignment) :
    Statement.readAssignment (a.text Equals.closed) = .ok a.pair := by
  rw [Statement.readAssignment, a.assignment?_text]
  simp only [Digits.all_text, a.register.register?_text, a.operand.read?_text, if_true]
  rfl

end Assignment

theorem mapM_readAssignment (as : List Assignment) :
    (as.map (Assignment.text Equals.closed)).mapM Statement.readAssignment =
      .ok (as.map Assignment.pair) := by
  induction as with
  | nil => rfl
  | cons a as ih =>
    rw [List.map_cons, List.mapM_cons, a.readAssignment_text, ih]
    rfl

/-- A keyword has a certain letter in its second place. -/
theorem sameLetters_of_second {c d : Char} (hd : d.toUpper ≠ 'E') (rest : List Char) :
    sameLetters (c :: d :: rest) "REPEAT".toList = false := by
  refine beq_eq_false_iff_ne.2 fun h => ?_
  exact hd (List.cons.inj (List.cons.inj h).2).1

theorem toUpper_ne_of_not_isAsciiLetter {d : Char} (hd : isAsciiLetter d = false) :
    d.toUpper ≠ 'E' := by
  intro h
  have hletter : isAsciiLetter d = true := isAsciiLetter_of_toUpper (by rw [h]; decide)
  rw [hletter] at hd
  cases hd

theorem sameLetters_register (r : Register) (rest : List Char) :
    sameLetters (r.text ++ rest) "REPEAT".toList = false := by
  rw [Register.text]
  cases hdigits : r.digits with
  | nil => exact absurd hdigits r.ne_nil
  | cons d ds =>
    have hd : Word.isLiteral (Nat.digitChar d) = true := Digits.isLiteral_text (d :: ds) _ (.head _)
    exact sameLetters_of_second
      (toUpper_ne_of_not_isAsciiLetter (not_isAsciiLetter_of_isLiteral hd)) _

theorem readAction_assignments (as : Assignments) :
    (Statement.readAction (as.text Equals.closed)).result = .ok (.assign as.pairs) := by
  have htokens : tokens (as.text Equals.closed) =
      as.first.text Equals.closed :: as.more.map fun item => item.2.text Equals.closed :=
    tokens_spread (fun a => ⟨a.not_blank_text, a.text_ne_nil⟩) as.separate as.first.not_blank_text
      as.first.text_ne_nil
  have hpairs : (as.first.text Equals.closed :: as.more.map fun item =>
      item.2.text Equals.closed).mapM Statement.readAssignment = .ok as.pairs := by
    have hmap := mapM_readAssignment (as.first :: as.more.map Prod.snd)
    rwa [List.map_cons, List.map_map] at hmap
  rw [Statement.readAction, htokens]
  dsimp only
  rw [Assignment.text, sameLetters_register, ← Assignment.text, as.first.assignment?_text]
  simp only [Bool.false_eq_true, if_false, Option.isSome_some, if_true]
  rw [hpairs]

/-! ## Commands to repeat -/

/-- Only a character of several bytes can be cut. -/
theorem cutsCharacter_of_utf8Size {part : List Char} (h : ∀ c ∈ part, c.utf8Size = 1) :
    Statement.cutsCharacter part = false := by
  match part with
  | [] => rfl
  | [c] => simp [Statement.cutsCharacter, h c (.head _)]
  | c :: d :: rest => simp [Statement.cutsCharacter, h c (.head _), h d (.tail _ (.head _))]

namespace Part

theorem not_blank_text : ∀ (p : Part), ∀ c ∈ p.text Equals.closed, isBlank c = false
  | label name => name.solid_text.not_blank
  | count c => List.forall_mem_cons.2 ⟨not_isBlank_of_isSolid (isSolid_inCase_P c.small),
      List.forall_mem_append.2 ⟨c.equals.not_blank_closed, c.operand.solid_text.not_blank⟩⟩

theorem text_ne_nil : ∀ p : Part, p.text Equals.closed ≠ []
  | label name => name.text_ne_nil
  | count _ => List.cons_ne_nil _ _

theorem cutsCharacter_text (p : Part) :
    Statement.cutsCharacter (p.text Equals.closed) = false := by
  refine cutsCharacter_of_utf8Size ?_
  cases p with
  | label name => exact fun d hd => utf8Size_of_isSolid (name.solid_text d hd)
  | count c =>
    intro d hd
    rcases List.mem_cons.1 hd with rfl | hd
    · exact utf8Size_of_isSolid (isSolid_inCase_P c.small)
    · rcases List.mem_cons.1 hd with rfl | hd
      · rfl
      · exact utf8Size_of_isSolid (c.operand.solid_text d hd)

theorem countText?_label (name : Name) : Statement.countText? name.text = none := by
  have hne : ∀ c ∈ name.rest, c ≠ '=' := by
    rintro c hc rfl
    exact absurd (name.isPart _ hc) (by decide)
  rw [Name.text]
  cases hrest : name.rest with
  | nil => rw [Statement.countText?] <;> simp
  | cons c rest =>
    have hc := hne c (hrest ▸ List.mem_cons_self)
    rw [Statement.countText?]
    · intro d ds h
      exact hc (List.cons.inj (List.cons.inj h).2).1
    · intro d ds h
      exact hc (List.cons.inj (List.cons.inj h).2).1

theorem countText?_count (c : Count) :
    Statement.countText? (c.text Equals.closed) = some c.operand.text := by
  obtain ⟨d, ds, htext, -⟩ := c.operand.starts_text
  have hcount : c.text Equals.closed = inCase c.small 'P' :: '=' :: c.operand.text := rfl
  rw [hcount, htext]
  cases c.small <;> rfl

end Part

/-- The labels of the parts are kept in order, and of the counts the last. -/
theorem repeatParts_text (count : Option Value) (ps : List Part) :
    Statement.repeatParts count (ps.map (Part.text Equals.closed)) =
      .ok ((ps.filterMap Part.name?).map Name.string,
        (ps.filterMap Part.count?).getLast?.or count) := by
  induction ps generalizing count with
  | nil => rfl
  | cons p ps ih =>
    rw [List.map_cons, Statement.repeatParts, p.cutsCharacter_text]
    cases p with
    | label name =>
      simp only [Part.text, Part.countText?_label, ih, Bool.false_eq_true, if_false]
      rfl
    | count c =>
      simp only [Part.text, Part.countText?_count, c.operand.read?_text, ih, Bool.false_eq_true,
        if_false, Part.name?, Part.count?, List.filterMap_cons, List.getLast?_cons]
      cases (ps.filterMap Part.count?).getLast? <;> rfl

namespace Command

theorem names_cases (c : Command) :
    (∃ start, c.names = [start]) ∨ ∃ start stop, c.names = [start, stop] := by
  match hnames : c.names, (show c.names.length ≤ 2 from c.names_le) with
  | [], _ => exact absurd hnames c.named
  | [start], _ => exact .inl ⟨start, rfl⟩
  | [start, stop], _ => exact .inr ⟨start, stop, rfl⟩

theorem command_eq (c : Command) {start : Name} {more : List Name} (h : c.names = start :: more) :
    c.command = ⟨start.string, more[0]?.map Name.string, c.counts.head?⟩ := by
  rw [command]
  simp [h]

end Command

theorem readAction_command (c : Command) :
    (Statement.readAction (c.text Equals.closed)).result = .ok (.again c.command) := by
  have htokens : tokens (c.text Equals.closed) =
      c.keyword :: c.parts.map fun item => item.2.text Equals.closed :=
    tokens_spread (fun p => ⟨p.not_blank_text, p.text_ne_nil⟩) c.separate
      c.solid_keyword.not_blank c.keyword_ne_nil
  have hkeyword : sameLetters c.keyword "REPEAT".toList = true := by
    rw [sameLetters, c.isKeyword]
    rfl
  have hparts : Statement.repeatParts none
      (c.parts.map fun item => item.2.text Equals.closed) =
        .ok (c.names.map Name.string, c.counts.getLast?) := by
    have hmap := repeatParts_text none (c.parts.map Prod.snd)
    rwa [List.map_map, Option.or_none] at hmap
  have hcounts : c.counts.getLast? = c.counts.head? := by
    match c.counts, (show c.counts.length ≤ 1 from c.counts_le) with
    | [], _ => rfl
    | [v], _ => rfl
  rw [Statement.readAction, htokens]
  simp only [hkeyword, if_true]
  rw [Statement.readRepeat, hparts, hcounts]
  rcases c.names_cases with ⟨start, h⟩ | ⟨start, stop, h⟩
  · rw [c.command_eq h, h]
    rfl
  · rw [c.command_eq h, h]
    rfl

/-! ## Words -/

theorem assignment?_of_not_digit {c d : Char} (hd : isDigit d = false) (rest : List Char) :
    Statement.assignment? (c :: d :: rest) = none := by
  have htake : (d :: rest).takeWhile isDigit = [] := List.takeWhile_cons_of_neg (by simp [hd])
  rw [Statement.assignment?.eq_def]
  split
  case h_3 => rfl
  all_goals
    rename_i heq
    obtain ⟨-, rfl⟩ := List.cons.inj heq
    rw [htake]

/-- Digits that no `=` follows are assigned nothing. -/
theorem assignment?_of_digits {c : Char} {ds rest : List Char} (hds : ∀ d ∈ ds, isDigit d = true)
    (hrest : ∀ e ∈ rest.head?, isDigit e = false ∧ e ≠ '=') :
    Statement.assignment? (c :: (ds ++ rest)) = none := by
  have hdrop := dropWhile_append hds fun e he => (hrest e he).1
  rw [Statement.assignment?.eq_def]
  split
  case h_3 => rfl
  all_goals
    rename_i heq
    obtain ⟨-, rfl⟩ := List.cons.inj heq
    rw [hdrop]
    split
    · exact absurd rfl (hrest '=' rfl).2
    · rfl

theorem assignment?_numeral (c : Char) (x : Numeral) {rest : List Char}
    (hrest : ∀ e ∈ rest.head?, isAsciiLetter e = true) :
    Statement.assignment? (c :: (x.text ++ rest)) = none := by
  rw [Numeral.text]
  cases x.sign with
  | some sign => exact assignment?_of_not_digit (by cases sign <;> decide) _
  | none =>
    rw [Option.map_none, Option.toList_none, List.nil_append, Numeral.unsigned, List.append_assoc]
    refine assignment?_of_digits
      (fun d hd => isDigit_of_isAsciiDigit (Digits.isAsciiDigit_text _ d hd)) ?_
    cases x.frac with
    | some frac =>
      rintro e ⟨⟩
      decide
    | none =>
      intro e he
      have hletter := hrest e he
      exact ⟨not_isDigit_of_isAsciiLetter hletter,
        ne_of_isSolid (isSolid_of_isAsciiLetter hletter) (by decide)⟩

/-- What is left of a token after the first word of it begins with a letter, if with anything. -/
theorem isAsciiLetter_of_runs {rest : List Char} (h : Stops rest) :
    ∀ c ∈ (runs rest).1.head?, isAsciiLetter c = true := by
  cases rest with
  | nil =>
    intro c hc
    cases hc
  | cons d rest =>
    intro c hc
    rw [runs] at hc
    cases hblank : isBlank d with
    | true => simp [hblank] at hc
    | false =>
      obtain rfl : d = c := by simpa [hblank] using hc
      rcases h d rfl with h | h
      · rw [hblank] at h
        cases h
      · exact h

namespace Entry

theorem not_blank_text (e : Entry) : ∀ c ∈ e.text Equals.closed, isBlank c = false := by
  have hletter := isSolid_of_isAsciiLetter (isAsciiLetter_char e.small e.address)
  refine List.forall_mem_cons.2 ⟨not_isBlank_of_isSolid hletter,
    List.forall_mem_append.2 ⟨?_, e.operand.solid_text.not_blank⟩⟩
  cases e.equals with
  | none => exact List.forall_mem_nil _
  | some equals => exact equals.not_blank_closed

/-- A word that may come first and has no `=` has a number. -/
theorem exists_numeral {e : Entry} (h : e.operand.IsNumeral ∨ e.equals.isSome)
    (hequals : e.equals = none) : ∃ x, e.operand = .numeral x := by
  rw [hequals] at h
  cases hoperand : e.operand with
  | numeral x => exact ⟨x, rfl⟩
  | register r =>
    rw [hoperand] at h
    exact h.elim False.elim fun hsome => by cases hsome

/-- What a word that may come first has in its second place. -/
theorem second_text {e : Entry} (h : e.operand.IsNumeral ∨ e.equals.isSome) :
    ∃ d rest, e.text Equals.closed = inCase e.small e.address.char :: d :: rest ∧
      (Word.isLiteral d = true ∨ d = '=') := by
  rw [text]
  cases hequals : e.equals with
  | some equals => exact ⟨'=', e.operand.text, rfl, .inr rfl⟩
  | none =>
    obtain ⟨x, hoperand⟩ := exists_numeral h hequals
    obtain ⟨d, rest, htext, hd⟩ := x.exists_text_cons
    refine ⟨d, rest, ?_, .inl hd⟩
    rw [Option.map_none, Option.getD_none, List.nil_append, hoperand, Operand.text, htext]

theorem assignment?_text {e : Entry} (h : e.operand.IsNumeral ∨ e.equals.isSome)
    {rest : List Char} (hrest : ∀ c ∈ rest.head?, isAsciiLetter c = true) :
    Statement.assignment? (e.text Equals.closed ++ rest) = none := by
  rw [text, List.cons_append, List.append_assoc]
  cases hequals : e.equals with
  | some equals => exact assignment?_of_not_digit (by decide) _
  | none =>
    obtain ⟨x, hoperand⟩ := exists_numeral h hequals
    rw [hoperand]
    exact assignment?_numeral _ x hrest

end Entry

/-- A text that begins with a word whose value shows as one is taken for words. -/
theorem readAction_words {e : Entry} (h : e.operand.IsNumeral ∨ e.equals.isSome)
    {rest : List Char} (hrest : Stops rest) :
    Statement.readAction (e.text Equals.closed ++ rest) =
      { remarks := (Block.read (e.text Equals.closed ++ rest)).remarks
        result := (Block.read (e.text Equals.closed ++ rest)).result.map .block } := by
  have htokens := tokens_append e.not_blank_text (List.cons_ne_nil _ _) rest
  have hassignment := Entry.assignment?_text h (isAsciiLetter_of_runs hrest)
  obtain ⟨d, more, htext, hd⟩ := Entry.second_text h
  have hkeyword : sameLetters (e.text Equals.closed ++ (runs rest).1) "REPEAT".toList = false := by
    rw [htext]
    refine sameLetters_of_second (toUpper_ne_of_not_isAsciiLetter ?_) _
    rcases hd with hd | rfl
    · exact not_isAsciiLetter_of_isLiteral hd
    · decide
  have hstarts : Statement.startsWithWord (e.text Equals.closed ++ rest) = true := by
    rw [htext, List.cons_append, List.cons_append, Statement.startsWithWord, Entry.ofChar?_char]
    rcases hd with hd | rfl
    · simp [hd]
    · rfl
  rw [Statement.readAction, htokens]
  simp only [hkeyword, hassignment, hstarts, Bool.false_eq_true, if_false, Option.isSome_none,
    if_true]

/-- A text that begins with a register right behind an address is taken for nothing known. -/
theorem readAction_attached {e : Entry} {r : Register} (hoperand : e.operand = .register r)
    (hequals : e.equals = none) (rest : List Char) :
    (Statement.readAction (e.text Equals.closed ++ rest)).result = .ok .unrecognized := by
  have htokens := tokens_append e.not_blank_text (List.cons_ne_nil _ _) rest
  have htext : e.text Equals.closed =
      inCase e.small e.address.char :: inCase r.small 'R' :: r.digits.text := by
    rw [Entry.text, hequals, hoperand]
    rfl
  have hassignment : Statement.assignment? (e.text Equals.closed ++ (runs rest).1) = none := by
    rw [htext]
    refine assignment?_of_not_digit (not_isDigit_of_isAsciiLetter ?_) _
    cases r.small <;> decide
  have hkeyword : sameLetters (e.text Equals.closed ++ (runs rest).1) "REPEAT".toList = false := by
    rw [htext]
    refine sameLetters_of_second ?_ _
    cases r.small <;> decide
  have hstarts : Statement.startsWithWord (e.text Equals.closed ++ rest) = false := by
    have hletter : (Word.isLiteral (inCase r.small 'R') || inCase r.small 'R' == '=') = false := by
      cases r.small <;> decide
    rw [htext, List.cons_append, List.cons_append, Statement.startsWithWord, hletter,
      Bool.and_false]
  rw [Statement.readAction, htokens]
  simp only [hkeyword, hassignment, hstarts, Bool.false_eq_true, if_false, Option.isSome_none]

theorem readAction_entries (es : Entries) :
    (Statement.readAction (es.text Equals.closed)).result = .ok (.block es.block) := by
  rw [Entries.text, readAction_words es.starts (stops_spread _ _), ← Entries.text, read_entries]
  rfl

/-! ## Whole lines -/

theorem readAction_body : ∀ b : Body,
    (Statement.readAction (b.text Equals.closed)).result = .ok b.action
  | .assign as => readAction_assignments as
  | .again c => readAction_command c
  | .words es => readAction_entries es

namespace Code

/-- The text after the labels. -/
def rest : Code → List Char
  | plain body => body.text Equals.closed
  | bare _ => []
  | labelled _ _ rest => rest.rest

theorem readAction_rest (c : Code) : (Statement.readAction c.rest).result = .ok c.action := by
  induction c with
  | plain body => exact readAction_body body
  | bare name => rfl
  | labelled name gap rest ih => exact ih

theorem trim_text (c : Code) (mark : Equals → List Char) {before after : List Char}
    (hbefore : ∀ d ∈ before, isBlank d = true) (hafter : ∀ d ∈ after, isBlank d = true) :
    trim (before ++ (c.text mark ++ after)) = c.text mark := by
  rw [trim_append hbefore c.starts_text c.ends_text, trimEnd_eq_nil hafter, List.append_nil]

/-- The labels are taken off one by one, and none is seen in what they stand before. -/
theorem takeLabels_text (c : Code) {n : Nat} (hn : (c.text Equals.closed).length ≤ n) :
    Statement.takeLabels n (c.text Equals.closed) = (c.labels, c.rest) := by
  induction c generalizing n with
  | plain body =>
    have hnone : Statement.label? (body.text Equals.closed) = none :=
      Statement.label?_of_not_mem
        ((body.inline_text Equals.inline_closed).not_mem (by decide))
    cases n with
    | zero => rfl
    | succ n =>
      rw [text, Statement.takeLabels, hnone]
      rfl
  | bare name =>
    have hlabel := Statement.label?_name name (List.not_mem_nil : '\n' ∉ [])
    obtain ⟨n, rfl⟩ : ∃ k, n = k + 1 := ⟨n - 1, by simp [text, Name.text] at hn; omega⟩
    rw [text, Statement.takeLabels, hlabel]
    cases n <;> rfl
  | labelled name gap rest ih =>
    have hline : '\n' ∉ gap.text ++ rest.text Equals.closed := by
      intro h
      rcases List.mem_append.1 h with h | h
      · exact gap.inLine h
      · rcases inline_text Equals.inline_closed h with h | h
        · cases h
        · cases h
    have hlabel := Statement.label?_name name hline
    have htrim := rest.trim_text Equals.closed gap.blank (List.forall_mem_nil _)
    rw [List.append_nil] at htrim
    rw [htrim] at hlabel
    rw [text] at hn ⊢
    simp only [List.length_append, List.length_cons] at hn
    obtain ⟨n, rfl⟩ : ∃ k, n = k + 1 := ⟨n - 1, by omega⟩
    rw [Statement.takeLabels, hlabel]
    dsimp only
    rw [ih (by omega)]
    rfl

theorem readCode_text (c : Code) :
    (Statement.readCode (c.text Equals.closed)).result = .ok ⟨c.labels, c.action⟩ := by
  rw [Statement.readCode, c.takeLabels_text le_rfl]
  dsimp only
  rw [c.readAction_rest]
  rfl

end Code

namespace Line

/-- What follows the statement on its line. -/
def tail (l : Line) : List Char := l.after.text ++ (l.comment.map Comment.text).getD []

theorem stripComment_tail (l : Line) : Statement.stripComment l.tail = l.after.text := by
  have hgap : ∀ c ∈ l.after.text, c ≠ '(' ∧ c ≠ ';' := by
    intro c hc
    have hblank := l.after.blank c hc
    constructor
    all_goals
      rintro rfl
      cases hblank
  have hcomment : Statement.stripComment ((l.comment.map Comment.text).getD []) = [] := by
    cases l.comment with
    | none => rfl
    | some comment =>
      rcases comment.opens with hopen | hopen
      all_goals
        refine List.takeWhile_cons_of_neg ?_
        rw [hopen]
        decide
  rw [tail, Statement.stripComment_append hgap, hcomment, List.append_nil]

/-- Nothing but blanks stands before a comment, however much is cut off at its end. -/
theorem blank_of_mem_stripComment (l : Line) :
    ∀ c ∈ Statement.stripComment (trimEnd l.tail), isBlank c = true := by
  intro c hc
  have hmem := (Statement.stripComment_prefix_of (trimEnd_prefix_self l.tail)).subset hc
  rw [l.stripComment_tail] at hmem
  exact l.after.blank c hmem

theorem trim_text (l : Line) : trim l.text = l.code.text Equals.text ++ trimEnd l.tail :=
  trim_append l.before.blank l.code.starts_text l.code.ends_text

/-- The text of the statement alone is left of the text of a line. -/
theorem trim_stripComment_text (l : Line) :
    trim (Statement.stripComment (trim l.text)) = l.code.text Equals.text := by
  have hcode : ∀ c ∈ l.code.text Equals.text, c ≠ '(' ∧ c ≠ ';' := by
    intro c hc
    constructor
    all_goals
      rintro rfl
      rcases Code.inline_text Equals.inline_text hc with h | h
      · cases h
      · cases h
  rw [l.trim_text, Statement.stripComment_append hcode]
  exact l.code.trim_text Equals.text (List.forall_mem_nil _) l.blank_of_mem_stripComment

/-- What is read from a line is the statement that is written on it. -/
theorem read_eq_statement (l : Line) : (Statement.read l.text).result = .ok l.statement := by
  have hstarts : Starts (l.code.text Equals.text) := l.code.starts_text
  obtain ⟨c, rest, htext, hc⟩ := hstarts
  have hcode := l.trim_stripComment_text
  rw [Statement.read]
  split
  · rename_i h
    rw [l.trim_text, htext] at h
    cases h
  · rename_i h
    rw [l.trim_text, htext] at h
    exact absurd (List.cons.inj h).1 (ne_of_isSolid hc (by decide))
  · rename_i h
    rw [l.trim_text, htext] at h
    exact absurd (List.cons.inj h).1 (ne_of_isSolid hc (by decide))
  · rw [hcode, l.code.closeUp_text]
    exact l.code.readCode_text

/-- Two words that run together behind a label, and a comment. -/
example :
    let none' : Gap := ⟨[], by simp, by simp⟩
    let blank : Gap := ⟨[' '], by simp [isBlank], by simp⟩
    let feed : Entry := ⟨.g, true, none, .numeral ⟨none, [0, 1], none, by simp⟩, fun _ => trivial⟩
    let place : Entry :=
      ⟨.data .x, false, some ⟨blank, none'⟩, .register ⟨true, [5], by simp, by decide⟩, by simp⟩
    let line : Line :=
      { before := blank
        code := .labelled ⟨'A', ['_'], rfl, List.all_eq_true.1 rfl⟩ none'
          (.plain (.words ⟨feed, [(none', place)], .inl trivial, by decide⟩))
        after := blank
        comment := some ⟨'(', .inl rfl, ['u', 'p', ')']⟩ }
    line.text = " A_:g01X =r5 (up)".toList := by
  rfl

end Line

end Toolpath.Written
