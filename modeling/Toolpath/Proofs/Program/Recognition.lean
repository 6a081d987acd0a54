import Toolpath.Proofs.Program.Grammar
import Toolpath.Proofs.Program.ReadBack

/-!
# Recognising lines

What a line is taken for is decided by the text that is left without its comment and its labels. Of
the lines that are sentences of words, `read_sentence` tells those that are taken for such from those
that are passed over; `no_outcome_iff` tells the lines that have no outcome, the commands to
repeat that cut a character, from all others.
-/

namespace Toolpath

open Text

namespace Statement

/-! ## The code of a line -/

/-- The text of a line without its comment and without the blanks at its ends and around `=`. -/
def code (text : List Char) : List Char := closeUp (trim (stripComment (trim text)))

theorem read_eq_readCode {text : List Char} (h : code text ≠ []) :
    read text = readCode (code text) := by
  rw [read]
  split
  case h_4 => rfl
  all_goals
    rename_i htrim
    refine absurd ?_ h
    rw [code, htrim]
    rfl

theorem not_blank_of_code (text : List Char) : ∀ c ∈ (code text).head?, isBlank c = false := by
  intro c hc
  have htrim := not_blank_of_trim (stripComment (trim text))
  rw [code] at hc
  cases hcs : trim (stripComment (trim text)) with
  | nil =>
    rw [hcs] at hc
    cases hc
  | cons d ds =>
    rw [hcs] at hc htrim
    have hd := htrim d rfl
    obtain ⟨more, hmore⟩ := exists_closeUp_cons hd ds
    rw [hmore] at hc
    cases hc
    exact hd

theorem readCode_of_label?_eq_none {cs : List Char} (h : label? cs = none) :
    readCode cs =
      { remarks := (readAction cs).remarks
        result := (readAction cs).result.map fun action => { action } } := by
  have hlabels : takeLabels cs.length cs = ([], cs) := by
    cases cs with
    | nil => rfl
    | cons c cs => rw [List.length_cons, takeLabels, h]
  rw [readCode, hlabels]

end Statement

namespace Written

/-! ## Labels -/

/-- The labels that a text begins with, and the text after them without blanks at its ends. A label
has a colon behind it, and all that follows stands on one line. -/
inductive Labelled : List Char → List String → List Char → Prop where
  | none {cs : List Char}
      (h : ∀ (name : Name) (tail : List Char), '\n' ∉ tail → cs ≠ name.text ++ ':' :: tail) :
      Labelled cs [] cs
  | label {name : Name} {tail body : List Char} {names : List String} (hline : '\n' ∉ tail)
      (more : Labelled (trim tail) names body) :
      Labelled (name.text ++ ':' :: tail) (name.string :: names) body

theorem label?_eq_some {cs name rest : List Char} (h : Statement.label? cs = some (name, rest)) :
    ∃ (n : Name) (tail : List Char), cs = n.text ++ ':' :: tail ∧ '\n' ∉ tail ∧ name = n.text ∧
      rest = trim tail := by
  have hcs := List.takeWhile_append_dropWhile (p := Statement.isNamePart) (l := cs)
  rw [Statement.label?] at h
  split at h
  case h_1 first more tail htake hdrop =>
    obtain ⟨hcond, hpair⟩ := Option.ite_none_right_eq_some.1 h
    cases hpair
    rw [Bool.and_eq_true] at hcond
    have hpart : ∀ c ∈ first :: more, Statement.isNamePart c = true := by
      rw [← htake]
      exact fun c hc => List.mem_takeWhile_imp hc
    rw [htake, hdrop] at hcs
    exact ⟨⟨first, more, hcond.1, fun c hc => hpart c (.tail _ hc)⟩, tail, hcs.symm,
      by simpa using hcond.2, htake, rfl⟩
  case h_2 => cases h

theorem label?_eq_none_iff {cs : List Char} :
    Statement.label? cs = none ↔
      ∀ (name : Name) (tail : List Char), '\n' ∉ tail → cs ≠ name.text ++ ':' :: tail := by
  constructor
  · rintro h name tail hline rfl
    rw [Statement.label?_name name hline] at h
    cases h
  · intro h
    cases hlabel : Statement.label? cs with
    | none => rfl
    | some label =>
      obtain ⟨name, tail, hcs, hline, -⟩ := label?_eq_some hlabel
      exact absurd hcs (h name tail hline)

theorem labelled_iff_of_none {cs body : List Char} {names : List String}
    (h : Statement.label? cs = none) : Labelled cs names body ↔ names = [] ∧ body = cs := by
  constructor
  · intro hl
    cases hl with
    | none => exact ⟨rfl, rfl⟩
    | @label name tail _ _ hline =>
      rw [Statement.label?_name name hline] at h
      cases h
  · rintro ⟨rfl, rfl⟩
    exact .none (label?_eq_none_iff.1 h)

theorem labelled_iff_of_some {cs name rest body : List Char} {names : List String}
    (h : Statement.label? cs = some (name, rest)) :
    Labelled cs names body ↔
      ∃ more, names = String.ofList name :: more ∧ Labelled rest more body := by
  constructor
  · intro hl
    cases hl with
    | none hnone =>
      rw [label?_eq_none_iff.2 hnone] at h
      cases h
    | @label name tail _ more hline hmore =>
      rw [Statement.label?_name name hline] at h
      cases h
      exact ⟨more, rfl, hmore⟩
  · rintro ⟨more, rfl, hmore⟩
    obtain ⟨name, tail, rfl, hline, rfl, rfl⟩ := label?_eq_some h
    exact .label hline hmore

theorem length_trim_le (cs : List Char) : (trim cs).length ≤ cs.length :=
  le_trans (trimEnd_prefix_self _).length_le (List.dropWhile_sublist _).length_le

/-- Just the labels that a text begins with are taken off. -/
theorem takeLabels_eq_iff {n : Nat} {cs body : List Char} {names : List String}
    (hn : cs.length ≤ n) : Statement.takeLabels n cs = (names, body) ↔ Labelled cs names body := by
  induction n generalizing cs names body with
  | zero =>
    obtain rfl := List.length_eq_zero_iff.1 (Nat.le_zero.1 hn)
    rw [labelled_iff_of_none rfl, Statement.takeLabels, Prod.mk.injEq]
    exact and_congr eq_comm eq_comm
  | succ n ih =>
    rw [Statement.takeLabels]
    split
    case h_1 hnone =>
      rw [labelled_iff_of_none hnone, Prod.mk.injEq]
      exact and_congr eq_comm eq_comm
    case h_2 name rest hsome =>
      have hrest : rest.length ≤ n := by
        obtain ⟨name, tail, rfl, -, -, rfl⟩ := label?_eq_some hsome
        have := length_trim_le tail
        simp only [List.length_append, List.length_cons] at hn
        omega
      rw [labelled_iff_of_some hsome, Prod.mk.injEq]
      constructor
      · rintro ⟨rfl, rfl⟩
        exact ⟨_, rfl, (ih hrest).1 rfl⟩
      · rintro ⟨more, rfl, hmore⟩
        rw [(ih hrest).2 hmore]
        exact ⟨rfl, rfl⟩

/-! ## What a line is taken for -/

/-- Why a text is taken for an action. -/
inductive Taken (code : List Char) : Action → Prop where
  | blank : Taken code .blank
  | again {first : List Char} {parts : List (List Char)} {command : Repeat}
      (htokens : tokens code = first :: parts)
      (hkeyword : sameLetters first "REPEAT".toList = true) : Taken code (.again command)
  | assign {first : List Char} {parts : List (List Char)} {pairs : List (Nat × Value)}
      (htokens : tokens code = first :: parts)
      (hpairs : (first :: parts).mapM Statement.readAssignment = .ok pairs) :
      Taken code (.assign pairs)
  | block {b : Block} (hstarts : Statement.startsWithWord code = true)
      (hread : (Block.read code).result = .ok b) : Taken code (.block b)
  | unrecognized : Taken code .unrecognized

theorem taken_of_readRepeat {code first : List Char} {parts : List (List Char)} {action : Action}
    (htokens : tokens code = first :: parts) (hkeyword : sameLetters first "REPEAT".toList = true)
    (h : (Statement.readRepeat parts).result = .ok action) : Taken code action := by
  rw [Statement.readRepeat] at h
  split at h
  case h_1 => cases h
  case h_2 =>
    cases h
    exact .again htokens hkeyword
  case h_3 =>
    cases h
    exact .again htokens hkeyword
  case h_4 =>
    cases h
    exact .unrecognized

theorem taken_of_readAction {code : List Char} {action : Action}
    (h : (Statement.readAction code).result = .ok action) : Taken code action := by
  rw [Statement.readAction] at h
  split at h
  case h_1 =>
    cases h
    exact .blank
  case h_2 first parts htokens =>
    split at h
    case isTrue hkeyword => exact taken_of_readRepeat htokens hkeyword h
    case isFalse =>
      split at h
      case isTrue =>
        dsimp only at h
        split at h
        case h_1 pairs hpairs =>
          cases h
          exact .assign htokens hpairs
        case h_2 => cases h
      case isFalse =>
        split at h
        case isTrue hstarts =>
          dsimp only at h
          cases hread : (Block.read code).result with
          | error refusal =>
            rw [hread] at h
            cases h
          | ok b =>
            rw [hread] at h
            cases h
            exact .block hstarts hread
        case isFalse =>
          cases h
          exact .unrecognized

/-- A line without labels is taken for what its code is. -/
theorem taken_of_read {text : List Char} {action : Action}
    (h : (Statement.read text).result = .ok ⟨[], action⟩) :
    action = .comment ∨ Taken (Statement.code text) action := by
  rw [Statement.read] at h
  split at h
  case h_1 =>
    cases h
    exact .inr .blank
  case h_2 =>
    cases h
    exact .inl rfl
  case h_3 =>
    cases h
    exact .inl rfl
  case h_4 =>
    change (Statement.readCode (Statement.code text)).result = _ at h
    rw [Statement.readCode] at h
    cases hlabels : Statement.takeLabels (Statement.code text).length (Statement.code text) with
    | mk names rest =>
      rw [hlabels] at h
      dsimp only at h
      cases haction : (Statement.readAction rest).result with
      | error refusal =>
        rw [haction] at h
        cases h
      | ok a =>
        rw [haction] at h
        cases h
        obtain rfl : rest = Statement.code text := by
          have hlabelled := (takeLabels_eq_iff le_rfl).1 hlabels
          generalize Statement.code text = cs at hlabelled ⊢
          cases hlabelled
          rfl
        exact .inr (taken_of_readAction haction)

/-- The first token of a text that does not begin with a blank. -/
theorem exists_tail_of_tokens {code first : List Char} {parts : List (List Char)}
    (htokens : tokens code = first :: parts) (hstart : ∀ c ∈ code.head?, isBlank c = false) :
    ∃ tail, code = first ++ tail ∧ ∀ c ∈ tail.head?, isBlank c = true := by
  have hcode := List.takeWhile_append_dropWhile (p := (!isBlank ·)) (l := code)
  have hfirst : first = code.takeWhile (!isBlank ·) := by
    cases code with
    | nil => cases htokens
    | cons c cs =>
      have hc : isBlank c = false := hstart c rfl
      have htoken := tokens_append (List.forall_mem_singleton.2 hc) (List.cons_ne_nil c []) cs
      rw [List.singleton_append, htokens, runs_fst] at htoken
      rw [List.takeWhile_cons_of_pos (by simp [hc]), (List.cons.inj htoken).1]
      rfl
  refine ⟨code.dropWhile (!isBlank ·), ?_, ?_⟩
  · rw [hfirst, hcode]
  · intro c hc
    have := List.head?_dropWhile_not (!isBlank ·) code
    rw [hc] at this
    simpa using this

theorem starts_of_startsWithWord {code : List Char}
    (h : Statement.startsWithWord code = true) : Starts code := by
  rw [Statement.startsWithWord.eq_def] at h
  split at h
  case h_1 c d rest =>
    rw [Bool.and_eq_true] at h
    obtain ⟨a, ha⟩ := Option.isSome_iff_exists.1 h.1
    obtain ⟨small, rfl⟩ := exists_inCase ha
    exact ⟨_, _, rfl, isSolid_of_isAsciiLetter (Entry.isAsciiLetter_char small a)⟩
  case h_2 => cases h

/-! ## Sentences -/

/-- The value is a register right behind the letter of its address. -/
def Entry.Attached (e : Entry) : Prop := ¬ e.operand.IsNumeral ∧ e.equals = none

namespace Sentence

variable {code : List Char} {e : Entry} {es : List Entry}

theorem colon_not_mem (h : Sentence code es) : ':' ∉ code := by
  have hgap : ∀ {gap : List Char}, (∀ c ∈ gap, isBlank c = true) → ':' ∉ gap := by
    intro gap hgap hmem
    cases hgap _ hmem
  induction h with
  | blank hblank => exact hgap hblank
  | @word gap rest e es hblank more ih =>
    have htext := (e.inline_text Equals.inline_closed).not_mem (d := ':') (by decide)
    simp only [List.mem_append, not_or]
    exact ⟨hgap hblank, htext, ih⟩

/-- A sentence that does not begin with a blank begins with its first word. -/
theorem exists_rest (h : Sentence code (e :: es)) (hstart : ∀ c ∈ code.head?, isBlank c = false) :
    ∃ rest, code = e.text Equals.closed ++ rest ∧ Sentence rest es := by
  cases h with
  | @word gap rest _ _ hgap more =>
    cases gap with
    | nil => exact ⟨rest, rfl, more⟩
    | cons b gap =>
      have hb := hstart b rfl
      rw [hgap b (.head _)] at hb
      cases hb

theorem readAction_eq (h : Sentence code (e :: es)) (hstart : ∀ c ∈ code.head?, isBlank c = false)
    {b : Block} (hread : (Block.read code).result = .ok b) :
    (e.Attached ∧ (Statement.readAction code).result = .ok .unrecognized) ∨
      (¬ e.Attached ∧ (Statement.readAction code).result = .ok (.block b)) := by
  obtain ⟨rest, rfl, hes⟩ := h.exists_rest hstart
  have hwords (hshown : e.operand.IsNumeral ∨ e.equals.isSome) :
      (Statement.readAction (e.text Equals.closed ++ rest)).result = .ok (.block b) := by
    rw [readAction_words hshown hes.stops, hread]
    rfl
  cases hequals : e.equals with
  | some equals =>
    refine .inr ⟨?_, hwords (.inr (by rw [hequals]; rfl))⟩
    rintro ⟨-, hnone⟩
    rw [hequals] at hnone
    cases hnone
  | none =>
    cases hoperand : e.operand with
    | numeral x =>
      have hnumeral : e.operand.IsNumeral := by
        rw [hoperand]
        trivial
      exact .inr ⟨fun hattached => hattached.1 hnumeral, hwords (.inl hnumeral)⟩
    | register r =>
      refine .inl ⟨⟨?_, hequals⟩, readAction_attached hoperand hequals rest⟩
      rw [hoperand]
      exact id

end Sentence

/-- A line of words is taken for the block of its words unless a register stands right behind the
first letter, and then it is passed over. -/
theorem read_sentence {text : List Char} {b : Block} {e : Entry} {es : List Entry}
    (hread : (Block.read (Statement.code text)).result = .ok b)
    (hcode : Sentence (Statement.code text) (e :: es)) :
    ((Statement.read text).result = .ok ⟨[], .block b⟩ ↔ ¬ e.Attached) ∧
      ((Statement.read text).result = .ok ⟨[], .unrecognized⟩ ↔ e.Attached) := by
  have hstart := Statement.not_blank_of_code text
  have hne : Statement.code text ≠ [] := by
    obtain ⟨rest, hrest, -⟩ := hcode.exists_rest hstart
    rw [hrest]
    exact List.cons_ne_nil _ _
  have hlabel := Statement.label?_of_not_mem hcode.colon_not_mem
  rw [Statement.read_eq_readCode hne, Statement.readCode_of_label?_eq_none hlabel]
  rcases hcode.readAction_eq hstart hread with ⟨hattached, haction⟩ | ⟨hshown, haction⟩
  · simp [haction, hattached, Except.map]
  · simp [haction, hshown, Except.map]

/-- A register right behind the first letter makes a line pass for nothing known, though its words
can be read and it is no label, no command to repeat and no assignment. -/
theorem exists_unrecognized_attached : ∃ text b,
    (Block.read (Statement.code text)).result = .ok b ∧
      b.words.get? .x = some (.register 1) ∧
      Statement.label? (Statement.code text) = none ∧
      (∀ first ∈ (tokens (Statement.code text)).head?,
        sameLetters first "REPEAT".toList = false ∧ Statement.assignment? first = none) ∧
      (Statement.read text).result = .ok ⟨[], .unrecognized⟩ := by
  refine ⟨"XR1".toList, _, rfl, rfl, rfl, ?_, rfl⟩
  rintro first ⟨⟩
  exact ⟨rfl, rfl⟩

/-- Behind `=` a register may stand in the first word too. -/
theorem read_sentence_equals : ∃ b,
    (Block.read (Statement.code "x = R1 YR2".toList)).result = .ok b ∧
      (Statement.read "x = R1 YR2".toList).result = .ok ⟨[], .block b⟩ := by
  let none' : Gap := ⟨[], by simp, by simp⟩
  let first : Entry := ⟨.data .x, true, some ⟨none', none'⟩,
    .register ⟨false, [1], by simp, by decide⟩, by simp⟩
  let second : Entry := ⟨.data .y, false, none,
    .register ⟨false, [2], by simp, by decide⟩, by simp⟩
  have hsecond : Sentence ([' '] ++ (second.text Equals.closed ++ [])) [second] :=
    .word (by simp [isBlank]) (.blank (List.forall_mem_nil _))
  have hcode : Sentence (Statement.code "x = R1 YR2".toList) [first, second] :=
    Sentence.word (e := first) (List.forall_mem_nil _) hsecond
  have hread : (Block.read (Statement.code "x = R1 YR2".toList)).result = .ok
      { words := { x := some (.register 1), y := some (.register 2) } } := rfl
  have hshown : ¬ first.Attached := by
    rintro ⟨-, hnone⟩
    cases hnone
  exact ⟨_, hread, (read_sentence hread hcode).1.2 hshown⟩

/-! ## Lines without an outcome -/

/-- A part of a command to repeat that gives a count without a value. -/
def BadCount (part : List Char) : Prop :=
  ∃ small value, part = inCase small 'P' :: '=' :: value ∧ value ≠ [] ∧ ∀ o : Operand, o.text ≠ value

theorem countText?_eq_some_iff {part value : List Char} :
    Statement.countText? part = some value ↔
      ∃ small, part = inCase small 'P' :: '=' :: value ∧ value ≠ [] := by
  constructor
  · intro h
    rw [Statement.countText?.eq_def] at h
    split at h
    case h_1 =>
      cases h
      exact ⟨false, rfl, List.cons_ne_nil _ _⟩
    case h_2 =>
      cases h
      exact ⟨true, rfl, List.cons_ne_nil _ _⟩
    case h_3 => cases h
  · rintro ⟨small, rfl, hne⟩
    cases value with
    | nil => exact absurd rfl hne
    | cons c value => cases small <;> rfl

theorem not_badCount_iff {part : List Char} :
    ¬ BadCount part ↔
      ∀ text, Statement.countText? part = some text → ∃ value, Value.read? text = some value := by
  constructor
  · intro h text htext
    obtain ⟨small, hpart, hne⟩ := countText?_eq_some_iff.1 htext
    by_contra hnone
    refine h ⟨small, text, hpart, hne, ?_⟩
    rintro o rfl
    exact hnone ⟨o.value, o.read?_text⟩
  · rintro h ⟨small, value, hpart, hne, hbad⟩
    obtain ⟨v, hv⟩ := h value (countText?_eq_some_iff.2 ⟨small, hpart, hne⟩)
    obtain ⟨o, ho, -⟩ := read?_eq_some_iff.1 hv
    exact hbad o ho

/-- The first part that is cut stands before the first count without a value. -/
theorem cutsParts_iff {parts : List (List Char)} :
    Statement.CutsParts parts ↔ ∃ before part after, parts = before ++ part :: after ∧
      Statement.cutsCharacter part = true ∧ ∀ p ∈ before, ¬ BadCount p := by
  constructor
  · intro h
    induction h with
    | @here part parts h => exact ⟨[], part, parts, rfl, h, List.forall_mem_nil _⟩
    | @later part parts h rest ih =>
      obtain ⟨before, cut, after, rfl, hcut, hbefore⟩ := ih
      exact ⟨part :: before, cut, after, rfl, hcut,
        List.forall_mem_cons.2 ⟨not_badCount_iff.2 h, hbefore⟩⟩
  · rintro ⟨before, part, after, rfl, hcut, hbefore⟩
    induction before with
    | nil => exact .here hcut
    | cons p before ih =>
      exact .later (not_badCount_iff.1 (hbefore p (.head _))) (ih fun q hq => hbefore q (.tail _ hq))

theorem cuts_iff {text : List Char} :
    Statement.Cuts text ↔ ∃ names body keyword before part after,
      Labelled (Statement.code text) names body ∧
      tokens body = keyword :: (before ++ part :: after) ∧
      sameLetters keyword "REPEAT".toList = true ∧
      (2 < bytes part ∧ ∀ n, bytes (part.take n) ≠ 2) ∧ ∀ p ∈ before, ¬ BadCount p := by
  have hbody (names : List String) (body : List Char) :
      Labelled (Statement.code text) names body ↔
        Statement.takeLabels (Statement.code text).length (Statement.code text) = (names, body) :=
    (takeLabels_eq_iff le_rfl).symm
  constructor
  · rintro ⟨keyword, parts, htokens, hkeyword, hparts⟩
    obtain ⟨before, part, after, rfl, hcut, hbefore⟩ := cutsParts_iff.1 hparts
    exact ⟨_, _, keyword, before, part, after, (hbody _ _).2 rfl, htokens, hkeyword,
      (Statement.cutsCharacter_iff part).1 hcut, hbefore⟩
  · rintro ⟨names, body, keyword, before, part, after, hlabelled, htokens, hkeyword, hcut, hbefore⟩
    have htake := (hbody _ _).1 hlabelled
    refine ⟨keyword, before ++ part :: after, ?_, hkeyword,
      cutsParts_iff.2 ⟨before, part, after, rfl, (Statement.cutsCharacter_iff part).2 hcut, hbefore⟩⟩
    rw [Statement.body, ← Statement.code, htake]
    exact htokens

/-- A line has no outcome exactly when it is a command to repeat with a part whose second byte ends
inside a character, before any count without a value. Every other line comes to a statement or to a
fault. -/
theorem no_outcome_iff (line : Nat) (text : String) :
    ((Statement.read text.toList).outcome? line text = none ↔
      ∃ names body keyword before part after,
        Labelled (Statement.code text.toList) names body ∧
        tokens body = keyword :: (before ++ part :: after) ∧
        sameLetters keyword "REPEAT".toList = true ∧
        (2 < bytes part ∧ ∀ n, bytes (part.take n) ≠ 2) ∧ ∀ p ∈ before, ¬ BadCount p) ∧
    ((Statement.read text.toList).outcome? line text = none ∨
      (∃ statement, (Statement.read text.toList).outcome? line text = some (.ok statement)) ∨
      ∃ cause, (Statement.read text.toList).outcome? line text = some (.error ⟨line, text, cause⟩)) ∧
    ∀ line', (Statement.read text.toList).outcome? line' text = none ↔
      (Statement.read text.toList).outcome? line text = none := by
  refine ⟨?_, ?_, fun line' => ?_⟩
  · rw [Reading.outcome?_eq_none_iff, Statement.read_eq_cut_iff, cuts_iff]
  · by_cases hcut : (Statement.read text.toList).result = .error .cutCharacter
    · exact .inl (Reading.outcome?_eq_none_iff.2 hcut)
    · exact .inr (Reading.exists_outcome? line text hcut)
  · rw [Reading.outcome?_eq_none_iff, Reading.outcome?_eq_none_iff]

end Written

end Toolpath
