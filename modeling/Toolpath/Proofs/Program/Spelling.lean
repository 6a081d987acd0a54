import Toolpath.Proofs.Program.Entries

/-!
# The texts of written statements

How the text of each part of a line begins and ends, which characters are in it, and that closing up
takes just the blanks around `=` out of it.
-/

namespace Toolpath.Written

open Text

/-- A character of a statement without labels. -/
def isInline (c : Char) : Bool := isSolid c || (isBlank c && c != '\n') || c == '='

/-- A text of such characters. -/
def Inline (cs : List Char) : Prop := ∀ c ∈ cs, isInline c = true

theorem inline_of_solid {cs : List Char} (h : Solid cs) : Inline cs := by
  intro c hc
  simp [isInline, h c hc]

theorem Inline.append {cs ds : List Char} (h : Inline cs) (h' : Inline ds) : Inline (cs ++ ds) :=
  List.forall_mem_append.2 ⟨h, h'⟩

theorem Inline.cons {c : Char} {cs : List Char} (hc : isSolid c = true) (h : Inline cs) :
    Inline (c :: cs) := by
  refine List.forall_mem_cons.2 ⟨?_, h⟩
  simp [isInline, hc]

theorem Inline.not_mem {cs : List Char} (h : Inline cs) {d : Char} (hd : isInline d = false) :
    d ∉ cs := by
  intro hmem
  rw [h d hmem] at hd
  cases hd

theorem Gap.inline (g : Gap) : Inline g.text := by
  intro c hc
  have hne : c ≠ '\n' := by
    rintro rfl
    exact g.inLine hc
  simp [isInline, g.blank c hc, hne]

theorem Equals.inline_text (e : Equals) : Inline e.text := by
  refine e.before.inline.append ?_
  intro c hc
  rcases List.mem_cons.1 hc with rfl | hc
  · rfl
  · exact e.after.inline c hc

theorem Equals.inline_closed (e : Equals) : Inline e.closed := by
  rintro c (_ | ⟨_, ⟨⟩⟩)
  rfl

theorem Equals.not_blank_closed (e : Equals) : ∀ c ∈ e.closed, isBlank c = false :=
  List.forall_mem_singleton.2 (by decide)

/-! ## Items one after another -/

section Spread

variable {α : Type} {text : α → List Char}

theorem spread_cons (item : Gap × α) (items : List (Gap × α)) :
    spread text (item :: items) = item.1.text ++ (text item.2 ++ spread text items) := by
  rw [spread, List.flatMap_cons, List.append_assoc]
  rfl

theorem inline_spread (h : ∀ a, Inline (text a)) (items : List (Gap × α)) :
    Inline (spread text items) := by
  induction items with
  | nil =>
    intro c hc
    cases hc
  | cons item items ih =>
    rw [spread_cons]
    exact item.1.inline.append ((h item.2).append ih)

theorem ends_spread (h : ∀ a, Ends (text a)) {cs : List Char} (hcs : Ends cs)
    (items : List (Gap × α)) : Ends (cs ++ spread text items) := by
  induction items generalizing cs with
  | nil =>
    rw [spread, List.flatMap_nil, List.append_nil]
    exact hcs
  | cons item items ih =>
    rw [spread_cons, ← List.append_assoc]
    exact (ih (h item.2)).append _

theorem closeUp_spread {closed : α → List Char} (hstarts : ∀ a, Starts (text a))
    (hclose : ∀ a rest, Statement.closeUp (text a ++ rest) = closed a ++ Statement.closeUp rest)
    (items : List (Gap × α)) : Statement.closeUp (spread text items) = spread closed items := by
  induction items with
  | nil => rfl
  | cons item items ih =>
    rw [spread_cons, spread_cons, Statement.closeUp_gap item.1.blank ((hstarts item.2).append _),
      hclose, ih]

end Spread

/-! ## Letters and values -/

theorem isSolid_inCase_P (small : Bool) : isSolid (inCase small 'P') = true := by
  cases small <;> decide

theorem Operand.ends_text (o : Operand) : Ends o.text := o.solid_text.ends o.text_ne_nil

/-- The text of a value behind `=`. -/
theorem Operand.closeUp_equals (o : Operand) (e : Equals) (rest : List Char) :
    Statement.closeUp (e.text ++ o.text ++ rest) =
      e.closed ++ o.text ++ Statement.closeUp rest := by
  rw [List.append_assoc, Statement.closeUp_equals e (o.starts_text.append rest),
    Statement.closeUp_append o.solid_text]
  rfl

section Mark

variable {mark : Equals → List Char}

/-! ## Words -/

namespace Entry

theorem starts_text (e : Entry) : Starts (e.text mark) :=
  ⟨_, _, rfl, isSolid_of_isAsciiLetter (isAsciiLetter_char _ _)⟩

theorem ends_text (e : Entry) : Ends (e.text mark) :=
  (e.operand.ends_text.append _).append [_]

theorem inline_text (hmark : ∀ e, Inline (mark e)) (e : Entry) : Inline (e.text mark) := by
  refine .cons (isSolid_of_isAsciiLetter (isAsciiLetter_char _ _))
    (.append ?_ (inline_of_solid e.operand.solid_text))
  cases e.equals with
  | none =>
    intro c hc
    cases hc
  | some equals => exact hmark equals

theorem closeUp_text (e : Entry) (rest : List Char) :
    Statement.closeUp (e.text Equals.text ++ rest) =
      e.text Equals.closed ++ Statement.closeUp rest := by
  have hletter := isSolid_of_isAsciiLetter (isAsciiLetter_char e.small e.address)
  rw [text, text, List.cons_append, Statement.closeUp_cons (not_isBlank_of_isSolid hletter)
    (ne_of_isSolid hletter (by decide)), List.cons_append]
  refine congrArg (_ :: ·) ?_
  cases e.equals with
  | none => exact Statement.closeUp_append e.operand.solid_text rest
  | some equals => exact e.operand.closeUp_equals equals rest

end Entry

/-! ## Assignments -/

namespace Assignment

theorem starts_text (a : Assignment) : Starts (a.text mark) :=
  (a.register.solid_text.starts a.register.text_ne_nil).append _

theorem ends_text (a : Assignment) : Ends (a.text mark) :=
  (a.operand.ends_text.append _).append _

theorem inline_text (hmark : ∀ e, Inline (mark e)) (a : Assignment) : Inline (a.text mark) :=
  (inline_of_solid a.register.solid_text).append
    ((hmark a.equals).append (inline_of_solid a.operand.solid_text))

theorem closeUp_text (a : Assignment) (rest : List Char) :
    Statement.closeUp (a.text Equals.text ++ rest) =
      a.text Equals.closed ++ Statement.closeUp rest := by
  rw [text, text, List.append_assoc a.register.text, Statement.closeUp_append a.register.solid_text,
    a.operand.closeUp_equals, List.append_assoc a.register.text]

end Assignment

/-! ## Commands to repeat -/

namespace Name

theorem solid_text (n : Name) : Solid n.text :=
  fun c h => isSolid_of_isNamePart (n.isNamePart_text c h)

theorem text_ne_nil (n : Name) : n.text ≠ [] := List.cons_ne_nil _ _

end Name

namespace Count

theorem starts_text (c : Count) : Starts (c.text mark) := ⟨_, _, rfl, isSolid_inCase_P c.small⟩

theorem ends_text (c : Count) : Ends (c.text mark) := (c.operand.ends_text.append _).append [_]

theorem inline_text (hmark : ∀ e, Inline (mark e)) (c : Count) : Inline (c.text mark) :=
  .cons (isSolid_inCase_P c.small) ((hmark c.equals).append (inline_of_solid c.operand.solid_text))

theorem closeUp_text (c : Count) (rest : List Char) :
    Statement.closeUp (c.text Equals.text ++ rest) =
      c.text Equals.closed ++ Statement.closeUp rest := by
  have hletter := isSolid_inCase_P c.small
  rw [text, text, List.cons_append, Statement.closeUp_cons (not_isBlank_of_isSolid hletter)
    (ne_of_isSolid hletter (by decide)), c.operand.closeUp_equals]
  rfl

end Count

namespace Part

theorem starts_text : ∀ p : Part, Starts (p.text mark)
  | label name => name.solid_text.starts name.text_ne_nil
  | count c => c.starts_text

theorem ends_text : ∀ p : Part, Ends (p.text mark)
  | label name => name.solid_text.ends name.text_ne_nil
  | count c => c.ends_text

theorem inline_text (hmark : ∀ e, Inline (mark e)) : ∀ p : Part, Inline (p.text mark)
  | label name => inline_of_solid name.solid_text
  | count c => c.inline_text hmark

theorem closeUp_text (rest : List Char) : ∀ p : Part,
    Statement.closeUp (p.text Equals.text ++ rest) = p.text Equals.closed ++ Statement.closeUp rest
  | label name => Statement.closeUp_append name.solid_text rest
  | count c => c.closeUp_text rest

end Part

namespace Command

theorem isAsciiLetter_of_mem {c : Command} {d : Char} (h : d ∈ c.keyword) :
    isAsciiLetter d = true := by
  have hmem : d.toUpper ∈ c.keyword.map Char.toUpper := List.mem_map_of_mem h
  rw [c.isKeyword] at hmem
  have hall : "REPEAT".toList.all isAsciiLetter = true := by decide
  exact isAsciiLetter_of_toUpper (List.all_eq_true.1 hall _ hmem)

theorem solid_keyword (c : Command) : Solid c.keyword :=
  fun _ h => isSolid_of_isAsciiLetter (isAsciiLetter_of_mem h)

theorem keyword_ne_nil (c : Command) : c.keyword ≠ [] := by
  intro h
  have := c.isKeyword
  rw [h] at this
  cases this

end Command

/-! ## Whole lines -/

namespace Body

theorem starts_text : ∀ b : Body, Starts (b.text mark)
  | assign as => as.first.starts_text.append _
  | again c => (c.solid_keyword.starts c.keyword_ne_nil).append _
  | words es => es.first.starts_text.append _

theorem ends_text : ∀ b : Body, Ends (b.text mark)
  | assign as => ends_spread Assignment.ends_text as.first.ends_text as.more
  | again c => ends_spread Part.ends_text (c.solid_keyword.ends c.keyword_ne_nil) c.parts
  | words es => ends_spread Entry.ends_text es.first.ends_text es.more

theorem inline_text (hmark : ∀ e, Inline (mark e)) : ∀ b : Body, Inline (b.text mark)
  | assign as => (as.first.inline_text hmark).append
      (inline_spread (Assignment.inline_text hmark) as.more)
  | again c => (inline_of_solid c.solid_keyword).append
      (inline_spread (Part.inline_text hmark) c.parts)
  | words es => (es.first.inline_text hmark).append
      (inline_spread (Entry.inline_text hmark) es.more)

theorem closeUp_text (b : Body) :
    Statement.closeUp (b.text Equals.text) = b.text Equals.closed := by
  cases b with
  | assign as =>
    rw [text, Assignments.text, as.first.closeUp_text,
      closeUp_spread Assignment.starts_text Assignment.closeUp_text]
    rfl
  | again c =>
    rw [text, Command.text, Statement.closeUp_append c.solid_keyword,
      closeUp_spread Part.starts_text fun p rest => p.closeUp_text rest]
    rfl
  | words es =>
    rw [text, Entries.text, es.first.closeUp_text,
      closeUp_spread Entry.starts_text Entry.closeUp_text]
    rfl

end Body

namespace Code

theorem starts_text : ∀ c : Code, Starts (c.text mark)
  | plain body => body.starts_text
  | bare name => (name.solid_text.starts name.text_ne_nil).append _
  | labelled name _ _ => (name.solid_text.starts name.text_ne_nil).append _

theorem ends_text : ∀ c : Code, Ends (c.text mark)
  | plain body => body.ends_text
  | bare name => ⟨name.text, ':', rfl, by decide⟩
  | labelled _ _ rest => ((rest.ends_text.append _).append [':']).append _

/-- There is nothing else in the text of a line than colons after labels. -/
theorem inline_text (hmark : ∀ e, Inline (mark e)) {c : Code} {d : Char} (h : d ∈ c.text mark) :
    isInline d = true ∨ d = ':' := by
  induction c with
  | plain body => exact .inl (body.inline_text hmark d h)
  | bare name =>
    rcases List.mem_append.1 h with h | h
    · exact .inl (inline_of_solid name.solid_text d h)
    · exact .inr (List.mem_singleton.1 h)
  | labelled name gap rest ih =>
    rcases List.mem_append.1 h with h | h
    · exact .inl (inline_of_solid name.solid_text d h)
    · rcases List.mem_cons.1 h with rfl | h
      · exact .inr rfl
      · rcases List.mem_append.1 h with h | h
        · exact .inl (gap.inline d h)
        · exact ih h

theorem closeUp_text (c : Code) :
    Statement.closeUp (c.text Equals.text) = c.text Equals.closed := by
  have hcolon := fun rest => Statement.closeUp_cons (c := ':') (by decide) (by decide) rest
  induction c with
  | plain body => exact body.closeUp_text
  | bare name =>
    rw [text, Statement.closeUp_append name.solid_text, hcolon]
    rfl
  | labelled name gap rest ih =>
    rw [text, Statement.closeUp_append name.solid_text, hcolon,
      Statement.closeUp_gap gap.blank rest.starts_text, ih]
    rfl

end Code

end Mark

end Toolpath.Written
