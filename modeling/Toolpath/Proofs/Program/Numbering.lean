import Toolpath.Proofs.Program.Recognition

/-!
# Sequence numbers

A sequence number and a blank before a line leave its code as it is but for what stands before it
(`code_numbered`), and make the whole a line of words (`read_numbered_eq`). So they are passed over
before a line that is one by itself, and before an assignment or a command to repeat they are not
(`read_numbered`).
-/

namespace Toolpath

open Text

namespace Word

/-- The room given to a text does not matter, if it is enough. -/
theorem scan_eq_of_le {n m : Nat} {code : List Char} (hn : code.length ≤ n) (hm : code.length ≤ m) :
    scan n code = scan m code := by
  induction n generalizing m code with
  | zero =>
    obtain rfl := List.length_eq_zero_iff.1 (Nat.le_zero.1 hn)
    cases m <;> rfl
  | succ n ih =>
    cases code with
    | nil => cases m <;> rfl
    | cons c cs =>
      obtain ⟨m, rfl⟩ : ∃ k, m = k + 1 := ⟨m - 1, by simp at hm; omega⟩
      rw [List.length_cons] at hn hm
      rw [scan, scan, ih (Nat.le_of_succ_le_succ hn) (Nat.le_of_succ_le_succ hm)]
      split
      case isTrue => rfl
      case isFalse =>
        split
        case h_1 => rfl
        case h_2 w rest hread =>
          have hrest : rest.length ≤ cs.length := by
            obtain ⟨-, -, hcs⟩ := Written.read_eq_ok hread
            rcases hcs with rfl | rfl
            · simp only [List.length_cons, List.length_append]
              omega
            · simp only [List.length_append]
              omega
          rw [@ih m rest (by omega) (by omega)]

/-- A letter is refused if what follows it begins no value. -/
theorem read_of_no_value {c d : Char} {address : Address} (hc : isAsciiLetter c = true)
    (haddress : Address.ofChar? c = some address) (hliteral : isLiteral d = false)
    (hd : d ≠ '=' ∧ d ≠ 'R' ∧ d ≠ 'r') (cs : List Char) :
    read c (d :: cs) = .error (.malformedNumber (spell address [])) := by
  have htext : valueText (d :: cs) = ([], d :: cs) := by
    rw [valueText_of_ne hd.2, List.takeWhile_cons_of_neg (by simp [hliteral]),
      List.dropWhile_cons_of_neg (by simp [hliteral])]
  have hnone : Value.read? [] = none := rfl
  simp [read, hc, haddress, hd.1, htext, hnone]

end Word

namespace Written

/-- A line with a sequence number before it. -/
def numbered (ds : Digits) (text : List Char) : List Char := 'N' :: (ds.text ++ ' ' :: text)

/-! ## The code of a numbered line -/

/-- Behind a character that is not blank only the blanks at the end of a text go. -/
theorem trim_behind {c : Char} (hc : isBlank c = false) (cs : List Char) {text : List Char}
    (h : trim text ≠ []) :
    trim (c :: cs ++ text) = c :: cs ++ (text.takeWhile isBlank ++ trim text) := by
  have htext : text.takeWhile isBlank ++ text.dropWhile isBlank = text :=
    List.takeWhile_append_dropWhile
  have hdrop : (c :: cs ++ text).dropWhile isBlank = c :: cs ++ text :=
    List.dropWhile_cons_of_neg (by simp [hc])
  rw [trim, hdrop]
  calc
    trimEnd (c :: cs ++ text) =
        trimEnd ((c :: cs ++ text.takeWhile isBlank) ++ text.dropWhile isBlank) := by
      rw [List.append_assoc, htext]
    _ = (c :: cs ++ text.takeWhile isBlank) ++ trim text := trimEnd_append_of_ne_nil h _
    _ = c :: cs ++ (text.takeWhile isBlank ++ trim text) := List.append_assoc _ _ _

theorem starts_of_closeUp {cs : List Char} (hcs : ∀ c ∈ cs.head?, isBlank c = false)
    (h : Starts (Statement.closeUp cs)) : Starts cs := by
  cases cs with
  | nil =>
    obtain ⟨c, rest, heq, -⟩ := h
    cases heq
  | cons c cs =>
    obtain ⟨more, hmore⟩ := Statement.exists_closeUp_cons (hcs c rfl) cs
    rw [hmore] at h
    obtain ⟨d, rest, heq, hd⟩ := h
    cases heq
    exact ⟨c, cs, rfl, hd⟩

theorem code_numbered (ds : Digits) {text : List Char} (h : Starts (Statement.code text)) :
    ∃ gap, (∀ c ∈ gap, isBlank c = true) ∧ gap ≠ [] ∧
      Statement.code (numbered ds text) = 'N' :: (ds.text ++ (gap ++ Statement.code text)) := by
  have hblanks (cs : List Char) : ∀ c ∈ cs.takeWhile isBlank, isBlank c = true :=
    fun c hc => List.mem_takeWhile_imp hc
  have hstarts : Starts (trim (Statement.stripComment (trim text))) :=
    starts_of_closeUp (not_blank_of_trim _) h
  have hinner : trim (Statement.stripComment (trim text)) ≠ [] := by
    obtain ⟨c, rest, heq, -⟩ := hstarts
    rw [heq]
    exact List.cons_ne_nil _ _
  have hne : trim (' ' :: text) ≠ [] := by
    intro hnil
    rw [show trim text = [] from hnil] at hinner
    exact hinner rfl
  have hnumber : Solid ('N' :: ds.text) := .cons (by decide) ds.solid_text
  have hplain : ∀ c ∈ 'N' :: (ds.text ++ (' ' :: text).takeWhile isBlank), c ≠ '(' ∧ c ≠ ';' := by
    rw [← List.cons_append]
    refine List.forall_mem_append.2 ⟨fun c hc => ?_, fun c hc => ?_⟩
    · exact ⟨ne_of_isSolid (hnumber c hc) (by decide), ne_of_isSolid (hnumber c hc) (by decide)⟩
    · have hblank := hblanks _ c hc
      constructor
      all_goals
        rintro rfl
        cases hblank
  refine ⟨(' ' :: text).takeWhile isBlank ++
    (Statement.stripComment (trim text)).takeWhile isBlank,
    List.forall_mem_append.2 ⟨hblanks _, hblanks _⟩, List.cons_ne_nil _ _, ?_⟩
  calc
    Statement.code (numbered ds text) =
        Statement.closeUp (trim (Statement.stripComment
          (trim ('N' :: ds.text ++ ' ' :: text)))) := rfl
    _ = Statement.closeUp (trim ('N' :: (ds.text ++ (' ' :: text).takeWhile isBlank) ++
          Statement.stripComment (trim text))) := by
      rw [trim_behind (by decide) ds.text hne, ← Statement.stripComment_append hplain]
      simp only [List.cons_append, List.append_assoc]
      rfl
    _ = Statement.closeUp ('N' :: ds.text ++ (((' ' :: text).takeWhile isBlank ++
          (Statement.stripComment (trim text)).takeWhile isBlank) ++
            trim (Statement.stripComment (trim text)))) := by
      rw [trim_behind (by decide) _ hinner]
      simp only [List.cons_append, List.append_assoc]
    _ = _ := by
      rw [Statement.closeUp_append hnumber, Statement.closeUp_gap
        (List.forall_mem_append.2 ⟨hblanks _, hblanks _⟩) hstarts]
      rfl

/-! ## What follows a sequence number -/

/-- The word that a sequence number is. -/
def numberEntry (ds : Digits) (hds : ds ≠ []) : Entry :=
  ⟨.n, false, none, .numeral ⟨none, ds, none, by simpa using hds⟩, fun _ => trivial⟩

theorem text_numberEntry (ds : Digits) (hds : ds ≠ []) :
    (numberEntry ds hds).text Equals.closed = 'N' :: ds.text := by
  simp [numberEntry, Entry.text, Operand.text, Numeral.text, Numeral.unsigned, inCase, Address.char]

/-- A sequence number leaves nothing behind in a block. -/
theorem read_behind_number {ds : Digits} (hds : ds ≠ []) {gap : List Char}
    (hgap : ∀ c ∈ gap, isBlank c = true) (hne : gap ≠ []) (code : List Char) :
    Block.read ('N' :: (ds.text ++ (gap ++ code))) = Block.read code := by
  have hread : Word.read 'N' (ds.text ++ (gap ++ code)) =
      .ok ((numberEntry ds hds).word, gap ++ code) := by
    have htext := text_numberEntry ds hds
    have hstops : Stops (gap ++ code) := stops_gap hgap (absurd · hne)
    have h := (numberEntry ds hds).read_text (Entry.not_isLiteral_of_stops hstops)
    rw [← List.append_assoc] at h
    rw [Entry.text] at htext
    rwa [(List.cons.inj htext).1, (List.cons.inj htext).2] at h
  have hlength : (ds.text ++ (gap ++ code)).length = gap.length + (ds.length + code.length) := by
    simp only [List.length_append, Digits.length_text]
    omega
  have hscan : Word.scan ('N' :: (ds.text ++ (gap ++ code))).length
      ('N' :: (ds.text ++ (gap ++ code))) =
        ((numberEntry ds hds).word :: (Word.scan code.length code).1,
          (Word.scan code.length code).2) := by
    rw [List.length_cons, scan_cons (by decide) hread, hlength, scan_gap hgap,
      Word.scan_eq_of_le (Nat.le_add_left _ _) le_rfl]
  rw [Block.read, hscan, Block.read]
  rfl

/-- A sequence number is no label. -/
theorem label?_number (ds : Digits) {gap : List Char} (hgap : ∀ c ∈ gap, isBlank c = true)
    (hne : gap ≠ []) (rest : List Char) :
    Statement.label? ('N' :: (ds.text ++ (gap ++ rest))) = none := by
  have hname : ∀ c ∈ 'N' :: ds.text, Statement.isNamePart c = true := by
    refine List.forall_mem_cons.2 ⟨by decide, fun c hc => ?_⟩
    simp [Statement.isNamePart, ds.isAsciiDigit_text c hc]
  cases gap with
  | nil => exact absurd rfl hne
  | cons b gap =>
    have hb := hgap b (.head _)
    have hpart : Statement.isNamePart b = false := by
      refine Bool.eq_false_iff.2 fun hpart => ?_
      rw [not_isBlank_of_isSolid (isSolid_of_isNamePart hpart)] at hb
      cases hb
    refine Statement.label?_of_ne hname hpart ?_ (gap ++ rest)
    rintro rfl
    cases hb

/-- A line behind a sequence number is taken for words, whatever it is taken for by itself. -/
theorem read_numbered_eq {ds : Digits} (hds : ds ≠ []) {text : List Char}
    (h : Starts (Statement.code text)) :
    (Statement.read (numbered ds text)).result =
      (Block.read (Statement.code text)).result.map fun b => ⟨[], .block b⟩ := by
  obtain ⟨gap, hgap, hne, hcode⟩ := code_numbered ds h
  have hlabel : Statement.label? (Statement.code (numbered ds text)) = none := by
    rw [hcode]
    exact label?_number ds hgap hne _
  have htext := text_numberEntry ds hds
  have hstops : Stops (gap ++ Statement.code text) := stops_gap hgap (absurd · hne)
  have haction := readAction_words (e := numberEntry ds hds) (.inl trivial) hstops
  rw [htext, List.cons_append, read_behind_number hds hgap hne] at haction
  rw [Statement.read_eq_readCode (by rw [hcode]; exact List.cons_ne_nil _ _),
    Statement.readCode_of_label?_eq_none hlabel, hcode, haction]
  cases (Block.read (Statement.code text)).result <;> rfl

/-! ## What is refused behind a sequence number -/

/-- A block ends where a word is refused after words that are added. -/
theorem read_of_refused {code : List Char} {ws : List Word} {cause : Cause} {b : Block}
    (hscan : Word.scan code.length code = (ws, some cause))
    (hadd : (Block.addAll {} ws).result = .ok b) :
    (Block.read code).result = .error (.fault cause) := by
  rw [Block.read, hscan]
  dsimp only
  rw [hadd]

theorem exists_of_keyword {first : List Char} (h : sameLetters first "REPEAT".toList = true) :
    ∃ c d rest, first = c :: d :: rest ∧ c.toUpper = 'R' ∧ d.toUpper = 'E' := by
  have hmap : first.map Char.toUpper = ['R', 'E', 'P', 'E', 'A', 'T'] := by
    simpa [sameLetters] using h
  obtain ⟨c, first, rfl, hc, hmap⟩ := List.map_eq_cons_iff.1 hmap
  obtain ⟨d, rest, rfl, hd, -⟩ := List.map_eq_cons_iff.1 hmap
  exact ⟨c, d, rest, rfl, hc, hd⟩

/-- The keyword of a command to repeat is refused as a word. -/
theorem read_keyword {first : List Char} (h : sameLetters first "REPEAT".toList = true)
    (tail : List Char) :
    Starts first ∧
      (Block.read (first ++ tail)).result = .error (.fault (.malformedNumber "R")) := by
  obtain ⟨c, d, rest, rfl, hc, hd⟩ := exists_of_keyword h
  have hletter : isAsciiLetter c = true := isAsciiLetter_of_toUpper (by rw [hc]; decide)
  have hsolid := isSolid_of_isAsciiLetter hletter
  have hliteral : Word.isLiteral d = false :=
    not_isLiteral_of_isAsciiLetter (isAsciiLetter_of_toUpper (by rw [hd]; decide))
  have haddress : Address.ofChar? c = some (.data .r) := by
    rw [Address.ofChar?, hc]
    rfl
  have hother : d ≠ '=' ∧ d ≠ 'R' ∧ d ≠ 'r' := by
    refine ⟨?_, ?_, ?_⟩
    all_goals
      rintro rfl
      cases hd
  have hread := Word.read_of_no_value hletter haddress hliteral hother (rest ++ tail)
  have hscan : Word.scan (c :: d :: rest ++ tail).length (c :: d :: rest ++ tail) =
      ([], some (.malformedNumber "R")) := by
    rw [List.cons_append, List.cons_append, List.length_cons, Word.scan, hread,
      if_neg (by simp [not_isBlank_of_isSolid hsolid])]
    rfl
  exact ⟨⟨c, _, rfl, hsolid⟩, read_of_refused hscan rfl⟩

/-- The sign `=` begins no word. -/
theorem scan_equals (o : Operand) {tail : List Char} (htail : ∀ c ∈ tail.head?, isBlank c = true) :
    Word.scan ('=' :: (o.text ++ tail)).length ('=' :: (o.text ++ tail)) =
      ([], some (.malformedNumber (String.ofList ('=' :: o.text)))) := by
  have htake : ('=' :: (o.text ++ tail)).takeWhile (!isBlank ·) = '=' :: o.text := by
    rw [← List.cons_append]
    refine takeWhile_append ?_ (by simpa using htail)
    refine List.forall_mem_cons.2 ⟨by decide, fun c hc => ?_⟩
    simp [o.solid_text.not_blank c hc]
  have hread : Word.read '=' (o.text ++ tail) =
      .error (.malformedNumber (String.ofList ('=' :: o.text))) := by
    rw [Word.read.eq_def, htake]
    rfl
  rw [List.length_cons, Word.scan, if_neg (by decide), hread]

/-- An assignment is refused as words, at its `=`. -/
theorem read_assignment (a : Assignment) {tail : List Char}
    (htail : ∀ c ∈ tail.head?, isBlank c = true) :
    (Block.read (a.text Equals.closed ++ tail)).result =
      .error (.fault (.malformedNumber (String.ofList ('=' :: a.operand.text)))) := by
  let e : Entry := ⟨.data .r, a.register.small, none,
    .numeral ⟨none, a.register.digits, none, by simpa using a.register.ne_nil⟩, by simp⟩
  have htext : a.text Equals.closed ++ tail = inCase e.small e.address.char ::
      ((e.equals.map Equals.closed).getD [] ++ (e.operand.text ++
        '=' :: (a.operand.text ++ tail))) := by
    simp [e, Assignment.text, Register.text, Operand.text, Numeral.text, Numeral.unsigned,
      Equals.closed, Address.char, Letter.char]
  have hequals : ∀ c ∈ ('=' :: (a.operand.text ++ tail)).head?, Word.isLiteral c = false := by
    rintro c ⟨⟩
    decide
  have hletter := not_isBlank_of_isSolid
    (isSolid_of_isAsciiLetter (Entry.isAsciiLetter_char e.small e.address))
  have hscan : Word.scan (a.text Equals.closed ++ tail).length (a.text Equals.closed ++ tail) =
      ([e.word], some (.malformedNumber (String.ofList ('=' :: a.operand.text)))) := by
    rw [htext, List.length_cons, scan_cons hletter (e.read_text hequals),
      Word.scan_eq_of_le (by simp only [List.length_append]; omega) le_rfl,
      scan_equals a.operand htail]
  exact read_of_refused hscan rfl

theorem exists_of_mapM_cons {α β ε : Type} {f : α → Except ε β} {a : α} {as : List α} {bs : List β}
    (h : (a :: as).mapM f = .ok bs) : ∃ b more, f a = .ok b ∧ bs = b :: more := by
  rw [List.mapM_cons] at h
  cases ha : f a with
  | error e =>
    rw [ha] at h
    cases h
  | ok b =>
    cases has : as.mapM f with
    | error e =>
      rw [ha, has] at h
      cases h
    | ok more =>
      rw [ha, has] at h
      cases h
      exact ⟨b, more, rfl, rfl⟩

/-! ## Sequence numbers -/

/-- A sequence number before a line of words is passed over. Before an assignment or a command to
repeat it is not: what follows it is taken for words, and is refused where it is none. -/
theorem read_numbered {ds : Digits} (hds : ds ≠ []) (text : List Char) :
    (∀ b, (Statement.read text).result = .ok ⟨[], .block b⟩ →
      (Statement.read (numbered ds text)).result = .ok ⟨[], .block b⟩) ∧
    (∀ pairs, (Statement.read text).result = .ok ⟨[], .assign pairs⟩ →
      ∃ a : Assignment, pairs.head? = some a.pair ∧ (Statement.read (numbered ds text)).result =
        .error (.fault (.malformedNumber (String.ofList ('=' :: a.operand.text))))) ∧
    (∀ command, (Statement.read text).result = .ok ⟨[], .again command⟩ →
      (Statement.read (numbered ds text)).result = .error (.fault (.malformedNumber "R"))) := by
  have hstart := Statement.not_blank_of_code text
  refine ⟨fun b h => ?_, fun pairs h => ?_, fun command h => ?_⟩
  · rcases taken_of_read h with h | h
    · cases h
    · cases h with
      | block hstarts hread =>
        rw [read_numbered_eq hds (starts_of_startsWithWord hstarts), hread]
        rfl
  · rcases taken_of_read h with h | h
    · cases h
    · cases h with
      | assign htokens hpairs =>
        obtain ⟨tail, hcode, htail⟩ := exists_tail_of_tokens htokens hstart
        obtain ⟨pair, more, hpair, rfl⟩ := exists_of_mapM_cons hpairs
        obtain ⟨a, rfl, rfl⟩ := exists_assignment hpair
        have hstarts : Starts (Statement.code text) := by
          rw [hcode]
          exact a.starts_text.append tail
        refine ⟨a, rfl, ?_⟩
        rw [read_numbered_eq hds hstarts, hcode, read_assignment a htail]
        rfl
  · rcases taken_of_read h with h | h
    · cases h
    · cases h with
      | again htokens hkeyword =>
        obtain ⟨tail, hcode, -⟩ := exists_tail_of_tokens htokens hstart
        obtain ⟨hfirst, hread⟩ := read_keyword hkeyword tail
        have hstarts : Starts (Statement.code text) := by
          rw [hcode]
          exact hfirst.append tail
        rw [read_numbered_eq hds hstarts, hcode, hread]
        rfl

/-- A command to repeat and an assignment are refused behind a sequence number. -/
theorem exists_refused_numbered : ∃ (ds : Digits) (repeated assigned : List Char) (command : Repeat)
    (pairs : List (Nat × Value)), ds ≠ [] ∧
      (Statement.read repeated).result = .ok ⟨[], .again command⟩ ∧
      (Statement.read (numbered ds repeated)).result ≠ .ok ⟨[], .again command⟩ ∧
      (Statement.read assigned).result = .ok ⟨[], .assign pairs⟩ ∧
      (Statement.read (numbered ds assigned)).result ≠ .ok ⟨[], .assign pairs⟩ := by
  refine ⟨[1, 0], "REPEAT A".toList, "R1=R2".toList, ⟨"A", none, none⟩, [(1, .register 2)],
    by simp, rfl, ?_, rfl, ?_⟩
  · intro h
    cases h
  · intro h
    cases h

theorem read_numbered_threeLines :
    (Statement.read (numbered [1, 0] "X=R1".toList)).result =
      .ok ⟨[], .block { words := { x := some (.register 1) } }⟩ ∧
    (∃ a : Assignment, a.pair = (1, .register 2) ∧
      (Statement.read (numbered [2, 0] "R1=R2 R3=R1".toList)).result =
        .error (.fault (.malformedNumber (String.ofList ('=' :: a.operand.text))))) ∧
    (Statement.read (numbered [3, 0] "REPEAT A".toList)).result =
      .error (.fault (.malformedNumber "R")) := by
  have hwords := read_numbered (List.cons_ne_nil (1 : Fin 10) [0]) "X=R1".toList
  have hassignments := read_numbered (List.cons_ne_nil (2 : Fin 10) [0]) "R1=R2 R3=R1".toList
  have hcommand := read_numbered (List.cons_ne_nil (3 : Fin 10) [0]) "REPEAT A".toList
  refine ⟨hwords.1 _ rfl, ?_, hcommand.2.2 ⟨"A", none, none⟩ rfl⟩
  obtain ⟨a, ha, hread⟩ := hassignments.2.1 [(1, .register 2), (3, .register 1)] rfl
  exact ⟨a, (Option.some.inj ha).symm, hread⟩

end Written

end Toolpath
