import Toolpath.Proofs.Program.Layout

/-!
# Reading words

Numbers, registers and words are read back from their texts, whatever follows that cannot belong to
them. The words of a sentence come out one by one (`Sentence.scan_eq`), and the block that is made of
them is the block that a line of such words says (`read_entries`).
-/

namespace Toolpath

open Text

namespace Words

variable {β : Type}

@[simp] theorem get?_ofFn (entry : Letter → Option β) (letter : Letter) :
    (ofFn entry).get? letter = entry letter := by
  cases letter <;> rfl

theorem ext_get? {w w' : Words β} (h : ∀ letter, w.get? letter = w'.get? letter) : w = w' := by
  obtain ⟨f, i, j, p, q, r, s, x, y, z⟩ := w
  obtain ⟨f', i', j', p', q', r', s', x', y', z'⟩ := w'
  obtain rfl : f = f' := h .f
  obtain rfl : i = i' := h .i
  obtain rfl : j = j' := h .j
  obtain rfl : p = p' := h .p
  obtain rfl : q = q' := h .q
  obtain rfl : r = r' := h .r
  obtain rfl : s = s' := h .s
  obtain rfl : x = x' := h .x
  obtain rfl : y = y' := h .y
  obtain rfl : z = z' := h .z
  rfl

end Words

theorem Value.registerDigits?_of_isLiteral {c : Char} (hc : Word.isLiteral c = true)
    (cs : List Char) : Value.registerDigits? (c :: cs) = none := by
  rw [Value.registerDigits?]
  · intro ds h
    rw [(List.cons.inj h).1] at hc
    cases hc
  · intro ds h
    rw [(List.cons.inj h).1] at hc
    cases hc

namespace Word

/-- The text of a value that begins with no register letter. -/
theorem valueText_of_ne {c : Char} (hc : c ≠ 'R' ∧ c ≠ 'r') (cs : List Char) :
    valueText (c :: cs) = ((c :: cs).takeWhile isLiteral, (c :: cs).dropWhile isLiteral) := by
  have hletter : (c == 'R' || c == 'r') = false := by simpa using hc
  cases cs with
  | nil => rfl
  | cons d cs =>
    rw [valueText, hletter]
    rfl

/-- The text of a value that begins like a number. -/
theorem valueText_of_isLiteral {c : Char} (hc : isLiteral c = true) (cs : List Char) :
    valueText (c :: cs) = ((c :: cs).takeWhile isLiteral, (c :: cs).dropWhile isLiteral) := by
  refine valueText_of_ne ?_ cs
  constructor
  all_goals
    rintro rfl
    cases hc

/-- The text of a value that begins like a register. -/
theorem valueText_of_isAsciiDigit {c d : Char} (hc : c = 'R' ∨ c = 'r')
    (hd : isAsciiDigit d = true) (cs : List Char) :
    valueText (c :: d :: cs) =
      (c :: (d :: cs).takeWhile isAsciiDigit, (d :: cs).dropWhile isAsciiDigit) := by
  have hletter : (c == 'R' || c == 'r') = true := by simpa using hc
  rw [valueText, hletter, hd]
  rfl

/-- A word is read in three parts: its letter, perhaps `=`, and the text of its value. -/
theorem read_eq {c : Char} {cs ds text rest : List Char} {address : Address} {value : Value}
    (hc : isAsciiLetter c = true) (haddress : Address.ofChar? c = some address)
    (hds : cs = '=' :: ds ∨ cs = ds ∧ ∀ es, ds ≠ '=' :: es)
    (htext : valueText ds = (text, rest)) (hvalue : Value.read? text = some value) :
    read c cs = .ok (⟨address, value, text⟩, rest) := by
  rcases hds with rfl | ⟨rfl, hne⟩
  · simp [read, hc, haddress, htext, hvalue]
  · simp [read, hc, haddress, htext, hvalue]

end Word

namespace Written

/-! ## Digits -/

namespace Digits

theorem isAsciiDigit_text (ds : Digits) : ∀ c ∈ ds.text, isAsciiDigit c = true := by
  have hdigit : ∀ d : Fin 10, isAsciiDigit (Nat.digitChar d) = true := by decide
  exact List.forall_mem_map.2 fun d _ => hdigit d

theorem isLiteral_text (ds : Digits) : ∀ c ∈ ds.text, Word.isLiteral c = true := by
  intro c h
  simp [Word.isLiteral, ds.isAsciiDigit_text c h]

theorem all_text (ds : Digits) : ds.text.all isAsciiDigit = true :=
  List.all_eq_true.2 ds.isAsciiDigit_text

theorem solid_text (ds : Digits) : Solid ds.text :=
  fun c h => isSolid_of_isLiteral (ds.isLiteral_text c h)

@[simp] theorem text_eq_nil {ds : Digits} : ds.text = [] ↔ ds = [] := List.map_eq_nil_iff

@[simp] theorem length_text (ds : Digits) : ds.text.length = ds.length := List.length_map _

theorem text_append (ds es : Digits) : text (ds ++ es) = ds.text ++ es.text := List.map_append

theorem value_text (ds : Digits) : Decimal.value ds.text = ds.value := by
  induction ds using List.reverseRecOn with
  | nil => rfl
  | append_singleton ds d ih =>
    have hd : (Nat.digitChar d).toNat - '0'.toNat = d := by
      revert d
      decide
    have hlast : Decimal.value (text (ds ++ [d])) =
        10 * Decimal.value (text ds) + ((Nat.digitChar d).toNat - '0'.toNat) := by
      rw [text_append, Decimal.value, Decimal.valueFrom, List.foldl_append]
      rfl
    rw [hlast, ih, hd, value, value, List.reverse_append, List.reverse_singleton,
      List.singleton_append, List.map_cons, Nat.ofDigits_cons]
    omega

end Digits

/-! ## Numbers and registers -/

namespace Numeral

theorem magnitude?_unsigned (x : Numeral) : Value.magnitude? x.unsigned = some x.magnitude := by
  obtain ⟨sign, whole, frac, hne⟩ := x
  rw [Value.magnitude?, unsigned]
  cases frac with
  | none =>
    have hwhole : whole ≠ [] := by simpa using hne
    have htail : ∀ c ∈ ([] : List Char).head?, isAsciiDigit c = false := by simp
    simp only [Option.map_none, Option.getD_none]
    rw [takeWhile_append (Digits.isAsciiDigit_text whole) htail,
      dropWhile_append (Digits.isAsciiDigit_text whole) htail]
    simp [hwhole, Decimal.ofDigits, Decimal.valueFrom, Digits.value_text, magnitude]
  | some frac =>
    have htail : ∀ c ∈ ('.' :: frac.text).head?, isAsciiDigit c = false := by
      rintro c ⟨⟩
      decide
    have hvalue : Decimal.valueFrom (Decimal.value whole.text) frac.text =
        Digits.value (whole ++ frac) := by
      rw [← Digits.value_text, Digits.text_append, Decimal.value, Decimal.value, Decimal.valueFrom,
        Decimal.valueFrom, Decimal.valueFrom, List.foldl_append]
    have hsome : ¬ (whole = [] ∧ frac = []) := by simpa using hne
    simp only [Option.map_some, Option.getD_some]
    rw [takeWhile_append (Digits.isAsciiDigit_text whole) htail,
      dropWhile_append (Digits.isAsciiDigit_text whole) htail]
    simp [Digits.all_text, hsome, Decimal.ofDigits, hvalue, magnitude]

theorem isLiteral_unsigned (x : Numeral) : ∀ c ∈ x.unsigned, Word.isLiteral c = true := by
  rw [unsigned]
  refine List.forall_mem_append.2 ⟨Digits.isLiteral_text _, ?_⟩
  cases x.frac with
  | none => exact List.forall_mem_nil _
  | some frac => exact List.forall_mem_cons.2 ⟨by decide, Digits.isLiteral_text frac⟩

theorem isLiteral_text (x : Numeral) : ∀ c ∈ x.text, Word.isLiteral c = true := by
  rw [text]
  refine List.forall_mem_append.2 ⟨?_, x.isLiteral_unsigned⟩
  cases x.sign with
  | none => exact List.forall_mem_nil _
  | some sign => exact List.forall_mem_singleton.2 (by cases sign <;> decide)

theorem unsigned_ne_nil (x : Numeral) : x.unsigned ≠ [] := by
  intro h
  obtain ⟨hwhole, hfrac⟩ := List.append_eq_nil_iff.1 h
  refine x.ne_nil ?_
  cases hf : x.frac with
  | none => simpa using hwhole
  | some frac => simp [hf] at hfrac

theorem text_ne_nil (x : Numeral) : x.text ≠ [] :=
  fun h => x.unsigned_ne_nil (List.append_eq_nil_iff.1 h).2

theorem exists_text_cons (x : Numeral) : ∃ c cs, x.text = c :: cs ∧ Word.isLiteral c = true := by
  cases htext : x.text with
  | nil => exact absurd htext x.text_ne_nil
  | cons c cs => exact ⟨c, cs, rfl, x.isLiteral_text c (htext ▸ List.mem_cons_self)⟩

/-- The text of a number without its sign begins with no sign. -/
theorem decimal?_unsigned (x : Numeral) : Value.decimal? x.unsigned = some x.magnitude := by
  rw [← magnitude?_unsigned]
  have hdigit : ∀ d : Fin 10, Nat.digitChar d ≠ '+' ∧ Nat.digitChar d ≠ '-' := by decide
  obtain ⟨sign, whole, frac, hne⟩ := x
  cases whole with
  | nil =>
    cases frac with
    | none => exact absurd rfl hne
    | some frac => rfl
  | cons d whole =>
    rw [Value.decimal?]
    · intro cs h
      exact (hdigit d).1 (List.cons.inj h).1
    · intro cs h
      exact (hdigit d).2 (List.cons.inj h).1

theorem decimal?_text (x : Numeral) : Value.decimal? x.text = some x.value := by
  rw [text, value]
  cases hsign : x.sign with
  | none => exact x.decimal?_unsigned
  | some sign =>
    cases sign with
    | plus => exact x.magnitude?_unsigned
    | minus => exact congrArg (Option.map (-·)) x.magnitude?_unsigned

/-- A code is told by the rational number that the value is. -/
theorem code?_eq (x : Numeral) : Block.code? x.value = x.code? := by
  rw [Block.code?, code?]
  cases hnatural : (Binary.decode x.value).natural? with
  | some n =>
    rw [Binary.Decoded.natural?_eq_some_iff.1 hnatural]
    simp [Block.greatestCode]
  | none =>
    symm
    refine Option.bind_eq_none_iff.2 fun v hv => if_neg ?_
    rintro ⟨hnonneg, hden⟩
    have hv' : (Binary.decode x.value).rational? = some (v.num.toNat : ℚ) := by
      rw [hv, Option.some_inj]
      calc
        v = (v.num : ℚ) := ((Rat.den_eq_one_iff v).1 hden).symm
        _ = ((v.num.toNat : ℤ) : ℚ) := by rw [Int.toNat_of_nonneg (Rat.num_nonneg.2 hnonneg)]
        _ = (v.num.toNat : ℚ) := Int.cast_natCast _
    rw [Binary.Decoded.natural?_eq_some_iff.2 hv'] at hnatural
    cases hnatural

end Numeral

namespace Register

theorem letter_cases (r : Register) : inCase r.small 'R' = 'R' ∨ inCase r.small 'R' = 'r' := by
  cases r.small
  · exact .inl rfl
  · exact .inr rfl

theorem solid_text (r : Register) : Solid r.text := by
  refine .cons ?_ (Digits.solid_text r.digits)
  rcases r.letter_cases with h | h
  all_goals
    rw [h]
    decide

theorem text_ne_nil (r : Register) : r.text ≠ [] := List.cons_ne_nil _ _

theorem register?_text (r : Register) : Value.register? r.digits.text = some r.digits.value := by
  rw [Value.register?, Digits.value_text]
  exact if_pos r.lt

theorem registerDigits?_text (r : Register) : Value.registerDigits? r.text = some r.digits.text := by
  rw [text]
  rcases r.letter_cases with h | h
  all_goals
    rw [h, Value.registerDigits?]
    simp [r.ne_nil, Digits.all_text]

end Register

/-! ## Operands -/

namespace Operand

theorem solid_text : ∀ o : Operand, Solid o.text
  | numeral x => fun c h => isSolid_of_isLiteral (x.isLiteral_text c h)
  | register r => r.solid_text

theorem text_ne_nil : ∀ o : Operand, o.text ≠ []
  | numeral x => x.text_ne_nil
  | register r => r.text_ne_nil

theorem starts_text (o : Operand) : Starts o.text := o.solid_text.starts o.text_ne_nil

theorem read?_text (o : Operand) : Value.read? o.text = some o.value := by
  cases o with
  | register r =>
    rw [text, Value.read?, r.registerDigits?_text]
    exact congrArg (Option.map Value.register) r.register?_text
  | numeral x =>
    obtain ⟨c, cs, htext, hc⟩ := x.exists_text_cons
    have hnone : Value.registerDigits? x.text = none := by
      rw [htext, Value.registerDigits?_of_isLiteral hc]
    rw [text, Value.read?, hnone]
    exact congrArg (Option.map Value.literal) x.decimal?_text

/-- The text of a value ends where a character comes that belongs to no number. -/
theorem valueText_text (o : Operand) {rest : List Char}
    (hrest : ∀ c ∈ rest.head?, Word.isLiteral c = false) :
    Word.valueText (o.text ++ rest) = (o.text, rest) := by
  cases o with
  | numeral x =>
    obtain ⟨c, cs, htext, hc⟩ := x.exists_text_cons
    have htake := takeWhile_append x.isLiteral_text hrest
    have hdrop := dropWhile_append x.isLiteral_text hrest
    rw [htext] at htake hdrop
    rw [text, htext, List.cons_append, Word.valueText_of_isLiteral hc, ← List.cons_append, htake,
      hdrop]
  | register r =>
    have hrest' : ∀ c ∈ rest.head?, isAsciiDigit c = false :=
      fun c hc => not_isAsciiDigit_of_not_isLiteral (hrest c hc)
    have htake := takeWhile_append r.digits.isAsciiDigit_text hrest'
    have hdrop := dropWhile_append r.digits.isAsciiDigit_text hrest'
    have hdigits := r.digits.isAsciiDigit_text
    rw [text, Register.text, List.cons_append]
    cases htext : r.digits.text with
    | nil => exact absurd (Digits.text_eq_nil.1 htext) r.ne_nil
    | cons d ds =>
      rw [htext] at htake hdrop hdigits
      rw [List.cons_append] at htake hdrop ⊢
      rw [Word.valueText_of_isAsciiDigit r.letter_cases (hdigits d (.head _)), htake, hdrop]

end Operand

/-! ## Words -/

/-- A text that no number goes on with and that no `=` begins. -/
def Stops (rest : List Char) : Prop :=
  ∀ c ∈ rest.head?, isBlank c = true ∨ isAsciiLetter c = true

namespace Entry

/-- What is read of an entry. -/
def word (e : Entry) : Word := ⟨e.address, e.operand.value, e.operand.text⟩

theorem isAsciiLetter_char (small : Bool) (a : Address) :
    isAsciiLetter (inCase small a.char) = true := by
  cases small <;> rcases a with _ | _ | _ | letter <;> try cases letter
  all_goals decide

theorem ofChar?_char (small : Bool) (a : Address) :
    Address.ofChar? (inCase small a.char) = some a := by
  cases small <;> rcases a with _ | _ | _ | letter <;> try cases letter
  all_goals rfl

theorem not_isLiteral_of_stops {rest : List Char} (h : Stops rest) :
    ∀ c ∈ rest.head?, Word.isLiteral c = false := by
  intro c hc
  rcases h c hc with hblank | hletter
  · refine Bool.eq_false_iff.2 fun hliteral => ?_
    rw [not_isBlank_of_isSolid (isSolid_of_isLiteral hliteral)] at hblank
    cases hblank
  · exact not_isLiteral_of_isAsciiLetter hletter

/-- An entry is read back, up to what belongs to no number. -/
theorem read_text (e : Entry) {rest : List Char}
    (hrest : ∀ c ∈ rest.head?, Word.isLiteral c = false) :
    Word.read (inCase e.small e.address.char)
      ((e.equals.map Equals.closed).getD [] ++ (e.operand.text ++ rest)) = .ok (e.word, rest) := by
  refine Word.read_eq (isAsciiLetter_char _ _) (ofChar?_char _ _) ?_
    (e.operand.valueText_text hrest) e.operand.read?_text
  cases e.equals with
  | some equals => exact .inl rfl
  | none =>
    refine .inr ⟨rfl, ?_⟩
    obtain ⟨c, cs, htext, hc⟩ := e.operand.starts_text
    rw [htext]
    intro es h
    exact ne_of_isSolid hc (by decide) (List.cons.inj h).1

end Entry

/-! ## The words of a line -/

theorem Entry.stops_text (mark : Equals → List Char) (e : Entry) (rest : List Char) :
    Stops (e.text mark ++ rest) := by
  intro c hc
  obtain rfl := Option.some.inj hc
  exact .inr (isAsciiLetter_char _ _)

/-- Blanks stop a word, and where there is none what follows has to. -/
theorem stops_gap {gap rest : List Char} (hgap : ∀ c ∈ gap, isBlank c = true)
    (hrest : gap = [] → Stops rest) : Stops (gap ++ rest) := by
  cases gap with
  | nil => exact hrest rfl
  | cons b gap =>
    intro c hc
    obtain rfl := Option.some.inj hc
    exact .inl (hgap b (.head _))

theorem stops_spread (mark : Equals → List Char) (items : List (Gap × Entry)) :
    Stops (spread (Entry.text mark) items) := by
  cases items with
  | nil =>
    intro c hc
    cases hc
  | cons item items =>
    rw [spread, List.flatMap_cons, List.append_assoc]
    exact stops_gap item.1.blank fun _ => item.2.stops_text mark _

theorem scan_gap {gap : List Char} (hgap : ∀ c ∈ gap, isBlank c = true) (n : Nat)
    (cs : List Char) : Word.scan (gap.length + n) (gap ++ cs) = Word.scan n cs := by
  induction gap with
  | nil => rw [List.length_nil, Nat.zero_add, List.nil_append]
  | cons b gap ih =>
    rw [List.length_cons, Nat.add_right_comm, List.cons_append, Word.scan, if_pos (hgap b (.head _)),
      ih fun c hc => hgap c (.tail _ hc)]

theorem scan_cons {c : Char} {cs rest : List Char} {w : Word} (hc : isBlank c = false)
    (h : Word.read c cs = .ok (w, rest)) (n : Nat) :
    Word.scan (n + 1) (c :: cs) = (w :: (Word.scan n rest).1, (Word.scan n rest).2) := by
  rw [Word.scan, if_neg (by simp [hc]), h]

/-- A text of words one after another, each behind blanks or not, with blanks after the last or
not. -/
inductive Sentence : List Char → List Entry → Prop where
  | blank {gap : List Char} (hgap : ∀ c ∈ gap, isBlank c = true) : Sentence gap []
  | word {gap rest : List Char} {e : Entry} {es : List Entry} (hgap : ∀ c ∈ gap, isBlank c = true)
      (more : Sentence rest es) : Sentence (gap ++ (e.text Equals.closed ++ rest)) (e :: es)

namespace Sentence

variable {code : List Char} {es : List Entry}

/-- No number goes on where a sentence begins. So the run of characters of each value of a sentence
is as long as it can be. -/
theorem stops (h : Sentence code es) : Stops code := by
  cases h with
  | blank hgap => exact fun c hc => .inl (hgap c (List.mem_of_mem_head? hc))
  | word hgap more => exact stops_gap hgap fun _ => Entry.stops_text _ _ _

/-- The words of a sentence come out one after another, and nothing is refused. -/
theorem scan_eq (h : Sentence code es) {n : Nat} (hn : code.length ≤ n) :
    Word.scan n code = (es.map Entry.word, none) := by
  induction h generalizing n with
  | @blank gap hgap =>
    obtain ⟨k, rfl⟩ := Nat.exists_eq_add_of_le hn
    have hscan := scan_gap hgap k []
    rw [List.append_nil] at hscan
    rw [hscan]
    cases k <;> rfl
  | @word gap rest e es hgap more ih =>
    simp only [List.length_append, Entry.text, List.length_cons] at hn
    obtain ⟨k, rfl⟩ : ∃ k, n = gap.length + (k + 1) := ⟨n - gap.length - 1, by omega⟩
    have hletter := not_isBlank_of_isSolid
      (isSolid_of_isAsciiLetter (Entry.isAsciiLetter_char e.small e.address))
    rw [scan_gap hgap, Entry.text, List.cons_append, List.append_assoc,
      scan_cons hletter (e.read_text (Entry.not_isLiteral_of_stops more.stops)), ih (by omega)]
    rfl

end Sentence

theorem sentence_spread (items : List (Gap × Entry)) :
    Sentence (spread (Entry.text Equals.closed) items) (items.map Prod.snd) := by
  induction items with
  | nil => exact .blank (List.forall_mem_nil _)
  | cons item items ih =>
    rw [spread, List.flatMap_cons, List.append_assoc]
    exact .word item.1.blank ih

/-! ## The block of a line -/

namespace Entry

/-- The value of the word, put at its address. -/
def setIn (w : Words Value) (e : Entry) : Words Value :=
  e.letter?.elim w fun letter => w.set letter e.operand.value

/-- The block with one more word. -/
def addTo (b : Block) (e : Entry) : Block where
  g := b.g ++ (e.code? .g).toList
  m := b.m ++ (e.code? .m).toList
  words := e.setIn b.words

/-- A word is added unless its address has a value already. -/
theorem add_word {b : Block} {e : Entry}
    (h : ∀ letter ∈ e.letter?, b.words.get? letter = none) :
    ∃ remark?, b.add e.word = .ok (e.addTo b, remark?) := by
  obtain ⟨address, small, equals, operand, isNumeral⟩ := e
  cases address with
  | g =>
    cases operand with
    | register r => exact (isNumeral (.inl rfl)).elim
    | numeral x =>
      simp only [Block.add, word, Operand.value, x.code?_eq, addTo, setIn, code?, letter?,
        Operand.code?]
      cases x.code? <;> simp
  | m =>
    cases operand with
    | register r => exact (isNumeral (.inr rfl)).elim
    | numeral x =>
      simp only [Block.add, word, Operand.value, x.code?_eq, addTo, setIn, code?, letter?,
        Operand.code?]
      cases x.code? <;> simp
  | n => exact ⟨none, by simp [Block.add, word, addTo, setIn, code?, letter?]⟩
  | data letter =>
    have hnone : b.words.get? letter = none := h letter rfl
    exact ⟨none, by simp [Block.add, word, hnone, addTo, setIn, code?, letter?]⟩

theorem get?_setIn (w : Words Value) (e : Entry) (letter : Letter) :
    (e.setIn w).get? letter =
      if e.letter? = some letter then some e.operand.value else w.get? letter := by
  rw [setIn]
  cases e.letter? with
  | none => rfl
  | some l =>
    by_cases hl : l = letter
    · subst hl
      simp
    · simp [hl, Words.get?_set_of_ne w e.operand.value (Ne.symm hl)]

theorem filterMap_letter?_cons (e : Entry) (es : List Entry) :
    (e :: es).filterMap letter? = e.letter?.toList ++ es.filterMap letter? := by
  cases h : e.letter? <;> simp [h]

/-- Words at different free addresses are all added. -/
theorem addAll_words {b : Block} {es : List Entry} (hnodup : (es.filterMap letter?).Nodup)
    (hfree : ∀ letter ∈ es.filterMap letter?, b.words.get? letter = none) :
    (b.addAll (es.map word)).result = .ok (es.foldl (fun b e => e.addTo b) b) := by
  induction es generalizing b with
  | nil => rfl
  | cons e es ih =>
    rw [filterMap_letter?_cons, List.nodup_append] at hnodup
    rw [filterMap_letter?_cons] at hfree
    obtain ⟨-, hes, hne⟩ := hnodup
    obtain ⟨remark?, hadd⟩ := add_word (b := b) (e := e) fun letter h =>
      hfree letter (List.mem_append_left _ (Option.mem_toList.2 h))
    rw [List.map_cons, Block.addAll, hadd]
    refine ih hes fun letter h => ?_
    rw [addTo, get?_setIn, if_neg fun he => hne letter (by simp [he]) letter h rfl]
    exact hfree letter (List.mem_append_right _ h)

theorem foldl_addTo (b : Block) (es : List Entry) :
    es.foldl (fun b e => e.addTo b) b =
      { g := b.g ++ es.filterMap (code? .g)
        m := b.m ++ es.filterMap (code? .m)
        words := es.foldl (fun w e => e.setIn w) b.words } := by
  induction es generalizing b with
  | nil => simp
  | cons e es ih =>
    rw [List.foldl_cons, ih, addTo, List.foldl_cons]
    cases hg : e.code? .g <;> cases hm : e.code? .m <;> simp [hg, hm]

/-- At each address stands the value of the word there, since there is no other. -/
theorem get?_foldl_setIn (w : Words Value) {es : List Entry} (h : (es.filterMap letter?).Nodup)
    (letter : Letter) :
    (es.foldl (fun w e => e.setIn w) w).get? letter =
      ((es.find? fun e => e.letter? = some letter).map fun e => e.operand.value).or
        (w.get? letter) := by
  induction es generalizing w with
  | nil => rfl
  | cons e es ih =>
    rw [filterMap_letter?_cons, List.nodup_append] at h
    obtain ⟨-, hes, hne⟩ := h
    rw [List.foldl_cons, ih _ hes, get?_setIn]
    by_cases he : e.letter? = some letter
    · have hnone : (es.find? fun e => e.letter? = some letter) = none := by
        refine List.find?_eq_none.2 fun e' he' heq => ?_
        have hmem := List.mem_filterMap.2 ⟨e', he', of_decide_eq_true heq⟩
        exact hne letter (by simp [he]) letter hmem rfl
      simp [he, hnone]
    · simp [he]

end Entry

theorem Entries.text_eq_spread (mark : Equals → List Char) (es : Entries) :
    es.text mark = spread (Entry.text mark) ((⟨[], by simp, by simp⟩, es.first) :: es.more) := rfl

/-- The block that words make. -/
def Entry.block (es : List Entry) : Block where
  g := es.filterMap (Entry.code? .g)
  m := es.filterMap (Entry.code? .m)
  words := Words.ofFn fun letter =>
    (es.find? fun e => e.letter? = some letter).map fun e => e.operand.value

/-- The block that the words of a sentence make is read from it. -/
theorem Sentence.read_eq {code : List Char} {es : List Entry} (h : Sentence code es)
    (hnodup : (es.filterMap Entry.letter?).Nodup) :
    (Block.read code).result = .ok (Entry.block es) := by
  have hadd := Entry.addAll_words (b := {}) hnodup fun letter _ => by cases letter <;> rfl
  have hblock : es.foldl (fun b e => e.addTo b) {} = Entry.block es := by
    rw [Entry.foldl_addTo, Entry.block, List.nil_append, List.nil_append]
    congr 1
    refine Words.ext_get? fun letter => ?_
    rw [Entry.get?_foldl_setIn _ hnodup, Words.get?_ofFn]
    cases letter <;> exact Option.or_none
  rw [Block.read, h.scan_eq le_rfl]
  dsimp only
  split
  case h_1 cause _ h => cases h
  case h_2 => rw [hadd, hblock]

/-- The block that the words of a line make. -/
theorem read_entries (es : Entries) :
    (Block.read (es.text Equals.closed)).result = .ok es.block := by
  rw [es.text_eq_spread]
  exact (sentence_spread _).read_eq es.nodup

end Written

end Toolpath
