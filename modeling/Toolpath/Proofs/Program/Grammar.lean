import Toolpath.Proofs.Program.Cut
import Toolpath.Proofs.Program.Entries

/-!
# The grammar of words

What is read is what is written. A value is read exactly from the text of an operand
(`read?_eq_some_iff`), a word exactly from the text of an entry (`exists_entry_of_read`), and the
words of a line exactly from a sentence whose addresses, codes and sequence numbers apart, are all
different (`read_eq_ok_iff`).
-/

namespace Toolpath

open Text

namespace Word

/-- A code is given as a number, not as the register that holds it. -/
def Coded (w : Word) : Prop := w.address = .g ∨ w.address = .m → ∃ x, w.value = .literal x

/-- The data address of a word. -/
def letter? (w : Word) : Option Letter :=
  match w.address with
  | .data letter => some letter
  | _ => none

end Word

namespace Written

/-! ## Numbers -/

theorem exists_digitChar {c : Char} (h : isAsciiDigit c = true) :
    ∃ d : Fin 10, Nat.digitChar d = c := by
  rw [isAsciiDigit_iff] at h
  have hdigit : ∀ d : Fin 10, (Nat.digitChar d).toNat = d + 48 := by decide
  refine ⟨⟨c.toNat - 48, by omega⟩, Char.toNat_inj.1 ?_⟩
  rw [hdigit]
  dsimp only
  omega

theorem Digits.exists_text {cs : List Char} (h : ∀ c ∈ cs, isAsciiDigit c = true) :
    ∃ ds : Digits, ds.text = cs := by
  induction cs with
  | nil => exact ⟨[], rfl⟩
  | cons c cs ih =>
    obtain ⟨d, rfl⟩ := exists_digitChar (h c (.head _))
    obtain ⟨ds, rfl⟩ := ih fun e he => h e (.tail _ he)
    exact ⟨d :: ds, rfl⟩

namespace Numeral

/-- A text that is read as a number without a sign is the text of one, whatever the sign. -/
theorem exists_unsigned {cs : List Char} {x : Float} (h : Value.magnitude? cs = some x)
    (sign : Option Sign) : ∃ n : Numeral, n.sign = sign ∧ n.unsigned = cs := by
  have hcs := List.takeWhile_append_dropWhile (p := isAsciiDigit) (l := cs)
  obtain ⟨whole, hwhole⟩ := Digits.exists_text fun c hc => List.mem_takeWhile_imp hc
  rw [Value.magnitude?] at h
  rw [← hwhole] at hcs h
  split at h
  case h_1 hdrop =>
    rw [hdrop, List.append_nil] at hcs
    have hne : whole ≠ [] := by
      rintro rfl
      cases h
    exact ⟨⟨sign, whole, none, by simpa using hne⟩, rfl, by simpa [unsigned] using hcs⟩
  case h_2 rest hdrop =>
    rw [hdrop] at hcs
    split at h
    case isFalse => cases h
    case isTrue hdigits =>
      rw [Bool.and_eq_true, List.all_eq_true] at hdigits
      obtain ⟨frac, rfl⟩ := Digits.exists_text hdigits.1
      have hne : whole ++ frac ≠ [] := by
        rintro hnil
        obtain ⟨rfl, rfl⟩ := List.append_eq_nil_iff.1 hnil
        cases hdigits.2
      exact ⟨⟨sign, whole, some frac, hne⟩, rfl, hcs⟩
  case h_3 => cases h

theorem exists_text {cs : List Char} {x : Float} (h : Value.decimal? cs = some x) :
    ∃ n : Numeral, n.text = cs := by
  rw [Value.decimal?.eq_def] at h
  split at h
  case h_1 cs =>
    obtain ⟨n, hsign, rfl⟩ := exists_unsigned h (some .plus)
    exact ⟨n, by simp [text, hsign, Sign.char]⟩
  case h_2 cs =>
    obtain ⟨y, hy, -⟩ := Option.map_eq_some_iff.1 h
    obtain ⟨n, hsign, rfl⟩ := exists_unsigned hy (some .minus)
    exact ⟨n, by simp [text, hsign, Sign.char]⟩
  case h_3 =>
    obtain ⟨n, hsign, rfl⟩ := exists_unsigned h none
    exact ⟨n, by simp [text, hsign]⟩

end Numeral

/-! ## Values -/

theorem registerDigits?_eq_some {cs ds : List Char} (h : Value.registerDigits? cs = some ds) :
    ds ≠ [] ∧ (∀ c ∈ ds, isAsciiDigit c = true) ∧ ∃ small, cs = inCase small 'R' :: ds := by
  rw [Value.registerDigits?.eq_def] at h
  split at h
  case h_1 rest =>
    obtain ⟨hdigits, ⟨⟩⟩ := Option.ite_none_right_eq_some.1 h
    rw [Bool.and_eq_true, List.all_eq_true] at hdigits
    exact ⟨by simpa using hdigits.1, hdigits.2, false, rfl⟩
  case h_2 rest =>
    obtain ⟨hdigits, ⟨⟩⟩ := Option.ite_none_right_eq_some.1 h
    rw [Bool.and_eq_true, List.all_eq_true] at hdigits
    exact ⟨by simpa using hdigits.1, hdigits.2, true, rfl⟩
  case h_3 => cases h

theorem Register.exists_text {cs ds : List Char} {n : Nat}
    (h : Value.registerDigits? cs = some ds) (hn : Value.register? ds = some n) :
    ∃ r : Register, r.text = cs := by
  obtain ⟨hne, hdigits, small, rfl⟩ := registerDigits?_eq_some h
  obtain ⟨digits, rfl⟩ := Digits.exists_text hdigits
  rw [Value.register?, Digits.value_text] at hn
  obtain ⟨hlt, -⟩ := Option.ite_none_right_eq_some.1 hn
  exact ⟨⟨small, digits, by simpa using hne, hlt⟩, rfl⟩

/-- A value is read from the text of an operand, and from no other text. -/
theorem read?_eq_some_iff {cs : List Char} {v : Value} :
    Value.read? cs = some v ↔ ∃ o : Operand, o.text = cs ∧ o.value = v := by
  constructor
  · intro h
    have htext : ∃ o : Operand, o.text = cs := by
      rw [Value.read?] at h
      split at h
      case h_1 ds hds =>
        obtain ⟨n, hn, -⟩ := Option.map_eq_some_iff.1 h
        obtain ⟨r, hr⟩ := Register.exists_text hds hn
        exact ⟨.register r, hr⟩
      case h_2 =>
        obtain ⟨x, hx, -⟩ := Option.map_eq_some_iff.1 h
        obtain ⟨n, hn⟩ := Numeral.exists_text hx
        exact ⟨.numeral n, hn⟩
    obtain ⟨o, rfl⟩ := htext
    rw [o.read?_text] at h
    exact ⟨o, rfl, Option.some.inj h⟩
  · rintro ⟨o, rfl, rfl⟩
    exact o.read?_text

/-! ## Assignments -/

theorem assignment?_eq_some {part digits text : List Char}
    (h : Statement.assignment? part = some (digits, text)) :
    digits ≠ [] ∧ ∃ small, part = inCase small 'R' :: (digits ++ '=' :: text) := by
  rw [Statement.assignment?.eq_def] at h
  split at h
  case h_3 => cases h
  all_goals
    rename_i cs
    have hcs := List.takeWhile_append_dropWhile (p := isDigit) (l := cs)
    split at h
    case h_2 => cases h
    case h_1 htake hdrop =>
      cases h
      rw [htake, hdrop] at hcs
      refine ⟨List.cons_ne_nil _ _, ?_⟩
      rw [← hcs]
      first
        | exact ⟨false, rfl⟩
        | exact ⟨true, rfl⟩

/-- An assignment is read from the text of one only. -/
theorem exists_assignment {part : List Char} {pair : Nat × Value}
    (h : Statement.readAssignment part = .ok pair) :
    ∃ a : Assignment, a.text Equals.closed = part ∧ a.pair = pair := by
  rw [Statement.readAssignment] at h
  split at h
  case h_1 => cases h
  case h_2 digits text hassignment =>
    obtain ⟨hne, small, rfl⟩ := assignment?_eq_some hassignment
    split at h
    case h_1 => cases h
    case h_2 n hregister =>
      obtain ⟨hdigits, hn⟩ := Option.ite_none_right_eq_some.1 hregister
      split at h
      case h_1 => cases h
      case h_2 value hvalue =>
        cases h
        obtain ⟨o, rfl, rfl⟩ := read?_eq_some_iff.1 hvalue
        obtain ⟨ds, rfl⟩ := Digits.exists_text (List.all_eq_true.1 hdigits)
        rw [Value.register?, Digits.value_text] at hn
        obtain ⟨hlt, hn⟩ := Option.ite_none_right_eq_some.1 hn
        cases hn
        let none' : Gap := ⟨[], by simp, by simp⟩
        exact ⟨⟨⟨small, ds, by simpa using hne, hlt⟩, ⟨none', none'⟩, o⟩, rfl, rfl⟩

/-! ## Words -/

/-- A letter that is one of the addresses in upper case is that address in one case or the other. -/
theorem exists_inCase {c : Char} {a : Address} (h : Address.ofChar? c = some a) :
    ∃ small, c = inCase small a.char := by
  have hupper : c.toUpper = a.char := by
    rw [Address.ofChar?, Address.ofUpper?.eq_def] at h
    split at h
    case h_14 => cases h
    all_goals
      rename_i heq
      cases h
      exact heq
  have hlower : ∀ k : Fin 26, (Char.ofNat (97 + k)).toUpper.toLower = Char.ofNat (97 + k) := by
    decide
  by_cases hsmall : 97 ≤ c.toNat ∧ c.toNat ≤ 122
  · refine ⟨true, ?_⟩
    have hc := hlower ⟨c.toNat - 97, by omega⟩
    dsimp only at hc
    rw [Nat.add_sub_cancel' hsmall.1, Char.ofNat_toNat] at hc
    rw [← hupper]
    exact hc.symm
  · refine ⟨false, ?_⟩
    rw [← hupper]
    exact (toUpper_of_not_small hsmall).symm

theorem valueText_append (cs : List Char) :
    (Word.valueText cs).1 ++ (Word.valueText cs).2 = cs := by
  rw [Word.valueText.eq_def]
  split
  case h_1 c d rest =>
    split
    · exact congrArg (c :: ·) List.takeWhile_append_dropWhile
    · exact List.takeWhile_append_dropWhile
  case h_2 => exact List.takeWhile_append_dropWhile

/-- What a word that is read consists of. -/
theorem read_eq_ok {c : Char} {cs rest : List Char} {w : Word}
    (h : Word.read c cs = .ok (w, rest)) :
    Address.ofChar? c = some w.address ∧ Value.read? w.text = some w.value ∧
      (cs = '=' :: (w.text ++ rest) ∨ cs = w.text ++ rest) := by
  rw [Word.read.eq_def] at h
  split at h
  case isTrue => cases h
  case isFalse =>
    split at h
    case h_1 => cases h
    case h_2 address haddress =>
      dsimp only at h
      split at h
      case h_1 => cases h
      case h_2 value hvalue =>
        cases h
        refine ⟨haddress, hvalue, ?_⟩
        rw [valueText_append]
        split
        · exact .inl rfl
        · exact .inr rfl

/-- A word that is read is an entry, if it is no code held by a register. -/
theorem exists_entry_of_read {c : Char} {cs rest : List Char} {w : Word}
    (h : Word.read c cs = .ok (w, rest)) (hw : w.Coded) :
    ∃ e : Entry, e.word = w ∧ c :: cs = e.text Equals.closed ++ rest := by
  obtain ⟨haddress, hvalue, hcs⟩ := read_eq_ok h
  obtain ⟨small, rfl⟩ := exists_inCase haddress
  obtain ⟨address, value, text⟩ := w
  obtain ⟨o, rfl, rfl⟩ := read?_eq_some_iff.1 hvalue
  have hnumeral : address = .g ∨ address = .m → o.IsNumeral := by
    intro ha
    obtain ⟨x, hx⟩ := hw ha
    cases o with
    | numeral n => trivial
    | register r => cases hx
  let none' : Gap := ⟨[], by simp, by simp⟩
  rcases hcs with rfl | rfl
  · exact ⟨⟨address, small, some ⟨none', none'⟩, o, hnumeral⟩, rfl, rfl⟩
  · exact ⟨⟨address, small, none, o, hnumeral⟩, rfl, rfl⟩

/-! ## The words of a line -/

theorem Sentence.cons_blank {c : Char} (hc : isBlank c = true) {code : List Char} {es : List Entry}
    (h : Sentence code es) : Sentence (c :: code) es := by
  cases h with
  | blank hgap => exact .blank (List.forall_mem_cons.2 ⟨hc, hgap⟩)
  | word hgap more => exact .word (List.forall_mem_cons.2 ⟨hc, hgap⟩) more

/-- A text of which nothing is refused is a sentence of the words that come out. -/
theorem exists_sentence_of_scan {n : Nat} {code : List Char} {ws : List Word}
    (hn : code.length ≤ n) (h : Word.scan n code = (ws, none)) (hws : ∀ w ∈ ws, w.Coded) :
    ∃ es, Sentence code es ∧ es.map Entry.word = ws := by
  induction n generalizing code ws with
  | zero =>
    obtain rfl := List.length_eq_zero_iff.1 (Nat.le_zero.1 hn)
    cases h
    exact ⟨[], .blank (List.forall_mem_nil _), rfl⟩
  | succ n ih =>
    cases code with
    | nil =>
      cases h
      exact ⟨[], .blank (List.forall_mem_nil _), rfl⟩
    | cons c cs =>
      rw [Word.scan] at h
      split at h
      case isTrue hc =>
        obtain ⟨es, hes, hwords⟩ := ih (Nat.le_of_succ_le_succ hn) h hws
        exact ⟨es, hes.cons_blank hc, hwords⟩
      case isFalse hc =>
        split at h
        case h_1 => cases h
        case h_2 w rest hread =>
          dsimp only at h
          obtain ⟨rfl, hcause⟩ := Prod.mk.inj h
          obtain ⟨e, rfl, htext⟩ := exists_entry_of_read hread (hws _ (.head _))
          have hlength : rest.length ≤ n := by
            have := congrArg List.length htext
            simp only [Entry.text, List.length_cons, List.length_append] at this hn
            omega
          obtain ⟨es, hes, hwords⟩ := ih hlength (Prod.ext rfl hcause) fun w hw => hws w (.tail _ hw)
          rw [htext]
          exact ⟨e :: es, .word (List.forall_mem_nil _) hes, by rw [List.map_cons, hwords]⟩

/-! ## The block of a line -/

/-- A word is added if it is no code held by a register, and its data address, if it has one, is
free. -/
theorem add_eq_ok {b b' : Block} {w : Word} {remark? : Option Remark}
    (h : b.add w = .ok (b', remark?)) :
    w.Coded ∧ ((w.letter? = none ∧ b'.words = b.words) ∨
      ∃ letter, w.letter? = some letter ∧ b.words.get? letter = none ∧
        b'.words = b.words.set letter w.value) := by
  obtain ⟨address, value, text⟩ := w
  cases address with
  | g | m =>
    cases value with
    | register n => cases h
    | literal x =>
      refine ⟨fun _ => ⟨x, rfl⟩, .inl ⟨rfl, ?_⟩⟩
      rw [Block.add] at h
      dsimp only at h
      split at h
      all_goals
        cases h
        rfl
  | n =>
    cases h
    exact ⟨by simp [Word.Coded], .inl ⟨rfl, rfl⟩⟩
  | data letter =>
    refine ⟨by simp [Word.Coded], .inr ⟨letter, rfl, ?_⟩⟩
    rw [Block.add] at h
    dsimp only at h
    split at h
    case h_1 => cases h
    case h_2 hnone =>
      cases h
      exact ⟨hnone, rfl⟩

/-- Words are all added only if their codes are numbers and their addresses are free and
different. -/
theorem addAll_eq_ok {b b' : Block} {ws : List Word} (h : (b.addAll ws).result = .ok b') :
    (∀ w ∈ ws, w.Coded) ∧ (ws.filterMap Word.letter?).Nodup ∧
      ∀ letter ∈ ws.filterMap Word.letter?, b.words.get? letter = none := by
  induction ws generalizing b with
  | nil => exact ⟨List.forall_mem_nil _, List.nodup_nil, List.forall_mem_nil _⟩
  | cons w ws ih =>
    rw [Block.addAll] at h
    split at h
    case h_1 => cases h
    case h_2 b₁ remark? hadd =>
      obtain ⟨hcoded, hw⟩ := add_eq_ok hadd
      obtain ⟨hcodeds, hnodup, hfree⟩ := ih h
      refine ⟨List.forall_mem_cons.2 ⟨hcoded, hcodeds⟩, ?_⟩
      rcases hw with ⟨hnone, hwords⟩ | ⟨letter, hletter, hget, hwords⟩
      · rw [List.filterMap_cons_none hnone]
        rw [hwords] at hfree
        exact ⟨hnodup, hfree⟩
      · rw [List.filterMap_cons_some hletter, List.nodup_cons, List.forall_mem_cons]
        rw [hwords] at hfree
        have hnew : letter ∉ ws.filterMap Word.letter? := by
          intro hmem
          have := hfree letter hmem
          rw [Words.get?_set_self] at this
          cases this
        refine ⟨⟨hnew, hnodup⟩, hget, ?_⟩
        intro other hmem
        have hne : other ≠ letter := by
          rintro rfl
          exact hnew hmem
        rw [← hfree other hmem, Words.get?_set_of_ne _ _ hne]

theorem read_eq_ok_iff_scan {code : List Char} {b : Block} :
    (Block.read code).result = .ok b ↔ ∃ words, Word.scan code.length code = (words, none) ∧
      (Block.addAll {} words).result = .ok b := by
  rw [Block.read]
  rcases Word.scan code.length code with ⟨words, _ | cause⟩
  · dsimp only
    split
    case h_1 hcause => cases hcause
    case h_2 =>
      constructor
      · intro h
        exact ⟨words, rfl, h⟩
      · rintro ⟨_, ⟨⟩, h⟩
        exact h
  · refine iff_of_false ?_ (by rintro ⟨_, ⟨⟩, -⟩)
    dsimp only
    split
    case h_1 => simp
    case h_2 hother =>
      intro h
      exact hother b cause h rfl

/-- A block is read from a sentence whose data addresses are all different, and from no other
text. -/
theorem read_eq_ok_iff {code : List Char} {b : Block} :
    (Block.read code).result = .ok b ↔
      ∃ es, Sentence code es ∧ (es.filterMap Entry.letter?).Nodup ∧ b = Entry.block es := by
  constructor
  · intro h
    obtain ⟨words, hscan, hadd⟩ := read_eq_ok_iff_scan.1 h
    obtain ⟨hcoded, hnodup, -⟩ := addAll_eq_ok hadd
    obtain ⟨es, hes, rfl⟩ := exists_sentence_of_scan le_rfl hscan hcoded
    rw [List.filterMap_map] at hnodup
    rw [hes.read_eq hnodup] at h
    exact ⟨es, hes, hnodup, (Except.ok.inj h).symm⟩
  · rintro ⟨es, hes, hnodup, rfl⟩
    exact hes.read_eq hnodup

/-- Reading words comes to the block of a sentence whose data addresses are all different, or to a
fault that names the line and its text. -/
theorem words_read_iff (line : Nat) (text : String) (code : List Char) :
    (∀ b, (Block.read code).outcome? line text = some (.ok b) ↔
      ∃ es, Sentence code es ∧ (es.filterMap Entry.letter?).Nodup ∧ b = Entry.block es) ∧
    ((∃ b, (Block.read code).outcome? line text = some (.ok b)) ∨
      ∃ cause, (Block.read code).outcome? line text = some (.error ⟨line, text, cause⟩)) := by
  constructor
  · intro b
    rw [Reading.outcome?_eq_ok_iff, read_eq_ok_iff]
  · exact Reading.exists_outcome? line text (Statement.readBlock_ne_cut code)

end Written

end Toolpath
