import Toolpath.Program.Fault
import Toolpath.Program.Statement
import Toolpath.Text.Blank
import Toolpath.Text.Digit

/-!
# Reading statements

`Statement.read` turns the text of a line into a statement. Comments are cut off and blanks around
`=` are closed up; then leading labels are taken off, and the rest is a command to repeat, a list
of assignments, a sequence of words, or nothing known.
-/

namespace Toolpath

open Text

/-- Why a line is refused. -/
inductive Refusal where
  | fault (cause : Cause)
  /-- The first two bytes of a part of a command to repeat end inside a character. -/
  | cutCharacter

/-- What is passed over while a line is read. -/
inductive Remark where
  /-- A code that is not a natural number. -/
  | unsupportedWord (word : String)
  /-- A command to repeat without one or two labels. -/
  | malformedRepeat

/-- The outcome of reading and what was passed over on the way. -/
structure Reading (β : Type) where
  remarks : List Remark := []
  result : Except Refusal β

/-- What reading line `line` with the text `text` comes to: what was read, or a fault on that line.
Where a character is cut there is neither. -/
def Reading.outcome? {β : Type} (line : Nat) (text : String) (r : Reading β) :
    Option (Except Fault β) :=
  match r.result with
  | .ok b => some (.ok b)
  | .error (.fault cause) => some (.error ⟨line, text, cause⟩)
  | .error .cutCharacter => none

namespace Reading

variable {β : Type} {line : Nat} {text : String} {r : Reading β}

theorem outcome?_eq_ok_iff {b : β} :
    r.outcome? line text = some (.ok b) ↔ r.result = .ok b := by
  rw [outcome?]
  split
  case h_1 h => simp [h]
  case h_2 h => simp [h]
  case h_3 h => simp [h]

theorem outcome?_eq_none_iff :
    r.outcome? line text = none ↔ r.result = .error .cutCharacter := by
  rw [outcome?]
  split
  case h_1 h => simp [h]
  case h_2 h => simp [h]
  case h_3 h => simp [h]

/-- A fault is reported on the line given and with its text. -/
theorem exists_outcome? (line : Nat) (text : String) (h : r.result ≠ .error .cutCharacter) :
    (∃ b, r.outcome? line text = some (.ok b)) ∨
      ∃ cause, r.outcome? line text = some (.error ⟨line, text, cause⟩) := by
  rw [outcome?]
  split
  case h_1 b _ => exact .inl ⟨b, rfl⟩
  case h_2 cause _ => exact .inr ⟨cause, rfl⟩
  case h_3 hcut => exact absurd hcut h

end Reading

namespace Value

/-- The number that digits denote, with at most one point among, before or after them. -/
def magnitude? (cs : List Char) : Option Float :=
  let whole := cs.takeWhile isAsciiDigit
  match cs.dropWhile isAsciiDigit with
  | [] => if whole.isEmpty then none else some (Decimal.ofDigits whole [])
  | '.' :: frac =>
    if frac.all isAsciiDigit && !(whole.isEmpty && frac.isEmpty) then
      some (Decimal.ofDigits whole frac)
    else none
  | _ => none

/-- The number that a decimal literal denotes: an optional sign, and digits with or without a
point. -/
def decimal? : List Char → Option Float
  | '+' :: cs => magnitude? cs
  | '-' :: cs => (magnitude? cs).map (-·)
  | cs => magnitude? cs

/-- The number of the register that a run of digits names. -/
def register? (ds : List Char) : Option Nat :=
  let n := Decimal.value ds
  if n < 2 ^ 32 then some n else none

/-- The text of a register reference without its letter. -/
def registerDigits? : List Char → Option (List Char)
  | 'R' :: ds | 'r' :: ds => if !ds.isEmpty && ds.all isAsciiDigit then some ds else none
  | _ => none

/-- A value: a register reference or a decimal literal. -/
def read? (cs : List Char) : Option Value :=
  match registerDigits? cs with
  | some ds => (register? ds).map register
  | none => (decimal? cs).map literal

end Value

/-- A word as written: an address and its value, with the text of the value. -/
structure Word where
  address : Address
  value : Value
  text : List Char

namespace Word

/-- The address letter followed by the text of a value. -/
def spell (address : Address) (text : List Char) : String := String.ofList (address.char :: text)

/-- A character of a decimal literal. -/
def isLiteral (c : Char) : Bool := isAsciiDigit c || c == '+' || c == '-' || c == '.'

/-- The text of a value that begins here, and the rest. A register letter counts only before a
digit. -/
def valueText (cs : List Char) : List Char × List Char :=
  match cs with
  | c :: d :: rest =>
    if (c == 'R' || c == 'r') && isAsciiDigit d then
      (c :: (d :: rest).takeWhile isAsciiDigit, (d :: rest).dropWhile isAsciiDigit)
    else (cs.takeWhile isLiteral, cs.dropWhile isLiteral)
  | _ => (cs.takeWhile isLiteral, cs.dropWhile isLiteral)

/-- The word that begins with the letter `c`, and the rest. -/
def read (c : Char) (cs : List Char) : Except Cause (Word × List Char) :=
  if !isAsciiLetter c then
    .error (.malformedNumber (String.ofList ((c :: cs).takeWhile (!isBlank ·))))
  else
    match Address.ofChar? c with
    | none => .error (.invalidAddress c.toUpper)
    | some address =>
      let (text, rest) := valueText (match cs with | '=' :: cs => cs | _ => cs)
      match Value.read? text with
      | none => .error (.malformedNumber (spell address text))
      | some value => .ok (⟨address, value, text⟩, rest)

/-- The words of a text of at most `n` characters up to the first that is refused, and why it is. -/
def scan : (n : Nat) → List Char → List Word × Option Cause
  | 0, _ | _, [] => ([], none)
  | n + 1, c :: cs =>
    if isBlank c then scan n cs
    else
      match read c cs with
      | .error cause => ([], some cause)
      | .ok (word, rest) =>
        let (words, cause?) := scan n rest
        (word :: words, cause?)

end Word

namespace Block

/-- The greatest code that is told apart. -/
def greatestCode : Nat := 2 ^ 32 - 1

/-- The code that a number stands for, if it is a natural number. -/
def code? (x : Float) : Option Nat := (Binary.decode x).natural?.map (min · greatestCode)

/-- The block with one more word, and what is passed over. -/
def add (b : Block) (w : Word) : Except Cause (Block × Option Remark) :=
  match w.address, w.value with
  | .g, .register _ | .m, .register _ => .error (.malformedNumber (Word.spell w.address w.text))
  | .g, .literal x =>
    match code? x with
    | some code => .ok ({ b with g := b.g ++ [code] }, none)
    | none => .ok (b, some (.unsupportedWord (Word.spell .g w.text)))
  | .m, .literal x =>
    match code? x with
    | some code => .ok ({ b with m := b.m ++ [code] }, none)
    | none => .ok (b, some (.unsupportedWord (Word.spell .m w.text)))
  | .n, _ => .ok (b, none)
  | .data letter, value =>
    match b.words.get? letter with
    | some _ => .error (.duplicateAddress letter.char)
    | none => .ok ({ b with words := b.words.set letter value }, none)

/-- The block with more words, up to the first that is refused. -/
def addAll (b : Block) : List Word → Reading Block
  | [] => { result := .ok b }
  | w :: ws =>
    match b.add w with
    | .error cause => { result := .error (.fault cause) }
    | .ok (b, remark?) =>
      let more := b.addAll ws
      { more with remarks := remark?.toList ++ more.remarks }

/-- The block that a sequence of words makes. -/
def read (code : List Char) : Reading Block :=
  let (words, cause?) := Word.scan code.length code
  let reading := ({} : Block).addAll words
  match reading.result, cause? with
  | .ok _, some cause => { reading with result := .error (.fault cause) }
  | _, _ => reading

end Block

namespace Statement

/-- The text before a comment. -/
def stripComment (cs : List Char) : List Char := cs.takeWhile fun c => c != '(' && c != ';'

/-- The text with no blanks around any `=`. -/
def closeUp : List Char → List Char
  | [] => []
  | c :: cs =>
    let rest := closeUp cs
    if c == '=' then '=' :: rest.dropWhile isBlank
    else if isBlank c then
      match rest with
      | '=' :: _ => rest
      | _ => c :: rest
    else c :: rest

def isNameStart (c : Char) : Bool := isAsciiLetter c || c == '_'

def isNamePart (c : Char) : Bool := isNameStart c || isAsciiDigit c

/-- The label that the text begins with and the text after its colon, all on one line. -/
def label? (cs : List Char) : Option (List Char × List Char) :=
  let name := cs.takeWhile isNamePart
  match name, cs.dropWhile isNamePart with
  | first :: _, ':' :: rest =>
    if isNameStart first && !rest.contains '\n' then some (name, trim rest) else none
  | _, _ => none

/-- The labels that a text of at most `n` characters begins with, and the text after them. -/
def takeLabels : (n : Nat) → List Char → List String × List Char
  | 0, cs => ([], cs)
  | n + 1, cs =>
    match label? cs with
    | none => ([], cs)
    | some (name, rest) =>
      let (names, rest) := takeLabels n rest
      (String.ofList name :: names, rest)

/-- Whether a part of a command to repeat has its second byte inside a character. -/
def cutsCharacter : List Char → Bool
  | c :: d :: _ => decide (2 < c.utf8Size) || (c.utf8Size == 1 && decide (1 < d.utf8Size))
  | [c] => decide (2 < c.utf8Size)
  | [] => false

/-- The value after the `P=` that a part of a command to repeat begins with. -/
def countText? : List Char → Option (List Char)
  | 'P' :: '=' :: c :: cs | 'p' :: '=' :: c :: cs => some (c :: cs)
  | _ => none

/-- The labels and the last count among the parts of a command to repeat. -/
def repeatParts (count : Option Value) :
    List (List Char) → Except Refusal (List String × Option Value)
  | [] => .ok ([], count)
  | part :: parts =>
    if cutsCharacter part then .error .cutCharacter
    else
      match countText? part with
      | some text =>
        match Value.read? text with
        | some value => repeatParts (some value) parts
        | none => .error (.fault (.malformedNumber (String.ofList text)))
      | none => do
        let (labels, count) ← repeatParts count parts
        return (String.ofList part :: labels, count)

/-- The command with the given parts. -/
def readRepeat (parts : List (List Char)) : Reading Action :=
  match repeatParts none parts with
  | .error refusal => { result := .error refusal }
  | .ok ([start], count) => { result := .ok (.again ⟨start, none, count⟩) }
  | .ok ([start, stop], count) => { result := .ok (.again ⟨start, some stop, count⟩) }
  | .ok _ => { remarks := [.malformedRepeat], result := .ok .unrecognized }

/-- The register and the value of the text of an assignment. -/
def assignment? : List Char → Option (List Char × List Char)
  | 'R' :: cs | 'r' :: cs =>
    match cs.takeWhile isDigit, cs.dropWhile isDigit with
    | d :: ds, '=' :: c :: rest => some (d :: ds, c :: rest)
    | _, _ => none
  | _ => none

/-- One assignment. -/
def readAssignment (part : List Char) : Except Cause (Nat × Value) :=
  match assignment? part with
  | none => .error (.malformedNumber (String.ofList part))
  | some (digits, text) =>
    match if digits.all isAsciiDigit then Value.register? digits else none with
    | none => .error (.malformedNumber (String.ofList part))
    | some register =>
      match Value.read? text with
      | none => .error (.malformedNumber (String.ofList text))
      | some value => .ok (register, value)

/-- Whether the text begins like a word: an address, then a sign, a point, a digit or `=`. -/
def startsWithWord : List Char → Bool
  | c :: d :: _ => (Address.ofChar? c).isSome && (Word.isLiteral d || d == '=')
  | _ => false

/-- The action that a text without labels stands for. -/
def readAction (code : List Char) : Reading Action :=
  match tokens code with
  | [] => { result := .ok .blank }
  | first :: parts =>
    if sameLetters first "REPEAT".toList then readRepeat parts
    else if (assignment? first).isSome then
      { result := match (first :: parts).mapM readAssignment with
          | .ok pairs => .ok (.assign pairs)
          | .error cause => .error (.fault cause) }
    else if startsWithWord code then
      let reading := Block.read code
      { remarks := reading.remarks, result := reading.result.map .block }
    else { result := .ok .unrecognized }

/-- The statement that a text without comments stands for. -/
def readCode (code : List Char) : Reading Statement :=
  let (labels, rest) := takeLabels code.length code
  let reading := readAction rest
  { remarks := reading.remarks
    result := reading.result.map fun action => { labels, action } }

/-- The statement that the text of a line stands for. -/
def read (text : List Char) : Reading Statement :=
  match trim text with
  | [] => { result := .ok { action := .blank } }
  | '(' :: _ | ';' :: _ => { result := .ok { action := .comment } }
  | cs => readCode (closeUp (trim (stripComment cs)))

end Statement

end Toolpath
