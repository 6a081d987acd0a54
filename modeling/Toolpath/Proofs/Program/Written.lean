import Mathlib.Data.Nat.Digits.Defs
import Toolpath.Program.Reader
import Toolpath.Proofs.Number.Natural

/-!
# Written statements

The forms that a statement takes on a line, as syntax trees in which every blank, every digit and
the case of every letter is kept. The types admit only what may be written, so that `Line.text` is
the text of a line for every tree; `Line.statement` is what the tree says, put together from its
numbers and names.

Blanks may stand at either end of a line, after the colon of a label, around `=` and between the
words of a line; they have to stand between assignments and between the parts of a command to
repeat. A comment may follow.
-/

namespace Toolpath

/-- One entry, or none, for each data address. -/
def Words.ofFn {β : Type} (entry : Letter → Option β) : Words β where
  f := entry .f
  i := entry .i
  j := entry .j
  p := entry .p
  q := entry .q
  r := entry .r
  s := entry .s
  x := entry .x
  y := entry .y
  z := entry .z

namespace Written

open Text

/-- Blanks within a line. -/
structure Gap where
  text : List Char
  blank : ∀ c ∈ text, isBlank c = true
  inLine : '\n' ∉ text

/-- The sign `=` and the blanks around it. -/
structure Equals where
  before : Gap
  after : Gap

def Equals.text (e : Equals) : List Char := e.before.text ++ '=' :: e.after.text

/-- The sign without the blanks around it. -/
def Equals.closed (_ : Equals) : List Char := ['=']

/-- A capital letter, or the small letter for it. -/
def inCase (small : Bool) (c : Char) : Char := if small then c.toLower else c

/-- Items one after another, each behind its gap. -/
def spread {α : Type} (text : α → List Char) (items : List (Gap × α)) : List Char :=
  items.flatMap fun item => item.1.text ++ text item.2

/-! ## Numbers -/

abbrev Digits := List (Fin 10)

namespace Digits

def text (ds : Digits) : List Char := ds.map fun d : Fin 10 => Nat.digitChar d.val

def value (ds : Digits) : Nat := Nat.ofDigits 10 (ds.reverse.map Fin.val)

end Digits

inductive Sign where
  | plus
  | minus

def Sign.char : Sign → Char
  | plus => '+'
  | minus => '-'

/-- A decimal number. -/
structure Numeral where
  sign : Option Sign
  whole : Digits
  /-- The digits after the point, if there is a point. -/
  frac : Option Digits
  ne_nil : whole ++ frac.getD [] ≠ []

namespace Numeral

/-- The digits before the point, and the point with the digits after it. -/
def unsigned (x : Numeral) : List Char :=
  x.whole.text ++ (x.frac.map fun frac => '.' :: frac.text).getD []

def text (x : Numeral) : List Char := (x.sign.map Sign.char).toList ++ x.unsigned

/-- The binary value nearest to the number without its sign. -/
def magnitude (x : Numeral) : Float :=
  Binary.ofQuotient (Digits.value (x.whole ++ x.frac.getD [])) (10 ^ (x.frac.getD []).length)

def value (x : Numeral) : Float :=
  match x.sign with
  | some .minus => -x.magnitude
  | _ => x.magnitude

/-- The code that the value stands for: only a natural number does, and a great one stands for the
greatest code. -/
def code? (x : Numeral) : Option Nat :=
  (Binary.decode x.value).rational?.bind fun v =>
    if 0 ≤ v ∧ v.den = 1 then some (min v.num.toNat (2 ^ 32 - 1)) else none

end Numeral

structure Register where
  small : Bool
  digits : Digits
  ne_nil : digits ≠ []
  lt : digits.value < 2 ^ 32

def Register.text (r : Register) : List Char := inCase r.small 'R' :: r.digits.text

/-- A number, or the register that holds it. -/
inductive Operand where
  | numeral (x : Numeral)
  | register (r : Register)

namespace Operand

def IsNumeral : Operand → Prop
  | numeral _ => True
  | register _ => False

def text : Operand → List Char
  | numeral x => x.text
  | register r => r.text

def value : Operand → Value
  | numeral x => .literal x.value
  | register r => .register r.digits.value

def code? : Operand → Option Nat
  | numeral x => x.code?
  | register _ => none

end Operand

/-! ## Words

Text is written down with any rendering of `=`: with the blanks around it that the tree has, or
with none. -/

/-- An address and the value that is written after it. -/
structure Entry where
  address : Address
  small : Bool
  equals : Option Equals
  operand : Operand
  isNumeral : address = .g ∨ address = .m → operand.IsNumeral

namespace Entry

def text (mark : Equals → List Char) (e : Entry) : List Char :=
  inCase e.small e.address.char :: ((e.equals.map mark).getD [] ++ e.operand.text)

def letter? (e : Entry) : Option Letter :=
  match e.address with
  | .data letter => some letter
  | _ => none

/-- The code under the address `a`. -/
def code? (a : Address) (e : Entry) : Option Nat := if e.address = a then e.operand.code? else none

end Entry

/-- The words of a line. -/
structure Entries where
  first : Entry
  more : List (Gap × Entry)
  starts : first.operand.IsNumeral ∨ first.equals.isSome
  nodup : ((first :: more.map Prod.snd).filterMap Entry.letter?).Nodup

namespace Entries

def all (es : Entries) : List Entry := es.first :: es.more.map Prod.snd

def text (mark : Equals → List Char) (es : Entries) : List Char :=
  es.first.text mark ++ spread (Entry.text mark) es.more

/-- The value under the data address `letter`. -/
def value? (es : Entries) (letter : Letter) : Option Value :=
  (es.all.find? fun e => e.letter? = some letter).map fun e => e.operand.value

def block (es : Entries) : Block where
  g := es.all.filterMap (Entry.code? .g)
  m := es.all.filterMap (Entry.code? .m)
  words := Words.ofFn es.value?

end Entries

/-! ## Assignments and commands to repeat -/

structure Assignment where
  register : Register
  equals : Equals
  operand : Operand

namespace Assignment

def text (mark : Equals → List Char) (a : Assignment) : List Char :=
  a.register.text ++ (mark a.equals ++ a.operand.text)

def pair (a : Assignment) : Nat × Value := (a.register.digits.value, a.operand.value)

end Assignment

structure Assignments where
  first : Assignment
  more : List (Gap × Assignment)
  separate : ∀ item ∈ more, item.1.text ≠ []

namespace Assignments

def text (mark : Equals → List Char) (as : Assignments) : List Char :=
  as.first.text mark ++ spread (Assignment.text mark) as.more

def pairs (as : Assignments) : List (Nat × Value) :=
  (as.first :: as.more.map Prod.snd).map Assignment.pair

end Assignments

structure Name where
  first : Char
  rest : List Char
  isStart : Statement.isNameStart first = true
  isPart : ∀ c ∈ rest, Statement.isNamePart c = true

namespace Name

def text (n : Name) : List Char := n.first :: n.rest

def string (n : Name) : String := String.ofList n.text

theorem isNamePart_text (n : Name) : ∀ c ∈ n.text, Statement.isNamePart c = true :=
  List.forall_mem_cons.2 ⟨by simp [Statement.isNamePart, n.isStart], n.isPart⟩

end Name

/-- How often to repeat. -/
structure Count where
  small : Bool
  equals : Equals
  operand : Operand

def Count.text (mark : Equals → List Char) (c : Count) : List Char :=
  inCase c.small 'P' :: (mark c.equals ++ c.operand.text)

/-- What stands after the keyword of a command to repeat. -/
inductive Part where
  | label (name : Name)
  | count (c : Count)

namespace Part

def text (mark : Equals → List Char) : Part → List Char
  | label name => name.text
  | count c => c.text mark

def name? : Part → Option Name
  | label name => some name
  | count _ => none

def count? : Part → Option Value
  | label _ => none
  | count c => some c.operand.value

end Part

/-- A command to repeat what stands between two labels, or between a label and the command. -/
structure Command where
  keyword : List Char
  isKeyword : keyword.map Char.toUpper = "REPEAT".toList
  parts : List (Gap × Part)
  separate : ∀ item ∈ parts, item.1.text ≠ []
  named : (parts.map Prod.snd).filterMap Part.name? ≠ []
  names_le : ((parts.map Prod.snd).filterMap Part.name?).length ≤ 2
  counts_le : ((parts.map Prod.snd).filterMap Part.count?).length ≤ 1

namespace Command

def names (c : Command) : List Name := (c.parts.map Prod.snd).filterMap Part.name?

def counts (c : Command) : List Value := (c.parts.map Prod.snd).filterMap Part.count?

def text (mark : Equals → List Char) (c : Command) : List Char :=
  c.keyword ++ spread (Part.text mark) c.parts

def command (c : Command) : Repeat where
  start := (c.names.head c.named).string
  stop := c.names[1]?.map Name.string
  count := c.counts.head?

end Command

/-! ## Lines -/

/-- What a line tells to do. -/
inductive Body where
  | assign (as : Assignments)
  | again (c : Command)
  | words (es : Entries)

namespace Body

def text (mark : Equals → List Char) : Body → List Char
  | assign as => as.text mark
  | again c => c.text mark
  | words es => es.text mark

def action : Body → Action
  | assign as => .assign as.pairs
  | again c => .again c.command
  | words es => .block es.block

end Body

/-- A line without its comment and the blanks at its ends. -/
inductive Code where
  | plain (body : Body)
  /-- A label and nothing after it. -/
  | bare (name : Name)
  | labelled (name : Name) (gap : Gap) (rest : Code)

namespace Code

def text (mark : Equals → List Char) : Code → List Char
  | plain body => body.text mark
  | bare name => name.text ++ [':']
  | labelled name gap rest => name.text ++ ':' :: (gap.text ++ rest.text mark)

def labels : Code → List String
  | plain _ => []
  | bare name => [name.string]
  | labelled name _ rest => name.string :: rest.labels

def action : Code → Action
  | plain body => body.action
  | bare _ => .blank
  | labelled _ _ rest => rest.action

end Code

structure Comment where
  opening : Char
  opens : opening = '(' ∨ opening = ';'
  rest : List Char

def Comment.text (c : Comment) : List Char := c.opening :: c.rest

structure Line where
  before : Gap
  code : Code
  after : Gap
  comment : Option Comment

namespace Line

def text (l : Line) : List Char :=
  l.before.text ++ (l.code.text Equals.text ++
    (l.after.text ++ (l.comment.map Comment.text).getD []))

def statement (l : Line) : Statement where
  labels := l.code.labels
  action := l.code.action

end Line

end Written

end Toolpath
