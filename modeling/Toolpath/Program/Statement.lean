/-!
# Statements

What one line of a program says: the labels it declares and the action after them. Values stay
symbolic, so a register is looked up when the line is executed.
-/

namespace Toolpath

/-- A number as written. -/
inductive Value where
  | literal (x : Float)
  | register (n : Nat)

/-- The addresses whose words carry data, in alphabetical order. -/
inductive Letter where
  | f | i | j | p | q | r | s | x | y | z
deriving DecidableEq

/-- The addresses a word may have. -/
inductive Address where
  /-- A preparatory code. -/
  | g
  /-- A miscellaneous code. -/
  | m
  /-- A sequence number. -/
  | n
  | data (letter : Letter)
deriving DecidableEq

namespace Letter

def all : List Letter := [f, i, j, p, q, r, s, x, y, z]

def char : Letter → Char
  | f => 'F' | i => 'I' | j => 'J' | p => 'P' | q => 'Q'
  | r => 'R' | s => 'S' | x => 'X' | y => 'Y' | z => 'Z'

end Letter

namespace Address

def char : Address → Char
  | g => 'G' | m => 'M' | n => 'N'
  | data letter => letter.char

/-- The address with an upper-case letter. -/
def ofUpper? : Char → Option Address
  | 'G' => some g | 'M' => some m | 'N' => some n
  | 'F' => some (data .f) | 'I' => some (data .i) | 'J' => some (data .j)
  | 'P' => some (data .p) | 'Q' => some (data .q) | 'R' => some (data .r)
  | 'S' => some (data .s) | 'X' => some (data .x) | 'Y' => some (data .y)
  | 'Z' => some (data .z)
  | _ => none

/-- The address with a letter of either case. -/
def ofChar? (c : Char) : Option Address := ofUpper? c.toUpper

end Address

/-- At most one entry for each data address. -/
structure Words (β : Type) where
  f : Option β := none
  i : Option β := none
  j : Option β := none
  p : Option β := none
  q : Option β := none
  r : Option β := none
  s : Option β := none
  x : Option β := none
  y : Option β := none
  z : Option β := none

namespace Words

variable {β γ : Type}

def get? (w : Words β) : Letter → Option β
  | .f => w.f | .i => w.i | .j => w.j | .p => w.p | .q => w.q
  | .r => w.r | .s => w.s | .x => w.x | .y => w.y | .z => w.z

def set (w : Words β) (letter : Letter) (b : β) : Words β :=
  match letter with
  | .f => { w with f := some b }
  | .i => { w with i := some b }
  | .j => { w with j := some b }
  | .p => { w with p := some b }
  | .q => { w with q := some b }
  | .r => { w with r := some b }
  | .s => { w with s := some b }
  | .x => { w with x := some b }
  | .y => { w with y := some b }
  | .z => { w with z := some b }

@[simp] theorem get?_set_self (w : Words β) (a : Letter) (b : β) :
    (w.set a b).get? a = some b := by
  cases a <;> rfl

theorem get?_set_of_ne (w : Words β) {a c : Letter} (b : β) (h : c ≠ a) :
    (w.set a b).get? c = w.get? c := by
  cases a <;> cases c <;> simp_all [set, get?]

/-- Each entry in alphabetical order of its address through `g`, stopping at the first refusal. -/
def traverse {ε : Type} (g : β → Except ε γ) (w : Words β) : Except ε (Words γ) := do
  let entry : Option β → Except ε (Option γ)
    | none => .ok none
    | some b => (g b).map some
  let f ← entry w.f
  let i ← entry w.i
  let j ← entry w.j
  let p ← entry w.p
  let q ← entry w.q
  let r ← entry w.r
  let s ← entry w.s
  let x ← entry w.x
  let y ← entry w.y
  let z ← entry w.z
  return { f, i, j, p, q, r, s, x, y, z }

/-- Whether a place on some axis is given. -/
def hasAxis (w : Words β) : Bool := w.x.isSome || w.y.isSome || w.z.isSome

/-- Whether a place in the plane is given. -/
def hasPlace (w : Words β) : Bool := w.x.isSome || w.y.isSome

end Words

/-- The words of a line, with the codes in the order written. -/
structure Block where
  g : List Nat := []
  m : List Nat := []
  words : Words Value := {}

/-- A command to execute again the lines from a label on, up to another label or the command. -/
structure Repeat where
  start : String
  stop : Option String := none
  count : Option Value := none

inductive Action where
  | blank
  | comment
  /-- Values for registers, in order. -/
  | assign (pairs : List (Nat × Value))
  | again (command : Repeat)
  | block (block : Block)
  /-- A line of no known form, which is passed over. -/
  | unrecognized

/-- The labels a line declares, in order, and what follows them. -/
structure Statement where
  labels : List String := []
  action : Action

end Toolpath
