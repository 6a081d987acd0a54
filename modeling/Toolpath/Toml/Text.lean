import Toolpath.Json.Reader

/-!
# Characters of TOML

Blanks, line ends and comments between the parts of a text, and the four kinds of quoted text. Each
reader takes the text it is to begin at and gives back what it leaves.
-/

namespace Toolpath.Toml

open Json (hexDigit? hex4?)

def isBlank (c : Char) : Bool := c == ' ' || c == '\t'

def skip (cs : List Char) : List Char := cs.dropWhile isBlank

/-- A character that may stand in a comment or between quotes: a tab, or any but the control
characters of ASCII. -/
def isVisible (c : Char) : Bool := c == '\t' || (decide (0x20 ≤ c.toNat) && c.toNat != 0x7F)

/-- What follows a line break. -/
def newline? : List Char → Option (List Char)
  | '\n' :: rest | '\r' :: '\n' :: rest => some rest
  | _ => none

/-- What follows blanks, a comment and the end of the line. -/
def lineEnd? (cs : List Char) : Option (List Char) :=
  let rest := match skip cs with
    | '#' :: rest => rest.dropWhile isVisible
    | rest => rest
  if rest.isEmpty then some [] else newline? rest

/-- What follows blanks, line breaks and comments. -/
def skipLines : (comment : Bool) → List Char → List Char
  | _, [] => []
  | _, '\n' :: rest | _, '\r' :: '\n' :: rest => skipLines false rest
  | true, c :: rest => if isVisible c then skipLines true rest else c :: rest
  | false, c :: rest =>
    if isBlank c then skipLines false rest
    else if c = '#' then skipLines true rest
    else c :: rest

/-- The character that a letter after a backslash stands for. -/
def escaped? : Char → Option Char
  | '"' => some '"' | '\\' => some '\\'
  | 'b' => some '\x08' | 'f' => some '\x0c' | 'n' => some '\n' | 'r' => some '\r' | 't' => some '\t'
  | _ => none

/-- The character with a number. -/
def scalar? (n : Nat) : Option Char := if n.isValidChar then some (Char.ofNat n) else none

/-- The character with the number that four hexadecimal digits denote. -/
def short? (a b c d : Char) : Option Char := (hex4? a b c d).bind scalar?

/-- The character with the number that eight hexadecimal digits denote. -/
def long? (a b c d e f g h : Char) : Option Char := do
  let high ← hex4? a b c d
  let low ← hex4? e f g h
  scalar? (high * 0x10000 + low)

/-- Puts a character before a text that has been read. -/
def before (c : Char) (read : Option (List Char × List Char)) : Option (List Char × List Char) :=
  read.map fun (cs, rest) => (c :: cs, rest)

/-- The text up to a closing quote on the same line. -/
def basic? : List Char → Option (List Char × List Char)
  | [] => none
  | '"' :: rest => some ([], rest)
  | '\\' :: 'u' :: a :: b :: c :: d :: rest =>
    match short? a b c d with
    | some x => before x (basic? rest)
    | none => none
  | '\\' :: 'U' :: a :: b :: c :: d :: e :: f :: g :: h :: rest =>
    match long? a b c d e f g h with
    | some x => before x (basic? rest)
    | none => none
  | '\\' :: c :: rest =>
    match escaped? c with
    | some x => before x (basic? rest)
    | none => none
  | c :: rest => if isVisible c then before c (basic? rest) else none

/-- The text up to a closing apostrophe on the same line, with nothing escaped. -/
def literal? : List Char → Option (List Char × List Char)
  | [] => none
  | '\'' :: rest => some ([], rest)
  | c :: rest => if isVisible c then before c (literal? rest) else none

/-- The text up to three closing quotes; one or two quotes may stand before them. After a
backslash at the end of a line, blanks and line breaks are passed over. -/
def longBasic? : (passing : Bool) → List Char → Option (List Char × List Char)
  | _, [] => none
  | true, ' ' :: rest | true, '\t' :: rest | true, '\n' :: rest
  | true, '\r' :: '\n' :: rest => longBasic? true rest
  | _, '"' :: '"' :: '"' :: '"' :: '"' :: rest => some (['"', '"'], rest)
  | _, '"' :: '"' :: '"' :: '"' :: rest => some (['"'], rest)
  | _, '"' :: '"' :: '"' :: rest => some ([], rest)
  | _, '\\' :: 'u' :: a :: b :: c :: d :: rest =>
    match short? a b c d with
    | some x => before x (longBasic? false rest)
    | none => none
  | _, '\\' :: 'U' :: a :: b :: c :: d :: e :: f :: g :: h :: rest =>
    match long? a b c d e f g h with
    | some x => before x (longBasic? false rest)
    | none => none
  | _, '\\' :: c :: rest =>
    if (newline? (skip (c :: rest))).isSome then longBasic? true rest
    else
      match escaped? c with
      | some x => before x (longBasic? false rest)
      | none => none
  | _, '\r' :: '\n' :: rest => before '\n' (longBasic? false rest)
  | _, c :: rest =>
    if isVisible c || c == '\n' then before c (longBasic? false rest) else none

/-- The text up to three closing apostrophes; one or two may stand before them. -/
def longLiteral? : List Char → Option (List Char × List Char)
  | [] => none
  | '\'' :: '\'' :: '\'' :: '\'' :: '\'' :: rest => some (['\'', '\''], rest)
  | '\'' :: '\'' :: '\'' :: '\'' :: rest => some (['\''], rest)
  | '\'' :: '\'' :: '\'' :: rest => some ([], rest)
  | '\r' :: '\n' :: rest => before '\n' (longLiteral? rest)
  | c :: rest => if isVisible c || c == '\n' then before c (longLiteral? rest) else none

/-- A line break right after three opening quotes is no part of the text. -/
def opened (cs : List Char) : List Char := (newline? cs).getD cs

/-- A quoted text of any kind. -/
def string? : List Char → Option (List Char × List Char)
  | '"' :: '"' :: '"' :: rest => longBasic? false (opened rest)
  | '"' :: rest => basic? rest
  | '\'' :: '\'' :: '\'' :: rest => longLiteral? (opened rest)
  | '\'' :: rest => literal? rest
  | _ => none

end Toolpath.Toml
