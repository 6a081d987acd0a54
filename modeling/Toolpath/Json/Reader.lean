import Toolpath.Json.Document
import Toolpath.Text.Digit

/-!
# Reading JSON

`Document.read?` accepts a text that is one JSON value between blanks and nothing else. Each reader
takes the text it is to begin at and gives back what it leaves.
-/

namespace Toolpath.Json

open Text

def isSpace (c : Char) : Bool := c == ' ' || c == '\n' || c == '\t' || c == '\r'

def skip (cs : List Char) : List Char := cs.dropWhile isSpace

/-- The value of a hexadecimal digit. -/
def hexDigit? (c : Char) : Option Nat :=
  if '0' ≤ c ∧ c ≤ '9' then some (c.toNat - '0'.toNat)
  else if 'a' ≤ c ∧ c ≤ 'f' then some (c.toNat - 'a'.toNat + 10)
  else if 'A' ≤ c ∧ c ≤ 'F' then some (c.toNat - 'A'.toNat + 10)
  else none

/-- The value of four hexadecimal digits. -/
def hex4? (a b c d : Char) : Option Nat := do
  let a ← hexDigit? a
  let b ← hexDigit? b
  let c ← hexDigit? c
  let d ← hexDigit? d
  return ((a * 16 + b) * 16 + c) * 16 + d

/-- The character that a letter after a backslash stands for. -/
def escaped? : Char → Option Char
  | '"' => some '"' | '\\' => some '\\' | '/' => some '/'
  | 'b' => some '\x08' | 'f' => some '\x0c' | 'n' => some '\n' | 'r' => some '\r' | 't' => some '\t'
  | _ => none

/-- The 16-bit units and characters up to the closing quote, as numbers. -/
def units? : List Char → Option (List Nat × List Char)
  | [] => none
  | '"' :: rest => some ([], rest)
  | '\\' :: 'u' :: a :: b :: c :: d :: rest =>
    match hex4? a b c d with
    | some unit => (units? rest).map fun (units, rest) => (unit :: units, rest)
    | none => none
  | '\\' :: c :: rest =>
    match escaped? c with
    | some c => (units? rest).map fun (units, rest) => (c.toNat :: units, rest)
    | none => none
  | c :: rest =>
    if c.toNat < 0x20 then none
    else (units? rest).map fun (units, rest) => (c.toNat :: units, rest)

/-- The first half of a pair of units. -/
def isLeading (unit : Nat) : Bool := decide (0xD800 ≤ unit ∧ unit < 0xDC00)

/-- The second half of a pair of units. -/
def isTrailing (unit : Nat) : Bool := decide (0xDC00 ≤ unit ∧ unit < 0xE000)

/-- The text with the given units, unless half of a pair stands alone. -/
def ofUnits? : List Nat → Option (List Char)
  | [] => some []
  | high :: low :: rest =>
    if isLeading high && isTrailing low then
      (ofUnits? rest).map (Char.ofNat (0x10000 + (high - 0xD800) * 0x400 + (low - 0xDC00)) :: ·)
    else if isLeading high || isTrailing high then none
    else (ofUnits? (low :: rest)).map (Char.ofNat high :: ·)
  | [unit] => if isLeading unit || isTrailing unit then none else some [Char.ofNat unit]

/-- The text up to the closing quote; it is missing if an escape in it names no character. -/
def string? (cs : List Char) : Option (Option String × List Char) :=
  (units? cs).map fun (units, rest) => ((ofUnits? units).map String.ofList, rest)

/-- The exponent that may follow a number. -/
def exponent? (cs : List Char) : Option (Option (Bool × List Char) × List Char) :=
  match cs with
  | 'e' :: rest | 'E' :: rest =>
    let (negative, rest) := match rest with
      | '-' :: rest => (true, rest)
      | '+' :: rest => (false, rest)
      | _ => (false, rest)
    let digits := rest.takeWhile isAsciiDigit
    if digits.isEmpty then none else some (some (negative, digits), rest.dropWhile isAsciiDigit)
  | _ => some (none, cs)

/-- A number without its sign. -/
def magnitude? (negative : Bool) (cs : List Char) : Option (Numeral × List Char) :=
  let whole := cs.takeWhile isAsciiDigit
  let rest := cs.dropWhile isAsciiDigit
  if whole.isEmpty || (whole.head? == some '0' && decide (1 < whole.length)) then none
  else
    match rest with
    | '.' :: rest =>
      let frac := rest.takeWhile isAsciiDigit
      if frac.isEmpty then none
      else
        (exponent? (rest.dropWhile isAsciiDigit)).map fun (exponent, rest) =>
          ({ negative, whole, frac := some frac, exponent }, rest)
    | _ => (exponent? rest).map fun (exponent, rest) => ({ negative, whole, exponent }, rest)

def numeral? : List Char → Option (Numeral × List Char)
  | '-' :: cs => magnitude? true cs
  | cs => magnitude? false cs

namespace Document

mutual

/-- The value that the text begins with, after blanks; `n` bounds its depth and length. -/
def value? : (n : Nat) → List Char → Option (Document × List Char)
  | 0, _ => none
  | n + 1, cs =>
    match skip cs with
    | '{' :: cs =>
      match skip cs with
      | '}' :: rest => some (.table [], rest)
      | cs => (entries? n cs).map fun (entries, rest) => (.table entries, rest)
    | '[' :: cs =>
      match skip cs with
      | ']' :: rest => some (.list [], rest)
      | cs => (items? n cs).map fun (items, rest) => (.list items, rest)
    | '"' :: cs => (string? cs).map fun (t, rest) => (.text t, rest)
    | 'n' :: 'u' :: 'l' :: 'l' :: rest => some (.null, rest)
    | 't' :: 'r' :: 'u' :: 'e' :: rest => some (.boolean true, rest)
    | 'f' :: 'a' :: 'l' :: 's' :: 'e' :: rest => some (.boolean false, rest)
    | cs => (numeral? cs).map fun (n, rest) => (.numeral n, rest)

/-- The items up to the closing bracket. -/
def items? : (n : Nat) → List Char → Option (List Document × List Char)
  | 0, _ => none
  | n + 1, cs =>
    match value? n cs with
    | none => none
    | some (item, rest) =>
      match skip rest with
      | ',' :: rest => (items? n rest).map fun (items, rest) => (item :: items, rest)
      | ']' :: rest => some ([item], rest)
      | _ => none

/-- The entries up to the closing brace. -/
def entries? : (n : Nat) → List Char → Option (List (Option String × Document) × List Char)
  | 0, _ => none
  | n + 1, cs =>
    match skip cs with
    | '"' :: cs =>
      match string? cs with
      | none => none
      | some (key, rest) =>
        match skip rest with
        | ':' :: rest =>
          match value? n rest with
          | none => none
          | some (value, rest) =>
            let entry := (key, value)
            match skip rest with
            | ',' :: rest => (entries? n rest).map fun (entries, rest) => (entry :: entries, rest)
            | '}' :: rest => some ([entry], rest)
            | _ => none
        | _ => none
    | _ => none

end

/-- The document that a text is. -/
def read? (text : List Char) : Option Document :=
  match value? (text.length + 1) text with
  | some (document, rest) => if (skip rest).isEmpty then some document else none
  | none => none

end Document

end Toolpath.Json
