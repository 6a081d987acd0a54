import Toolpath.Number.Reading

/-!
# Requests

What the arguments of a command ask for. They are taken from left to right: the first that asks for
help or for the version, or that cannot stand where it stands, decides.
-/

namespace Toolpath.CommandLine

structure Request where
  /-- The program to run. -/
  file : String
  speed : Option Float := none
  config : Option String := none
  json : Bool := false
  play : Bool := false

inductive Intent where
  | perform (request : Request)
  | version
  | help
  | misuse

/-- An argument by its looks. -/
inductive Argument where
  /-- Two hyphens; no option follows. -/
  | escape
  | long (name : String) (value : Option String)
  | short (flag : Char)
  | plain (text : String)

namespace Argument

def ofString (s : String) : Argument :=
  match s.toList with
  | ['-', '-'] => escape
  | '-' :: '-' :: cs =>
    let name := String.ofList (cs.takeWhile (· != '='))
    match cs.dropWhile (· != '=') with
    | _ :: value => long name (some (String.ofList value))
    | [] => long name none
  | '-' :: c :: _ => short c
  | _ => plain s

end Argument

/-- A request of which the file may still be missing. -/
structure Draft where
  file : Option String := none
  speed : Option Float := none
  config : Option String := none
  json : Bool := false
  play : Bool := false

namespace Draft

/-- No argument is given twice, and no file has an empty name. -/
def withFile? (d : Draft) (name : String) : Option Draft :=
  if d.file.isSome || name.isEmpty then none else some { d with file := some name }

def withConfig? (d : Draft) (name : String) : Option Draft :=
  if d.config.isSome || name.isEmpty then none else some { d with config := some name }

def withSpeed? (d : Draft) (text : String) : Option Draft :=
  if d.speed.isSome then none
  else (Decimal.read? text).map fun speed => { d with speed := some speed }

def withJson? (d : Draft) : Option Draft := if d.json then none else some { d with json := true }

def withPlay? (d : Draft) : Option Draft := if d.play then none else some { d with play := true }

def intent (d : Draft) : Intent :=
  match d.file with
  | some file => .perform ⟨file, d.speed, d.config, d.json, d.play⟩
  | none => .misuse

/-- Arguments behind two hyphens. -/
def escaped (d : Draft) : List String → Intent
  | [] => d.intent
  | arg :: rest =>
    match d.withFile? arg with
    | some d => d.escaped rest
    | none => .misuse

/-- The intent of the arguments that are left. The value of an option does not begin with a
hyphen, unless it stands behind an equals sign. -/
def read (d : Draft) : List String → Intent
  | [] => d.intent
  | arg :: rest =>
    let go := fun (d : Option Draft) => match d with
      | some d => d.read rest
      | none => .misuse
    match Argument.ofString arg, rest with
    | .short 'h', _ | .long "help" none, _ => .help
    | .short 'V', _ | .long "version" none, _ => .version
    | .long "json" none, _ => go d.withJson?
    | .long "play" none, _ => go d.withPlay?
    | .long "speed" (some value), _ => go (d.withSpeed? value)
    | .long "config" (some value), _ => go (d.withConfig? value)
    | .long "speed" none, value :: rest =>
      match Argument.ofString value, d.withSpeed? value with
      | .plain _, some d => d.read rest
      | _, _ => .misuse
    | .long "config" none, value :: rest =>
      match Argument.ofString value, d.withConfig? value with
      | .plain _, some d => d.read rest
      | _, _ => .misuse
    | .plain text, _ => go (d.withFile? text)
    | .escape, rest => d.escaped rest
    | _, _ => .misuse

end Draft

/-- The intent of some arguments. -/
def Intent.ofArguments (args : List String) : Intent := ({} : Draft).read args

end Toolpath.CommandLine
