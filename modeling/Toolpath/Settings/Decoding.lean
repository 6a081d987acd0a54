import Toolpath.Json.Reader
import Toolpath.Settings.Config
import Toolpath.Toml.Reader

/-!
# Settings from trees

A section is a table of settings under their names, or a list of them in their order. What is left
out keeps its default, and a name that is no setting is passed over. The trees of both file formats
are read in the same way, through what `Readable` lets one ask of them.
-/

namespace Toolpath.Settings

/-- Trees that settings are read from. -/
class Readable (τ : Type) where
  /-- A whole number from zero on. -/
  natural? : τ → Option Nat
  real? : τ → Option Float
  items? : τ → Option (List τ)
  /-- The entries of a table; a key is missing if it is no text. -/
  entries? : τ → Option (List (Option String × τ))
  /-- Whether a list may be longer than what is read from it. -/
  surplus : Bool

namespace Readable

variable {τ β : Type} [Readable τ]

/-- The entries of a table that are under some keys, unless one of those is given twice. -/
def known (keys : List String) (entries : List (Option String × τ)) : Option (List (String × τ)) :=
  if entries.any (·.1.isNone) then none
  else
    let found := entries.filterMap fun
      | (some key, value) => if keys.contains key then some (key, value) else none
      | (none, _) => none
    if (found.map Prod.fst).Nodup then some found else none

/-- The items of a list with the keys they stand for, unless they are too many. -/
def placed (keys : List String) (items : List τ) : Option (List (String × τ)) :=
  if surplus τ || decide (items.length ≤ keys.length) then some (keys.zip items) else none

/-- What is given for some keys. -/
def fields? (keys : List String) (t : τ) : Option (List (String × τ)) :=
  match entries? t with
  | some entries => known keys entries
  | none => (items? t).bind (placed keys)

/-- What is given for a key, or its default. -/
def get (fields : List (String × τ)) (key : String) (read : τ → Option β) (default : β) : Option β :=
  match fields.lookup key with
  | some t => read t
  | none => some default

/-- A number in a word of 64 bits. -/
def word64? (t : τ) : Option UInt64 :=
  (natural? t).bind fun n => if n < 2 ^ 64 then some n.toUInt64 else none

/-- A number in a word of 32 bits. -/
def word32? (t : τ) : Option UInt32 :=
  (natural? t).bind fun n => if n < 2 ^ 32 then some n.toUInt32 else none

def point? (t : τ) : Option (Point Float) :=
  match items? t with
  | some (x :: y :: z :: more) =>
    if surplus τ || more.isEmpty then do return ⟨← real? x, ← real? y, ← real? z⟩ else none
  | _ => none

def interpreter? (t : τ) : Option Interpreter := do
  let s : Interpreter := {}
  let given ← fields? ["arc_step_degrees", "max_repeat_depth"] t
  return {
    arcStep := ← get given "arc_step_degrees" real? s.arcStep
    repeatDepth := ← get given "max_repeat_depth" word64? s.repeatDepth }

def playback? (t : τ) : Option Playback := do
  let s : Playback := {}
  let given ← fields? ["tick_interval_ms", "default_speed", "removal_interval"] t
  return {
    tick := ← get given "tick_interval_ms" word64? s.tick
    speed := ← get given "default_speed" real? s.speed
    removalInterval := ← get given "removal_interval" word32? s.removalInterval }

def stock? (t : τ) : Option Stock := do
  let s : Stock := {}
  let given ← fields? ["width", "height", "depth", "origin", "resolution", "tool_radius"] t
  return {
    width := ← get given "width" real? s.width
    height := ← get given "height" real? s.height
    depth := ← get given "depth" real? s.depth
    origin := ← get given "origin" point? s.origin
    resolution := ← get given "resolution" real? s.resolution
    toolRadius := ← get given "tool_radius" real? s.toolRadius }

def config? (t : τ) : Option Config := do
  let given ← fields? ["interpreter", "playback", "stock"] t
  return {
    interpreter := ← get given "interpreter" interpreter? {}
    playback := ← get given "playback" playback? {}
    stock := ← get given "stock" stock? {} }

end Readable

instance : Readable Json.Document where
  natural? := Json.Document.natural?
  real? := Json.Document.real?
  items?
    | .list items => some items
    | _ => none
  entries?
    | .table entries => some entries
    | _ => none
  surplus := false

/-- A date or a time counts as a table without settings. -/
instance : Readable Toml.Value where
  natural? := Toml.Value.natural?
  real? := Toml.Value.real?
  items?
    | .list _ items => some items
    | _ => none
  entries?
    | .table _ entries => some (entries.map fun (key, value) => (some key, value))
    | .moment _ => some []
    | _ => none
  surplus := true

namespace Config

/-- The configuration in a JSON text. -/
def ofJson? (text : String) : Option Config :=
  (Json.Document.read? text.toList).bind Readable.config?

/-- The configuration in a TOML text. -/
def ofToml? (text : String) : Option Config :=
  (Toml.Entries.read? text.toList).bind fun entries =>
    Readable.config? (Toml.Value.table .declared entries)

end Config

end Toolpath.Settings
