import Toolpath.Settings.Decoding
import Toolpath.Settings.Encoding
import Toolpath.Storage.Tree

/-!
# Settings in files

The extension of a file says in which format settings are kept in it. A store is a configuration
together with the file it is kept in.
-/

namespace Toolpath.Settings

open Storage (Path Tree)

inductive Format where
  | json
  | toml
deriving DecidableEq

namespace Format

def ofPath (p : Path) : Except Problem Format :=
  match p.extension? with
  | some "json" => .ok .json
  | some "toml" => .ok .toml
  | some extension => .error (.format extension)
  | none => .error (.format "<none>")

/-- The configuration in a text. -/
def decode (f : Format) (text : String) : Except Problem Config :=
  match f with
  | .json => (Config.ofJson? text).elim (.error .json) .ok
  | .toml => (Config.ofToml? text).elim (.error .toml) .ok

/-- The text of a configuration. -/
def encode (f : Format) (c : Config) : Except Problem String :=
  match f with
  | .json => .ok c.toJson
  | .toml => c.toToml?.elim (.error .unwritable) .ok

end Format

namespace Config

/-- The configuration in a file. It has to be good. -/
def load (source : Storage.Source) (p : Path) : Except Problem Config := do
  let format ← Format.ofPath p
  match source.text p with
  | .error o => .error (.load s!"{p.text}: {o.message}")
  | .ok text =>
    let c ← format.decode text
    c.check
    return c

/-- The configuration in a file, or the defaults if there is no file. -/
def loadOrDefault (source : Storage.Source) (p : Path) : Except Problem Config :=
  if source.holds p then load source p else .ok {}

/-- The tree with a configuration written to a file. It has to be good. -/
def save (c : Config) (t : Tree) (p : Path) : Except Problem Tree := do
  c.check
  let format ← Format.ofPath p
  let text ← format.encode c
  match t.write p text.toUTF8 with
  | .ok t => return t
  | .error o => .error (.save s!"{p.text}: {o.message}")

end Config

structure Store where
  path : Path
  config : Config

namespace Store

/-- Where settings are kept if no file is named, below the directory for settings. -/
def defaultPath (home : String) : Path := (Path.join ⟨home⟩ "pathplay").join "config.toml"

/-- The store of a file, with the defaults if there is no file. -/
def open? (source : Storage.Source) (p : Path) : Except Problem Store := do
  return ⟨p, ← Config.loadOrDefault source p⟩

/-- The tree with the directory of the file, as far as it could be made. -/
def makeDirectory (s : Store) (t : Tree) : Tree × Except Problem Unit :=
  match s.path.parent? with
  | none => (t, .ok ())
  | some above =>
    match t.makeDirectories above with
    | (t, .ok ()) => (t, .ok ())
    | (t, .error o) => (t, .error (.directory s!"{above.text}: {o.message}"))

/-- Makes the directory of the file if it is missing, then writes the configuration. The tree is
what is left, also if the store is not saved. -/
def save (s : Store) (t : Tree) : Tree × Except Problem Unit :=
  match s.makeDirectory t with
  | (t, .error problem) => (t, .error problem)
  | (t, .ok ()) =>
    match s.config.save t s.path with
    | .ok t => (t, .ok ())
    | .error problem => (t, .error problem)

/-- What the operator is told of a store that has been saved. -/
def savedText (s : Store) : String := s!"Saved settings to {s.path.text}"

/-- Takes the configuration from the file again. -/
def reload (s : Store) (source : Storage.Source) : Store × Except Problem Unit :=
  match Config.loadOrDefault source s.path with
  | .ok config => ({ s with config }, .ok ())
  | .error problem => (s, .error problem)

end Store

end Toolpath.Settings
