/-!
# Problems with settings

Why settings cannot be read, written or used.
-/

namespace Toolpath.Settings

inductive Problem where
  /-- A file cannot be read. -/
  | load (reason : String)
  /-- A file cannot be written. -/
  | save (reason : String)
  | invalid (key reason : String)
  /-- The directory of a file cannot be made. -/
  | directory (reason : String)
  | device (reason : String)
  /-- A text is no JSON, or holds no settings. -/
  | json
  /-- A text is no TOML, or holds no settings. -/
  | toml
  /-- A number is too great for TOML. -/
  | unwritable
  /-- No format goes by an extension. -/
  | format (extension : String)
  | platform (reason : String)
deriving DecidableEq

namespace Problem

/-- What a file format or a platform has to do with a problem. -/
def cause? : Problem → Option String
  | format extension => some s!"Unsupported config format: {extension}"
  | platform reason => some s!"Unsupported platform: {reason}"
  | _ => none

def message : Problem → String
  | load reason => s!"Failed to load settings: {reason}"
  | save reason => s!"Failed to save settings: {reason}"
  | invalid key reason => s!"Invalid setting '{key}': {reason}"
  | directory reason => s!"Config directory error: {reason}"
  | device reason => s!"I/O error: {reason}"
  | json => "JSON error: not a configuration"
  | toml | unwritable => "TOML error: not a configuration"
  | format extension => s!"Config error: Unsupported config format: {extension}"
  | platform reason => s!"Config error: Unsupported platform: {reason}"

/-- The message and what lies behind it. -/
def chain (p : Problem) : List String := p.message :: p.cause?.toList

end Problem

end Toolpath.Settings
