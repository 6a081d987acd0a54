import Toolpath.CommandLine.Report

/-!
# The command

Reads the files that a report needs, and prints the report.
-/

namespace Toolpath.CommandLine

open Storage (Obstacle)

/-- The number of a system error, which may be given negated. -/
def errorNumber (code : UInt32) : Nat := min code.toNat (0 - code).toNat

/-- Why the system did not give a file's bytes. -/
def obstacle : IO.Error → Obstacle
  | .noFileOrDirectory .. => .notFound
  | .inappropriateType _ code _ =>
    if errorNumber code = 20 then .notDirectory else .isDirectory
  | .invalidArgument _ code details =>
    if errorNumber code = 36 then .nameTooLong else .other details
  | .permissionDenied _ code _ => .other s!"Permission denied (os error {errorNumber code})"
  | e => .other (toString e)

/-- The bytes at a path. -/
def readPath (path : String) : IO (Except Obstacle ByteArray) := do
  match ← (IO.FS.readBinFile path).toBaseIO with
  | .ok bytes => return .ok bytes
  | .error e => return .error (obstacle e)

/-- The directory for settings. -/
def settingsHome : IO (Option String) := do
  match ← IO.getEnv "XDG_CONFIG_HOME", ← IO.getEnv "HOME" with
  | some config, home => return if config.startsWith "/" then some config else home.map (· ++ "/.config")
  | none, home => return home.map (· ++ "/.config")

/-- The paths that a report may ask for. -/
def neededPaths (args : List String) (home : Option String) : List String :=
  match Intent.ofArguments args with
  | .perform r => r.file :: (r.config.toList ++
      (home.map fun h => (Settings.Store.defaultPath h).text).toList)
  | _ => []

/-- Prints a report: what it complains of and what the operator is told go to the error stream. -/
def Report.print (report : Report) : IO Unit := do
  let stderr ← IO.getStderr
  for (level, message) in report.notices do
    let word := match level with
      | .info => "INFO"
      | .warning => "WARN"
      | .error => "ERROR"
    stderr.putStrLn s!"{word} {message}"
  (← IO.getStdout).putStr report.output
  if let some complaint := report.complaint then stderr.putStrLn complaint

end Toolpath.CommandLine

open Toolpath Toolpath.CommandLine

def main (args : List String) : IO UInt32 := do
  let home ← settingsHome
  let files ← (neededPaths args home).mapM fun p => return (p, ← readPath p)
  let source : Storage.Source := fun p => (files.lookup p.text).getD (.error .notFound)
  let report := Report.ofArguments args home source
  report.print
  return report.code.toUInt32
