import Toolpath.CommandLine.Dump
import Toolpath.CommandLine.Request
import Toolpath.Playback.Driver
import Toolpath.Settings.Store
import Toolpath.Settings.Use

/-!
# Reports

What a command answers: its exit code, what it prints, and what it complains of. Settings are read
before the program, the run is reported before it is played, and only then does a run that failed
make the command fail.
-/

namespace Toolpath.CommandLine

open Settings (Config Store)
open Storage (Source)

structure Report where
  code : Nat := 0
  output : String := ""
  complaint : Option String := none
  notices : List (Level × String) := []
  /-- How many cells of the stock were cleared in playback, and how many there are. -/
  removed : Option (Nat × Nat) := none

def versionText : String := "pathplay 0.4.0\n"

def helpText : String := "\n".intercalate [
  "G-code motion interpreter and time-domain toolpath playback simulator",
  "",
  "Usage: pathplay [OPTIONS] <FILE>",
  "",
  "Arguments:",
  "  <FILE>  G-code program to interpret",
  "",
  "Options:",
  "      --speed <SPEED>    Playback speed in mm/s (defaults to the configured speed)",
  "      --config <CONFIG>  Configuration file (JSON or TOML)",
  "      --json             Print the segment log as JSON",
  "      --play             Play the toolpath back on the playback timer",
  "  -h, --help             Print help",
  "  -V, --version          Print version",
  ""]

/-- A text whose later lines are as far in as its first. -/
def hanging (blanks : Nat) (s : String) : String :=
  ("\n" ++ String.ofList (List.replicate blanks ' ')).intercalate (s.splitOn "\n")

/-- What went wrong and what lies behind it, numbered if it is more than one thing. -/
def complaint (what : String) (causes : List String) : String :=
  let behind := match causes with
    | [] => ""
    | [cause] => "\n\nCaused by:\n    " ++ hanging 4 cause
    | causes =>
      let line := fun ((cause, n) : String × Nat) => s!"\n    {n}: " ++ hanging 7 cause
      "\n\nCaused by:" ++ String.join (causes.zipIdx.map line)
  s!"Error: {what}{behind}"

/-- What is said of cleared cells. -/
def removedText : Nat × Nat → String
  | (cleared, cells) => s!"Removed {cleared} of {cells} voxels"

/-- The settings of a request and what the operator is told of them. Without a file of its own a
request goes by the settings that are kept below `home`, and by the defaults if those are not
good. -/
def settings (r : Request) (home : Option String) (source : Source) :
    Except String (Config × List (Level × String)) :=
  match r.config with
  | some p =>
    match Config.load source ⟨p⟩ with
    | .ok config => .ok (config, [])
    | .error problem => .error (complaint s!"loading config {p}" problem.chain)
  | none =>
    let opened := match home with
      | some home => Store.open? source (Store.defaultPath home)
      | none => .error (.platform "no configuration directory")
    match opened with
    | .ok store => .ok (store.config, [])
    | .error problem => .ok ({}, [(.warning, s!"Using default settings: {problem.message}")])

/-- How playback went. -/
structure Played where
  complaint : Option String := none
  notices : List (Level × String) := []
  removed : Option (Nat × Nat) := none

/-- More ticks than it takes to play a log. -/
def ticks (config : Config) (log : Log Float) : Nat :=
  let distance := config.playback.speed * config.player.seconds
  2 * Scalar.ceil (log.totalLength / distance) + log.size + 2

def told (notices : List (Playback.Notice Float)) : List (Level × String) :=
  notices.map fun n => (n.level, n.message)

/-- Whether a cut has ended the task that plays. -/
def cutShort (driver : Playback.Driver Float Stock.Removal) : Bool :=
  driver.player.remover.any Stock.Removal.broken

/-- What the operator is told of playback; nothing of its end if a cut came before. -/
def playNotices (driver : Playback.Driver Float Stock.Removal) : List (Level × String) :=
  let short := cutShort driver
  told (driver.notices.filter fun
    | .finished => !short
    | _ => true)

/-- Plays a log to its end. A start in which a cut ends the task is not answered. -/
def play (config : Config) (log : Log Float) : Played :=
  let player : Playback.Player Float Stock.Removal := Playback.Player.ofLog config.player log
  let equipped := if config.playback.removalInterval = 0 then .ok player
    else config.removal.map fun r =>
      (player.perform (.setRemover r config.playback.removalInterval.toNat)).player
  match equipped with
  | .error failure => { complaint := some (complaint failure.message []) }
  | .ok player =>
    match (Playback.Driver.ofPlayer player).ask (.start config.playback.speed) with
    | (driver, .error failure) =>
      { complaint := some (complaint failure.message []), notices := told driver.notices }
    | (driver, .ok _) =>
      if cutShort driver then
        { complaint := some (complaint Playback.Failure.driverStopped.message []) }
      else
        let driver := driver.playOut (ticks config log)
        let removed := driver.player.remover.map fun r => (r.stock.clearedCount, r.stock.cellCount)
        let said := removed.toList.map fun n => (Level.info, removedText n)
        { notices := playNotices driver ++ said, removed }

/-- The report of a run that has an outcome. -/
def present (r : Request) (config : Config) (run : Finished) (notices : List (Level × String)) :
    Report :=
  let output := if r.json then run.document.pretty else (Summary.ofRun run).text
  let log := run.state.log
  let played := if !r.play then {}
    else if log.isEmpty then { notices := [(Level.warning, "Nothing to play")] }
    else play config log
  let failed := match run.outcome with
    | .failed fault => some (complaint s!"interpretation failed: {fault.message}" [])
    | _ => none
  let complaint := played.complaint.or failed
  { code := if complaint.isSome then 1 else 0
    output := output ++ "\n"
    complaint
    notices := notices ++ played.notices
    removed := played.removed }

/-- The report of a request. A program with a line that cannot be cut into parts ends the command
on the spot. -/
def perform (r : Request) (home : Option String) (source : Source) : Report :=
  match settings r home source with
  | .error complaint => { code := 1, complaint := some complaint }
  | .ok (config, notices) =>
    let config := match r.speed with
      | some speed => { config with playback := { config.playback with speed } }
      | none => config
    match source.text ⟨r.file⟩ with
    | .error o => { code := 1, complaint := some (complaint s!"reading {r.file}" [o.message]), notices }
    | .ok text =>
      let run := (Program.ofText text).run config.options
      let notices := notices ++ (Level.info, s!"Interpreting {r.file}")
        :: run.state.notices.toList.map fun n => (n.level, n.message)
      match run.outcome with
      | .abandoned _ => { code := 101, notices }
      | _ => present r config run notices

/-- The report of a command with some arguments; `home` is the directory for settings. -/
def Report.ofArguments (args : List String) (home : Option String) (source : Source) : Report :=
  match Intent.ofArguments args with
  | .perform r => perform r home source
  | .version => { output := versionText }
  | .help => { output := helpText }
  | .misuse => { code := 2 }

end Toolpath.CommandLine
