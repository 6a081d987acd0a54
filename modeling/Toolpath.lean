import Toolpath.CommandLine.Report
import Toolpath.Main
import Toolpath.Playback.Driver
import Toolpath.Run.Structured
import Toolpath.Settings.Store
import Toolpath.Stock.Removal
import Toolpath.Storage.Written
import Toolpath.Summary
import Toolpath.Proofs.Motion.Course
import Toolpath.Proofs.Motion.Sweep
import Toolpath.Proofs.Motion.Chords
import Toolpath.Proofs.Motion.Centres
import Toolpath.Proofs.Run.Action
import Toolpath.Proofs.Run.Motion
import Toolpath.Proofs.Run.Move
import Toolpath.Proofs.Run.Record
import Toolpath.Proofs.Run.Nesting
import Toolpath.Proofs.Run.Positioning
import Toolpath.Proofs.Program.Cut
import Toolpath.Proofs.Run.Termination
import Toolpath.Proofs.Run.Blocks
import Toolpath.Proofs.Run.Append
import Toolpath.Proofs.Run.Continuity
import Toolpath.Proofs.Run.Failure
import Toolpath.Proofs.Run.Insert
import Toolpath.Proofs.Run.Depth
import Toolpath.Proofs.Run.Inert
import Toolpath.Proofs.Run.Frontier
import Toolpath.Proofs.Run.Travel
import Toolpath.Proofs.Playback.Lifecycle
import Toolpath.Proofs.Playback.Distance
import Toolpath.Proofs.Playback.Signals
import Toolpath.Proofs.Playback.View
import Toolpath.Proofs.Playback.Itinerary
import Toolpath.Proofs.Playback.Cutting
import Toolpath.Proofs.Playback.Bare
import Toolpath.Proofs.Playback.Restart
import Toolpath.Proofs.Playback.Closing
import Toolpath.Proofs.Playback.Schedule
import Toolpath.Proofs.Stock.Carving
import Toolpath.Proofs.Stock.Whole
import Toolpath.Proofs.Stock.Union
import Toolpath.Proofs.Number.Natural
import Toolpath.Proofs.Program.Written
import Toolpath.Proofs.Program.ReadBack
import Toolpath.Proofs.Program.Entries
import Toolpath.Proofs.Program.Spelling
import Toolpath.Proofs.Run.Straight
import Toolpath.Proofs.Number.Nearest
import Toolpath.Proofs.Text.Run
import Toolpath.Proofs.Number.Shortest
import Toolpath.Proofs.Number.Digits
import Toolpath.Proofs.Number.Magnitude
import Toolpath.Proofs.Number.Point
import Toolpath.Proofs.Number.Rounding
import Toolpath.Proofs.Number.Arithmetic
import Toolpath.Proofs.Toml.Number
import Toolpath.Proofs.Toml.Plain
import Toolpath.Proofs.Toml.Section
import Toolpath.Proofs.Json.Numeral
import Toolpath.Proofs.Json.Text
import Toolpath.Proofs.Json.Document
import Toolpath.Proofs.Settings.Tree
import Toolpath.Proofs.Settings.Persistence
import Toolpath.Proofs.Settings.Merging
import Toolpath.Proofs.Settings.Acceptance
import Toolpath.Proofs.Settings.Refusal
import Toolpath.Proofs.Json.Exact
import Toolpath.Proofs.Run.Codes
import Toolpath.Proofs.Motion.Pecks
import Toolpath.Proofs.Run.Drilling
import Toolpath.Proofs.Program.Grammar
import Toolpath.Proofs.Program.Recognition
import Toolpath.Proofs.Program.Numbering
import Toolpath.Proofs.Playback.Current
import Toolpath.Proofs.Playback.Announcement
import Toolpath.Proofs.Playback.Within
import Toolpath.Proofs.Playback.Arrival
import Toolpath.Proofs.Playback.Lengths
import Toolpath.Proofs.Number.Narrowing
import Toolpath.Proofs.Stock.Memory
import Toolpath.Proofs.Stock.Covering
import Toolpath.Proofs.Stock.Admission
