import Toolpath.Geometry.Caption
import Toolpath.Run.Machine

/-!
# Summaries

What a run came to, in a few lines of text.
-/

namespace Toolpath

structure Summary where
  segments : Nat
  rapids : Nat
  feeds : Nat
  totalLength : Float
  rapidLength : Float
  feedLength : Float
  bounds : Option (Bounds Float)
  outcome : String

namespace Outcome

def text : Outcome → String
  | completed => "completed"
  | halted line => s!"halted at line {line}"
  | failed fault => s!"failed: {fault.message}"
  | abandoned line => s!"abandoned at line {line}"

end Outcome

namespace Summary

def ofRun (r : Finished) : Summary where
  segments := r.state.log.size
  rapids := r.state.log.countOf .rapid
  feeds := r.state.log.countOf .feed
  totalLength := r.state.log.totalLength
  rapidLength := r.state.log.lengthOf .rapid
  feedLength := r.state.log.lengthOf .feed
  bounds := r.state.log.bounds
  outcome := r.outcome.text

/-- The lines of a summary; without moves there is no line on bounds. -/
def text (s : Summary) : String :=
  let total := Decimal.fixed 3 s.totalLength
  let rapid := Decimal.fixed 3 s.rapidLength
  let feed := Decimal.fixed 3 s.feedLength
  let bounds := match s.bounds with
    | some b => s!"bounds:   {b.lower.caption} .. {b.upper.caption}\n"
    | none => ""
  s!"segments: {s.segments} ({s.rapids} rapid, {s.feeds} feed)\n"
    ++ s!"length:   {total} mm ({rapid} rapid, {feed} feed)\n"
    ++ bounds
    ++ s!"outcome:  {s.outcome}"

end Summary

end Toolpath
