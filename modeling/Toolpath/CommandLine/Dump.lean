import Toolpath.Json.Writer
import Toolpath.Summary

/-!
# Runs as JSON

The moves of a run and its summary in one document, the keys of every table in order.
-/

namespace Toolpath

open Json (Document)

namespace Point

def document (p : Point Float) : Document :=
  .ofEntries [("x", .ofFloat p.x), ("y", .ofFloat p.y), ("z", .ofFloat p.z)]

end Point

namespace Segment

def document (s : Segment Float) : Document :=
  .ofEntries [
    ("end", s.stop.document),
    ("kind", .ofString s.kind.name),
    ("line", .ofNat s.tag.line),
    ("operation_index", .ofNat s.tag.operation),
    ("start", s.start.document)]

end Segment

namespace Bounds

def document (b : Bounds Float) : Document :=
  .ofEntries [("max", b.upper.document), ("min", b.lower.document)]

end Bounds

namespace Summary

def document (s : Summary) : Document :=
  .ofEntries [
    ("bounds", (s.bounds.map Bounds.document).getD .null),
    ("feed_length", .ofFloat s.feedLength),
    ("feeds", .ofNat s.feeds),
    ("outcome", .ofString s.outcome),
    ("rapid_length", .ofFloat s.rapidLength),
    ("rapids", .ofNat s.rapids),
    ("segments", .ofNat s.segments),
    ("total_length", .ofFloat s.totalLength)]

end Summary

namespace Finished

/-- The moves and the summary of a run. -/
def document (r : Finished) : Document :=
  .ofEntries [
    ("segments", .ofEntries [("segments", .list (r.state.log.toList.map Segment.document))]),
    ("summary", (Summary.ofRun r).document)]

end Finished

end Toolpath
