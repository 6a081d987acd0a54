import Toolpath.Geometry.Point

/-!
# Segments

The straight moves a program comes down to, and the log that collects them in order.
-/

namespace Toolpath

/-- Whether a move cuts. -/
inductive Kind where
  | rapid
  | feed
deriving DecidableEq

namespace Kind

def name : Kind → String
  | rapid => "Rapid"
  | feed => "Feed"

end Kind

/-- Where a move comes from: an operation and the line of its program, counted from one. -/
structure Tag where
  operation : Nat := 0
  line : Nat := 0
deriving DecidableEq

/-- One straight move. -/
structure Segment (α : Type) where
  kind : Kind
  start : Point α
  stop : Point α
  tag : Tag
deriving DecidableEq

namespace Segment

variable {α : Type} [Analytic α]

/-- Moves no longer than this are passed over in playback. -/
def negligible : α := Scalar.tenth 12

def length (s : Segment α) : α := s.start.distance s.stop

def isNegligible (s : Segment α) : Bool := decide (s.length ≤ negligible)

/-- The point `distance` along the move, kept within its ends. -/
def pointAt (s : Segment α) (distance : α) : Point α :=
  if s.isNegligible then s.stop
  else s.start.lerp s.stop (Scalar.clampUnit (distance / s.length))

end Segment

/-- The moves of a program in the order they are made. -/
structure Log (α : Type) where
  segments : Array (Segment α) := #[]

namespace Log

variable {α : Type}

def ofList (segments : List (Segment α)) : Log α := ⟨segments.toArray⟩

def toList (log : Log α) : List (Segment α) := log.segments.toList

def size (log : Log α) : Nat := log.segments.size

def isEmpty (log : Log α) : Bool := log.segments.isEmpty

/-- The log with more moves at its end. -/
def append (log : Log α) (moves : List (Segment α)) : Log α := ⟨log.segments ++ moves⟩

def get? (log : Log α) (i : Nat) : Option (Segment α) := log.segments[i]?

@[simp] theorem toList_append (log : Log α) (moves : List (Segment α)) :
    (log.append moves).toList = log.toList ++ moves := by
  simp [append, toList]

@[simp] theorem toList_ofList (segments : List (Segment α)) :
    (ofList segments).toList = segments := by
  simp [ofList, toList]

@[simp] theorem size_eq (log : Log α) : log.size = log.toList.length := by
  simp [size, toList]

variable [Analytic α]

/-- The sum of some lengths, from the left. A sum of none is negative zero, the value that changes
no length it is added to. -/
def sum (lengths : List α) : α := lengths.foldl (· + ·) (-0)

def ofKind (log : Log α) (kind : Kind) : List (Segment α) :=
  log.toList.filter (·.kind = kind)

def totalLength (log : Log α) : α := sum (log.toList.map Segment.length)

def lengthOf (log : Log α) (kind : Kind) : α := sum ((log.ofKind kind).map Segment.length)

def countOf (log : Log α) (kind : Kind) : Nat := (log.ofKind kind).length

/-- The least box around every end of every move. -/
def bounds (log : Log α) : Option (Bounds α) :=
  match log.toList with
  | [] => none
  | first :: rest =>
    some ((first :: rest).foldl (fun b s => (b.enclose s.start).enclose s.stop)
      (Bounds.ofPoint first.start))

end Log

end Toolpath
