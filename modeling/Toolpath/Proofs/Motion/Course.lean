import Toolpath.Motion.Arc
import Toolpath.Motion.Cycle

/-!
# Courses

`Course a moves b` says that the moves lead from `a` to `b` without a gap: the first begins at `a`,
each of the others where the one before it ends, and the last ends at `b`. The moves of an arc and
the moves of a drilling cycle are courses from where the tool stands. The course of an arc leads to
the programmed point (`Arc.course_resolve`), unless the arc is stationary: then there are no moves,
though the programmed point may be off by less than the tolerance.
-/

namespace Toolpath

variable {α : Type} {a b c : Point α} {s : Segment α} {moves more : List (Segment α)}

/-! ## Where moves end -/

namespace Cycle

@[simp] theorem finish_cons (a : Point α) (s : Segment α) (rest : List (Segment α)) :
    finish a (s :: rest) = finish s.stop rest := by
  rw [finish, finish, List.getLast?_cons]
  cases rest.getLast? with
  | none => rfl
  | some t => rfl

@[simp] theorem finish_append (a : Point α) (moves more : List (Segment α)) :
    finish a (moves ++ more) = finish (finish a moves) more := by
  induction moves generalizing a with
  | nil => rfl
  | cons s rest ih => simp [ih]

theorem finish_take_succ {k : Nat} (a : Point α) (h : moves[k]? = some s) :
    finish a (moves.take (k + 1)) = s.stop := by
  rw [List.take_add_one, h, finish_append]
  rfl

/-- Where moves end depends on where they begin only if there are none. -/
theorem finish_eq_of_ne_nil (a b : Point α) (h : moves ≠ []) : finish a moves = finish b moves := by
  cases moves with
  | nil => exact absurd rfl h
  | cons s rest => rw [finish_cons, finish_cons]

end Cycle

/-! ## Courses -/

/-- The moves lead from one point to another without a gap. -/
inductive Course : Point α → List (Segment α) → Point α → Prop
  | nil (a : Point α) : Course a [] a
  | cons (s : Segment α) {rest : List (Segment α)} {b : Point α} (h : Course s.stop rest b) :
      Course s.start (s :: rest) b

namespace Course

theorem append (h : Course a moves b) (h' : Course b more c) : Course a (moves ++ more) c := by
  induction h with
  | nil a => exact h'
  | cons s h ih => exact .cons s (ih h')

/-- A course splits wherever its moves do. -/
theorem split (h : Course a (moves ++ more) c) : ∃ b, Course a moves b ∧ Course b more c := by
  induction moves generalizing a with
  | nil => exact ⟨a, .nil a, h⟩
  | cons s rest ih =>
    cases h with
    | cons s h =>
      obtain ⟨b, h₁, h₂⟩ := ih h
      exact ⟨b, .cons s h₁, h₂⟩

theorem finish_eq (h : Course a moves b) : Cycle.finish a moves = b := by
  induction h with
  | nil a => rfl
  | cons s h ih => rw [Cycle.finish_cons, ih]

/-- In a course a move begins where the moves before it end. -/
theorem start_eq {k : Nat} (h : Course a moves b) (hs : moves[k]? = some s) :
    s.start = Cycle.finish a (moves.take k) := by
  obtain ⟨hk, rfl⟩ := List.getElem?_eq_some_iff.1 hs
  rw [← List.take_append_drop k moves, List.drop_eq_getElem_cons hk] at h
  obtain ⟨c, hc, h⟩ := h.split
  cases h with
  | cons s h => exact hc.finish_eq.symm

end Course

/-! ## Arcs -/

namespace Arc

variable {tag : Tag} {points : List (Point α)}

/-- A chain leads through its points to the last of them. -/
theorem course_chain_concat : Course a (chain tag a (points ++ [b])) b := by
  induction points generalizing a with
  | nil => exact .cons ⟨.feed, a, b, tag⟩ (.nil b)
  | cons p rest ih => exact .cons ⟨.feed, a, p, tag⟩ ih

variable [Analytic α]

/-- The last chord of an arc ends at the programmed point itself, however the others are rounded. -/
theorem map_chordEnd_range_succ (start stop : Point α) (centre : α × α) (radius angle sweep : α)
    (n : Nat) :
    (List.range (n + 1)).map (fun i ↦ chordEnd start stop centre radius angle sweep (n + 1) (i + 1))
      = (List.range n).map
          (fun i ↦ chordEnd start stop centre radius angle sweep (n + 1) (i + 1)) ++ [stop] := by
  rw [List.range_succ, List.map_append, List.map_cons, List.map_nil, chordEnd, if_pos rfl]

theorem chordCount_pos (sweep step : α) : 0 < chordCount sweep step := by
  rw [chordCount]
  exact Nat.lt_of_lt_of_le Nat.one_pos (Nat.le_max_left ..)

/-- The moves of an arc that is not stationary lead to the programmed point. -/
theorem course_resolve (tag : Tag) {start stop : Point α} {c : Centre α} {direction : Direction}
    {step : α} (h : resolve start stop c direction step ≠ .stationary) :
    Course start ((resolve start stop c direction step).segments start stop tag) stop := by
  have line : Course start [⟨.feed, start, stop, tag⟩] stop :=
    .cons ⟨.feed, start, stop, tag⟩ (.nil stop)
  revert h
  rw [resolve]
  split
  · split
    · exact fun h ↦ absurd rfl h
    · exact fun _ ↦ line
  · split
    · exact fun _ ↦ line
    · dsimp only
      split
      · exact fun _ ↦ line
      · intro _
        obtain ⟨n, hn⟩ := Nat.exists_eq_add_of_lt (chordCount_pos
          (sweep start stop (_ : α × α) direction) (usableStep step))
        rw [Path.segments, hn, Nat.zero_add, map_chordEnd_range_succ]
        exact course_chain_concat

end Arc

/-! ## Drilling cycles -/

namespace Cycle

variable {tag : Tag} {top x y z r q last : α} {left k : Nat}

theorem course_plunge (tag : Tag) (a : Point α) (x y depth r : α) :
    Course a (plunge tag a x y depth r) ⟨x, y, r⟩ :=
  .cons ⟨.feed, a, ⟨x, y, depth⟩, tag⟩ (.cons ⟨.rapid, ⟨x, y, depth⟩, ⟨x, y, r⟩, tag⟩ (.nil _))

variable [Scalar α]

theorem course_pecks (h : pecks tag top x y z r q left k a last = some moves) :
    Course a moves (finish a moves) := by
  induction left generalizing k a last moves with
  | zero =>
    cases h
    exact .nil a
  | succ left ih =>
    simp only [pecks] at h
    generalize (if left = 0 then z else Scalar.greatest (top - q * (k : α)) z) = depth at h
    split at h
    · cases h
    · split at h
      · cases h
        exact course_plunge ..
      · obtain ⟨more, hmore, rfl⟩ := Option.map_eq_some_iff.1 h
        rw [finish_append, (course_plunge ..).finish_eq]
        exact (course_plunge ..).append (ih hmore)

/-- The moves of a cycle are a course from where the tool stands. -/
theorem course_expand {cycle : Cycle α} (h : cycle.expand a x y tag = .ok moves) :
    Course a moves (finish a moves) := by
  cases cycle with
  | idle =>
    cases h
    exact .nil a
  | drill z r =>
    cases h
    exact course_plunge ..
  | peck z r q =>
    rw [expand] at h
    split at h
    · split at h
      · rename_i hmoves
        cases h
        obtain ⟨n, -, hn⟩ := Option.bind_eq_some_iff.1 hmoves
        exact course_pecks hn
      · cases h
    · cases h

end Cycle

end Toolpath
