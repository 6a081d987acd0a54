import Toolpath.Run.Effect

/-!
# What one motion does

`Effect.Performs site m w motion e` lists what a motion, or words without one, can come to.
`Effect.performs_ofMotion` makes the list complete, so that what is known of every motion takes one
case for each entry; the codes that set up a cycle and the words that adjust one end in the same
three. `Setup.keep_ofCodes` does the like for the codes of a line that are no motions, and
`Setup.motion_ofCodes` finds the motion among the others.
-/

namespace Toolpath

/-- The last motion among some codes. -/
def Motion.last? (codes : List Nat) : Option Motion := (codes.filterMap Motion.ofCode?).getLast?

namespace Effect

/-- What a motion can come to. -/
inductive Performs (site : Site) (m : Modal) (w : Words Float) : Option Motion → Effect → Prop where
  /-- Words that ask for nothing. -/
  | still {motion : Option Motion} : Performs site m w motion { modal := m }
  | straight (kind : Kind) :
      Performs site m w (some (.straight kind))
        { modal := { m with position := target m w }
          moves := [⟨kind, m.position, target m w, site.tag⟩] }
  | arc (direction : Arc.Direction) :
      Performs site m w (some (.arc direction)) (arc site direction m w)
  /-- The cycle in force is changed or kept, and no hole is drilled. -/
  | armed {motion : Option Motion} (cycle : Cycle Float) (notices : List Notice) :
      Performs site m w motion { modal := { m with cycle }, notices }
  /-- A hole is drilled by the cycle that is then in force. -/
  | drilled {motion : Option Motion} (cycle : Cycle Float) (notices : List Notice)
      {moves : List (Segment Float)}
      (h : cycle.expand m.position (m.axis m.position.x w.x) (m.axis m.position.y w.y) site.tag
        = .ok moves) :
      Performs site m w motion
        { modal := { m with cycle, position := Cycle.finish m.position moves }, moves, notices }
  /-- The step of a pecking cycle is refused. -/
  | refused {motion : Option Motion} (cycle : Cycle Float) (notices : List Notice) (q : Float) :
      Performs site m w motion
        { modal := { m with cycle }, notices, cause := some (.invalidPeckDepth q) }
  /-- Coordinates without a motion and without a cycle. -/
  | placed (axis : w.hasAxis = true) (idle : m.cycle = .idle) :
      Performs site m w none { modal := { m with position := target m w } }

variable {site : Site} {m : Modal} {w : Words Float} {line : Nat} {motion : Option Motion}

theorem performs_straight (kind : Kind) :
    Performs site m w (some (.straight kind)) (straight site kind m w) := by
  rw [Effect.straight]
  split
  · exact .straight kind
  · exact .still

theorem performs_holeIfPlaced (cycle : Cycle Float) (notices : List Notice) :
    Performs site m w motion { holeIfPlaced site { m with cycle } w with notices } := by
  rw [holeIfPlaced]
  split
  · rw [hole]
    split
    · rename_i moves h
      exact .drilled cycle notices h
    · exact .refused cycle notices _
  · exact .armed cycle notices

theorem performs_activate (pecking : Bool) :
    Performs site m w motion (activate site pecking m w) := by
  rw [activate]
  cases pecking with
  | false => exact performs_holeIfPlaced ..
  | true =>
    simp only [if_true]
    split
    · exact performs_holeIfPlaced ..
    · exact .refused m.cycle _ _

@[simp] theorem adjust_eq_idle_iff {cycle : Cycle Float} :
    adjust w cycle = .idle ↔ cycle = .idle := by
  cases cycle with
  | idle => exact Iff.rfl
  | drill z r | peck z r q => simp [adjust]

theorem performs_bare : Performs site m w none (bare site m w) := by
  rw [bare]
  split
  · rename_i hc
    split
    · rename_i axis
      exact .placed axis (adjust_eq_idle_iff.1 hc)
    · exact .still
  · dsimp only
    split
    · split
      · exact performs_holeIfPlaced _ _
      · exact .refused _ _ _
    · exact performs_holeIfPlaced _ _

/-- The list is complete. -/
theorem performs_ofMotion (site : Site) (motion : Option Motion) (m : Modal) (w : Words Float) :
    Performs site m w motion (ofMotion site motion m w) := by
  cases motion with
  | none => exact performs_bare
  | some motion =>
    cases motion with
    | straight kind => exact performs_straight kind
    | arc direction => exact .arc direction
    | drill => exact performs_activate false
    | peck => exact performs_activate true

/-! ## Codes -/

/-- What every code that changes a setting keeps, the codes of a line keep. -/
theorem Setup.keep_ofCodes {P : Modal → Prop}
    (keep : ∀ m m' code, m.withCode? code = some m' → P m → P m') (h : P m) (codes : List Nat) :
    P (Setup.ofCodes line m codes).modal := by
  suffices key : ∀ s : Setup, P s.modal → P (codes.foldl (Setup.add line) s).modal from key _ h
  induction codes with
  | nil => exact fun s hs ↦ hs
  | cons code rest ih =>
    intro s hs
    apply ih
    rw [Setup.add]
    split
    · exact hs
    · split
      · rename_i modal hcode
        exact keep _ _ code hcode hs
      · exact hs

theorem Setup.motion_foldl_add (codes : List Nat) (s : Setup) :
    (codes.foldl (Setup.add line) s).motion = (Motion.last? codes).or s.motion := by
  induction codes generalizing s with
  | nil => rfl
  | cons code rest ih =>
    rw [List.foldl_cons, ih, Motion.last?, Motion.last?, Setup.add]
    split
    · rename_i motion h
      rw [List.filterMap_cons_some h, List.getLast?_cons]
      cases (rest.filterMap Motion.ofCode?).getLast? <;> rfl
    · rename_i h
      rw [List.filterMap_cons_none h]
      split <;> rfl

/-- The last motion among the codes of a line is made. -/
theorem Setup.motion_ofCodes (codes : List Nat) :
    (Setup.ofCodes line m codes).motion = Motion.last? codes := by
  rw [Setup.ofCodes, Setup.motion_foldl_add, Option.or_none]

end Effect

end Toolpath
