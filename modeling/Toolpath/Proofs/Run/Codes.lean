import Mathlib.Data.List.Induction
import Toolpath.Proofs.Run.Continuity

/-!
# The codes of a line

The codes of a line come to the last motion among them and, in each group of settings, to the last
code of the group (`Setup.modal_ofCodes`). They are all taken before the motion is made, so it does
not matter how codes of different groups are mixed, nor which codes of a group stand before the
last: `execute_of_sameGroups`.
-/

namespace Toolpath

/-! ## Groups of codes -/

/-- The last of some codes that is in a group. -/
def lastOf (group codes : List Nat) : Option Nat := (codes.filter (group.contains ·)).getLast?

/-- Codes of motions. -/
def Motion.group : List Nat := [0, 1, 2, 3, 81, 83]

/-- Codes for how coordinates are meant. -/
def Positioning.group : List Nat := [90, 91]

/-- Codes for the side the cutter is kept on. -/
def Compensation.group : List Nat := [40, 41, 42]

/-- Codes that agree on the last of each group, and on whether a cycle is cancelled. -/
structure SameGroups (codes codes' : List Nat) : Prop where
  motion : lastOf Motion.group codes = lastOf Motion.group codes'
  positioning : lastOf Positioning.group codes = lastOf Positioning.group codes'
  compensation : lastOf Compensation.group codes = lastOf Compensation.group codes'
  cancel : 80 ∈ codes ↔ 80 ∈ codes'

@[simp] theorem lastOf_concat (group codes : List Nat) (code : Nat) :
    lastOf group (codes ++ [code]) = if code ∈ group then some code else lastOf group codes := by
  rw [lastOf, List.filter_append]
  split
  · rename_i h
    rw [List.filter_cons_of_pos (by simpa using h), List.filter_nil, List.getLast?_concat]
  · rename_i h
    rw [List.filter_cons_of_neg (by simpa using h), List.filter_nil, List.append_nil, lastOf]

/-- The last motion is that of the last code for one. -/
theorem Motion.last?_eq (codes : List Nat) :
    last? codes = (lastOf group codes).bind ofCode? := by
  induction codes using List.reverseRecOn with
  | nil => rfl
  | append_singleton codes code ih =>
    rw [last?, List.filterMap_append, lastOf_concat]
    split
    · rename_i h
      obtain ⟨motion, hm⟩ : ∃ motion, ofCode? code = some motion := by
        simp only [group, List.mem_cons, List.not_mem_nil, or_false] at h
        rcases h with rfl | rfl | rfl | rfl | rfl | rfl <;> exact ⟨_, rfl⟩
      rw [List.filterMap_cons_some hm, List.filterMap_nil, List.getLast?_concat, Option.bind_some,
        hm]
    · rename_i h
      have hm : ofCode? code = none := by
        unfold ofCode?
        split <;> first | exact absurd (by decide) h | rfl
      rw [List.filterMap_cons_none hm, List.filterMap_nil, List.append_nil]
      exact ih

/-! ## Settings -/

def Positioning.ofCode? : (code : Nat) → Option Positioning
  | 90 => some .absolute
  | 91 => some .incremental
  | _ => none

def Compensation.ofCode? : (code : Nat) → Option Compensation
  | 40 => some .off
  | 41 => some .left
  | 42 => some .right
  | _ => none

namespace Modal

/-- The state after some codes, of which the last of each group counts. -/
def withCodes (m : Modal) (codes : List Nat) : Modal :=
  { m with
    positioning :=
      ((lastOf Positioning.group codes).bind Positioning.ofCode?).getD m.positioning
    compensation :=
      ((lastOf Compensation.group codes).bind Compensation.ofCode?).getD m.compensation
    cycle := if 80 ∈ codes then .idle else m.cycle }

theorem withCodes_concat (m : Modal) (codes : List Nat) (code : Nat) :
    m.withCodes (codes ++ [code]) =
      ((m.withCodes codes).withCode? code).getD (m.withCodes codes) := by
  unfold withCode?
  split
  case h_7 =>
    have hp : code ∉ Positioning.group := by simp_all [Positioning.group]
    have hc : code ∉ Compensation.group := by simp_all [Compensation.group]
    have h80 : ¬80 = code := by rintro rfl; contradiction
    simp [withCodes, hp, hc, h80]
  all_goals
    simp [withCodes, Positioning.group, Compensation.group, Positioning.ofCode?,
      Compensation.ofCode?]

end Modal

namespace Effect

variable {line : Nat} {m : Modal}

theorem Setup.modal_add (s : Setup) (code : Nat) :
    (s.add line code).modal = (s.modal.withCode? code).getD s.modal := by
  rw [Setup.add]
  split
  · rename_i motion h
    have hnone : s.modal.withCode? code = none := by
      unfold Motion.ofCode? at h
      split at h
      all_goals first | rfl | cases h
    rw [hnone, Option.getD_none]
  · split
    · rename_i h
      rw [h, Option.getD_some]
    · rename_i h
      rw [h, Option.getD_none]

/-- The codes of a line come to the last of each group. -/
theorem Setup.modal_ofCodes (codes : List Nat) :
    (Setup.ofCodes line m codes).modal = m.withCodes codes := by
  induction codes using List.reverseRecOn with
  | nil => rfl
  | append_singleton codes code ih =>
    rw [Modal.withCodes_concat, ← ih, Setup.ofCodes, List.foldl_append, List.foldl_cons,
      List.foldl_nil, Setup.modal_add]
    rfl

/-! ## The motion -/

variable {site : Site} {w : Words Float} {codes codes' : List Nat}

/-- The text of a line has a say only in what the operator is told. -/
theorem ofMotion_text (site : Site) (m : Modal) (w : Words Float) (text : String)
    (motion : Option Motion) :
    ∃ notices, ofMotion { site with text } motion m w =
      { ofMotion site motion m w with notices } := by
  cases motion with
  | none => exact ⟨_, rfl⟩
  | some motion =>
    cases motion with
    | straight kind => exact ⟨_, rfl⟩
    | arc direction => exact ⟨_, rfl⟩
    | drill => exact ⟨_, rfl⟩
    | peck => exact ⟨_, rfl⟩

/-- The effect of a line is that of the motion that its codes come to. -/
theorem ofBlock_eq (codes : List Nat) :
    ofBlock site m codes w =
      let setup := setup site.line m codes w
      let effect := ofMotion site setup.motion setup.modal w
      { effect with notices := setup.notices ++ effect.notices } :=
  rfl

/-- Codes that agree on the last of each group have the same effect. -/
theorem ofBlock_of_sameGroups (site : Site) (text : String) (h : SameGroups codes codes') :
    ∃ notices, ofBlock { site with text } m codes' w = { ofBlock site m codes w with notices } := by
  have hmotion : (setup site.line m codes' w).motion = (setup site.line m codes w).motion := by
    rw [setup, setup, Setup.motion_ofCodes, Setup.motion_ofCodes, Motion.last?_eq,
      Motion.last?_eq, h.motion]
  have hmodal : (setup site.line m codes' w).modal = (setup site.line m codes w).modal := by
    simp only [setup, Setup.modal_ofCodes, Modal.withCodes, h.positioning, h.compensation,
      h.cancel]
  obtain ⟨notices, he⟩ := ofMotion_text site (setup site.line m codes w).modal w text
    (setup site.line m codes w).motion
  refine ⟨(setup site.line m codes' w).notices ++ notices, ?_⟩
  rw [ofBlock_eq, ofBlock_eq]
  dsimp only
  rw [hmotion, hmodal, he]

end Effect

/-! ## The line -/

namespace State

variable {s : State} {site : Site} {b b' : Block}

/-- Blocks with the same words whose codes agree on the last of each group do the same. -/
theorem block_of_sameGroups (text : String) (hg : SameGroups b.g b'.g) (hm : b'.m = b.m)
    (hw : b'.words = b.words) :
    ∃ notices, s.block { site with text } b' =
      ((s.block site b).1.told notices, (s.block site b).2) := by
  rw [block, block, hm, hw]
  cases b.words.traverse s.registers.resolve with
  | error n => exact ⟨s.notices, rfl⟩
  | ok w =>
    obtain ⟨notices, he⟩ := Effect.ofBlock_of_sameGroups (m := s.modal) (w := w) site text hg
    dsimp only
    rw [he]
    dsimp only
    cases (Effect.ofBlock site s.modal b.g w).cause with
    | some cause => exact ⟨s.notices ++ notices, rfl⟩
    | none =>
      cases haltCode? b.m with
      | some code => exact ⟨(s.notices ++ notices).push (.halted site.line code), rfl⟩
      | none => exact ⟨s.notices ++ notices, rfl⟩

/-- On a line only the order of codes of one group matters. Two blocks with the same words and
miscellaneous codes, whose preparatory codes agree on the last motion, the last code for how
coordinates are meant, the last code for the side of the cutter and on whether a cycle is cancelled,
leave the same state, but for what the operator is told, and the run goes the same way from there;
the text of the line may be any other. -/
theorem execute_of_sameGroups (s : State) (site : Site) (text : String) (active : List Nat)
    (labels : List String) (b b' : Block) (hg : SameGroups b.g b'.g) (hm : b'.m = b.m)
    (hw : b'.words = b.words) :
    ∃ notices, s.execute { site with text } active ⟨labels, .block b'⟩ =
      ((s.execute site active ⟨labels, .block b⟩).1.told notices,
        (s.execute site active ⟨labels, .block b⟩).2) :=
  block_of_sameGroups text hg hm hw

/-- A hole at a place, with codes of all groups. -/
def mixedHole (codes : List Nat) : Block where
  g := codes
  words :=
    { x := some (.literal 1), z := some (.literal (-1)), r := some (.literal 1)
      q := some (.literal 1) }

/-- Codes that are overruled may be left out, and the others written in any order: the hole is
drilled all the same. -/
theorem execute_of_sameGroups_mixedHole :
    SameGroups [91, 81, 80, 90, 42, 40, 83] [83, 40, 90, 80] ∧
      ∃ t u, (start {}).execute ⟨1, "A: G91 G81 G80 G90 G42 G40 G83 X1 Z-1 R1 Q1", 0, 5⟩ []
          ⟨["A"], .block (mixedHole [91, 81, 80, 90, 42, 40, 83])⟩ = (t, .next) ∧
        (start {}).execute ⟨1, "A: G83 G40 G90 G80 X1 Z-1 R1 Q1", 0, 5⟩ []
          ⟨["A"], .block (mixedHole [83, 40, 90, 80])⟩ = (u, .next) ∧
        u.quiet = t.quiet ∧ t.log.size = 2 := by
  have hg : SameGroups [91, 81, 80, 90, 42, 40, 83] [83, 40, 90, 80] :=
    ⟨rfl, rfl, rfl, by decide⟩
  obtain ⟨notices, hu⟩ := execute_of_sameGroups (start {})
    ⟨1, "A: G91 G81 G80 G90 G42 G40 G83 X1 Z-1 R1 Q1", 0, 5⟩ "A: G83 G40 G90 G80 X1 Z-1 R1 Q1" []
    ["A"] (mixedHole [91, 81, 80, 90, 42, 40, 83]) (mixedHole [83, 40, 90, 80]) hg rfl rfl
  exact ⟨hg, _, _, rfl, hu, rfl, rfl⟩

end State

end Toolpath
