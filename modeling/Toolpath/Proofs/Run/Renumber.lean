import Mathlib.Order.Monotone.Basic
import Toolpath.Proofs.Motion.Tags
import Toolpath.Proofs.Run.Quiet

/-!
# Renumbering lines

Lines are known to a run by where they stand: labels and the records at them name lines, moves are
stamped with the number of theirs. When line `i` becomes line `f i` (lines count from zero),
`lineNumber f` does the same to numbers, which count from one, and `State.renumber f` to all that a
state names. As long as `f` keeps the order of lines nothing else changes: the effect of a line only
passes its number on (`Effect.renumber_ofBlock`), and a statement does the same to the renumbered
state (`State.execute_renumber`).
-/

namespace Toolpath

/-- The number of the line that had number `n`. It is also the line to go on at after that line;
before the first one that is line zero. -/
def lineNumber (f : Nat → Nat) : Nat → Nat
  | 0 => 0
  | i + 1 => f i + 1

/-! ## Tables -/

namespace Table

variable {κ κ' ν ν' : Type} [DecidableEq κ] [DecidableEq κ'] {f : κ → κ'}

/-- The table with other keys and other values. -/
def map (f : κ → κ') (g : ν → ν') (t : Table κ ν) : Table κ' ν' := ⟨t.entries.map (Prod.map f g)⟩

theorem find_map (hf : Function.Injective f) (g : ν → ν') (k : κ) (es : List (κ × ν)) :
    find (f k) (es.map (Prod.map f g)) = (find k es).map g := by
  induction es with
  | nil => rfl
  | cons e rest ih =>
    rw [List.map_cons, Prod.map, find, find, ih]
    simp only [hf.eq_iff]
    split
    · rfl
    · rfl

@[simp] theorem get?_map (hf : Function.Injective f) (g : ν → ν') (t : Table κ ν) (k : κ) :
    (t.map f g).get? (f k) = (t.get? k).map g :=
  find_map hf g k t.entries

variable [LT κ] [DecidableLT κ] [LT κ'] [DecidableLT κ']

theorem place_map (hf : Function.Injective f) (hlt : ∀ a b, f a < f b ↔ a < b) (g : ν → ν') (k : κ)
    (v : ν) (es : List (κ × ν)) :
    place (f k) (g v) (es.map (Prod.map f g)) = (place k v es).map (Prod.map f g) := by
  induction es with
  | nil => rfl
  | cons e rest ih =>
    rw [List.map_cons, Prod.map, place, place, ih]
    simp only [hf.eq_iff, hlt]
    split
    · rfl
    · split
      · rfl
      · rfl

/-- Keys that keep their order keep their places. -/
theorem map_set (hf : Function.Injective f) (hlt : ∀ a b, f a < f b ↔ a < b) (g : ν → ν') (k : κ)
    (v : ν) (t : Table κ ν) : (t.set k v).map f g = (t.map f g).set (f k) (g v) :=
  congrArg Table.mk (place_map hf hlt g k v t.entries).symm

end Table

/-! ## Moves -/

/-- The tag with another number for its line. -/
def Tag.renumber (n : Nat → Nat) (tag : Tag) : Tag := { tag with line := n tag.line }

/-- The place of execution with another number for its line. -/
def Site.renumber (n : Nat → Nat) (site : Site) : Site := { site with line := n site.line }

@[simp] theorem Site.tag_renumber (n : Nat → Nat) (site : Site) :
    (site.renumber n).tag = site.tag.renumber n := rfl

variable {α : Type} {n : Nat → Nat} {tag : Tag}

namespace Segment

/-- The move as one of a line with another number. -/
def renumber (n : Nat → Nat) (s : Segment α) : Segment α := { s with tag := s.tag.renumber n }

end Segment

namespace Log

/-- The log with other numbers for the lines its moves come from. -/
def renumber (n : Nat → Nat) (log : Log α) : Log α := ⟨log.segments.map (Segment.renumber n)⟩

@[simp] theorem toList_renumber (log : Log α) :
    (log.renumber n).toList = log.toList.map (Segment.renumber n) :=
  Array.toList_map

@[simp] theorem renumber_append (log : Log α) (moves : List (Segment α)) :
    (log.append moves).renumber n = (log.renumber n).append (moves.map (Segment.renumber n)) := by
  rw [renumber, renumber, append, append]
  congr 1
  apply Array.toList_inj.1
  simp

end Log

theorem Arc.Path.segments_renumber (path : Path α) (start stop : Point α) :
    path.segments start stop (tag.renumber n) =
      (path.segments start stop tag).map (Segment.renumber n) :=
  segments_retag path start stop

namespace Cycle

theorem finish_renumber (start : Point α) (moves : List (Segment α)) :
    finish start (moves.map (Segment.renumber n)) = finish start moves :=
  finish_retag start moves

theorem expand_renumber [Scalar α] (cycle : Cycle α) (start : Point α) (x y : α) :
    cycle.expand start x y (tag.renumber n) =
      (cycle.expand start x y tag).map (List.map (Segment.renumber n)) :=
  expand_retag cycle (Tag.renumber n) tag start x y

end Cycle

/-! ## Effects of a line -/

namespace Effect

variable {site : Site} {m : Modal} {w : Words Float} {e e' : Effect}

/-- The effects are alike but for the number of the line, up to notices. -/
structure Renumbers (n : Nat → Nat) (e e' : Effect) : Prop where
  modal : e'.modal = e.modal
  moves : e'.moves = e.moves.map (Segment.renumber n)
  cause : e'.cause = e.cause

theorem renumber_straight (kind : Kind) :
    Renumbers n (straight site kind m w) (straight (site.renumber n) kind m w) := by
  rw [straight, straight]
  split
  · exact ⟨rfl, rfl, rfl⟩
  · exact ⟨rfl, rfl, rfl⟩

theorem renumber_arc (direction : Arc.Direction) :
    Renumbers n (arc site direction m w) (arc (site.renumber n) direction m w) := by
  refine ⟨rfl, ?_, rfl⟩
  rw [arc, arc, Site.tag_renumber]
  exact Arc.Path.segments_renumber ..

theorem renumber_hole : Renumbers n (hole site m w) (hole (site.renumber n) m w) := by
  rw [hole, hole, Site.tag_renumber, Cycle.expand_renumber]
  cases m.cycle.expand m.position (m.axis m.position.x w.x) (m.axis m.position.y w.y) site.tag with
  | error q => exact ⟨rfl, rfl, rfl⟩
  | ok moves =>
    refine ⟨?_, rfl, rfl⟩
    simp only [Except.map, Cycle.finish_renumber]

theorem renumber_holeIfPlaced :
    Renumbers n (holeIfPlaced site m w) (holeIfPlaced (site.renumber n) m w) := by
  rw [holeIfPlaced, holeIfPlaced]
  split
  · exact renumber_hole
  · exact ⟨rfl, rfl, rfl⟩

theorem Renumbers.told (h : Renumbers n e e') (notices notices' : List Notice) :
    Renumbers n { e with notices } { e' with notices := notices' } :=
  ⟨h.modal, h.moves, h.cause⟩

theorem renumber_activate (pecking : Bool) :
    Renumbers n (activate site pecking m w) (activate (site.renumber n) pecking m w) := by
  rw [activate, activate]
  refine Renumbers.told ?_ _ _
  cases pecking with
  | false => exact renumber_holeIfPlaced
  | true =>
    simp only [if_true]
    split
    · exact renumber_holeIfPlaced
    · exact ⟨rfl, rfl, rfl⟩

theorem renumber_bare : Renumbers n (bare site m w) (bare (site.renumber n) m w) := by
  rw [bare, bare]
  split
  · exact ⟨rfl, rfl, rfl⟩
  · dsimp only
    split
    · split
      · exact renumber_holeIfPlaced
      · exact ⟨rfl, rfl, rfl⟩
    · exact renumber_holeIfPlaced

theorem renumber_ofMotion (motion : Option Motion) :
    Renumbers n (ofMotion site motion m w) (ofMotion (site.renumber n) motion m w) := by
  cases motion with
  | none => exact renumber_bare
  | some motion =>
    cases motion with
    | straight kind => exact renumber_straight kind
    | arc direction => exact renumber_arc direction
    | drill => exact renumber_activate false
    | peck => exact renumber_activate true

/-- The setups are alike up to notices. -/
def Setup.Alike (s s' : Setup) : Prop := s'.modal = s.modal ∧ s'.motion = s.motion

theorem Setup.Alike.add {s s' : Setup} (h : s.Alike s') (line line' code : Nat) :
    (s.add line code).Alike (s'.add line' code) := by
  obtain ⟨hmodal, hmotion⟩ := h
  rw [Setup.add, Setup.add, hmodal]
  cases Motion.ofCode? code with
  | some motion => exact ⟨rfl, rfl⟩
  | none =>
    cases s.modal.withCode? code with
    | some modal => exact ⟨rfl, hmotion⟩
    | none => exact ⟨rfl, hmotion⟩

/-- What codes come to does not depend on the number of their line, up to notices. -/
theorem ofCodes_alike (line line' : Nat) (codes : List Nat) :
    (Setup.ofCodes line m codes).Alike (Setup.ofCodes line' m codes) := by
  suffices key : ∀ s s' : Setup, s.Alike s' →
      (codes.foldl (Setup.add line) s).Alike (codes.foldl (Setup.add line') s') from
    key _ _ ⟨rfl, rfl⟩
  induction codes with
  | nil => exact fun s s' h ↦ h
  | cons code rest ih => exact fun s s' h ↦ ih _ _ (h.add line line' code)

/-- The effect of a line only passes its number on. -/
theorem renumber_ofBlock (codes : List Nat) :
    Renumbers n (ofBlock site m codes w) (ofBlock (site.renumber n) m codes w) := by
  rw [ofBlock, ofBlock]
  refine Renumbers.told ?_ _ _
  obtain ⟨hmodal, hmotion⟩ := ofCodes_alike
    (m := { m with feed := w.f <|> m.feed, spindle := w.s <|> m.spindle })
    site.line (site.renumber n).line codes
  rw [hmodal, hmotion]
  exact renumber_ofMotion _

end Effect

/-! ## Statements -/

/-- The block as one of other lines. -/
def Loop.renumber (f : Nat → Nat) (l : Loop) : Loop :=
  { l with start := f l.start, stop := f l.stop }

/-- Where a run of other lines goes. -/
def Flow.renumber (f : Nat → Nat) : Flow → Flow
  | .next => .next
  | .halt => .halt
  | .fail cause => .fail cause
  | .again l => .again (l.renumber f)

namespace State

variable {f : Nat → Nat} {s t : State} {o : Options} {i : Nat} {text : String}
  {active : List Nat}

/-- The state with line `i` as line `f i` wherever it is named, except in notices. -/
def renumber (f : Nat → Nat) (s : State) : State :=
  { s with
    log := s.log.renumber (lineNumber f)
    labels := s.labels.map id f
    modes := s.modes.map f id }

/-- At first no line is named. -/
theorem start_renumber : (State.start o).renumber f = State.start o := by
  simp [start, renumber, Log.renumber, Table.map]

theorem renumber_quiet (h : s.quiet = t.quiet) : (s.renumber f).quiet = (t.renumber f).quiet := by
  obtain ⟨notices, rfl⟩ := quiet_eq_iff.1 h
  rfl

theorem declare_renumber (hf : StrictMono f) (label : String) :
    declare (active.map f) (f i) (s.renumber f) label = (declare active i s label).renumber f := by
  have hcontains : (active.map f).contains (f i) = active.contains i := by
    rw [Bool.eq_iff_iff]
    simp [hf.injective.eq_iff]
  have hlabels : (s.labels.map id f).set label (f i) = (s.labels.set label i).map id f :=
    (Table.map_set Function.injective_id (fun a b ↦ Iff.rfl) f label i s.labels).symm
  have hmodes : (s.modes.map f id).set (f i) s.modal.positioning =
      (s.modes.set i s.modal.positioning).map f id :=
    (Table.map_set hf.injective (fun a b ↦ hf.lt_iff_lt) id i _ s.modes).symm
  simp only [declare, renumber, hcontains, hlabels, hmodes]
  split
  · rfl
  · rfl

theorem declare_all_renumber (hf : StrictMono f) (labels : List String) :
    labels.foldl (declare (active.map f) (f i)) (s.renumber f) =
      (labels.foldl (declare active i) s).renumber f := by
  induction labels generalizing s with
  | nil => rfl
  | cons label rest ih => rw [List.foldl_cons, List.foldl_cons, declare_renumber hf, ih]

theorem assign_renumber (pairs : List (Nat × Value)) :
    (s.renumber f).assign pairs =
      ((s.assign pairs).1.renumber f, (s.assign pairs).2.renumber f) := by
  induction pairs generalizing s with
  | nil => rfl
  | cons pair rest ih =>
    rw [assign, assign, show (s.renumber f).registers = s.registers from rfl]
    cases s.registers.resolve pair.2 with
    | ok x => exact ih (s := { s with registers := s.registers.set pair.1 x })
    | error n => rfl

theorem line_renumber (label : String) : (s.renumber f).line label = (s.line label).map f := by
  have hget : (s.renumber f).labels.get? label = (s.labels.get? label).map f :=
    Table.get?_map Function.injective_id f s.labels label
  rw [line, line, hget]
  cases s.labels.get? label with
  | none => rfl
  | some n => rfl

theorem stopLine_renumber (stop : Option String) :
    (s.renumber f).stopLine (f i) stop = (s.stopLine i stop).map f := by
  cases stop with
  | none => rfl
  | some label => exact line_renumber label

theorem loop_renumber (hf : StrictMono f) (command : Repeat) :
    (s.renumber f).loop (f i) command = (s.loop i command).map (Loop.renumber f) := by
  rw [loop, loop, line_renumber, stopLine_renumber,
    show (s.renumber f).count command.count = s.count command.count from rfl]
  cases s.line command.start with
  | error cause => rfl
  | ok start =>
    cases s.stopLine i command.stop with
    | error cause => rfl
    | ok stop =>
      cases s.count command.count with
      | error cause => rfl
      | ok count =>
        have hget : (s.renumber f).modes.get? (f start) = (s.modes.get? start).map id :=
          Table.get?_map hf.injective id s.modes start
        rw [Option.map_id_apply] at hget
        simp only [bind, Except.bind, pure, Except.pure, Except.map, Loop.renumber, hget]
        rfl

theorem again_renumber (hf : StrictMono f) (command : Repeat) :
    ∃ notices, (s.renumber f).again (o.site (f i) text) command =
      (((s.again (o.site i text) command).1.renumber f).told notices,
        (s.again (o.site i text) command).2.renumber f) := by
  rw [again, again, show (o.site (f i) text).line - 1 = f i from rfl,
    show (o.site i text).line - 1 = i from rfl, loop_renumber hf]
  cases s.loop i command with
  | error cause => exact ⟨s.notices, rfl⟩
  | ok l =>
    simp only [Except.map, Loop.renumber, hf.le_iff_le]
    split
    · exact ⟨s.notices, rfl⟩
    · split
      · exact ⟨_, rfl⟩
      · exact ⟨s.notices, rfl⟩

theorem block_renumber (b : Block) :
    ∃ notices, (s.renumber f).block (o.site (f i) text) b =
      (((s.block (o.site i text) b).1.renumber f).told notices,
        (s.block (o.site i text) b).2.renumber f) := by
  rw [block, block, show (s.renumber f).registers = s.registers from rfl]
  cases b.words.traverse s.registers.resolve with
  | error n => exact ⟨s.notices, rfl⟩
  | ok words =>
    have he : Effect.Renumbers (lineNumber f) (Effect.ofBlock (o.site i text) s.modal b.g words)
        (Effect.ofBlock (o.site (f i) text) s.modal b.g words) :=
      Effect.renumber_ofBlock b.g
    dsimp only
    rw [show (s.renumber f).modal = s.modal from rfl]
    generalize Effect.ofBlock (o.site i text) s.modal b.g words = e at he ⊢
    generalize Effect.ofBlock (o.site (f i) text) s.modal b.g words = e' at he ⊢
    have habsorb : (s.renumber f).absorb e' =
        ((s.absorb e).renumber f).told (s.notices ++ e'.notices) := by
      simp only [absorb, renumber, told, he.modal, he.moves, Log.renumber_append]
    rw [habsorb, he.cause]
    cases e.cause with
    | some cause => exact ⟨_, rfl⟩
    | none =>
      cases haltCode? b.m with
      | some code => exact ⟨_, rfl⟩
      | none => exact ⟨_, rfl⟩

theorem act_renumber (hf : StrictMono f) (action : Action) :
    ∃ notices, (s.renumber f).act (o.site (f i) text) action =
      (((s.act (o.site i text) action).1.renumber f).told notices,
        (s.act (o.site i text) action).2.renumber f) := by
  cases action with
  | blank | comment => exact ⟨s.notices, rfl⟩
  | unrecognized => exact ⟨_, rfl⟩
  | assign pairs => exact ⟨_, assign_renumber pairs⟩
  | again command => exact again_renumber hf command
  | block b => exact block_renumber b

/-- A statement does the same to the renumbered state, up to notices. -/
theorem execute_renumber (hf : StrictMono f) (s : State) (o : Options) (i : Nat) (text : String)
    (active : List Nat) (statement : Statement) :
    ∃ notices, (s.renumber f).execute (o.site (f i) text) (active.map f) statement =
      (((s.execute (o.site i text) active statement).1.renumber f).told notices,
        (s.execute (o.site i text) active statement).2.renumber f) := by
  rw [execute, execute, show (o.site (f i) text).line - 1 = f i from rfl,
    show (o.site i text).line - 1 = i from rfl, declare_all_renumber hf]
  exact act_renumber hf statement.action

end State

end Toolpath
