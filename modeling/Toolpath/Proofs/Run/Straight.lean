import Mathlib.Data.List.Basic
import Toolpath.Proofs.Run.Positioning
import Toolpath.Proofs.Run.Travel

/-!
# Programs of straight moves

A program without commands to repeat whose only motions are straight can be read line by line. What
lines come to is a fold over them, `Stance.reached`: the registers, how coordinates are meant, and
where the tool is. The line after them makes a move if it has a code for one and a coordinate, from
where the tool is to the point that its words then mean (`Stance.move?`).

A run of such a program, with every register assigned before its value is needed, executes each line
once (`Machine.Past`) and is completed with the moves of the lines as its log: `run_straight`.
-/

namespace Toolpath

/-! ## What the lines say -/

/-- Every line of a program can be read, and these are the statements. -/
structure Program.Says (p : Program) (statements : List Statement) : Prop where
  size : p.size = statements.length
  line : ∀ i, p.statement? i = statements[i]?

/-- A number, or a register among those known. -/
def Value.IsKnown (known : List Nat) : Value → Prop
  | .literal _ => True
  | .register n => n ∈ known

/-- Every assignment needs only registers that are known or have been assigned before it. -/
def AssignedInOrder (known : List Nat) : List (Nat × Value) → Prop
  | [] => True
  | (register, value) :: rest => value.IsKnown known ∧ AssignedInOrder (register :: known) rest

namespace Action

/-- The registers that an action assigns. -/
def assigned : Action → List Nat
  | .assign pairs => pairs.map Prod.fst
  | _ => []

/-- An action of a program of straight moves, which needs only known registers. Any codes may stand
among the words but those for other motions and those that end a program. -/
inductive Straight (known : List Nat) : Action → Prop where
  | idle {action : Action} (h : action.Idle) : Straight known action
  | assign {pairs : List (Nat × Value)} (h : AssignedInOrder known pairs) :
      Straight known (.assign pairs)
  | block {b : Block} (motions : ∀ code ∈ b.g, code ∉ [2, 3, 81, 83])
      (goesOn : ∀ code ∈ b.m, code ∉ [2, 30])
      (words : ∀ letter value, b.words.get? letter = some value → value.IsKnown known) :
      Straight known (.block b)

end Action

/-- The lines are those of a program of straight moves, and every register is assigned before its
value is needed. -/
def Straight (statements : List Statement) : Prop :=
  ∀ (i : Nat) (statement : Statement), statements[i]? = some statement →
    statement.action.Straight ((statements.take i).flatMap (Action.assigned ∘ Statement.action))

/-! ## What the lines come to -/

/-- The straight move that a code asks for. -/
def Kind.ofCode? : (code : Nat) → Option Kind
  | 0 => some .rapid
  | 1 => some .feed
  | _ => none

/-- The last straight move that the codes of a line ask for. -/
def Block.kind? (b : Block) : Option Kind := (b.g.filterMap Kind.ofCode?).getLast?

/-- The coordinate that a word means where the coordinate is `current`. -/
def Positioning.coordinate (q : Positioning) (current : Float) : Option Float → Float
  | none => current
  | some x =>
    match q with
    | .absolute => x
    | .incremental => current + x

/-- What the lines of a program come to up to some line. -/
structure Stance where
  registers : Nat → Option Float
  positioning : Positioning
  position : Point Float

namespace Stance

/-- Before the first line. -/
def start (o : Options) : Stance := ⟨fun _ ↦ none, .absolute, o.start⟩

def number? (s : Stance) : Value → Option Float
  | .literal x => some x
  | .register n => s.registers n

def assign (s : Stance) (pair : Nat × Value) : Stance :=
  { s with registers := fun n ↦ if n = pair.1 then s.number? pair.2 else s.registers n }

/-- The point that the words of a line mean, by the codes before and on the line. -/
def target (s : Stance) (b : Block) : Point Float :=
  let q := b.g.foldl Positioning.after s.positioning
  { x := q.coordinate s.position.x (b.words.x.bind s.number?)
    y := q.coordinate s.position.y (b.words.y.bind s.number?)
    z := q.coordinate s.position.z (b.words.z.bind s.number?) }

/-- What the lines come to with one more line. -/
def after (s : Stance) : Action → Stance
  | .assign pairs => pairs.foldl assign s
  | .block b =>
    { s with positioning := b.g.foldl Positioning.after s.positioning, position := s.target b }
  | _ => s

/-- What the lines of a program come to. -/
def reached (o : Options) (statements : List Statement) : Stance :=
  statements.foldl (fun s statement ↦ after s statement.action) (start o)

/-- The move of a line with a code for one and a coordinate. -/
def move? (s : Stance) (tag : Tag) : Action → Option (Segment Float)
  | .block b =>
    if b.words.hasAxis then b.kind?.map (⟨·, s.position, s.target b, tag⟩) else none
  | _ => none

/-- The moves of the lines in order, each by what the lines before it come to. -/
def moves (o : Options) (statements : List Statement) : List (Segment Float) :=
  statements.zipIdx.filterMap fun line : Statement × Nat ↦
    (reached o (statements.take line.2)).move? ⟨o.operation, line.2 + 1⟩ line.1.action

end Stance

/-! ## Registers -/

namespace Stance

variable {s : Stance} {t : State} {known : List Nat}

/-- The state of a run is what the lines come to. -/
structure Matches (s : Stance) (t : State) : Prop where
  registers : ∀ n, t.registers.get? n = s.registers n
  positioning : t.modal.positioning = s.positioning
  position : t.modal.position = s.position
  idle : t.modal.cycle = .idle

/-- The registers known have values. -/
def Knows (s : Stance) (known : List Nat) : Prop := ∀ n ∈ known, ∃ x, s.registers n = some x

/-- A value that needs only known registers is a number. -/
theorem resolve_eq {v : Value} (hr : ∀ n, t.registers.get? n = s.registers n)
    (hs : s.Knows known) (hv : v.IsKnown known) :
    ∃ x, s.number? v = some x ∧ t.registers.resolve v = .ok x := by
  cases v with
  | literal x => exact ⟨x, rfl, rfl⟩
  | register n =>
    obtain ⟨x, hx⟩ := hs n hv
    refine ⟨x, hx, ?_⟩
    rw [Registers.resolve, hr, hx]

theorem knows_assign {n : Nat} {v : Value} {x : Float} (hs : s.Knows known)
    (hv : s.number? v = some x) : (s.assign (n, v)).Knows (n :: known) := by
  intro k hk
  by_cases hkn : k = n
  · exact ⟨x, (if_pos hkn).trans hv⟩
  · obtain ⟨y, hy⟩ := hs k ((List.mem_cons.1 hk).resolve_left hkn)
    exact ⟨y, (if_neg hkn).trans hy⟩

/-- Assignments change registers alone. -/
theorem foldl_assign_eq (pairs : List (Nat × Value)) (s : Stance) :
    pairs.foldl assign s = { s with registers := (pairs.foldl assign s).registers } := by
  induction pairs generalizing s with
  | nil => rfl
  | cons pair rest ih => exact ih (s.assign pair)

/-- Assignments in order all succeed. -/
theorem assign_eq {pairs : List (Nat × Value)} (hr : ∀ n, t.registers.get? n = s.registers n)
    (hs : s.Knows known) (h : AssignedInOrder known pairs) :
    ∃ registers : Registers, t.assign pairs = ({ t with registers }, .next) ∧
      (∀ n, registers.get? n = (pairs.foldl assign s).registers n) ∧
      (pairs.foldl assign s).Knows (pairs.map Prod.fst ++ known) := by
  induction pairs generalizing s t known with
  | nil => exact ⟨t.registers, rfl, hr, hs⟩
  | cons pair rest ih =>
    obtain ⟨register, value⟩ := pair
    obtain ⟨hvalue, hrest⟩ := h
    obtain ⟨x, hx, hok⟩ := resolve_eq hr hs hvalue
    have hr' : ∀ n,
        (t.registers.set register x).get? n = (s.assign (register, value)).registers n := by
      intro n
      by_cases hn : n = register
      · rw [hn, Table.get?_set_self]
        exact ((if_pos rfl).trans hx).symm
      · rw [Table.get?_set_of_ne _ _ hn, hr]
        exact (if_neg hn).symm
    obtain ⟨registers, heq, hget, hknows⟩ :=
      ih (t := { t with registers := t.registers.set register x }) hr' (knows_assign hs hx) hrest
    refine ⟨registers, ?_, hget, fun n hn ↦ hknows n ?_⟩
    · rw [State.assign, hok]
      exact heq
    · simpa [or_left_comm] using hn

end Stance

/-! ## Words -/

namespace Words

variable {ε β γ : Type} {g : β → Except ε γ} {f : β → Option γ}

/-- Entries that are all accepted are all mapped. -/
theorem traverse_eq_ok {w : Words β}
    (h : ∀ letter b, w.get? letter = some b → ∃ c, f b = some c ∧ g b = .ok c) :
    ∃ w', w.traverse g = .ok w' ∧ ∀ letter, w'.get? letter = (w.get? letter).bind f := by
  refine ⟨⟨w.f.bind f, w.i.bind f, w.j.bind f, w.p.bind f, w.q.bind f, w.r.bind f, w.s.bind f,
    w.x.bind f, w.y.bind f, w.z.bind f⟩, ?_, fun letter ↦ by cases letter <;> rfl⟩
  unfold traverse
  extract_lets entry
  have hentry : ∀ o : Option β, (∀ b, o = some b → ∃ c, f b = some c ∧ g b = .ok c) →
      entry o = .ok (o.bind f) := by
    intro o ho
    cases o with
    | none => rfl
    | some b =>
      obtain ⟨c, hc, hg⟩ := ho b rfl
      rw [Option.bind_some, hc]
      exact congrArg (Except.map some) hg
  rw [hentry w.f (h .f), hentry w.i (h .i), hentry w.j (h .j), hentry w.p (h .p),
    hentry w.q (h .q), hentry w.r (h .r), hentry w.s (h .s), hentry w.x (h .x),
    hentry w.y (h .y), hentry w.z (h .z)]
  rfl

/-- Words of which none is lost give the same axes. -/
theorem hasAxis_eq {w : Words β} {w' : Words γ}
    (hw : ∀ letter, w'.get? letter = (w.get? letter).bind f)
    (h : ∀ letter b, w.get? letter = some b → ∃ c, f b = some c) : w'.hasAxis = w.hasAxis := by
  have hsome : ∀ letter, (w'.get? letter).isSome = (w.get? letter).isSome := by
    intro letter
    rw [hw]
    cases hl : w.get? letter with
    | none => rfl
    | some b =>
      obtain ⟨c, hc⟩ := h letter b hl
      rw [Option.bind_some, hc]
      rfl
  have hx : w'.x.isSome = w.x.isSome := hsome .x
  have hy : w'.y.isSome = w.y.isSome := hsome .y
  have hz : w'.z.isSome = w.z.isSome := hsome .z
  rw [hasAxis, hx, hy, hz, hasAxis]

end Words

/-! ## Blocks -/

namespace Effect

variable {site : Site} {m : Modal} {w : Words Float}

/-- Words without a coordinate mean where the tool is. -/
theorem target_of_not_hasAxis (h : w.hasAxis = false) : target m w = m.position := by
  simp only [Words.hasAxis, Bool.or_eq_false_iff, Option.isSome_eq_false_iff,
    Option.isNone_iff_eq_none] at h
  obtain ⟨⟨hx, hy⟩, hz⟩ := h
  rw [target, hx, hy, hz]
  rfl

/-- Without a cycle in force words lead to the point that they mean, whether or not there is a code
for a straight move among them; if there is, coordinates make one. -/
theorem ofMotion_straight (idle : m.cycle = .idle) (kind? : Option Kind) :
    ofMotion site (kind?.map .straight) m w =
      { modal := { m with position := target m w }
        moves := (if w.hasAxis then kind?.map (⟨·, m.position, target m w, site.tag⟩)
          else none).toList } := by
  cases haxis : w.hasAxis with
  | true =>
    cases kind? with
    | none => simp [ofMotion, bare, adjust, idle, haxis]
    | some kind => simp [ofMotion, straight, haxis]
  | false =>
    rw [target_of_not_hasAxis haxis]
    change _ = ({ modal := m } : Effect)
    cases kind? with
    | none => simp [ofMotion, bare, adjust, idle, haxis]
    | some kind => simp [ofMotion, straight, haxis]

theorem cycle_withCode {m' : Modal} {code : Nat} (h : m.withCode? code = some m')
    (idle : m.cycle = .idle) : m'.cycle = .idle := by
  unfold Modal.withCode? at h
  split at h
  all_goals cases h
  all_goals first | exact idle | rfl

theorem cycle_setup {line : Nat} (codes : List Nat) (idle : m.cycle = .idle) :
    (setup line m codes w).modal.cycle = .idle := by
  rw [setup]
  refine Setup.keep_ofCodes (P := fun m ↦ m.cycle = .idle) ?_ ?_ codes
  · exact fun _ _ _ ↦ cycle_withCode
  · exact idle

end Effect

/-- Codes that are not for other motions ask for straight moves. -/
theorem Motion.last?_eq_kind? {b : Block} (h : ∀ code ∈ b.g, code ∉ [2, 3, 81, 83]) :
    Motion.last? b.g = b.kind?.map .straight := by
  have hcode : ∀ code ∈ b.g, ofCode? code = (Kind.ofCode? code).map .straight := by
    intro code hcode
    have := h code hcode
    unfold ofCode? Kind.ofCode?
    split <;> first | rfl | simp_all
  rw [last?, Block.kind?, List.filterMap_congr hcode, ← List.getLast?_map, List.map_filterMap]

theorem State.haltCode?_eq_none {codes : List Nat} (h : ∀ code ∈ codes, code ∉ [2, 30]) :
    haltCode? codes = none := by
  rw [haltCode?]
  induction codes with
  | nil => rfl
  | cons code rest ih =>
    have hcode := h code List.mem_cons_self
    rw [List.foldl_cons, if_neg (by simpa using hcode)]
    exact ih fun code' hmem ↦ h code' (List.mem_cons_of_mem _ hmem)

namespace Stance

variable {s : Stance} {t : State} {known : List Nat} {site : Site} {action : Action}

/-- The words of a line mean the point that the stance says. -/
theorem target_eq {b : Block} {w : Words Float} (h : s.Matches t)
    (hw : ∀ letter, w.get? letter = (b.words.get? letter).bind s.number?) :
    Effect.target (Effect.setup site.line t.modal b.g w).modal w = s.target b := by
  have hq : (Effect.setup site.line t.modal b.g w).modal.positioning =
      b.g.foldl Positioning.after s.positioning := by
    rw [← h.positioning]
    exact Effect.positioning_foldl_add ..
  have hx : w.x = b.words.x.bind s.number? := hw .x
  have hy : w.y = b.words.y.bind s.number? := hw .y
  have hz : w.z = b.words.z.bind s.number? := hw .z
  have haxis : ∀ (current : Float) (x : Option Float),
      (Effect.setup site.line t.modal b.g w).modal.axis current x =
        (b.g.foldl Positioning.after s.positioning).coordinate current x := by
    intro current x
    cases x with
    | none => rfl
    | some x =>
      rw [Modal.axis, hq]
      rfl
  rw [Effect.target, Modal.target, haxis, haxis, haxis, Effect.position_setup, h.position, hx, hy,
    hz, target]

/-- A block of straight moves is executed, and comes to what the stance says. -/
theorem block_eq (site : Site) {b : Block} (h : s.Matches t) (hs : s.Knows known)
    (motions : ∀ code ∈ b.g, code ∉ [2, 3, 81, 83]) (goesOn : ∀ code ∈ b.m, code ∉ [2, 30])
    (words : ∀ letter value, b.words.get? letter = some value → value.IsKnown known) :
    ∃ t', t.block site b = (t', .next) ∧ (s.after (.block b)).Matches t' ∧
      t'.log = t.log.append (s.move? site.tag (.block b)).toList := by
  obtain ⟨w, hok, hw⟩ := Words.traverse_eq_ok (g := t.registers.resolve) (f := s.number?)
    fun letter value hv ↦ resolve_eq h.registers hs (words letter value hv)
  have haxis : w.hasAxis = b.words.hasAxis := Words.hasAxis_eq hw fun letter value hv ↦
    (resolve_eq h.registers hs (words letter value hv)).imp fun _ ↦ And.left
  have heffect : Effect.ofMotion site (Effect.setup site.line t.modal b.g w).motion
      (Effect.setup site.line t.modal b.g w).modal w =
      { modal := { (Effect.setup site.line t.modal b.g w).modal with position := s.target b }
        moves := (s.move? site.tag (.block b)).toList } := by
    rw [show (Effect.setup site.line t.modal b.g w).motion = b.kind?.map .straight from
        (Effect.Setup.motion_ofCodes _).trans (Motion.last?_eq_kind? motions),
      Effect.ofMotion_straight (Effect.cycle_setup b.g h.idle), target_eq h hw,
      Effect.position_setup, h.position, haxis, move?]
  have hblock : Effect.ofBlock site t.modal b.g w =
      { Effect.ofMotion site (Effect.setup site.line t.modal b.g w).motion
          (Effect.setup site.line t.modal b.g w).modal w with
        notices := (Effect.setup site.line t.modal b.g w).notices ++
          (Effect.ofMotion site (Effect.setup site.line t.modal b.g w).motion
            (Effect.setup site.line t.modal b.g w).modal w).notices } := rfl
  rw [heffect] at hblock
  refine ⟨t.absorb (Effect.ofBlock site t.modal b.g w), ?_, ?_, ?_⟩
  · rw [State.block, hok]
    dsimp only
    rw [hblock, State.haltCode?_eq_none goesOn]
  · rw [hblock]
    refine ⟨h.registers, ?_, rfl, Effect.cycle_setup b.g h.idle⟩
    rw [after, ← h.positioning]
    exact Effect.positioning_foldl_add ..
  · rw [hblock]
    rfl

/-- An action of a program of straight moves is executed, and comes to what the stance says. -/
theorem act_eq (site : Site) (h : s.Matches t) (hs : s.Knows known) (ha : action.Straight known) :
    ∃ t', t.act site action = (t', .next) ∧ (s.after action).Matches t' ∧
      (s.after action).Knows (action.assigned ++ known) ∧
      t'.log = t.log.append (s.move? site.tag action).toList := by
  cases ha with
  | idle hidle =>
    cases hidle with
    | blank | comment =>
      exact ⟨t, rfl, h, hs, (Log.append_nil _).symm⟩
    | unrecognized =>
      exact ⟨_, rfl, ⟨h.registers, h.positioning, h.position, h.idle⟩, hs, (Log.append_nil _).symm⟩
  | @assign pairs hpairs =>
    obtain ⟨registers, heq, hget, hknows⟩ := assign_eq h.registers hs hpairs
    refine ⟨_, heq, ⟨hget, ?_, ?_, h.idle⟩, hknows, (Log.append_nil _).symm⟩
    · rw [after, foldl_assign_eq, ← h.positioning]
    · rw [after, foldl_assign_eq, ← h.position]
  | @block b motions goesOn words =>
    obtain ⟨t', heq, hmatches, hlog⟩ := block_eq site h hs motions goesOn words
    exact ⟨t', heq, hmatches, hs, hlog⟩

/-! ## Lines one after the other -/

theorem reached_snoc (o : Options) (statements : List Statement) (statement : Statement) :
    reached o (statements ++ [statement]) = (reached o statements).after statement.action :=
  List.foldl_concat ..

theorem moves_snoc (o : Options) (statements : List Statement) (statement : Statement) :
    moves o (statements ++ [statement]) = moves o statements ++
      ((reached o statements).move? ⟨o.operation, statements.length + 1⟩
        statement.action).toList := by
  rw [moves, List.zipIdx_append, List.filterMap_append, moves]
  congr 1
  · refine List.filterMap_congr fun line hline ↦ ?_
    have hlt : line.2 < 0 + statements.length := List.snd_lt_add_of_mem_zipIdx hline
    rw [List.take_append_of_le_length (by omega)]
  · rw [List.zipIdx_singleton, Nat.zero_add, List.filterMap_cons, List.filterMap_nil]
    dsimp only
    rw [List.take_left]
    cases (reached o statements).move? ⟨o.operation, statements.length + 1⟩ statement.action <;> rfl

end Stance

namespace Machine

variable {p : Program} {o : Options} {m : Machine} {lines : List Statement} {statement : Statement}

/-- A machine has executed these lines, each once, and comes to the line after them. -/
structure Past (o : Options) (lines : List Statement) (m : Machine) : Prop where
  cursor : m.cursor = lines.length
  frames : m.frames = []
  stance : (Stance.reached o lines).Matches m.state
  knows : (Stance.reached o lines).Knows (lines.flatMap (Action.assigned ∘ Statement.action))
  log : m.state.log.toList = Stance.moves o lines

theorem past_start (p : Program) (o : Options) : Past o [] (start p o) := by
  obtain ⟨notices, hn⟩ := start_eq_told p o
  refine ⟨rfl, rfl, ?_, fun _ ↦ List.not_mem_nil.elim, ?_⟩
  · rw [hn]
    exact ⟨fun _ ↦ rfl, rfl, rfl, rfl⟩
  · rw [hn]
    rfl

/-- One more line is executed. -/
theorem Past.step (hr : Reachable p o m) (h : Past o lines m)
    (hs : p.statement? lines.length = some statement)
    (ha : statement.action.Straight (lines.flatMap (Action.assigned ∘ Statement.action))) :
    ∃ m', Reachable p o m' ∧ Past o (lines ++ [statement]) m' := by
  rw [← h.cursor] at hs
  obtain ⟨text, ht, hread⟩ := Program.statement?_eq_some_iff.1 hs
  obtain ⟨labels, modes, notices, hd⟩ := declared_eq o.usable m text statement
  have hmatches : (Stance.reached o lines).Matches (m.declared o.usable text statement) := by
    rw [hd]
    exact ⟨h.stance.registers, h.stance.positioning, h.stance.position, h.stance.idle⟩
  obtain ⟨t, hact, hafter, hknows, hlog⟩ :=
    Stance.act_eq (o.usable.site m.cursor text) hmatches h.knows ha
  have hx : Executes p o.usable m text statement (t, .next) := .of_acted ht hread hact
  have hstep := hx.step hr.faithful
  have hmove : m.follow o.usable text statement t .next =
      .inl { m with state := t, read := m.keep statement, cursor := m.cursor + 1 } := by
    rw [follow, moveTo, h.frames]
    rfl
  refine ⟨_, hr.step (hstep.trans hmove), ?_, h.frames, ?_, ?_, ?_⟩
  · rw [List.length_append, ← h.cursor]
    rfl
  · rw [Stance.reached_snoc]
    exact hafter
  · rw [Stance.reached_snoc, List.flatMap_append]
    intro n hn
    refine hknows n ?_
    simpa [or_comm] using hn
  · rw [Stance.moves_snoc, hlog, Log.toList_append, declared_log, h.log, ← h.cursor]
    rfl

/-- A run of straight moves comes past each line. -/
theorem exists_past {statements : List Statement} (reads : p.Says statements)
    (h : Straight statements) (o : Options) {k : Nat} (hk : k ≤ statements.length) :
    ∃ m, Reachable p o m ∧ Past o (statements.take k) m := by
  induction k with
  | zero => exact ⟨start p o, .start, past_start p o⟩
  | succ k ih =>
    obtain ⟨m, hr, hm⟩ := ih (Nat.le_of_succ_le hk)
    have hget : statements[k]? = some statements[k] := List.getElem?_eq_getElem hk
    have hlength : (statements.take k).length = k := List.length_take_of_le (Nat.le_of_succ_le hk)
    obtain ⟨m', hr', hm'⟩ := hm.step hr
      (by rw [hlength, reads.line, hget]) (h k _ hget)
    refine ⟨m', hr', ?_⟩
    rw [List.take_add_one, hget]
    exact hm'

end Machine

/-- A program of straight moves is completed. It makes the moves of its lines, one for each line
with a code for a move and a coordinate, and leaves the tool where the lines come to. -/
theorem run_straight {p : Program} {statements : List Statement} (reads : p.Says statements)
    (h : Straight statements) (o : Options) :
    (p.run o).outcome = .completed ∧ (p.run o).state.log.toList = Stance.moves o statements ∧
      (p.run o).state.modal.position = (Stance.reached o statements).position := by
  obtain ⟨m, hr, hm⟩ := Machine.exists_past reads h o (Nat.le_refl _)
  rw [List.take_length] at hm
  have hpast : p.line? m.cursor = none := by
    rw [hm.cursor, ← reads.size]
    exact Array.getElem?_eq_none (Nat.le_refl _)
  have hstep : Machine.step p o.usable m = .inr ⟨m.state, .completed⟩ := by
    rw [Machine.step, hpast]
  rw [hr.run_eq hstep]
  exact ⟨rfl, hm.log, hm.stance.position⟩

deriving instance DecidableEq for Value, Words, Block, Repeat, Action, Statement

/-- Moves of both kinds, by registers and numbers, with coordinates meant either way, and a line
that only places the tool. -/
def errand : Program :=
  .ofLines ["; to the stock", "R1=2 R2=R1", "A: G90 G0 XR2 S5 M3", "Z-1", "G0 G1 G91 Y3 G41", "G0"]

/-- What the lines of `errand` say. -/
def errandStatements : List Statement :=
  [⟨[], .comment⟩,
    ⟨[], .assign [(1, .literal 2), (2, .register 1)]⟩,
    ⟨["A"], .block ⟨[90, 0], [3], { x := some (.register 2), s := some (.literal 5) }⟩⟩,
    ⟨[], .block ⟨[], [], { z := some (.literal (-1)) }⟩⟩,
    ⟨[], .block ⟨[0, 1, 91, 41], [], { y := some (.literal 3) }⟩⟩,
    ⟨[], .block ⟨[0], [], {}⟩⟩]

theorem says_errand : errand.Says errandStatements := by
  refine ⟨rfl, fun i ↦ ?_⟩
  by_cases hi : i < 6
  · have h : ∀ i < 6, errand.statement? i = errandStatements[i]? := by decide +kernel
    exact h i hi
  · have hline : errand.line? i = none := Array.getElem?_eq_none (Nat.not_lt.1 hi)
    rw [Program.statement?, hline, List.getElem?_eq_none (Nat.not_lt.1 hi)]

theorem straight_errandStatements : Straight errandStatements := by
  intro i statement hi
  match i, hi with
  | 0, rfl => exact .idle .comment
  | 1, rfl => exact .assign ⟨trivial, List.mem_cons_self, trivial⟩
  | 2, rfl =>
    refine .block (by decide) (by decide) fun letter value hv ↦ ?_
    cases letter <;> cases hv
    · trivial
    · exact List.mem_cons_of_mem 1 List.mem_cons_self
  | 3, rfl | 4, rfl =>
    refine .block (by decide) (by decide) fun letter value hv ↦ ?_
    cases letter <;> cases hv
    trivial
  | 5, rfl =>
    exact .block (by decide) (by decide) fun letter value hv ↦ by cases letter <;> cases hv

/-- A run of `errand` makes the moves of its third and its fifth line, and between them the fourth
places the tool. -/
theorem run_straight_errand :
    errand.Says errandStatements ∧ Straight errandStatements ∧
      (errand.run {}).outcome = .completed ∧
      (errand.run {}).state.log.toList =
        [⟨.rapid, ⟨0, 0, 0⟩, ⟨2, 0, 0⟩, ⟨0, 3⟩⟩, ⟨.feed, ⟨2, 0, -1⟩, ⟨2, 3, -1⟩, ⟨0, 5⟩⟩] := by
  have hrun := run_straight says_errand straight_errandStatements {}
  refine ⟨says_errand, straight_errandStatements, hrun.1, hrun.2.1.trans ?_⟩
  decide +kernel

end Toolpath
