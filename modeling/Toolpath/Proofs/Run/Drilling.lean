import Toolpath.Proofs.Motion.Tags
import Toolpath.Proofs.Run.Pecking
import Toolpath.Proofs.Run.Straight

/-!
# Ways to drill

Holes are drilled by a list of their places, by bare lines with a place each, or on the line that
sets the cycle up. A bare line with a place is one hole of the cycle in force (`block_ofPlace`), so
that bare lines do what a list of their places does (`drills_blocks`). Setting a cycle up and
drilling with it can be done one after the other (`Effect.ofBlock_cases`), so that a line which does
both does what the line without its place and a bare line with the place do (`blocks_parts`).
-/

namespace Toolpath

/-! ## Words for a place -/

namespace Words

variable {ε β γ : Type} {g : β → Except ε γ} {w : Words β} {w' : Words γ}

/-- The words but for a place in the plane. -/
def withoutPlace (w : Words β) : Words β := { w with x := none, y := none }

/-- The words for a place in the plane. -/
def place (w : Words β) : Words β := { x := w.x, y := w.y }

/-- The entry of an address through `g`. -/
def entry (g : β → Except ε γ) : Option β → Except ε (Option γ)
  | none => .ok none
  | some b => (g b).map some

theorem bind_eq_ok {δ : Type} {x : Except ε γ} {f : γ → Except ε δ} {d : δ} :
    x >>= f = .ok d ↔ ∃ c, x = .ok c ∧ f c = .ok d := by
  constructor
  · intro h
    cases x with
    | error e => cases h
    | ok c => exact ⟨c, rfl, h⟩
  · rintro ⟨c, rfl, h⟩
    exact h

theorem traverse_eq_ok_iff :
    w.traverse g = .ok w' ↔ ∀ letter, entry g (w.get? letter) = .ok (w'.get? letter) := by
  constructor
  · intro h letter
    unfold traverse at h
    simp only [bind_eq_ok] at h
    obtain ⟨f, hf, i, hi, j, hj, p, hp, q, hq, r, hr, s, hs, x, hx, y, hy, z, hz, h⟩ := h
    cases h
    cases letter <;> assumption
  · intro h
    unfold traverse
    simp only [bind_eq_ok]
    exact ⟨_, h .f, _, h .i, _, h .j, _, h .p, _, h .q, _, h .r, _, h .s, _, h .x, _, h .y,
      _, h .z, rfl⟩

theorem traverse_withoutPlace (h : w.traverse g = .ok w') :
    w.withoutPlace.traverse g = .ok w'.withoutPlace := by
  rw [traverse_eq_ok_iff] at h ⊢
  intro letter
  have hletter := h letter
  cases letter with
  | x | y => rfl
  | _ => exact hletter

theorem traverse_place (h : w.traverse g = .ok w') : w.place.traverse g = .ok w'.place := by
  rw [traverse_eq_ok_iff] at h ⊢
  intro letter
  have hletter := h letter
  cases letter with
  | x | y => exact hletter
  | _ => rfl

theorem isSome_of_entry {o : Option β} {o' : Option γ} (h : entry g o = .ok o') :
    o'.isSome = o.isSome := by
  cases o with
  | none =>
    cases h
    rfl
  | some b =>
    rw [entry] at h
    cases hb : g b with
    | error e =>
      rw [hb] at h
      cases h
    | ok c =>
      rw [hb] at h
      cases h
      rfl

theorem hasPlace_of_traverse (h : w.traverse g = .ok w') : w'.hasPlace = w.hasPlace := by
  rw [traverse_eq_ok_iff] at h
  have hx : w'.x.isSome = w.x.isSome := isSome_of_entry (h .x)
  have hy : w'.y.isSome = w.y.isSome := isSome_of_entry (h .y)
  rw [hasPlace, hx, hy, hasPlace]

end Words

namespace Block

/-- The line but for its words for a place. -/
def withoutPlace (b : Block) : Block := { b with words := b.words.withoutPlace }

/-- A bare line with the words for a place. -/
def place (b : Block) : Block := { words := b.words.place }

/-- A bare line with words for a place. -/
def ofPlace (x y : Float) : Block where
  words := { x := some (.literal x), y := some (.literal y) }

end Block

/-! ## Setting up and drilling -/

/-- The codes that set a cycle up. -/
theorem Motion.exists_last? {codes : List Nat}
    (h : lastOf group codes = some 81 ∨ lastOf group codes = some 83) :
    ∃ pecking : Bool, last? codes = some (if pecking then .peck else .drill) := by
  rw [last?_eq]
  rcases h with h | h
  · exact ⟨false, by rw [h]; rfl⟩
  · exact ⟨true, by rw [h]; rfl⟩

namespace Effect

variable {site site' : Site} {m : Modal} {w : Words Float} {codes : List Nat} {pecking : Bool}

/-- The words for a place drill the same hole on any line. -/
theorem hole_place (site site' : Site) : hole site' m w.place =
    { hole site m w with
      moves := (hole site m w).moves.map (Segment.retag fun _ ↦ site'.tag) } := by
  have hexpand := m.cycle.expand_retag (fun _ ↦ site'.tag) site.tag m.position
    (m.axis m.position.x w.x) (m.axis m.position.y w.y)
  rw [hole, hole]
  dsimp only [Words.place]
  rw [hexpand]
  cases m.cycle.expand m.position (m.axis m.position.x w.x) (m.axis m.position.y w.y) site.tag with
  | error q => rfl
  | ok moves =>
    dsimp only [Except.map]
    rw [Cycle.finish_retag]

/-- With a cycle in force a bare line with a place only drills a hole. A step that is refused is
refused here as it is there. -/
theorem bare_place (hactive : m.cycle.isActive = true) (hplace : w.hasPlace = true) :
    bare site m w.place = hole site m w.place := by
  have hplaced : w.place.hasPlace = true := hplace
  obtain ⟨positioning, compensation, cycle, position, feed, spindle⟩ := m
  cases cycle with
  | idle => cases hactive
  | drill z r => exact if_pos hplaced
  | peck z r q =>
    by_cases hq : Scalar.isPositive q = true
    · exact (if_pos hq).trans (if_pos hplaced)
    · have hexpand (start : Point Float) (x y : Float) :
          (Cycle.peck z r q).expand start x y site.tag = .error q := if_neg hq
      refine (if_neg hq).trans ?_
      rw [hole]
      dsimp only
      rw [hexpand]
      rfl

/-- The cycle that words set up. -/
def newCycle (pecking : Bool) (m : Modal) (w : Words Float) : Cycle Float :=
  let z := (w.z <|> m.cycle.depth?).getD m.position.z
  let r := (w.r <|> m.cycle.retract?).getD m.position.z
  if pecking then .peck z r ((w.q <|> m.cycle.step?).getD 0) else .drill z r

/-- What the operator is told of a cycle that words set up. -/
def newCycleNotices (site : Site) (m : Modal) (w : Words Float) : List Notice :=
  (if (w.z <|> m.cycle.depth?).isNone then [.cycleWithoutDepth site.line m.position.z] else [])
    ++ if (w.r <|> m.cycle.retract?).isNone then [.cycleWithoutRetract site.line m.position.z]
      else []

theorem isActive_newCycle (pecking : Bool) : (newCycle pecking m w).isActive = true := by
  cases pecking <;> rfl

@[simp] theorem notices_hole : (hole site m w).notices = [] := by
  rw [hole]
  split <;> rfl

@[simp] theorem notices_holeIfPlaced : (holeIfPlaced site m w).notices = [] := by
  rw [holeIfPlaced]
  split
  · exact notices_hole
  · rfl

theorem activate_of_usable (h : (newCycle pecking m w).Usable) :
    activate site pecking m w =
      { holeIfPlaced site { m with cycle := newCycle pecking m w } w with
        notices := newCycleNotices site m w } := by
  have hnotices : newCycleNotices site m w ++
      (holeIfPlaced site { m with cycle := newCycle pecking m w } w).notices =
        newCycleNotices site m w := by
    rw [notices_holeIfPlaced, List.append_nil]
  rw [← hnotices]
  cases pecking with
  | false => rfl
  | true =>
    have hq : Scalar.isPositive ((w.q <|> m.cycle.step?).getD 0) = true := h _ rfl
    rw [activate, if_pos rfl]
    dsimp only
    rw [if_pos hq]
    rfl

theorem activate_of_not_usable (h : ¬(newCycle pecking m w).Usable) :
    activate site pecking m w =
      { modal := m
        notices := newCycleNotices site m w
        cause := some (.invalidPeckDepth ((w.q <|> m.cycle.step?).getD 0)) } := by
  cases pecking with
  | false => exact absurd (fun q hq ↦ nomatch hq) h
  | true =>
    have hq : ¬Scalar.isPositive ((w.q <|> m.cycle.step?).getD 0) = true := by
      refine fun hq ↦ h ?_
      rintro q ⟨⟩
      exact hq
    rw [activate, if_pos rfl]
    dsimp only
    rw [if_neg hq, List.append_nil]
    rfl

/-- The effect with some notices before its own. -/
def after (notices : List Notice) (e : Effect) : Effect :=
  { e with notices := notices ++ e.notices }

/-- The effect of a line whose last motion sets a cycle up. -/
theorem ofBlock_of_newCycle (h : Motion.last? codes = some (if pecking then .peck else .drill)) :
    ofBlock site m codes w =
      (activate site pecking (setup site.line m codes w).modal w).after
        (setup site.line m codes w).notices := by
  rw [ofBlock_eq]
  dsimp only
  rw [setup_motion, h]
  cases pecking <;> rfl

/-- A line whose last motion sets a cycle up is refused, with a place or without, or it puts the
cycle in force and drills a hole with it. -/
theorem ofBlock_cases (site : Site) (text : String)
    (h : Motion.last? codes = some (if pecking then .peck else .drill))
    (hplace : w.hasPlace = true) :
    (∃ m' notices cause, ofBlock site m codes w = { modal := m', notices, cause := some cause } ∧
      ofBlock { site with text } m codes w.withoutPlace =
        { modal := m', notices, cause := some cause }) ∨
    ∃ m' notices, m'.cycle.isActive = true ∧
      ofBlock site m codes w = { hole site m' w with notices } ∧
      ofBlock { site with text } m codes w.withoutPlace = { modal := m', notices } := by
  have hsetup : setup site.line m codes w.withoutPlace = setup site.line m codes w := rfl
  rw [ofBlock_of_newCycle h, ofBlock_of_newCycle h]
  dsimp only
  rw [hsetup]
  generalize setup site.line m codes w = s
  by_cases husable : (newCycle pecking s.modal w).Usable
  · refine .inr ⟨{ s.modal with cycle := newCycle pecking s.modal w },
      s.notices ++ newCycleNotices site s.modal w, isActive_newCycle pecking, ?_, ?_⟩
    · rw [activate_of_usable husable, holeIfPlaced, if_pos hplace]
      rfl
    · rw [activate_of_usable (w := w.withoutPlace) husable]
      rfl
  · refine .inl ⟨s.modal, s.notices ++ newCycleNotices site s.modal w,
      .invalidPeckDepth ((w.q <|> s.modal.cycle.step?).getD 0), ?_, ?_⟩
    · rw [activate_of_not_usable husable]
      rfl
    · rw [activate_of_not_usable (w := w.withoutPlace) husable]
      rfl

/-- The effect of a bare line with a place. -/
theorem ofBlock_place (hactive : m.cycle.isActive = true) (hplace : w.hasPlace = true) :
    ofBlock site m [] w.place = hole site m w.place :=
  bare_place hactive hplace

end Effect

/-! ## Lists of places -/

namespace Cycle

variable {α : Type} [Scalar α] {cycle : Cycle α} {start : Point α} {x y : α}
  {moves : List (Segment α)}

theorem drillAll_cons_of_ok (h : cycle.expand start x y {} = .ok moves) (rest : List (α × α)) :
    cycle.drillAll start ((x, y) :: rest) =
      (cycle.drillAll (finish start moves) rest).map (moves ++ ·) := by
  rw [drillAll, h]
  dsimp only [Bind.bind, Except.bind]
  cases cycle.drillAll (finish start moves) rest <;> rfl

theorem drillAll_cons_of_error {q : α} (h : cycle.expand start x y {} = .error q)
    (rest : List (α × α)) : cycle.drillAll start ((x, y) :: rest) = .error q := by
  rw [drillAll, h]
  rfl

end Cycle

/-! ## Blocks in turn -/

theorem Log.append_append {α : Type} (log : Log α) (moves more : List (Segment α)) :
    (log.append moves).append more = log.append (moves ++ more) := by
  rw [append, append, append]
  congr 1
  apply Array.toList_inj.1
  simp

namespace State

variable {s : State} {site site' : Site} {b : Block} {w : Words Float}

/-- Where a run goes after an effect. -/
def flowOf (e : Effect) : Flow :=
  match e.cause with
  | some cause => .fail cause
  | none => .next

/-- A line whose registers are defined and that does not end the program. -/
theorem block_eq_absorb (site : Site) (hw : b.words.traverse s.registers.resolve = .ok w)
    (hm : ∀ code ∈ b.m, code ∉ [2, 30]) :
    s.block site b = (s.absorb (.ofBlock site s.modal b.g w),
      flowOf (.ofBlock site s.modal b.g w)) := by
  rw [block, hw]
  dsimp only
  rw [haltCode?_eq_none hm, flowOf]
  cases (Effect.ofBlock site s.modal b.g w).cause <;> rfl

/-- Blocks on their lines in turn, as long as the run goes on to the next. -/
def blocks (s : State) : List (Site × Block) → State × Flow
  | [] => (s, .next)
  | (site, b) :: rest =>
    match s.block site b with
    | (t, .next) => t.blocks rest
    | (t, flow) => (t, flow)

theorem blocks_cons_of_next {t : State} (h : s.block site b = (t, .next))
    (rest : List (Site × Block)) : s.blocks ((site, b) :: rest) = t.blocks rest := by
  rw [blocks, h]

theorem blocks_cons_of_fail {t : State} {cause : Cause} (h : s.block site b = (t, .fail cause))
    (rest : List (Site × Block)) : s.blocks ((site, b) :: rest) = (t, .fail cause) := by
  rw [blocks, h]

theorem blocks_singleton (site : Site) (b : Block) : s.blocks [(site, b)] = s.block site b := by
  rw [blocks]
  rcases s.block site b with ⟨t, flow⟩
  cases flow <;> rfl

/-- After a cycle is put in force a bare line with a place leads where a hole that is drilled at
once leads. -/
theorem block_place {m : Modal} {notices : List Notice} (site site' : Site)
    (hw : b.words.traverse s.registers.resolve = .ok w) (hplace : w.hasPlace = true)
    (hactive : m.cycle.isActive = true) :
    (s.absorb { modal := m, notices }).block site' b.place =
      ({ s.absorb { Effect.hole site m w with notices } with
          log := s.log.append
            ((Effect.hole site m w).moves.map (Segment.retag fun _ ↦ site'.tag)) },
        flowOf (Effect.hole site m w)) := by
  have he : Effect.ofBlock site' (s.absorb { modal := m, notices }).modal b.place.g w.place =
      { Effect.hole site m w with
        moves := (Effect.hole site m w).moves.map (Segment.retag fun _ ↦ site'.tag) } :=
    (Effect.ofBlock_place hactive hplace).trans (Effect.hole_place site site')
  rw [block_eq_absorb site' (Words.traverse_place hw) (by simp [Block.place]), he]
  simp [absorb, flowOf, Log.append_nil]

/-- A line that sets a cycle up does what it does without the words for a place, with a bare line
after it that has them. -/
theorem blocks_parts (text : String)
    (hg : lastOf Motion.group b.g = some 81 ∨ lastOf Motion.group b.g = some 83)
    (hm : ∀ code ∈ b.m, code ∉ [2, 30]) (hw : b.words.traverse s.registers.resolve = .ok w)
    (hplace : b.words.hasPlace = true) :
    ∃ moves, (s.block site b).1.log = s.log.append moves ∧
      s.blocks [({ site with text }, b.withoutPlace), (site', b.place)] =
        ({ (s.block site b).1 with
            log := s.log.append (moves.map (Segment.retag fun _ ↦ site'.tag)) },
          (s.block site b).2) := by
  obtain ⟨pecking, hmotion⟩ := Motion.exists_last? hg
  have hplace := (Words.hasPlace_of_traverse hw).trans hplace
  have hfirst := block_eq_absorb (s := s) (b := b.withoutPlace) { site with text }
    (Words.traverse_withoutPlace hw) hm
  rw [block_eq_absorb site hw hm]
  rcases Effect.ofBlock_cases (m := s.modal) site text hmotion hplace with
    ⟨m, notices, cause, he, he'⟩ | ⟨m, notices, hactive, he, he'⟩
  · rw [show b.withoutPlace.g = b.g from rfl, he'] at hfirst
    rw [he, blocks_cons_of_fail hfirst]
    exact ⟨[], rfl, rfl⟩
  · rw [show b.withoutPlace.g = b.g from rfl, he'] at hfirst
    rw [he, blocks_cons_of_next hfirst, blocks_singleton, block_place site site' hw hplace hactive]
    exact ⟨(Effect.hole site m w).moves, rfl, rfl⟩

/-- The state after moves from where the tool stands. -/
def moved (s : State) (moves : List (Segment Float)) : State :=
  { s with
    modal := { s.modal with position := Cycle.finish s.modal.position moves }
    log := s.log.append moves }

theorem moved_moved (s : State) (moves more : List (Segment Float)) :
    (s.moved moves).moved more = s.moved (moves ++ more) := by
  simp only [moved, Cycle.finish_append, Log.append_append]

/-- A bare line drills a hole at its place with the cycle in force. -/
theorem block_ofPlace (site : Site) (x y : Float) (habsolute : s.modal.positioning = .absolute)
    (hactive : s.modal.cycle.isActive = true) :
    s.block site (.ofPlace x y) =
      match s.modal.cycle.expand s.modal.position x y site.tag with
      | .ok moves => (s.moved moves, .next)
      | .error q => (s, .fail (.invalidPeckDepth q)) := by
  have hx : s.modal.axis s.modal.position.x (some x) = x := by rw [Modal.axis, habsolute]
  have hy : s.modal.axis s.modal.position.y (some y) = y := by rw [Modal.axis, habsolute]
  have he : Effect.ofBlock site s.modal [] { x := some x, y := some y } =
      Effect.hole site s.modal { x := some x, y := some y } :=
    Effect.ofBlock_place (w := { x := some x, y := some y }) hactive rfl
  rw [Effect.hole] at he
  dsimp only at he
  rw [hx, hy] at he
  rw [block_eq_absorb (w := { x := some x, y := some y }) site rfl (by simp [Block.ofPlace])]
  dsimp only [Block.ofPlace]
  rw [he]
  cases s.modal.cycle.expand s.modal.position x y site.tag with
  | ok moves => simp [absorb, flowOf, moved]
  | error q => simp [absorb, flowOf, Log.append_nil]

@[simp] theorem moved_nil (s : State) : s.moved [] = s := by
  rw [moved, Log.append_nil]
  rfl

/-- The move without a line that it comes from. -/
def plain : Segment Float → Segment Float := Segment.retag fun _ ↦ {}

/-- Bare lines for some places. -/
def placeLines (holes : List (Site × Float × Float)) : List (Site × Block) :=
  holes.map fun h ↦ (h.1, .ofPlace h.2.1 h.2.2)

/-- What bare lines for some places come to, beside what a list of the places comes to. -/
inductive Drills (s : State) (holes : List (Site × Float × Float)) :
    Except Float (List (Segment Float)) → State × Flow → Prop where
  /-- Both make the same moves, but for where they come from. The run goes on where they end. -/
  | done (made : List (Segment Float)) : Drills s holes (.ok (made.map plain)) (s.moved made, .next)
  /-- Both drill the holes before one of them, and refuse that one for its step. -/
  | refused {before rest : List (Site × Float × Float)} {site : Site} {x y q : Float}
      {made : List (Segment Float)} (split : holes = before ++ (site, x, y) :: rest)
      (listed : s.modal.cycle.drillAll s.modal.position (before.map Prod.snd) =
        .ok (made.map plain))
      (lined : s.blocks (placeLines before) = (s.moved made, .next))
      (hole : s.modal.cycle.expand (Cycle.finish s.modal.position made) x y {} = .error q)
      (line : (s.moved made).block site (.ofPlace x y) =
        (s.moved made, .fail (.invalidPeckDepth q))) :
      Drills s holes (.error q) (s.moved made, .fail (.invalidPeckDepth q))

theorem expand_plain (cycle : Cycle Float) (start : Point Float) (x y : Float) (tag : Tag) :
    cycle.expand start x y {} = (cycle.expand start x y tag).map (List.map plain) :=
  cycle.expand_retag (fun _ ↦ {}) tag start x y

/-- One hole that is drilled before others. -/
theorem Drills.cons {x y : Float} {moves : List (Segment Float)}
    {rest : List (Site × Float × Float)} {result : Except Float (List (Segment Float))}
    {outcome : State × Flow}
    (hexpand : s.modal.cycle.expand s.modal.position x y {} = .ok (moves.map plain))
    (hblock : s.block site (.ofPlace x y) = (s.moved moves, .next))
    (h : Drills (s.moved moves) rest result outcome) :
    Drills s ((site, x, y) :: rest) (result.map (moves.map plain ++ ·)) outcome := by
  have hfinish : Cycle.finish s.modal.position (moves.map plain) = (s.moved moves).modal.position :=
    Cycle.finish_retag ..
  cases h with
  | done made =>
    rw [moved_moved, Except.map, ← List.map_append]
    exact .done _
  | @refused before after _ _ _ _ _ split listed lined hole line =>
    rw [moved_moved] at lined line ⊢
    have hsplit : (site, x, y) :: rest = ((site, x, y) :: before) ++ _ :: after :=
      congrArg ((site, x, y) :: ·) split
    refine .refused hsplit ?_ ?_ ?_ line
    · rw [List.map_cons, Cycle.drillAll_cons_of_ok hexpand, hfinish, List.map_append]
      exact congrArg (Except.map (moves.map plain ++ ·)) listed
    · rw [placeLines, List.map_cons, blocks_cons_of_next hblock]
      exact lined
    · rw [Cycle.finish_append]
      exact hole

/-- Bare lines do what a list of their places does. By induction on the places, each from where the
hole before leaves the tool. -/
theorem drills_blocks (holes : List (Site × Float × Float))
    (habsolute : s.modal.positioning = .absolute) (hactive : s.modal.cycle.isActive = true) :
    Drills s holes (s.modal.cycle.drillAll s.modal.position (holes.map Prod.snd))
      (s.blocks (placeLines holes)) := by
  induction holes generalizing s with
  | nil =>
    have h : Drills s [] (.ok []) (s.moved [], .next) := .done []
    rwa [moved_nil] at h
  | cons hole rest ih =>
    obtain ⟨site, x, y⟩ := hole
    have hblock := block_ofPlace site x y habsolute hactive
    have hexpand := expand_plain s.modal.cycle s.modal.position x y site.tag
    rw [List.map_cons, placeLines, List.map_cons]
    cases hmoves : s.modal.cycle.expand s.modal.position x y site.tag with
    | error q =>
      rw [hmoves] at hblock hexpand
      rw [Cycle.drillAll_cons_of_error hexpand, blocks_cons_of_fail hblock]
      have hfirst : (s.moved []).block site (.ofPlace x y) =
          (s.moved [], .fail (.invalidPeckDepth q)) := by
        rw [moved_nil]
        exact hblock
      have h : Drills s ((site, x, y) :: rest) (.error q)
          (s.moved [], .fail (.invalidPeckDepth q)) :=
        .refused (List.nil_append _).symm rfl (by rw [moved_nil]; rfl) hexpand hfirst
      rwa [moved_nil] at h
    | ok moves =>
      rw [hmoves] at hblock hexpand
      have hfinish : Cycle.finish s.modal.position (moves.map plain) =
          (s.moved moves).modal.position := Cycle.finish_retag ..
      rw [Cycle.drillAll_cons_of_ok hexpand, blocks_cons_of_next hblock, hfinish]
      exact (ih (s := s.moved moves) habsolute hactive).cons hexpand hblock

/-- The ways to drill agree. With a cycle in force and absolute coordinates, bare lines make the
moves of the list of their places, end where these end, and fail where the list is refused, for the
same step. A line that sets a cycle up and has a place does what it does without the place and a
bare line after it that has the place: only the tags of the moves say on which line the hole is
drilled. -/
theorem drilling_agrees :
    (∀ (s : State) (holes : List (Site × Float × Float)), s.modal.positioning = .absolute →
      s.modal.cycle.isActive = true →
        Drills s holes (s.modal.cycle.drillAll s.modal.position (holes.map Prod.snd))
          (s.blocks (placeLines holes))) ∧
    ∀ (s : State) (site site' : Site) (text : String) (b : Block) (w : Words Float),
      lastOf Motion.group b.g = some 81 ∨ lastOf Motion.group b.g = some 83 →
      (∀ code ∈ b.m, code ∉ [2, 30]) → b.words.traverse s.registers.resolve = .ok w →
      b.words.hasPlace = true →
        ∃ moves, (s.block site b).1.log = s.log.append moves ∧
          s.blocks [({ site with text }, b.withoutPlace), (site', b.place)] =
            ({ (s.block site b).1 with
                log := s.log.append (moves.map (Segment.retag fun _ ↦ site'.tag)) },
              (s.block site b).2) :=
  ⟨fun _ holes habsolute hactive ↦ drills_blocks holes habsolute hactive,
    fun _ _ _ text _ _ hg hm hw hplace ↦ blocks_parts text hg hm hw hplace⟩

/-- With a cycle in force, above the first hole. -/
def ready : State := { modal := { cycle := .drill (-2) 1, position := ⟨0, 0, 1⟩ } }

/-- Two bare lines. -/
def twoHoles : List (Site × Float × Float) :=
  [(⟨4, "X1 Y1", 2, 5⟩, 1, 1), (⟨5, "X5 Y1", 2, 5⟩, 5, 1)]

/-- A line for a hole of two pecks. -/
def peckedHole : Block where
  g := [83]
  words :=
    { x := some (.literal 1), z := some (.literal (-2)), r := some (.literal 1)
      q := some (.literal 1) }

/-- Two holes of one cycle, and a pecked hole on one line and on two. -/
theorem drilling_agrees_twoHoles :
    Drills ready twoHoles (ready.modal.cycle.drillAll ready.modal.position (twoHoles.map Prod.snd))
        (ready.blocks (placeLines twoHoles)) ∧
      (ready.blocks (placeLines twoHoles)).1.log.size = 4 ∧
      ∃ moves, ((start {}).block ⟨1, "G83 X1 Z-2 R1 Q1", 0, 5⟩ peckedHole).1.log =
          (start {}).log.append moves ∧ moves.length = 4 ∧
        ((start {}).blocks [(⟨1, "G83 Z-2 R1 Q1", 0, 5⟩, peckedHole.withoutPlace),
          (⟨2, "X1", 0, 5⟩, peckedHole.place)]).1.log =
            (start {}).log.append (moves.map (Segment.retag fun _ ↦ ⟨0, 2⟩)) := by
  obtain ⟨moves, hlog, hblocks⟩ := drilling_agrees.2 (start {}) ⟨1, "G83 X1 Z-2 R1 Q1", 0, 5⟩
    ⟨2, "X1", 0, 5⟩ "G83 Z-2 R1 Q1" peckedHole
    { x := some 1, z := some (-2), r := some 1, q := some 1 } (.inr rfl) (by simp [peckedHole]) rfl
    rfl
  refine ⟨drilling_agrees.1 ready twoHoles rfl rfl, rfl, moves, hlog, ?_, ?_⟩
  · have hsize : ((start {}).block ⟨1, "G83 X1 Z-2 R1 Q1", 0, 5⟩ peckedHole).1.log.size = 4 := by
      decide +kernel
    rwa [hlog, Log.size_eq, Log.toList_append] at hsize
  · rw [hblocks]
    rfl

end State

end Toolpath
