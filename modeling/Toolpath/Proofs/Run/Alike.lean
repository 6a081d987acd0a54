import Toolpath.Proofs.Run.Continuity

/-!
# Lines alike but for settings that decide nothing

Compensation, feed and spindle speed are recorded and never looked at. Modal states, words and
effects are `Like` one another when they agree on the rest. Lines that differ in codes of
compensation and in the numbers given for feed and spindle have effects that are alike
(`Effect.like_ofBlock`): of their codes only those count that are not of compensation
(`like_filter_codes`). So such statements leave states that are alike alike, and go on in the same
way (`State.like_execute`).
-/

namespace Toolpath

/-! ## Results -/

/-- The results are the same error, or values that `R` holds of. -/
inductive SameResult {ε β γ : Type} (R : β → γ → Prop) : Except ε β → Except ε γ → Prop where
  | error (e : ε) : SameResult R (.error e) (.error e)
  | ok {b : β} {c : γ} (h : R b c) : SameResult R (.ok b) (.ok c)

namespace SameResult

variable {ε β β' γ γ' : Type} {R : β → β' → Prop} {S : γ → γ' → Prop}

theorem same (x : Except ε β) : SameResult (fun _ _ ↦ True) x x := by
  cases x with
  | error e => exact .error e
  | ok b => exact .ok trivial

theorem bind {x : Except ε β} {y : Except ε β'} {f : β → Except ε γ} {g : β' → Except ε γ'}
    (h : SameResult R x y) (hf : ∀ b c, R b c → SameResult S (f b) (g c)) :
    SameResult S (x >>= f) (y >>= g) := by
  cases h with
  | error e => exact .error e
  | ok h => exact hf _ _ h

theorem bind_same {x : Except ε β} {f : β → Except ε γ} {g : β → Except ε γ'}
    (h : ∀ b, SameResult S (f b) (g b)) : SameResult S (x >>= f) (x >>= g) := by
  cases x with
  | error e => exact .error e
  | ok b => exact h b

end SameResult

/-! ## Words -/

namespace Words

variable {β : Type} {w w' : Words β}

/-- The words are the same but for feed and spindle. -/
structure Like (w w' : Words β) : Prop where
  i : w'.i = w.i
  j : w'.j = w.j
  p : w'.p = w.p
  q : w'.q = w.q
  r : w'.r = w.r
  x : w'.x = w.x
  y : w'.y = w.y
  z : w'.z = w.z

theorem Like.hasAxis (h : w.Like w') : w'.hasAxis = w.hasAxis := by
  rw [Words.hasAxis, h.x, h.y, h.z, Words.hasAxis]

theorem Like.hasPlace (h : w.Like w') : w'.hasPlace = w.hasPlace := by
  rw [Words.hasPlace, h.x, h.y, Words.hasPlace]

end Words

/-- The values are the same, or both are numbers. -/
inductive Rated : Option Value → Option Value → Prop where
  | same (v : Option Value) : Rated v v
  | literal (x y : Float) : Rated (some (.literal x)) (some (.literal y))

/-- The words are the same but for the numbers given for feed and spindle. -/
structure Words.Rerated (w w' : Words Value) : Prop extends w.Like w' where
  feed : Rated w.f w'.f
  spindle : Rated w.s w'.s

/-- Words that are the same but for numbers have values that are, or need the same register. -/
theorem Words.Rerated.traverse {w w' : Words Value} (h : w.Rerated w') (r : Registers) :
    SameResult Words.Like (w.traverse r.resolve) (w'.traverse r.resolve) := by
  obtain ⟨hlike, hfeed, hspindle⟩ := h
  obtain ⟨f, i, j, p, q, r', s, x, y, z⟩ := w
  obtain ⟨f', i', j', p', q', r'', s', x', y', z'⟩ := w'
  obtain ⟨rfl, rfl, rfl, rfl, rfl, rfl, rfl, rfl⟩ := hlike
  simp only [Words.traverse] at hfeed hspindle ⊢
  refine .bind (R := fun _ _ ↦ True) ?_ fun f f' _ ↦ ?_
  · cases hfeed with
    | same => exact .same _
    | literal x y => exact .ok trivial
  refine .bind_same fun i ↦ .bind_same fun j ↦ .bind_same fun p ↦ .bind_same fun q ↦
    .bind_same fun r' ↦ ?_
  refine .bind (R := fun _ _ ↦ True) ?_ fun s s' _ ↦ ?_
  · cases hspindle with
    | same => exact .same _
    | literal x y => exact .ok trivial
  refine .bind_same fun x ↦ .bind_same fun y ↦ .bind_same fun z ↦ ?_
  exact .ok ⟨rfl, rfl, rfl, rfl, rfl, rfl, rfl, rfl⟩

/-! ## Modal states -/

/-- The codes that say on which side of the path the cutter is kept. -/
def Compensation.isCode (code : Nat) : Bool := code == 40 || code == 41 || code == 42

namespace Modal

variable {m m' m₁ : Modal} {code : Nat}

/-- The modal states agree on all that decides anything. -/
structure Like (m m' : Modal) : Prop where
  positioning : m'.positioning = m.positioning
  cycle : m'.cycle = m.cycle
  position : m'.position = m.position

theorem Like.refl (m : Modal) : m.Like m := ⟨rfl, rfl, rfl⟩

theorem Like.symm (h : m.Like m') : m'.Like m :=
  ⟨h.positioning.symm, h.cycle.symm, h.position.symm⟩

theorem Like.trans (h : m.Like m') (h' : m'.Like m₁) : m.Like m₁ :=
  ⟨h'.positioning.trans h.positioning, h'.cycle.trans h.cycle, h'.position.trans h.position⟩

theorem Like.axis (h : m.Like m') (current : Float) (x? : Option Float) :
    m'.axis current x? = m.axis current x? := by
  cases x? with
  | none => rfl
  | some x => rw [Modal.axis, Modal.axis, h.positioning]

theorem Like.moved (h : m.Like m') (position : Point Float) :
    Like { m with position } { m' with position } :=
  ⟨h.positioning, h.cycle, rfl⟩

theorem Like.recycled (h : m.Like m') (cycle : Cycle Float) :
    Like { m with cycle } { m' with cycle } :=
  ⟨h.positioning, rfl, h.position⟩

/-- Codes of compensation change nothing that decides anything. -/
theorem like_of_isCode (h : Compensation.isCode code = true) (m : Modal) :
    ∃ m₁, m.withCode? code = some m₁ ∧ m.Like m₁ := by
  simp only [Compensation.isCode, Bool.or_eq_true, beq_iff_eq] at h
  rcases h with (rfl | rfl) | rfl
  all_goals exact ⟨_, rfl, rfl, rfl, rfl⟩

/-- Every code does the same to what decides anything. -/
theorem Like.withCode? (h : m.Like m') (code : Nat) :
    Option.Rel Like (m.withCode? code) (m'.withCode? code) := by
  obtain ⟨hpositioning, hcycle, hposition⟩ := h
  unfold Modal.withCode?
  split
  case h_1 | h_2 => exact .some ⟨rfl, hcycle, hposition⟩
  case h_3 | h_4 | h_5 => exact .some ⟨hpositioning, hcycle, hposition⟩
  case h_6 => exact .some ⟨hpositioning, rfl, hposition⟩
  case h_7 => exact .none

end Modal

theorem Motion.ofCode?_of_isCode {code : Nat} (h : Compensation.isCode code = true) :
    ofCode? code = none := by
  simp only [Compensation.isCode, Bool.or_eq_true, beq_iff_eq] at h
  rcases h with (rfl | rfl) | rfl
  all_goals rfl

/-! ## Effects of a line -/

namespace Effect

variable {site : Site} {m m' : Modal} {w w' : Words Float} {e e' : Effect} {text : String}
  {line : Nat}

/-- The effects are alike but for the settings that decide nothing, up to notices. -/
structure Like (e e' : Effect) : Prop where
  modal : e.modal.Like e'.modal
  moves : e'.moves = e.moves
  cause : e'.cause = e.cause

theorem Like.told (h : e.Like e') (notices notices' : List Notice) :
    Like { e with notices } { e' with notices := notices' } :=
  ⟨h.modal, h.moves, h.cause⟩

theorem target_like (hm : m.Like m') (hw : w.Like w') : target m' w' = target m w := by
  simp only [target, Modal.target, hm.axis, hm.position, hw.x, hw.y, hw.z]

theorem centre_like (hw : w.Like w') : centre w' = centre w := by
  rw [centre, hw.i, hw.j, hw.r, centre]

theorem like_straight (kind : Kind) (hm : m.Like m') (hw : w.Like w') :
    Like (straight site kind m w) (straight { site with text } kind m' w') := by
  rw [straight, straight, hw.hasAxis, target_like hm hw, hm.position]
  split
  · exact ⟨hm.moved _, rfl, rfl⟩
  · exact ⟨hm, rfl, rfl⟩

theorem like_arc (direction : Arc.Direction) (hm : m.Like m') (hw : w.Like w') :
    Like (arc site direction m w) (arc { site with text } direction m' w') := by
  rw [arc, arc, target_like hm hw, centre_like hw, hm.position]
  exact ⟨hm.moved _, rfl, rfl⟩

theorem like_hole (hm : m.Like m') (hw : w.Like w') :
    Like (hole site m w) (hole { site with text } m' w') := by
  rw [hole, hole, hm.axis, hm.axis, hm.position, hm.cycle, hw.x, hw.y,
    show Site.tag { site with text } = site.tag from rfl]
  split
  · exact ⟨⟨hm.positioning, rfl, rfl⟩, rfl, rfl⟩
  · exact ⟨hm, rfl, rfl⟩

theorem like_holeIfPlaced (hm : m.Like m') (hw : w.Like w') :
    Like (holeIfPlaced site m w) (holeIfPlaced { site with text } m' w') := by
  rw [holeIfPlaced, holeIfPlaced, hw.hasPlace]
  split
  · exact like_hole hm hw
  · exact ⟨hm, rfl, rfl⟩

theorem like_activate (pecking : Bool) (hm : m.Like m') (hw : w.Like w') :
    Like (activate site pecking m w) (activate { site with text } pecking m' w') := by
  rw [activate, activate, hw.z, hw.r, hw.q, hm.cycle, hm.position]
  refine Like.told ?_ _ _
  cases pecking with
  | false => exact like_holeIfPlaced ⟨hm.positioning, rfl, rfl⟩ hw
  | true =>
    simp only [if_true]
    split
    · exact like_holeIfPlaced ⟨hm.positioning, rfl, rfl⟩ hw
    · exact ⟨hm, rfl, rfl⟩

theorem adjust_like (hw : w.Like w') (cycle : Cycle Float) : adjust w' cycle = adjust w cycle := by
  cases cycle with
  | idle => rfl
  | drill z r => rw [adjust, adjust, hw.z, hw.r]
  | peck z r q => rw [adjust, adjust, hw.z, hw.r, hw.q]

theorem like_bare (hm : m.Like m') (hw : w.Like w') :
    Like (bare site m w) (bare { site with text } m' w') := by
  rw [bare, bare, hm.cycle, adjust_like hw, hw.hasAxis, target_like hm hw]
  split
  · split
    · exact ⟨⟨hm.positioning, rfl, rfl⟩, rfl, rfl⟩
    · exact ⟨hm, rfl, rfl⟩
  · dsimp only
    split
    · split
      · exact like_holeIfPlaced (hm.recycled _) hw
      · exact ⟨hm.recycled _, rfl, rfl⟩
    · exact like_holeIfPlaced (hm.recycled _) hw

theorem like_ofMotion (motion : Option Motion) (hm : m.Like m') (hw : w.Like w') :
    Like (ofMotion site motion m w) (ofMotion { site with text } motion m' w') := by
  cases motion with
  | none => exact like_bare hm hw
  | some motion =>
    cases motion with
    | straight kind => exact like_straight kind hm hw
    | arc direction => exact like_arc direction hm hw
    | drill => exact like_activate false hm hw
    | peck => exact like_activate true hm hw

/-! ## Codes -/

/-- The setups are alike but for the settings that decide nothing, up to notices. -/
structure Setup.Like (s s' : Setup) : Prop where
  modal : s.modal.Like s'.modal
  motion : s'.motion = s.motion

variable {s s' s₁ : Setup}

theorem Setup.Like.symm (h : s.Like s') : s'.Like s := ⟨h.modal.symm, h.motion.symm⟩

theorem Setup.Like.trans (h : s.Like s') (h' : s'.Like s₁) : s.Like s₁ :=
  ⟨h.modal.trans h'.modal, h'.motion.trans h.motion⟩

theorem Setup.Like.add (h : s.Like s') (code : Nat) :
    (s.add line code).Like (s'.add line code) := by
  rw [Setup.add, Setup.add]
  split
  · exact ⟨h.modal, rfl⟩
  · have hcode := h.modal.withCode? code
    generalize s.modal.withCode? code = modal? at hcode ⊢
    generalize s'.modal.withCode? code = modal'? at hcode ⊢
    cases hcode with
    | some hm => exact ⟨hm, h.motion⟩
    | none => exact ⟨h.modal, h.motion⟩

theorem Setup.like_add_of_isCode {code : Nat} (h : Compensation.isCode code = true) (s : Setup) :
    s.Like (s.add line code) := by
  obtain ⟨m, hm, hlike⟩ := Modal.like_of_isCode h s.modal
  rw [Setup.add, Motion.ofCode?_of_isCode h]
  dsimp only
  rw [hm]
  exact ⟨hlike, rfl⟩

/-- What codes come to is what the codes among them come to that are not of compensation. -/
theorem like_filter_codes (line : Nat) (h : s.Like s') (codes : List Nat) :
    ((codes.filter (!Compensation.isCode ·)).foldl (Setup.add line) s).Like
      (codes.foldl (Setup.add line) s') := by
  induction codes generalizing s s' with
  | nil => exact h
  | cons code rest ih =>
    by_cases hcode : Compensation.isCode code = true
    · rw [List.filter_cons_of_neg (by simp [hcode]), List.foldl_cons]
      exact ih (h.trans (Setup.like_add_of_isCode hcode s'))
    · rw [List.filter_cons_of_pos (by simpa using hcode), List.foldl_cons, List.foldl_cons]
      exact ih (h.add code)

theorem like_ofCodes (hm : m.Like m') {g g' : List Nat}
    (hg : g'.filter (!Compensation.isCode ·) = g.filter (!Compensation.isCode ·)) :
    (Setup.ofCodes line m g).Like (Setup.ofCodes line m' g') := by
  have h : Setup.Like { modal := m } { modal := m } := ⟨.refl m, rfl⟩
  have h' : Setup.Like { modal := m } { modal := m' } := ⟨hm, rfl⟩
  have hfirst := (like_filter_codes line h g).symm
  rw [← hg] at hfirst
  exact hfirst.trans (like_filter_codes line h' g')

/-- Lines with the same words and codes but for what decides nothing have the same effect. -/
theorem like_ofBlock (hm : m.Like m') (hw : w.Like w') {g g' : List Nat}
    (hg : g'.filter (!Compensation.isCode ·) = g.filter (!Compensation.isCode ·)) :
    Like (ofBlock site m g w) (ofBlock { site with text } m' g' w') := by
  have hrated : Modal.Like { m with feed := w.f <|> m.feed, spindle := w.s <|> m.spindle }
      { m' with feed := w'.f <|> m'.feed, spindle := w'.s <|> m'.spindle } :=
    ⟨hm.positioning, hm.cycle, hm.position⟩
  have hs : (setup site.line m g w).Like (setup site.line m' g' w') := like_ofCodes hrated hg
  have hmotion : Like (ofMotion site (setup site.line m g w).motion (setup site.line m g w).modal w)
      (ofMotion { site with text } (setup site.line m' g' w').motion
        (setup site.line m' g' w').modal w') := by
    rw [hs.motion]
    exact like_ofMotion _ hs.modal hw
  exact hmotion.told _ _

end Effect

/-! ## Statements -/

/-- The lines are the same but for codes of compensation and the numbers for feed and spindle. -/
structure Block.Like (b b' : Block) : Prop where
  g : b'.g.filter (!Compensation.isCode ·) = b.g.filter (!Compensation.isCode ·)
  m : b'.m = b.m
  words : b.words.Rerated b'.words

theorem Block.Like.refl (b : Block) : b.Like b :=
  ⟨rfl, rfl, ⟨rfl, rfl, rfl, rfl, rfl, rfl, rfl, rfl⟩, .same _, .same _⟩

/-- The actions are the same, or lines of words that are the same but for what decides nothing. -/
inductive Action.Like : Action → Action → Prop where
  | same (action : Action) : Like action action
  | block {b b' : Block} (h : b.Like b') : Like (.block b) (.block b')

structure Statement.Like (a a' : Statement) : Prop where
  labels : a'.labels = a.labels
  action : a.action.Like a'.action

namespace State

variable {s t : State} {site : Site} {text : String} {active : List Nat} {index : Nat}

/-- The states are the same but for settings that decide nothing, up to notices. -/
structure Like (s t : State) : Prop where
  modal : s.modal.Like t.modal
  registers : t.registers = s.registers
  labels : t.labels = s.labels
  modes : t.modes = s.modes
  log : t.log = s.log

theorem Like.told (h : s.Like t) (notices notices' : Array Notice) :
    (s.told notices).Like (t.told notices') :=
  ⟨h.modal, h.registers, h.labels, h.modes, h.log⟩

theorem Like.setPositioning (h : s.Like t) (q : Positioning) :
    (s.setPositioning q).Like (t.setPositioning q) :=
  ⟨⟨rfl, h.modal.cycle, h.modal.position⟩, h.registers, h.labels, h.modes, h.log⟩

theorem Like.declare (h : s.Like t) (label : String) :
    (declare active index s label).Like (declare active index t label) := by
  refine ⟨h.modal, h.registers, ?_, ?_, h.log⟩
  · rw [State.declare, State.declare, h.labels]
  · rw [State.declare, State.declare, h.modes, h.modal.positioning]

theorem Like.declare_all (h : s.Like t) (labels : List String) :
    (labels.foldl (State.declare active index) s).Like
      (labels.foldl (State.declare active index) t) := by
  induction labels generalizing s t with
  | nil => exact h
  | cons label rest ih => exact ih (h.declare label)

/-- An action goes on in the same way and leaves alike what it finds alike. -/
structure SameAct (a a' : State × Flow) : Prop where
  state : a.1.Like a'.1
  flow : a'.2 = a.2

theorem Like.assign (h : s.Like t) (pairs : List (Nat × Value)) :
    SameAct (s.assign pairs) (t.assign pairs) := by
  induction pairs generalizing s t with
  | nil => exact ⟨h, rfl⟩
  | cons pair rest ih =>
    rw [State.assign, State.assign, h.registers]
    cases s.registers.resolve pair.2 with
    | ok x => exact ih ⟨h.modal, rfl, h.labels, h.modes, h.log⟩
    | error n => exact ⟨h, rfl⟩

theorem Like.line (h : s.Like t) (label : String) : t.line label = s.line label := by
  rw [State.line, State.line, h.labels]

theorem Like.stopLine (h : s.Like t) (index : Nat) (stop : Option String) :
    t.stopLine index stop = s.stopLine index stop := by
  cases stop with
  | none => rfl
  | some label => exact h.line label

theorem Like.count (h : s.Like t) (value : Option Value) : t.count value = s.count value := by
  cases value with
  | none => rfl
  | some value => rw [State.count, State.count, h.registers]

theorem Like.loop (h : s.Like t) (index : Nat) (command : Repeat) :
    t.loop index command = s.loop index command := by
  simp only [State.loop, h.line, h.stopLine, h.count, h.modes, h.modal.positioning]

theorem Like.again (h : s.Like t) (command : Repeat) :
    SameAct (s.again site command) (t.again { site with text } command) := by
  rw [State.again, State.again, h.loop]
  dsimp only
  split
  · exact ⟨h, rfl⟩
  · split
    · exact ⟨h.setPositioning _, rfl⟩
    · split
      · exact ⟨(h.setPositioning _).told _ _, rfl⟩
      · exact ⟨h, rfl⟩

theorem Like.absorb (h : s.Like t) {e e' : Effect} (he : e.Like e') :
    (s.absorb e).Like (t.absorb e') := by
  refine ⟨he.modal, h.registers, h.labels, h.modes, ?_⟩
  rw [State.absorb, State.absorb, h.log, he.moves]

theorem Like.block (h : s.Like t) {b b' : Block} (hb : b.Like b') :
    SameAct (s.block site b) (t.block { site with text } b') := by
  have hw := hb.words.traverse s.registers
  rw [State.block, State.block, h.registers, hb.m]
  generalize b.words.traverse s.registers.resolve = words at hw ⊢
  generalize b'.words.traverse s.registers.resolve = words' at hw ⊢
  cases hw with
  | error n => exact ⟨h, rfl⟩
  | @ok w w' hw =>
    have he : (Effect.ofBlock site s.modal b.g w).Like
        (Effect.ofBlock { site with text } t.modal b'.g w') :=
      Effect.like_ofBlock h.modal hw hb.g
    dsimp only
    rw [he.cause]
    split
    · exact ⟨h.absorb he, rfl⟩
    · exact ⟨(h.absorb he).told _ _, rfl⟩
    · exact ⟨h.absorb he, rfl⟩

theorem Like.act (h : s.Like t) {action action' : Action} (ha : action.Like action') :
    SameAct (s.act site action) (t.act { site with text } action') := by
  cases ha with
  | block hb => exact h.block hb
  | same =>
    cases action with
    | blank | comment => exact ⟨h, rfl⟩
    | unrecognized => exact ⟨h.told _ _, rfl⟩
    | assign pairs => exact h.assign pairs
    | again command => exact h.again command
    | block b => exact h.block (.refl b)

/-- Statements that are alike do the same to states that are alike. -/
theorem like_execute (site : Site) (text : String) (active : List Nat) (h : s.Like t)
    {a a' : Statement} (ha : a.Like a') :
    SameAct (s.execute site active a) (t.execute { site with text } active a') := by
  rw [execute, execute, ha.labels]
  exact (h.declare_all a.labels).act ha.action

end State

end Toolpath
