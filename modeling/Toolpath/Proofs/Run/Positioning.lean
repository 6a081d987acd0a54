import Toolpath.Proofs.Run.Motion
import Toolpath.Proofs.Run.Record

/-!
# The positioning of a line

`Program.StartsIn p i q` derives from the text of a program how coordinates are meant when line `i`
starts: from the line before, or, after a command to repeat, from the line its block starts at.
Where no label stands on two lines there is one such `q` (`StartsIn.unique`). A run keeps to it
through every pass, return and skipped block (`Reachable.placed`), so whenever a run comes to a
line, coordinates are meant the same way: `positioning_unique`.
-/

namespace Toolpath

/-! ## What a line does to the positioning -/

namespace Positioning

/-- How coordinates are meant after a code. -/
def after (q : Positioning) : (code : Nat) → Positioning
  | 90 => .absolute
  | 91 => .incremental
  | _ => q

theorem after_of_motion {code : Nat} {motion : Motion} (q : Positioning)
    (h : Motion.ofCode? code = some motion) : q.after code = q := by
  unfold Motion.ofCode? at h
  split at h
  all_goals first | rfl | cases h

end Positioning

namespace Modal

theorem positioning_withCode {m m' : Modal} {code : Nat} (h : m.withCode? code = some m') :
    m'.positioning = m.positioning.after code := by
  unfold withCode? at h
  split at h
  all_goals cases h
  all_goals rfl

theorem after_of_withCode_eq_none {m : Modal} {code : Nat} (q : Positioning)
    (h : m.withCode? code = none) : q.after code = q := by
  unfold withCode? at h
  unfold Positioning.after
  split
  · cases h
  · cases h
  · rfl

end Modal

namespace Effect

variable {site : Site} {m : Modal} {w : Words Float} {line : Nat}

/-- No motion changes how coordinates are meant. -/
theorem Performs.positioning {motion : Option Motion} {e : Effect}
    (h : Performs site m w motion e) : e.modal.positioning = m.positioning := by
  cases h with
  | still | straight kind | arc direction | armed cycle notices | drilled cycle notices hmoves
  | refused cycle notices q | placed axis idle => rfl

theorem positioning_add (s : Setup) (code : Nat) :
    (s.add line code).modal.positioning = s.modal.positioning.after code := by
  rw [Setup.add]
  split
  · rename_i motion h
    exact (Positioning.after_of_motion _ h).symm
  · split
    · rename_i modal h
      exact Modal.positioning_withCode h
    · rename_i h
      exact (Modal.after_of_withCode_eq_none _ h).symm

theorem positioning_foldl_add (codes : List Nat) (s : Setup) :
    (codes.foldl (Setup.add line) s).modal.positioning =
      codes.foldl Positioning.after s.modal.positioning := by
  induction codes generalizing s with
  | nil => rfl
  | cons code rest ih =>
    rw [List.foldl_cons, List.foldl_cons, ih, positioning_add]

theorem positioning_ofBlock (codes : List Nat) :
    (ofBlock site m codes w).modal.positioning = codes.foldl Positioning.after m.positioning := by
  rw [ofBlock]
  dsimp only
  rw [(performs_ofMotion ..).positioning, Setup.ofCodes, positioning_foldl_add]

end Effect

/-- How coordinates are meant after an action other than a command to repeat. -/
def Action.positioning (q : Positioning) : Action → Positioning
  | .block b => b.g.foldl Positioning.after q
  | _ => q

namespace State

variable {s t : State} {site : Site}

/-- A command to repeat that goes on to the next line leaves the positioning of its block. -/
theorem positioning_again {command : Repeat} (h : s.act site (.again command) = (t, .next)) :
    ∃ l, s.loop (site.line - 1) command = .ok l ∧ t.modal.positioning = l.positioning := by
  cases acts_of_act h with
  | idle hidle notices => cases hidle
  | skipped hl notices => exact ⟨_, hl, rfl⟩

theorem positioning_act {action : Action} (ha : ∀ command, action ≠ .again command)
    (h : s.act site action = (t, .next)) :
    t.modal.positioning = action.positioning s.modal.positioning := by
  cases acts_of_act h with
  | idle hidle notices =>
    cases hidle with
    | blank | comment | unrecognized => rfl
  | assigned registers => rfl
  | skipped hl notices => exact absurd rfl (ha _)
  | moved hw hc notices hf => exact Effect.positioning_ofBlock _

end State

/-! ## The positioning in which a line starts -/

namespace Program

/-- The labels on line `i`. -/
def labelsAt (p : Program) (i : Nat) : List String :=
  match p.statement? i with
  | none => []
  | some statement => statement.labels

/-- No label stands on two lines. -/
def LabelsUnique (p : Program) : Prop :=
  ∀ i j label, label ∈ p.labelsAt i → label ∈ p.labelsAt j → i = j

/-- Line `i` starts in positioning `q`: as the line before it leaves off, and after a command to
repeat as the line its block starts at. -/
inductive StartsIn (p : Program) : (i : Nat) → (q : Positioning) → Prop where
  | first : StartsIn p 0 .absolute
  | plain {i : Nat} {q : Positioning} {statement : Statement}
      (reads : p.statement? i = some statement)
      (action : ∀ command, statement.action ≠ .again command) (h : StartsIn p i q) :
      StartsIn p (i + 1) (statement.action.positioning q)
  | again {i j : Nat} {q : Positioning} {statement : Statement} {command : Repeat}
      (reads : p.statement? i = some statement) (action : statement.action = .again command)
      (label : command.start ∈ p.labelsAt j) (h : StartsIn p j q) : StartsIn p (i + 1) q

/-- Where labels are unique the text determines the positioning of a line. -/
theorem StartsIn.unique {p : Program} {i : Nat} {q q' : Positioning} (hu : p.LabelsUnique)
    (h : p.StartsIn i q) (h' : p.StartsIn i q') : q = q' := by
  induction h generalizing q' with
  | first =>
    cases h'
    rfl
  | plain reads action h ih =>
    cases h' with
    | plain reads' action' h' =>
      cases reads.symm.trans reads'
      rw [ih h']
    | again reads' action' label' h' =>
      cases reads.symm.trans reads'
      exact absurd action' (action _)
  | again reads action label h ih =>
    cases h' with
    | plain reads' action' h' =>
      cases reads.symm.trans reads'
      exact absurd action (action' _)
    | again reads' action' label' h' =>
      cases reads.symm.trans reads'
      cases action.symm.trans action'
      -- Both derivations go through the line of one label.
      cases hu _ _ _ label label'
      exact ih h'

end Program

/-! ## Runs keep to it -/

/-- What is on record agrees with the text of `p`. -/
structure State.Agrees (p : Program) (s : State) : Prop where
  modes : ∀ i q, s.modes.get? i = some q → p.StartsIn i q
  labels : ∀ label i, s.labels.get? label = some i → label ∈ p.labelsAt i

namespace State.Agrees

variable {p : Program} {s t : State} {index : Nat} {active : List Nat}

theorem of_places (ht : t.places = s.places) (h : s.Agrees p) : t.Agrees p := by
  have hl : t.labels = s.labels := congrArg Prod.fst ht
  have hm : t.modes = s.modes := congrArg Prod.snd ht
  constructor
  · rw [hm]
    exact h.modes
  · rw [hl]
    exact h.labels

theorem declare {label : String} (hq : p.StartsIn index s.modal.positioning)
    (hl : label ∈ p.labelsAt index) (h : s.Agrees p) :
    (State.declare active index s label).Agrees p := by
  constructor
  · intro i q hi
    by_cases hactive : active.contains index = true
    · rw [show (State.declare active index s label).modes = s.modes from if_pos hactive] at hi
      exact h.modes i q hi
    · rw [show (State.declare active index s label).modes = s.modes.set index s.modal.positioning
        from if_neg hactive] at hi
      by_cases hii : i = index
      · subst hii
        obtain rfl : s.modal.positioning = q :=
          Option.some.inj ((Table.get?_set_self ..).symm.trans hi)
        exact hq
      · exact h.modes i q ((Table.get?_set_of_ne _ _ hii).symm.trans hi)
  · intro label' i hi
    by_cases hlabel : label' = label
    · subst hlabel
      obtain rfl : index = i := Option.some.inj ((Table.get?_set_self ..).symm.trans hi)
      exact hl
    · exact h.labels label' i ((Table.get?_set_of_ne _ _ hlabel).symm.trans hi)

theorem declare_all {labels : List String} (hq : p.StartsIn index s.modal.positioning)
    (hl : ∀ label ∈ labels, label ∈ p.labelsAt index) (h : s.Agrees p) :
    (labels.foldl (State.declare active index) s).Agrees p := by
  induction labels generalizing s with
  | nil => exact h
  | cons label rest ih =>
    exact ih hq (fun label' hmem ↦ hl label' (List.mem_cons_of_mem _ hmem))
      (h.declare hq (hl label List.mem_cons_self))

end State.Agrees

/-- Unwinding goes back to the start of a block, or on after the command that opened it. -/
theorem Frame.startsIn_unwind {p : Program} {fs : List Frame} {c : Nat} {q : Positioning}
    (hfs : ∀ f ∈ fs, p.StartsIn f.start f.positioning ∧ p.StartsIn f.resume f.positioning)
    (h : p.StartsIn c q) :
    p.StartsIn (Frame.unwind fs c q).2.1 (Frame.unwind fs c q).2.2 := by
  induction fs generalizing c q with
  | nil => exact h
  | cons f fs ih =>
    obtain ⟨hstart, hresume⟩ := hfs f List.mem_cons_self
    rw [Frame.unwind]
    split
    · split
      · exact hstart
      · exact ih (fun g hg ↦ hfs g (List.mem_cons_of_mem _ hg)) hresume
    · exact h

namespace Machine

variable {p : Program} {o o' : Options} {m m' : Machine}

/-- A machine is where the text of `p` says: so is its positioning, what is on record, and where
each open block goes on. -/
structure Placed (p : Program) (m : Machine) : Prop where
  line : p.StartsIn m.cursor m.state.modal.positioning
  agrees : m.state.Agrees p
  resume : ∀ f ∈ m.frames, p.StartsIn f.resume f.positioning

theorem placed_moveTo {c : Nat} (hr : m.state.Recorded m.frames)
    (h : p.StartsIn c m.state.modal.positioning) (ha : m.state.Agrees p)
    (hm : ∀ f ∈ m.frames, p.StartsIn f.resume f.positioning) : Placed p (moveTo c m) := by
  refine ⟨?_, ⟨ha.modes, ha.labels⟩, ?_⟩
  · exact Frame.startsIn_unwind (fun f hf ↦ ⟨ha.modes _ _ (hr.starts f hf), hm f hf⟩) h
  · intro g hg
    obtain ⟨f, hf, passes, rfl⟩ := Frame.exists_of_mem_unwind hg
    exact hm f hf

/-- The line after a command to repeat starts like the block of the command. -/
theorem startsIn_succ_of_loop {s : State} {i : Nat} {statement : Statement} {command : Repeat}
    {l : Loop} (hs : p.statement? i = some statement) (ha : statement.action = .again command)
    (hr : s.Recorded m.frames) (hag : s.Agrees p) (hl : s.loop i command = .ok l) :
    p.StartsIn l.start l.positioning ∧ p.StartsIn (i + 1) l.positioning := by
  have hstart := hag.modes _ _ (hr.loop hl)
  exact ⟨hstart, .again hs ha (hag.labels _ _ (State.loopOf_of_loop hl).start) hstart⟩

theorem agrees_declared {text : String} {statement : Statement} (h : Placed p m)
    (hs : p.statement? m.cursor = some statement) : (m.declared o text statement).Agrees p := by
  obtain ⟨notices, hh⟩ := heard_eq_told o m text
  rw [declared, hh]
  refine State.Agrees.declare_all h.line ?_ ⟨h.agrees.modes, h.agrees.labels⟩
  intro label hl
  rw [Program.labelsAt, hs]
  exact hl

theorem placed_step (hf : Faithful p m.read) (hr : m.state.Recorded m.frames) (h : Placed p m)
    (hs : step p o m = .inl m') : Placed p m' := by
  cases (move_iff hf).2 hs with
  | @next text statement s hx =>
    have hrec : (m.declared o text statement).Recorded m.frames := recorded_declared hr
    have hag : (m.declared o text statement).Agrees p := agrees_declared h hx.statement?
    refine placed_moveTo (m := { m with state := s, read := m.keep statement })
      (hrec.of_places hx.places) ?_ (hag.of_places hx.places) h.resume
    by_cases ha : ∃ command, statement.action = .again command
    · obtain ⟨command, ha⟩ := ha
      have hacted := hx.acted
      rw [ha] at hacted
      obtain ⟨l, hl, hq⟩ := State.positioning_again hacted
      rw [show s.modal.positioning = l.positioning from hq]
      exact (startsIn_succ_of_loop hx.statement? ha hrec hag hl).2
    · have ha' : ∀ command, statement.action ≠ .again command := fun c hc ↦ ha ⟨c, hc⟩
      rw [show s.modal.positioning = _ from State.positioning_act ha' hx.acted, declared_modal]
      exact .plain hx.statement? ha' h.line
  | @entered text statement s loop hx room =>
    have hrec : (m.declared o text statement).Recorded m.frames := recorded_declared hr
    have hag : (m.declared o text statement).Agrees p := agrees_declared h hx.statement?
    obtain ⟨command, ha, rfl, hl, -⟩ := State.again_of_act hx.acted
    obtain ⟨hstart, hnext⟩ := startsIn_succ_of_loop hx.statement? ha hrec hag hl
    refine ⟨hstart, ⟨hag.modes, hag.labels⟩, ?_⟩
    intro f hf
    rcases List.mem_cons.1 hf with rfl | hf
    · exact hnext
    · exact h.resume f hf

theorem Reachable.placed (h : Reachable p o m) : Placed p m := by
  refine h.induct ?_ fun m m' hr hm hs ↦ placed_step hr.faithful hr.recorded hm hs
  obtain ⟨notices, hn⟩ := start_eq_told p o
  refine ⟨?_, ⟨?_, ?_⟩, fun f hf ↦ by cases hf⟩
  · rw [hn]
    exact .first
  · intro i q hi
    rw [hn] at hi
    cases hi
  · intro label i hi
    rw [hn] at hi
    cases hi

/-- Where labels are unique, how coordinates are meant when a line starts depends on the line alone:
not on the way a run comes to it, nor on the options of the run. -/
theorem positioning_unique (hu : p.LabelsUnique) (h : Reachable p o m) (h' : Reachable p o' m')
    (hc : m.cursor = m'.cursor) :
    m.state.modal.positioning = m'.state.modal.positioning :=
  h.placed.line.unique hu (hc ▸ h'.placed.line)

/-- A block that leaves off in another positioning than it starts in, and is repeated. -/
def changingBlock : Program := .ofLines ["A:", "G91", "REPEAT A"]

theorem labelsUnique_changingBlock : changingBlock.LabelsUnique := by
  have h : ∀ i label, label ∈ changingBlock.labelsAt i → i = 0 := by
    intro i label hl
    match i with
    | 0 => rfl
    | 1 | 2 =>
      rw [show changingBlock.labelsAt _ = [] from rfl] at hl
      cases hl
    | i + 3 =>
      rw [show changingBlock.labelsAt (i + 3) = [] from rfl] at hl
      cases hl
  intro i j label hi hj
  rw [h i label hi, h j label hj]

/-- A run of `changingBlock` comes to its second line twice, the second time in a pass after the
line has changed the positioning. -/
theorem positioning_unique_changingBlock :
    changingBlock.LabelsUnique ∧
      ∃ m m', Reachable changingBlock {} m ∧ Reachable changingBlock {} m' ∧ m.cursor = m'.cursor ∧
        m.frames.length = 0 ∧ m'.frames.length = 1 ∧
        m.state.modal.positioning = m'.state.modal.positioning := by
  have h : ∃ m, Reachable changingBlock {} m ∧ m.cursor = 1 ∧ m.frames.length = 0 :=
    ⟨_, ⟨1, rfl⟩, rfl, rfl⟩
  have h' : ∃ m, Reachable changingBlock {} m ∧ m.cursor = 1 ∧ m.frames.length = 1 :=
    ⟨_, ⟨4, rfl⟩, rfl, rfl⟩
  obtain ⟨m, hm, hc, hl⟩ := h
  obtain ⟨m', hm', hc', hl'⟩ := h'
  have hcc : m.cursor = m'.cursor := hc.trans hc'.symm
  exact ⟨labelsUnique_changingBlock, m, m', hm, hm', hcc, hl, hl',
    positioning_unique labelsUnique_changingBlock hm hm' hcc⟩

end Machine

end Toolpath
