import Toolpath.Proofs.Run.Record
import Toolpath.Run.Structured

/-!
# Frames execute blocks

A run with a stack of frames comes to what the recursion on blocks comes to. `Machine.Follows` says
that a machine does what an execution of a range of lines did: it comes to the end of the range with
the same frames open, or ends its run in the same way. The line in hand is the case analysis
(`follows_action`, `follows_again`), `follows_passes` is the induction on the passes of a block, and
`follows_executeLines` the induction on the blocks that may still be opened and the lines that are
left. Over a whole program this is `run_eq_runStructured`.
-/

namespace Toolpath

/-- Where the lines end that are executed with some blocks open. -/
def Frame.bound (n : Nat) : List Frame → Nat
  | [] => n
  | f :: _ => f.stop

/-- Two runs ended alike, up to what the operator was told. -/
structure Finished.Alike (a b : Finished) : Prop where
  quiet : a.state.quiet = b.state.quiet
  outcome : a.outcome = b.outcome

namespace State

variable {s t : State} {site : Site} {index : Nat} {command : Repeat} {l : Loop}

theorem fail_alike (h : s.quiet = t.quiet) (cause : Cause) :
    (s.fail site cause).Alike (t.fail site cause) :=
  ⟨h, rfl⟩

theorem refuse_alike (h : s.quiet = t.quiet) (refusal : Refusal) :
    (s.refuse site refusal).Alike (t.refuse site refusal) := by
  cases refusal with
  | fault cause => exact fail_alike h cause
  | cutCharacter => exact ⟨h, rfl⟩

/-! ## Commands to repeat -/

theorem again_of_error {cause : Cause} (h : s.loop (site.line - 1) command = .error cause) :
    s.again site command = (s, .fail cause) := by
  rw [again, h]

/-- A block without passes or lines is skipped. -/
theorem again_of_skip (site : Site) (h : s.loop (site.line - 1) command = .ok l)
    (hl : l.passes = 0 ∨ l.stop ≤ l.start) :
    ∃ t, s.again site command = (t, .next) ∧ t.quiet = (s.setPositioning l.positioning).quiet := by
  rw [again, h]
  dsimp only
  by_cases hp : l.passes = 0
  · rw [if_pos hp]
    exact ⟨_, rfl, rfl⟩
  · rw [if_neg hp, if_pos (hl.resolve_left hp)]
    exact ⟨_, rfl, rfl⟩

theorem again_of_lines (h : s.loop (site.line - 1) command = .ok l)
    (hl : ¬ (l.passes = 0 ∨ l.stop ≤ l.start)) : s.again site command = (s, .again l) := by
  rw [not_or] at hl
  rw [again, h]
  dsimp only
  rw [if_neg hl.1, if_neg hl.2]

theorem restore_of_get? {i : Nat} {q : Positioning} (h : s.modes.get? i = some q) :
    s.restore i = s.setPositioning q := by
  rw [restore, h]
  rfl

theorem restore_of_loop (h : s.loop index command = .ok l) :
    s.restore l.start = s.setPositioning l.positioning := by
  rw [restore, (loopOf_of_loop h).positioning]

end State

namespace Machine

variable {p : Program} {o : Options} {m m' : Machine} {s u : State} {f : Frame} {fs : List Frame}
  {c n last : Nat} {text : String} {statement : Statement} {r : State ⊕ Finished}

/-! ## On to a line -/

/-- Into a block. -/
def into (f : Frame) (m : Machine) : Machine :=
  { m with frames := f :: m.frames, state := m.state.setPositioning f.positioning }

@[simp] theorem into_frames (f : Frame) (m : Machine) : (m.into f).frames = f :: m.frames := rfl

/-- With other blocks open, in another positioning. -/
def backTo (fs : List Frame) (q : Positioning) (m : Machine) : Machine :=
  { m with frames := fs, state := m.state.setPositioning q }

theorem moveTo_of_ne (h : ∀ f ∈ m.frames.head?, f.stop ≠ c) :
    moveTo c m = { m with cursor := c } := by
  rw [moveTo]
  cases hm : m.frames with
  | nil => rfl
  | cons f fs =>
    have hf : f.stop ≠ c := h f (by rw [hm]; rfl)
    rw [Frame.unwind, if_neg hf]
    rfl

/-- Before the end of the block on top no pass ends. -/
theorem moveTo_of_lt_bound (h : c < Frame.bound n m.frames) :
    moveTo c m = { m with cursor := c } := by
  refine moveTo_of_ne ?_
  intro f hf
  cases hm : m.frames with
  | nil =>
    rw [hm] at hf
    cases hf
  | cons g gs =>
    rw [hm] at hf h
    obtain rfl : g = f := Option.some.inj hf
    exact Nat.ne_of_gt h

theorem enter_eq_moveTo {l : Loop} (h : l.start < l.stop) :
    enter l m =
      moveTo l.start (m.into ⟨l.start, l.stop, l.passes, m.cursor + 1, l.positioning⟩) := by
  rw [moveTo_of_ne]
  · rfl
  · intro f hf
    cases hf
    exact Nat.ne_of_gt h

/-- At the end of a pass that is not the last the block begins again. -/
theorem moveTo_stop (hm : m.frames = f :: fs) (hp : 1 < f.passes) :
    moveTo f.stop m =
      { m.backTo ({ f with passes := f.passes - 1 } :: fs) f.positioning with
        cursor := f.start } := by
  rw [moveTo, hm, Frame.unwind, if_pos rfl, if_pos hp]
  rfl

theorem moveTo_stop_again (hm : m.frames = f :: fs) (hp : 1 < f.passes) (hl : f.start < f.stop) :
    moveTo f.stop m = moveTo f.start
      (({ m with frames := fs } : Machine).into { f with passes := f.passes - 1 }) := by
  rw [moveTo_of_ne (c := f.start)]
  · exact moveTo_stop hm hp
  · intro g hg
    cases hg
    exact Nat.ne_of_gt hl

/-- At the end of the last pass the block is left for the line after its command. -/
theorem moveTo_stop_close (hm : m.frames = f :: fs) (hp : f.passes ≤ 1) :
    moveTo f.stop m = moveTo f.resume (m.backTo fs f.positioning) := by
  rw [moveTo, hm, Frame.unwind, if_pos rfl, if_neg (Nat.not_lt.2 hp)]
  rfl

/-! ## Machines that mirror a state -/

/-- A machine has the state `s` but for notices, with the statements and the records of a run. -/
structure Mirrors (p : Program) (m : Machine) (s : State) : Prop where
  quiet : m.state.quiet = s.quiet
  faithful : Faithful p m.read
  labels : m.state.LabelsBelow p.size
  recorded : m.state.Recorded m.frames

namespace Mirrors

theorem atLine (h : Mirrors p m s) (c : Nat) : Mirrors p { m with cursor := c } s :=
  ⟨h.quiet, h.faithful, h.labels, h.recorded⟩

theorem get?_modes (h : Mirrors p m s) (i : Nat) : s.modes.get? i = m.state.modes.get? i := by
  obtain ⟨notices, rfl⟩ := State.quiet_eq_iff.1 h.quiet
  rfl

theorem get?_modes_start (h : Mirrors p m s) (hm : m.frames = f :: fs) :
    m.state.modes.get? f.start = some f.positioning :=
  h.recorded.starts f (hm ▸ List.mem_cons_self)

/-- Into a block, in the positioning on record for its start. -/
theorem into (h : Mirrors p m s) (hf : m.state.modes.get? f.start = some f.positioning) :
    Mirrors p (m.into f) (s.restore f.start) := by
  refine ⟨?_, h.faithful, h.labels, h.recorded.labels, ?_⟩
  · rw [State.restore_of_get? ((h.get?_modes _).trans hf)]
    exact State.setPositioning_quiet h.quiet _
  · intro g hg
    rcases List.mem_cons.1 hg with rfl | hg
    · exact hf
    · exact h.recorded.starts g hg

/-- With the block on top left. -/
theorem leave (h : Mirrors p m s) (hm : m.frames = f :: fs) :
    Mirrors p { m with frames := fs } s := by
  refine ⟨h.quiet, h.faithful, h.labels, h.recorded.labels, ?_⟩
  intro g hg
  exact h.recorded.starts g (hm ▸ List.mem_cons_of_mem _ hg)

/-- Back among the blocks below, in the positioning on record for a line. -/
theorem backTo {i : Nat} {q : Positioning} (h : Mirrors p m s)
    (hq : m.state.modes.get? i = some q) : Mirrors p (m.backTo m.frames q) (s.restore i) := by
  refine ⟨?_, h.faithful, h.labels, h.recorded.labels, h.recorded.starts⟩
  rw [State.restore_of_get? ((h.get?_modes _).trans hq)]
  exact State.setPositioning_quiet h.quiet _

theorem labelsBelow_declared (h : Mirrors p m s) (hc : m.cursor < p.size) :
    (m.declared o text statement).LabelsBelow p.size := by
  have hb : (m.heard o text).LabelsBelow p.size :=
    State.labelsBelow_of_places heard_places h.labels
  exact State.labelsBelow_declare_all _ statement.labels hc hb

/-- After the statement on the line in hand. -/
theorem executed {t : State} {flow : Flow} (h : Mirrors p m s)
    (hx : Executes p o m text statement (t, flow)) (ht : t.quiet = u.quiet) :
    Mirrors p { m with state := t, read := m.keep statement } u := by
  refine ⟨ht, faithful_keep h.faithful hx.statement?, ?_, ?_⟩
  · exact State.labelsBelow_of_places hx.places (h.labelsBelow_declared hx.lt_size)
  · have hr : (m.declared o text statement).Recorded m.frames := recorded_declared h.recorded
    exact hr.of_places hx.places

end Mirrors

/-! ## Machines that follow an execution -/

/-- From `m` a run does what an execution of the lines before `last` with the blocks `fs` open came
to: it reaches line `last` with the same blocks open, or ends alike. -/
def Follows (p : Program) (o : Options) (fs : List Frame) (last : Nat) (m : Machine) :
    State ⊕ Finished → Prop
  | .inl s => ∃ n m', iterate p o n m = .inl (moveTo last m') ∧ m'.frames = fs ∧ Mirrors p m' s
  | .inr finished => ∃ n finished', iterate p o n m = .inr finished' ∧ finished'.Alike finished

theorem follows_iterate (hi : iterate p o n m = .inl m') (h : Follows p o fs last m' r) :
    Follows p o fs last m r := by
  cases r with
  | inl s =>
    obtain ⟨k, m₁, hk, hm⟩ := h
    exact ⟨n + k, m₁, (iterate_add hi).trans hk, hm⟩
  | inr finished =>
    obtain ⟨k, finished', hk, ha⟩ := h
    exact ⟨n + k, finished', (iterate_add hi).trans hk, ha⟩

theorem follows_step (hs : step p o m = .inl m') (h : Follows p o fs last m' r) :
    Follows p o fs last m r :=
  follows_iterate (n := 1) (iterate_succ_of_inl hs) h

theorem follows_end {a b : Finished} (hs : step p o m = .inr a) (h : a.Alike b) :
    Follows p o fs last m (.inr b) :=
  ⟨1, a, iterate_succ_of_inr hs, h⟩

/-- What comes after an execution, unless it ended the run. -/
def afterwards (rest : State → State ⊕ Finished) : State ⊕ Finished → State ⊕ Finished
  | .inl s => rest s
  | .inr finished => .inr finished

/-- A machine that follows an execution up to a line follows it further if it can go on there. -/
theorem follows_afterwards {gs : List Frame} {middle : Nat} {rest : State → State ⊕ Finished}
    (h : Follows p o gs middle m r)
    (hrest : ∀ m' s, m'.frames = gs → Mirrors p m' s →
      Follows p o fs last (moveTo middle m') (rest s)) :
    Follows p o fs last m (afterwards rest r) := by
  cases r with
  | inl s =>
    obtain ⟨n, m', hi, hm', hs⟩ := h
    exact follows_iterate hi (hrest m' s hm' hs)
  | inr finished => exact h

/-! ## The passes of a block -/

theorem afterwards_passes_succ (pass rest : State → State ⊕ Finished) (k : Nat) (s : State) :
    afterwards rest (State.passes pass (k + 1) s) =
      afterwards (fun s ↦ afterwards rest (State.passes pass k s)) (pass s) := by
  cases hp : pass s with
  | inl s' => rw [State.passes_succ_inl hp, afterwards]
  | inr finished => rw [State.passes_succ_inr hp, afterwards, afterwards]

/-- A machine in a block with passes left executes them and goes on after the command, if it can do
so for one pass and for what comes afterwards. -/
theorem follows_passes {pass rest : State → State ⊕ Finished} (hl : f.start < f.stop)
    (hpass : ∀ k m s, m.frames = fs → Mirrors p m s →
      m.state.modes.get? f.start = some f.positioning →
      Follows p o ({ f with passes := k } :: fs) f.stop
        (moveTo f.start (m.into { f with passes := k })) (pass s))
    (hrest : ∀ m s, m.frames = fs → Mirrors p m s →
      m.state.modes.get? f.start = some f.positioning →
      Follows p o fs last (moveTo f.resume (m.backTo fs f.positioning)) (rest s))
    (k : Nat) (hm : m.frames = fs) (h : Mirrors p m s)
    (hf : m.state.modes.get? f.start = some f.positioning) :
    Follows p o fs last (moveTo f.start (m.into { f with passes := k + 1 }))
      (afterwards rest (State.passes pass (k + 1) s)) := by
  induction k generalizing m s with
  | zero =>
    rw [afterwards_passes_succ]
    refine follows_afterwards (hpass 1 m s hm h hf) ?_
    intro m₁ s₁ hm₁ h₁
    have hf₁ := h₁.get?_modes_start hm₁
    rw [show moveTo f.stop m₁ = _ from
      moveTo_stop_close (f := { f with passes := 1 }) hm₁ (Nat.le_refl 1)]
    exact hrest { m₁ with frames := fs } s₁ rfl (h₁.leave hm₁) hf₁
  | succ k ih =>
    rw [afterwards_passes_succ]
    refine follows_afterwards (hpass (k + 2) m s hm h hf) ?_
    intro m₁ s₁ hm₁ h₁
    have hf₁ := h₁.get?_modes_start hm₁
    have hk : 1 < k + 2 := Nat.succ_lt_succ (Nat.succ_pos k)
    rw [show moveTo f.stop m₁ = _ from
      moveTo_stop_again (f := { f with passes := k + 2 }) hm₁ hk hl]
    exact ih rfl (h₁.leave hm₁) hf₁

/-! ## The line in hand

What comes after the line in hand is an assumption: a machine that goes on to the next line with the
same blocks open follows `rest`. -/

section Line

variable {rest : State → State ⊕ Finished}
  (hrest : ∀ m' s', m'.frames = m.frames → Mirrors p m' s' →
    Follows p o m.frames last (moveTo (m.cursor + 1) m') (rest s'))
include hrest

/-- A statement that is no command to repeat does the same in a machine and in an execution. -/
theorem follows_action (h : Mirrors p m s) (ht : p.line? m.cursor = some text)
    (hr : (Statement.read text.toList).result = .ok statement)
    (ha : ∀ command, statement.action ≠ .again command)
    (hu : (m.declared o text statement).quiet = u.quiet) :
    Follows p o m.frames last m
      (match u.act (o.site m.cursor text) statement.action with
        | (s, .halt) => .inr ⟨s, .halted (o.site m.cursor text).line⟩
        | (s, .fail cause) => .inr (s.fail (o.site m.cursor text) cause)
        | (s, _) => rest s) := by
  have hquiet := @State.act_quiet _ _ (o.site m.cursor text) hu statement.action
  rcases hact : (m.declared o text statement).act (o.site m.cursor text) statement.action
    with ⟨t, flow⟩
  rcases hact' : u.act (o.site m.cursor text) statement.action with ⟨t', flow'⟩
  rw [hact, hact'] at hquiet
  obtain ⟨hquiet, hflow⟩ := hquiet
  obtain rfl : flow = flow' := hflow
  have hx : Executes p o m text statement (t, flow) := .of_acted ht hr hact
  have hstep := hx.step h.faithful
  cases flow with
  | next => exact follows_step hstep (hrest _ t' rfl (h.executed hx hquiet))
  | halt => exact follows_end hstep ⟨hquiet, rfl⟩
  | fail cause => exact follows_end hstep (State.fail_alike hquiet cause)
  | again loop =>
    obtain ⟨command, hc, -⟩ := State.again_of_act hact
    exact absurd hc (ha command)

/-- A block that is opened is executed as often as its command asks, if an execution of it can be
followed, and left for the line after the command. -/
theorem follows_block {command : Repeat} {l : Loop} (h : Mirrors p m s)
    (hx : Executes p o m text statement (m.declared o text statement, .again l))
    (hl : (m.declared o text statement).loop m.cursor command = .ok l)
    (hu : (m.declared o text statement).quiet = u.quiet) (hpasses : l.passes ≠ 0)
    (hlines : l.start < l.stop) (room : m.frames.length < o.depth)
    {pass : State → State ⊕ Finished}
    (hpass : ∀ k m' s', m'.frames = m.frames → Mirrors p m' s' →
      m'.state.modes.get? l.start = some l.positioning →
      Follows p o (⟨l.start, l.stop, k, m.cursor + 1, l.positioning⟩ :: m.frames) l.stop
        (moveTo l.start (m'.into ⟨l.start, l.stop, k, m.cursor + 1, l.positioning⟩)) (pass s')) :
    Follows p o m.frames last m
      (afterwards (fun s ↦ rest (s.restore l.start)) (State.passes pass l.passes u)) := by
  have hd : (m.declared o text statement).Recorded m.frames := recorded_declared h.recorded
  have hstep := hx.step h.faithful
  obtain ⟨k, hk⟩ := Nat.exists_eq_succ_of_ne_zero hpasses
  rw [follow, if_pos room, enter_eq_moveTo hlines, hk] at hstep
  rw [hk]
  refine follows_step hstep (follows_passes
    (f := ⟨l.start, l.stop, l.passes, m.cursor + 1, l.positioning⟩) hlines ?_ ?_ k rfl
    (h.executed hx hu) (hd.loop hl))
  · intro k m' s' hm' hs' hf
    exact hpass k m' s' hm' hs' hf
  · intro m' s' hm' hs' hf
    exact hrest _ _ rfl (hm' ▸ hs'.backTo hf)

/-- A command to repeat does the same in a machine and in an execution, if an execution of its block
can be followed. -/
theorem follows_again {command : Repeat} (h : Mirrors p m s) (ht : p.line? m.cursor = some text)
    (hr : (Statement.read text.toList).result = .ok statement)
    (ha : statement.action = .again command)
    (hu : (m.declared o text statement).quiet = u.quiet)
    {pass : Loop → State → State ⊕ Finished}
    (hpass : ∀ l k m' s', l.start < l.stop → l.stop < p.size → m.frames.length < o.depth →
      m'.frames = m.frames → Mirrors p m' s' →
      m'.state.modes.get? l.start = some l.positioning →
      Follows p o (⟨l.start, l.stop, k, m.cursor + 1, l.positioning⟩ :: m.frames) l.stop
        (moveTo l.start (m'.into ⟨l.start, l.stop, k, m.cursor + 1, l.positioning⟩)) (pass l s')) :
    Follows p o m.frames last m
      (match u.loop m.cursor command with
        | .error cause => .inr (u.fail (o.site m.cursor text) cause)
        | .ok loop =>
          if loop.passes = 0 ∨ loop.stop ≤ loop.start then rest (u.restore loop.start)
          else if m.frames.length < o.depth then
            afterwards (fun s ↦ rest (s.restore loop.start))
              (State.passes (pass loop) loop.passes u)
          else .inr (u.fail (o.site m.cursor text) (.nestingTooDeep o.depth))) := by
  have hact : ∀ result,
      (m.declared o text statement).again (o.site m.cursor text) command = result →
      Executes p o m text statement result := by
    intro result hresult
    refine .of_acted ht hr ?_
    rw [ha]
    exact hresult
  have hloop : (m.declared o text statement).loop m.cursor command = u.loop m.cursor command :=
    State.loop_quiet hu command
  cases hl : u.loop m.cursor command with
  | error cause =>
    have hx := hact _ (State.again_of_error (hloop.trans hl))
    exact follows_end (hx.step h.faithful) (State.fail_alike hu cause)
  | ok l =>
    have hl' : (m.declared o text statement).loop m.cursor command = .ok l := hloop.trans hl
    dsimp only
    by_cases hskip : l.passes = 0 ∨ l.stop ≤ l.start
    · rw [if_pos hskip, State.restore_of_loop hl]
      obtain ⟨t, hagain, hquiet⟩ := State.again_of_skip (o.site m.cursor text) hl' hskip
      have hx := hact _ hagain
      have ht' : t.quiet = (u.setPositioning l.positioning).quiet :=
        hquiet.trans (State.setPositioning_quiet hu _)
      exact follows_step (hx.step h.faithful) (hrest _ _ rfl (h.executed hx ht'))
    · have hx := hact _ (State.again_of_lines hl' hskip)
      rw [if_neg hskip]
      rw [not_or] at hskip
      by_cases room : m.frames.length < o.depth
      · have hlines : l.start < l.stop := Nat.lt_of_not_le hskip.2
        have hstop : l.stop < p.size :=
          (State.loop_bounds hx.lt_size (h.labelsBelow_declared hx.lt_size) hl').1
        rw [if_pos room]
        refine follows_block hrest h hx hl' hu hskip.1 hlines room ?_
        intro k m' s' hm' hs' hf
        exact hpass l k m' s' hlines hstop room hm' hs' hf
      · have hstep := hx.step h.faithful
        rw [follow, if_neg room] at hstep
        rw [if_neg room]
        exact follows_end hstep (State.fail_alike hu _)

end Line

/-! ## Whole runs -/

/-- A machine follows the execution of the lines from one on to where they end. -/
theorem follows_executeLines (p : Program) (o : Options) (first : Nat) (s : State) (m : Machine)
    (h : Mirrors p m s) (hfirst : first ≤ Frame.bound p.size m.frames)
    (hbound : Frame.bound p.size m.frames ≤ p.size) :
    Follows p o m.frames (Frame.bound p.size m.frames) (moveTo first m)
      (p.executeLines o (m.frames.map Frame.start) first (Frame.bound p.size m.frames) s) := by
  rw [Program.executeLines]
  by_cases hlt : first < Frame.bound p.size m.frames
  · obtain ⟨text, ht⟩ : ∃ text, p.line? first = some text :=
      ⟨_, Array.getElem?_eq_getElem (Nat.lt_of_lt_of_le hlt hbound)⟩
    rw [if_pos hlt, moveTo_of_lt_bound hlt, ht]
    dsimp only
    have hm : Mirrors p { m with cursor := first } s := h.atLine first
    have hheard : (heard o { m with cursor := first } text).quiet =
        ((Statement.read text.toList).remarks.foldl
          (fun s r => s.note ((o.site first text).notice r)) s).quiet := by
      rw [heard_quiet, State.foldl_note_quiet]
      exact h.quiet
    cases hr : (Statement.read text.toList).result with
    | error refusal =>
      exact follows_end ((Move.refused ht hr).eq_step hm.faithful)
        (State.refuse_alike hheard refusal)
    | ok statement =>
      have hu : (declared o { m with cursor := first } text statement).quiet =
          (statement.labels.foldl (State.declare (m.frames.map Frame.start) first) _).quiet :=
        State.declare_all_quiet hheard statement.labels
      -- One line less is left, with the same blocks open.
      have hrest : ∀ m' s', m'.frames = m.frames → Mirrors p m' s' →
          Follows p o m.frames (Frame.bound p.size m.frames) (moveTo (first + 1) m')
            (p.executeLines o (m.frames.map Frame.start) (first + 1)
              (Frame.bound p.size m.frames) s') := by
        intro m' s' hm' h'
        rw [← hm']
        exact follows_executeLines p o (first + 1) s' m' h' (hm' ▸ hlt) (hm' ▸ hbound)
      dsimp only
      split
      · rename_i command ha
        rw [List.length_map]
        refine follows_again hrest hm ht hr ha hu ?_
        intro l k m' s' hl hstop room hm' h' hf
        have room : m.frames.length < o.depth := room
        have hm' : m'.frames = m.frames := hm'
        -- A pass has one more block open, so fewer may still be opened.
        have hpass := follows_executeLines p o l.start (s'.restore l.start)
          (m'.into ⟨l.start, l.stop, k, first + 1, l.positioning⟩) (h'.into hf)
          (Nat.le_of_lt hl) (Nat.le_of_lt hstop)
        rw [into_frames, hm'] at hpass
        exact hpass
      · rename_i ha
        exact follows_action hrest hm ht hr (fun command hc ↦ ha command hc) hu
  · rw [if_neg hlt]
    obtain rfl : first = Frame.bound p.size m.frames := by omega
    exact ⟨0, m, rfl, rfl, h⟩
termination_by (o.depth - m.frames.length, Frame.bound p.size m.frames - first)
decreasing_by
  · rw [hm']
    exact Prod.Lex.right _ (by omega)
  · rw [into_frames, hm', List.length_cons]
    exact Prod.Lex.left _ _ (by omega)

/-- Past the last line a run is completed. -/
theorem step_moveTo_size (h : m.frames = []) :
    step p o (moveTo p.size m) = .inr ⟨m.state, .completed⟩ := by
  have hmove : moveTo p.size m = { m with cursor := p.size } := by
    refine moveTo_of_ne ?_
    intro f hf
    rw [h] at hf
    cases hf
  have hline : p.line? p.size = none := Array.getElem?_eq_none (Nat.le_refl _)
  rw [hmove, step, hline]

/-- A machine that follows the execution of a whole program ends as it does. -/
theorem alike_of_follows {sound : Sound p o m} (h : Follows p o [] p.size m r) :
    (run p o m sound).Alike (r.elim (fun s ↦ ⟨s, .completed⟩) id) := by
  cases r with
  | inl s =>
    obtain ⟨n, m', hi, hm', hs⟩ := h
    rw [run_eq_of_iterate (iterate_snoc hi (step_moveTo_size hm'))]
    exact ⟨hs.quiet, rfl⟩
  | inr finished =>
    obtain ⟨n, finished', hi, ha⟩ := h
    rw [run_eq_of_iterate hi]
    exact ha

theorem runStructured_eq_elim (p : Program) (o : Options) :
    p.runStructured o = (p.executeLines o.usable [] 0 p.size o.opening).elim
      (fun s ↦ ⟨s, .completed⟩) id := by
  rw [Program.runStructured]
  cases p.executeLines o.usable [] 0 p.size o.opening <;> rfl

end Machine

end Toolpath
