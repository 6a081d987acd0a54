import Toolpath.Run.State

/-!
# The run of a program

A machine walks the lines with a stack of frames, one for each repeated block that is open, and
keeps the statements it has read. `Machine.step` executes one line and then finishes every pass
that ends at the next one. The frames nest: the line in hand lies in the block on top, and the
command that opened a block lies in the block below it. Along a run a weight of the stack falls, so
`Program.run` ends.
-/

namespace Toolpath

/-- How a run ended. -/
inductive Outcome where
  /-- Past the last line. -/
  | completed
  | halted (line : Nat)
  | failed (fault : Fault)
  /-- On a line that cannot be cut into parts; such a run has no result. -/
  | abandoned (line : Nat)

/-- The last state of a run and how it ended. -/
structure Finished where
  state : State
  outcome : Outcome

namespace Options

/-- The options with a usable step. -/
def usable (o : Options) : Options := { o with step := Arc.usableStep o.step }

/-- The state before the first line. A step that is replaced is noticed. -/
def opening (o : Options) : State :=
  let s := State.start o
  if o.usable.step == o.step then s else s.note (.stepOutOfRange o.step o.usable.step)

/-- Line `index` of a program as the place of execution. -/
def site (o : Options) (index : Nat) (text : String) : Site := ⟨index + 1, text, o.operation, o.step⟩

end Options

namespace Site

def fault (site : Site) (cause : Cause) : Fault := ⟨site.line, site.text, cause⟩

/-- What an operator is told of a remark on this line. -/
def notice (site : Site) : Remark → Notice
  | .unsupportedWord word => .unsupportedWord site.line word
  | .malformedRepeat => .malformedRepeat site.line site.text

end Site

namespace State

/-- The end of a run at a cause. -/
def fail (s : State) (site : Site) (cause : Cause) : Finished :=
  ⟨s.note (.failed (site.fault cause)), .failed (site.fault cause)⟩

/-- The end of a run at a line that is refused. -/
def refuse (s : State) (site : Site) : Refusal → Finished
  | .fault cause => s.fail site cause
  | .cutCharacter => ⟨s, .abandoned site.line⟩

end State

/-- A repeated block that is open. -/
structure Frame where
  start : Nat
  /-- A pass ends before this line. -/
  stop : Nat
  /-- Passes left, with the one in progress. -/
  passes : Nat
  /-- The line after the command to repeat. -/
  resume : Nat
  positioning : Positioning

/-- Finishes the passes that end before line `cursor`: the block on top begins again, or it is
closed and the line after its command is in hand. -/
def Frame.unwind : List Frame → (cursor : Nat) → Positioning → List Frame × Nat × Positioning
  | [], cursor, positioning => ([], cursor, positioning)
  | f :: fs, cursor, positioning =>
    if f.stop = cursor then
      if 1 < f.passes then
        ({ f with passes := f.passes - 1 } :: fs, f.start, f.positioning)
      else unwind fs f.resume f.positioning
    else (f :: fs, cursor, positioning)

structure Machine where
  state : State
  frames : List Frame := []
  cursor : Nat := 0
  /-- The statements that have been read, by line. -/
  read : Array (Option Statement)

namespace Machine

/-- The machine before the first line. -/
def start (p : Program) (o : Options) : Machine where
  state := o.opening
  read := Array.replicate p.size none

/-- The statement on the line in hand, read unless it has been. -/
def fetch (m : Machine) (text : String) : Reading Statement :=
  match m.read[m.cursor]? with
  | some (some statement) => { result := .ok statement }
  | _ => Statement.read text.toList

/-- The statements read, with the one on the line in hand. -/
def keep (m : Machine) (statement : Statement) : Array (Option Statement) :=
  match m.read[m.cursor]? with
  | some none => m.read.setIfInBounds m.cursor (some statement)
  | _ => m.read

/-- On to line `cursor`. -/
def moveTo (cursor : Nat) (m : Machine) : Machine :=
  let (frames, cursor, positioning) := Frame.unwind m.frames cursor m.state.modal.positioning
  { m with frames, cursor, state := m.state.setPositioning positioning }

/-- Into a block for the passes it is to be given. -/
def enter (loop : Loop) (m : Machine) : Machine :=
  { m with
    frames := ⟨loop.start, loop.stop, loop.passes, m.cursor + 1, loop.positioning⟩ :: m.frames
    cursor := loop.start
    state := m.state.setPositioning loop.positioning }

/-- Executes the line in hand. -/
def step (p : Program) (o : Options) (m : Machine) : Machine ⊕ Finished :=
  match p.line? m.cursor with
  | none => .inr ⟨m.state, .completed⟩
  | some text =>
    let site := o.site m.cursor text
    let reading := m.fetch text
    let state := reading.remarks.foldl (fun s r => s.note (site.notice r)) m.state
    match reading.result with
    | .error refusal => .inr (state.refuse site refusal)
    | .ok statement =>
      let read := m.keep statement
      match state.execute site (m.frames.map Frame.start) statement with
      | (state, .next) => .inl (moveTo (m.cursor + 1) { m with state, read })
      | (state, .halt) => .inr ⟨state, .halted site.line⟩
      | (state, .fail cause) => .inr (state.fail site cause)
      | (state, .again loop) =>
        if m.frames.length < o.depth then .inl (enter loop { m with state, read })
        else .inr (state.fail site (.nestingTooDeep o.depth))

end Machine

/-! ## Nesting -/

/-- Line `c` lies in the block of a frame, which lies before line `n`. -/
structure Frame.Holds (n c : Nat) (f : Frame) : Prop where
  start_le : f.start ≤ c
  lt_stop : c < f.stop
  stop_lt : f.stop < n
  passes_pos : 0 < f.passes

/-- Line `c` lies in the block on top, and the command that opened a block in the block below. -/
def Frame.Nested (n : Nat) : (c : Nat) → List Frame → Prop
  | _, [] => True
  | c, f :: fs => f.Holds n c ∧ 0 < f.resume ∧ Nested n (f.resume - 1) fs

/-- What labels have left in a state: their lines, and how coordinates were meant there. -/
def State.places (s : State) : Labels × Table Nat Positioning := (s.labels, s.modes)

/-- Every label is on a line before `n`. -/
def State.LabelsBelow (n : Nat) (s : State) : Prop := ∀ e ∈ s.labels.entries, e.2 < n

namespace State

theorem labelsBelow_declare {n index : Nat} {active : List Nat} {s : State} (label : String)
    (hi : index < n) (h : s.LabelsBelow n) : (declare active index s label).LabelsBelow n := by
  intro e he
  rcases Table.mem_of_mem_place he with rfl | he
  · exact hi
  · exact h e he

theorem labelsBelow_declare_all {n index : Nat} (active : List Nat) {s : State}
    (labels : List String) (hi : index < n) (h : s.LabelsBelow n) :
    (labels.foldl (declare active index) s).LabelsBelow n := by
  induction labels generalizing s with
  | nil => exact h
  | cons label rest ih => exact ih (labelsBelow_declare label hi h)

theorem places_foldl_note {β : Type} (g : β → Notice) (rs : List β) (s : State) :
    (rs.foldl (fun s r => s.note (g r)) s).places = s.places := by
  induction rs generalizing s with
  | nil => rfl
  | cons r rest ih => exact ih _

theorem places_assign (s : State) (pairs : List (Nat × Value)) :
    (s.assign pairs).1.places = s.places := by
  induction pairs generalizing s with
  | nil => rfl
  | cons pair rest ih =>
    rw [assign]
    split
    · exact ih _
    · rfl

theorem places_again (s : State) (site : Site) (command : Repeat) :
    (s.again site command).1.places = s.places := by
  rw [again]
  split
  · rfl
  · split
    · rfl
    · split <;> rfl

theorem places_block (s : State) (site : Site) (b : Block) :
    (s.block site b).1.places = s.places := by
  rw [block]
  split
  · rfl
  · dsimp only
    split <;> rfl

/-- Only labels change what labels have left in a state. -/
theorem places_act (s : State) (site : Site) (action : Action) :
    (s.act site action).1.places = s.places := by
  cases action with
  | blank | comment | unrecognized => rfl
  | assign pairs => exact places_assign s pairs
  | again command => exact places_again s site command
  | block b => exact places_block s site b

theorem labelsBelow_of_places {n : Nat} {s t : State} (ht : t.places = s.places)
    (h : s.LabelsBelow n) : t.LabelsBelow n := by
  intro e he
  rw [show t.labels = s.labels from congrArg Prod.fst ht] at he
  exact h e he

theorem labelsBelow_execute {n : Nat} {s : State} {site : Site} (active : List Nat)
    (statement : Statement) (hi : site.line - 1 < n) (h : s.LabelsBelow n) :
    (s.execute site active statement).1.LabelsBelow n := by
  rw [execute]
  exact labelsBelow_of_places (places_act ..) (labelsBelow_declare_all active statement.labels hi h)

/-! ## Blocks to repeat -/

theorem morePasses_lt (count : Option Float) : morePasses count < 2 ^ 64 := by
  cases count with
  | none => decide
  | some x =>
    have : Scalar.floor x < 2 ^ 64 := UInt64.toNat_lt _
    rw [morePasses]
    split <;> omega

theorem line_lt {n i : Nat} {s : State} {label : String} (h : s.LabelsBelow n)
    (hl : s.line label = .ok i) : i < n := by
  rw [line] at hl
  split at hl
  · rename_i hg
    cases hl
    exact h _ (Table.mem_of_find hg)
  · cases hl

/-- What is known of a block that is to be repeated from line `index`. -/
structure LoopBelow (n : Nat) (loop : Loop) : Prop where
  start_lt : loop.start < loop.stop
  stop_lt : loop.stop < n
  passes_pos : 0 < loop.passes
  passes_lt : loop.passes < 2 ^ 64

theorem stopLine_lt {n index i : Nat} {s : State} {stop : Option String} (hi : index < n)
    (h : s.LabelsBelow n) (hl : s.stopLine index stop = .ok i) : i < n := by
  cases stop with
  | none =>
    cases hl
    exact hi
  | some label => exact line_lt h hl

theorem loop_bounds {n index : Nat} {s : State} {command : Repeat} {l : Loop}
    (hi : index < n) (h : s.LabelsBelow n) (hl : s.loop index command = .ok l) :
    l.stop < n ∧ l.passes < 2 ^ 64 := by
  simp only [loop, bind, Except.bind, pure, Except.pure] at hl
  split at hl
  · cases hl
  · split at hl
    · cases hl
    · rename_i hstop
      split at hl
      · cases hl
      · cases hl
        exact ⟨stopLine_lt hi h hstop, morePasses_lt _⟩

theorem loopBelow_of_again {n : Nat} {s t : State} {site : Site} {command : Repeat} {l : Loop}
    (hi : site.line - 1 < n) (h : s.LabelsBelow n) (ha : s.again site command = (t, .again l)) :
    LoopBelow n l := by
  rw [again] at ha
  split at ha
  · cases ha
  · rename_i l' hl
    have hb := loop_bounds hi h hl
    split at ha
    · cases ha
    · split at ha
      · cases ha
      · cases ha
        exact ⟨by omega, hb.1, by omega, hb.2⟩

theorem assign_ne_again (s : State) (pairs : List (Nat × Value)) (l : Loop) :
    (s.assign pairs).2 ≠ .again l := by
  induction pairs generalizing s with
  | nil => intro h; cases h
  | cons pair rest ih =>
    rw [assign]
    split
    · exact ih _
    · intro h; cases h

theorem block_ne_again (s : State) (site : Site) (b : Block) (l : Loop) :
    (s.block site b).2 ≠ .again l := by
  rw [block]
  split
  · intro h; cases h
  · dsimp only
    split <;> (intro h; cases h)

theorem loopBelow_of_execute {n : Nat} {s t : State} {site : Site} {active : List Nat}
    {statement : Statement} {l : Loop} (hi : site.line - 1 < n) (h : s.LabelsBelow n)
    (he : s.execute site active statement = (t, .again l)) : LoopBelow n l := by
  rw [execute] at he
  have h' := labelsBelow_declare_all active statement.labels hi h
  generalize statement.labels.foldl (declare active (site.line - 1)) s = u at he h'
  cases ha : statement.action with
  | blank | comment | unrecognized => rw [ha] at he; cases he
  | assign pairs =>
    rw [ha] at he
    exact absurd (congrArg Prod.snd he) (assign_ne_again u pairs l)
  | again command =>
    rw [ha] at he
    exact loopBelow_of_again hi h' he
  | block b =>
    rw [ha] at he
    exact absurd (congrArg Prod.snd he) (block_ne_again u site b l)

end State

/-! ## Weight -/

namespace Frame

/-- More than the passes and lines of any one block weigh. -/
def base (n : Nat) : Nat := 2 ^ 64 * (n + 1)

/-- The passes and lines that are left, those of a block below counting `base n` times as much as
those of the block on top of it. -/
def weight (n w : Nat) : (cursor : Nat) → List Frame → Nat
  | c, [] => (n - c) * w
  | c, f :: fs => (f.passes * (n + 1) + (f.stop - c)) * w + weight n (w * base n) f.resume fs

theorem weight_succ_lt {n w c : Nat} {fs : List Frame} (hw : 0 < w) (hc : c < n)
    (h : Nested n c fs) : weight n w (c + 1) fs < weight n w c fs := by
  cases fs with
  | nil =>
    rw [weight, weight]
    exact Nat.mul_lt_mul_of_pos_right (by omega) hw
  | cons f fs =>
    have := h.1.lt_stop
    rw [weight, weight]
    exact Nat.add_lt_add_right (Nat.mul_lt_mul_of_pos_right (by omega) hw) _

/-- Unwinding keeps frames nested, opens none and adds no weight. -/
theorem unwind_spec {n c : Nat} {fs : List Frame} (depth : Nat) (p : Positioning)
    (h : Nested n c fs) (hd : fs.length ≤ depth) :
    let r := unwind fs (c + 1) p
    Nested n r.2.1 r.1 ∧ r.1.length ≤ fs.length ∧
      weight n (base n ^ (depth - r.1.length)) r.2.1 r.1
        ≤ weight n (base n ^ (depth - fs.length)) (c + 1) fs := by
  induction fs generalizing c p with
  | nil => exact ⟨trivial, Nat.le_refl _, Nat.le_refl _⟩
  | cons f fs ih =>
    obtain ⟨hf, hr, hn⟩ := h
    have hs := hf.start_le
    have hl := hf.lt_stop
    have ht := hf.stop_lt
    simp only [unwind]
    split
    · split
      · refine ⟨⟨⟨Nat.le_refl _, by simp only; omega, ht, by simp only; omega⟩, hr, hn⟩,
          Nat.le_refl _, ?_⟩
        simp only [weight, List.length_cons]
        refine Nat.add_le_add_right (Nat.mul_le_mul_right _ ?_) _
        have : (f.passes - 1) * (n + 1) + (n + 1) = f.passes * (n + 1) := by
          rw [← Nat.succ_mul, Nat.succ_eq_add_one, Nat.sub_add_cancel hf.passes_pos]
        omega
      · have hd' : fs.length ≤ depth := by simp only [List.length_cons] at hd; omega
        have key := ih f.positioning hn hd'
        rw [Nat.sub_add_cancel hr] at key
        refine ⟨key.1, by simp only [List.length_cons]; omega, Nat.le_trans key.2.2 ?_⟩
        simp only [weight, List.length_cons] at hd ⊢
        rw [show depth - fs.length = depth - (fs.length + 1) + 1 by omega, Nat.pow_succ]
        exact Nat.le_add_left _ _
    · exact ⟨⟨⟨Nat.le_succ_of_le hs, show c + 1 < f.stop by omega, ht, hf.passes_pos⟩, hr, hn⟩,
        Nat.le_refl _, Nat.le_refl _⟩

end Frame

namespace Machine

/-- What holds of a machine about to execute a line of a program. -/
structure Sound (p : Program) (o : Options) (m : Machine) : Prop where
  nested : Frame.Nested p.size m.cursor m.frames
  depth_le : m.frames.length ≤ o.depth
  labels : m.state.LabelsBelow p.size

/-- What is left of a run. -/
def weight (p : Program) (o : Options) (m : Machine) : Nat :=
  Frame.weight p.size (Frame.base p.size ^ (o.depth - m.frames.length)) m.cursor m.frames

theorem sound_start (p : Program) (o used : Options) : Sound p used (start p o) where
  nested := trivial
  depth_le := Nat.zero_le _
  labels := by
    intro e he
    rw [start, Options.opening] at he
    dsimp only at he
    split at he <;> cases he

theorem base_pos (n : Nat) : 0 < Frame.base n :=
  Nat.mul_pos (by decide) (Nat.succ_pos n)

theorem moveTo_spec {p : Program} {o : Options} {m : Machine} (h : Sound p o m)
    (hc : m.cursor < p.size) :
    Sound p o (moveTo (m.cursor + 1) m) ∧ weight p o (moveTo (m.cursor + 1) m) < weight p o m := by
  have key := Frame.unwind_spec o.depth m.state.modal.positioning h.nested h.depth_le
  refine ⟨⟨key.1, Nat.le_trans key.2.1 h.depth_le, ?_⟩, ?_⟩
  · exact h.labels
  · exact Nat.lt_of_le_of_lt key.2.2
      (Frame.weight_succ_lt (Nat.pow_pos (base_pos _)) hc h.nested)

theorem enter_spec {p : Program} {o : Options} {m : Machine} {loop : Loop} (h : Sound p o m)
    (hc : m.cursor < p.size) (hd : m.frames.length < o.depth)
    (hl : State.LoopBelow p.size loop) :
    Sound p o (enter loop m) ∧ weight p o (enter loop m) < weight p o m := by
  have hs := hl.start_lt
  have ht := hl.stop_lt
  have hp := hl.passes_lt
  refine ⟨⟨⟨⟨Nat.le_refl _, hs, ht, hl.passes_pos⟩, Nat.succ_pos _, h.nested⟩, hd, h.labels⟩, ?_⟩
  simp only [weight, enter, Frame.weight, List.length_cons]
  rw [show o.depth - m.frames.length = o.depth - (m.frames.length + 1) + 1 by omega, Nat.pow_succ]
  generalize hw : Frame.base p.size ^ (o.depth - (m.frames.length + 1)) = w
  have hw0 : 0 < w := by rw [← hw]; exact Nat.pow_pos (base_pos _)
  have hb := base_pos p.size
  have hdigit : loop.passes * (p.size + 1) + (loop.stop - loop.start) < Frame.base p.size := by
    have : (loop.passes + 1) * (p.size + 1) ≤ 2 ^ 64 * (p.size + 1) := Nat.mul_le_mul_right _ hp
    rw [Nat.succ_mul] at this
    rw [Frame.base]
    omega
  have htop : (loop.passes * (p.size + 1) + (loop.stop - loop.start)) * w < w * Frame.base p.size := by
    rw [Nat.mul_comm w]
    exact Nat.mul_lt_mul_of_pos_right hdigit hw0
  have hnext : ∀ c (fs : List Frame), c < p.size → Frame.Nested p.size c fs →
      Frame.weight p.size (w * Frame.base p.size) (c + 1) fs + w * Frame.base p.size
        ≤ Frame.weight p.size (w * Frame.base p.size) c fs := by
    intro c fs hc hn
    cases fs with
    | nil =>
      rw [Frame.weight, Frame.weight, ← Nat.succ_mul]
      exact Nat.mul_le_mul_right _ (by omega)
    | cons f fs =>
      have := hn.1.lt_stop
      rw [Frame.weight, Frame.weight, Nat.add_right_comm, ← Nat.succ_mul]
      exact Nat.add_le_add_right (Nat.mul_le_mul_right _ (by omega)) _
  have := hnext m.cursor m.frames hc h.nested
  omega

/-- A step keeps a machine sound and takes weight away. -/
theorem step_spec {p : Program} {o : Options} {m m' : Machine} (h : Sound p o m)
    (hs : step p o m = .inl m') : Sound p o m' ∧ weight p o m' < weight p o m := by
  rw [step] at hs
  split at hs
  · cases hs
  · rename_i text ht
    have hc : m.cursor < p.size := (Array.getElem?_eq_some_iff.1 ht).1
    dsimp only at hs
    split at hs
    · cases hs
    · rename_i statement _
      have hl : ((m.fetch text).remarks.foldl
          (fun s r => s.note ((o.site m.cursor text).notice r)) m.state).LabelsBelow p.size :=
        State.labelsBelow_of_places (State.places_foldl_note ..) h.labels
      have hi : (o.site m.cursor text).line - 1 < p.size := hc
      have hx := State.labelsBelow_execute (m.frames.map Frame.start) statement hi hl
      split at hs
      · rename_i s he
        rw [he] at hx
        cases hs
        exact moveTo_spec (m := { m with state := s, read := m.keep statement })
          ⟨h.nested, h.depth_le, hx⟩ hc
      · cases hs
      · cases hs
      · rename_i s loop he
        have hb := State.loopBelow_of_execute hi hl he
        rw [he] at hx
        split at hs
        · rename_i hd
          cases hs
          exact enter_spec (m := { m with state := s, read := m.keep statement })
            ⟨h.nested, h.depth_le, hx⟩ hc hd hb
        · cases hs

/-- Steps until the run ends. -/
def run (p : Program) (o : Options) (m : Machine) (h : Sound p o m) : Finished :=
  match hs : step p o m with
  | .inr finished => finished
  | .inl m' => run p o m' (step_spec h hs).1
termination_by weight p o m
decreasing_by exact (step_spec h hs).2

end Machine

namespace Program

/-- Executes a program. -/
def run (p : Program) (o : Options) : Finished :=
  Machine.run p o.usable (Machine.start p o) (Machine.sound_start p o o.usable)

end Program

end Toolpath
