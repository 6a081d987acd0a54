import Toolpath.Proofs.Run.Quiet
import Toolpath.Proofs.Run.Reach

/-!
# What one step does

`Machine.Move p o m r` lists what executing the line in hand can come to, with the line read anew
from its text: the statements a machine keeps are those its lines say (`Machine.Faithful`), so
`move_iff` makes the list the whole of `Machine.step`, at every point of a run by
`Reachable.faithful`.
-/

namespace Toolpath

/-- The statement on line `i`, if there is such a line and it can be read. -/
def Program.statement? (p : Program) (i : Nat) : Option Statement :=
  match p.line? i with
  | none => none
  | some text => (Statement.read text.toList).result.toOption

theorem Program.statement?_eq_some_iff {p : Program} {i : Nat} {statement : Statement} :
    p.statement? i = some statement ↔
      ∃ text, p.line? i = some text ∧ (Statement.read text.toList).result = .ok statement := by
  rw [statement?]
  cases p.line? i with
  | none => simp
  | some text =>
    simp only [Option.some.injEq, exists_eq_left']
    cases (Statement.read text.toList).result with
    | error refusal => simp [Except.toOption]
    | ok statement' => simp [Except.toOption]

/-- Labels change what labels have left in a state, and nothing else. -/
theorem State.declare_all_eq (active : List Nat) (index : Nat) (labels : List String) (s : State) :
    ∃ table modes, labels.foldl (State.declare active index) s =
      { s with labels := table, modes := modes } := by
  induction labels generalizing s with
  | nil => exact ⟨s.labels, s.modes, rfl⟩
  | cons label rest ih => exact ih (State.declare active index s label)

namespace Machine

variable {p : Program} {o : Options} {m m' : Machine} {text : String} {statement : Statement}

/-! ## Statements kept -/

/-- Every statement kept is the one its line says. -/
def Faithful (p : Program) (read : Array (Option Statement)) : Prop :=
  ∀ i statement, read[i]? = some (some statement) → p.statement? i = some statement

theorem faithful_start (p : Program) (o : Options) : Faithful p (start p o).read := by
  intro i statement h
  simp [start, Array.getElem?_replicate] at h

theorem fetch_result (h : Faithful p m.read) (ht : p.line? m.cursor = some text) :
    (m.fetch text).result = (Statement.read text.toList).result := by
  rw [fetch]
  split
  · rename_i statement hs
    obtain ⟨text', ht', hr⟩ := Program.statement?_eq_some_iff.1 (h _ _ hs)
    obtain rfl : text = text' := Option.some.inj (ht.symm.trans ht')
    exact hr.symm
  · rfl

theorem faithful_keep (h : Faithful p m.read) (hs : p.statement? m.cursor = some statement) :
    Faithful p (m.keep statement) := by
  rw [keep]
  split
  · intro i statement' hi
    rw [Array.getElem?_setIfInBounds] at hi
    split at hi
    · rename_i hc
      split at hi
      · cases hi
        exact hc ▸ hs
      · cases hi
    · exact h i statement' hi
  · exact h

/-- The state before the first line but for a notice on the step. -/
theorem start_eq_told (p : Program) (o : Options) :
    ∃ notices, (start p o).state = (State.start o).told notices := by
  rw [start, Options.opening]
  dsimp only
  split
  · exact ⟨#[], rfl⟩
  · exact ⟨_, rfl⟩

/-! ## One step -/

/-- The state with the remarks on the line in hand noted. -/
def heard (o : Options) (m : Machine) (text : String) : State :=
  (m.fetch text).remarks.foldl (fun s r => s.note ((o.site m.cursor text).notice r)) m.state

theorem heard_eq_told (o : Options) (m : Machine) (text : String) :
    ∃ notices, m.heard o text = m.state.told notices :=
  State.foldl_note_eq_told _ _ _

@[simp] theorem heard_quiet : (m.heard o text).quiet = m.state.quiet :=
  State.foldl_note_quiet ..

@[simp] theorem heard_log : (m.heard o text).log = m.state.log :=
  (State.eq_of_quiet heard_quiet).1

@[simp] theorem heard_modal : (m.heard o text).modal = m.state.modal :=
  (State.eq_of_quiet heard_quiet).2.1

@[simp] theorem heard_places : (m.heard o text).places = m.state.places :=
  State.places_foldl_note ..

/-- The state with the labels of a statement on the line in hand declared. -/
def declared (o : Options) (m : Machine) (text : String) (statement : Statement) : State :=
  statement.labels.foldl (State.declare (m.frames.map Frame.start) m.cursor) (m.heard o text)

/-- Before the action of a line only labels and notices have changed. -/
theorem declared_eq (o : Options) (m : Machine) (text : String) (statement : Statement) :
    ∃ labels modes notices, m.declared o text statement =
      { m.state with labels := labels, modes := modes, notices := notices } := by
  obtain ⟨notices, hn⟩ := heard_eq_told o m text
  obtain ⟨labels, modes, hd⟩ := State.declare_all_eq (m.frames.map Frame.start) m.cursor
    statement.labels (m.heard o text)
  refine ⟨labels, modes, notices, ?_⟩
  rw [declared, hd, hn]
  rfl

@[simp] theorem declared_modal : (m.declared o text statement).modal = m.state.modal := by
  obtain ⟨labels, modes, notices, h⟩ := declared_eq o m text statement
  rw [h]

@[simp] theorem declared_registers :
    (m.declared o text statement).registers = m.state.registers := by
  obtain ⟨labels, modes, notices, h⟩ := declared_eq o m text statement
  rw [h]

@[simp] theorem declared_log : (m.declared o text statement).log = m.state.log := by
  obtain ⟨labels, modes, notices, h⟩ := declared_eq o m text statement
  rw [h]

/-- The line in hand has a text that says a statement, and to execute it comes to `result`. -/
structure Executes (p : Program) (o : Options) (m : Machine) (text : String)
    (statement : Statement) (result : State × Flow) : Prop where
  line : p.line? m.cursor = some text
  reads : (Statement.read text.toList).result = .ok statement
  ran : (m.heard o text).execute (o.site m.cursor text) (m.frames.map Frame.start) statement
    = result

theorem Executes.statement? {result : State × Flow} (h : Executes p o m text statement result) :
    p.statement? m.cursor = some statement :=
  Program.statement?_eq_some_iff.2 ⟨text, h.line, h.reads⟩

/-- What a statement comes to is what its action comes to once its labels are declared. -/
theorem Executes.acted {result : State × Flow} (h : Executes p o m text statement result) :
    (m.declared o text statement).act (o.site m.cursor text) statement.action = result :=
  h.ran

theorem Executes.of_acted {result : State × Flow} (ht : p.line? m.cursor = some text)
    (hr : (Statement.read text.toList).result = .ok statement)
    (h : (m.declared o text statement).act (o.site m.cursor text) statement.action = result) :
    Executes p o m text statement result :=
  ⟨ht, hr, h⟩

theorem Executes.places {result : State × Flow} (h : Executes p o m text statement result) :
    result.1.places = (m.declared o text statement).places := by
  rw [← h.acted]
  exact State.places_act ..

theorem Executes.lt_size {result : State × Flow} (h : Executes p o m text statement result) :
    m.cursor < p.size :=
  (Array.getElem?_eq_some_iff.1 h.line).1

/-- What executing the line in hand comes to. -/
inductive Move (p : Program) (o : Options) (m : Machine) : Machine ⊕ Finished → Prop where
  | past (h : p.line? m.cursor = none) : Move p o m (.inr ⟨m.state, .completed⟩)
  | refused {text refusal} (ht : p.line? m.cursor = some text)
      (hr : (Statement.read text.toList).result = .error refusal) :
      Move p o m (.inr ((m.heard o text).refuse (o.site m.cursor text) refusal))
  | next {text statement s} (h : Executes p o m text statement (s, .next)) :
      Move p o m (.inl (moveTo (m.cursor + 1) { m with state := s, read := m.keep statement }))
  | halted {text statement s} (h : Executes p o m text statement (s, .halt)) :
      Move p o m (.inr ⟨s, .halted (m.cursor + 1)⟩)
  | failed {text statement s cause} (h : Executes p o m text statement (s, .fail cause)) :
      Move p o m (.inr (s.fail (o.site m.cursor text) cause))
  | entered {text statement s loop} (h : Executes p o m text statement (s, .again loop))
      (room : m.frames.length < o.depth) :
      Move p o m (.inl (enter loop { m with state := s, read := m.keep statement }))
  | tooDeep {text statement s loop} (h : Executes p o m text statement (s, .again loop))
      (full : o.depth ≤ m.frames.length) :
      Move p o m (.inr (s.fail (o.site m.cursor text) (.nestingTooDeep o.depth)))

/-- Every step of a machine that keeps what its lines say is on the list. -/
theorem move_step (hf : Faithful p m.read) : Move p o m (step p o m) := by
  rw [step]
  split
  · rename_i h
    exact .past h
  · rename_i text ht
    dsimp only
    rw [fetch_result hf ht]
    split
    · rename_i refusal hr
      exact .refused ht hr
    · rename_i statement hr
      split
      · rename_i s he
        exact .next ⟨ht, hr, he⟩
      · rename_i s he
        exact .halted ⟨ht, hr, he⟩
      · rename_i s cause he
        exact .failed ⟨ht, hr, he⟩
      · rename_i s loop he
        split
        · rename_i room
          exact .entered ⟨ht, hr, he⟩ room
        · rename_i full
          exact .tooDeep ⟨ht, hr, he⟩ (Nat.le_of_not_lt full)

/-- Where the machine goes once the line in hand has been executed to a state and a flow. -/
def follow (o : Options) (m : Machine) (text : String) (statement : Statement) (s : State) :
    Flow → Machine ⊕ Finished
  | .next => .inl (moveTo (m.cursor + 1) { m with state := s, read := m.keep statement })
  | .halt => .inr ⟨s, .halted (m.cursor + 1)⟩
  | .fail cause => .inr (s.fail (o.site m.cursor text) cause)
  | .again loop =>
    if m.frames.length < o.depth then
      .inl (enter loop { m with state := s, read := m.keep statement })
    else .inr (s.fail (o.site m.cursor text) (.nestingTooDeep o.depth))

theorem Executes.step {s : State} {flow : Flow} (hf : Faithful p m.read)
    (h : Executes p o m text statement (s, flow)) :
    step p o m = m.follow o text statement s flow := by
  have hran := h.ran
  rw [heard] at hran
  rw [Machine.step, h.line]
  dsimp only
  rw [fetch_result hf h.line, h.reads]
  dsimp only
  rw [hran]
  cases flow <;> rfl

/-- The list determines the step. -/
theorem Move.eq_step {r : Machine ⊕ Finished} (hf : Faithful p m.read) (h : Move p o m r) :
    step p o m = r := by
  cases h with
  | past h => rw [step, h]
  | refused ht hr =>
    rw [step, ht]
    dsimp only
    rw [fetch_result hf ht, hr]
    rfl
  | next h | halted h | failed h => exact h.step hf
  | entered h room => rw [h.step hf, follow, if_pos room]
  | tooDeep h full => rw [h.step hf, follow, if_neg (Nat.not_lt.2 full)]

theorem move_iff {r : Machine ⊕ Finished} (hf : Faithful p m.read) :
    Move p o m r ↔ step p o m = r :=
  ⟨fun h => h.eq_step hf, fun h => h ▸ move_step hf⟩

/-! ## Points of a run -/

theorem faithful_step (hf : Faithful p m.read) (hs : step p o m = .inl m') :
    Faithful p m'.read := by
  cases (move_iff hf).2 hs with
  | next h => exact faithful_keep hf h.statement?
  | entered h _ => exact faithful_keep hf h.statement?

theorem Reachable.faithful (h : Reachable p o m) : Faithful p m.read :=
  h.induct (faithful_start p o) fun _ _ _ hm hs => faithful_step hm hs

end Machine

end Toolpath
