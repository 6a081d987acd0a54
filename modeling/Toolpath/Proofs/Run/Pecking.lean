import Toolpath.Proofs.Run.Codes

/-!
# The step of a pecking cycle in force

A code that sets up a pecking cycle checks the step before the cycle is put in force, so at every
point of a run the step of the cycle in force is positive (`Cycle.Usable`). Words without a motion
code are put into the cycle before the step is checked. A refused step they bring
(`Machine.Spoils`) ends the run, but it stays in the cycle that the run leaves, and there is no
other way to come by one: `usable_run_iff`.
-/

namespace Toolpath

/-- If the cycle pecks, its step is positive. -/
def Cycle.Usable {α : Type} [Scalar α] (cycle : Cycle α) : Prop :=
  ∀ q, cycle.step? = some q → Scalar.isPositive q = true

theorem Cycle.not_usable {α : Type} [Scalar α] {cycle : Cycle α} {q : α} (h : cycle.step? = some q)
    (hq : Scalar.isPositive q = false) : ¬ cycle.Usable :=
  fun hu ↦ Bool.false_ne_true (hq.symm.trans (hu q h))

/-! ## What a line does to the cycle -/

namespace Effect

variable {site : Site} {m : Modal} {w : Words Float} {codes : List Nat} {q : Float}

/-- Codes without a motion, and words that put a step which is refused into the pecking cycle in
force. -/
structure Spoils (m : Modal) (codes : List Nat) (w : Words Float) (q : Float) : Prop where
  bare : Motion.last? codes = none
  kept : 80 ∉ codes
  pecking : m.cycle.step?.isSome = true
  step : w.q = some q
  refused : Scalar.isPositive q = false

@[simp] theorem cycle_holeIfPlaced : (holeIfPlaced site m w).modal.cycle = m.cycle := by
  rw [holeIfPlaced]
  split
  · rw [hole]
    split <;> rfl
  · rfl

/-- Words without a motion code change the cycle whether or not its step is then refused. -/
theorem cycle_bare : (bare site m w).modal.cycle = adjust w m.cycle := by
  rw [bare]
  split
  · rename_i hidle
    rw [hidle, ← adjust_eq_idle_iff.1 hidle]
    split <;> rfl
  · dsimp only
    split
    · split
      · exact cycle_holeIfPlaced
      · rfl
    · exact cycle_holeIfPlaced

theorem step?_adjust (cycle : Cycle Float) :
    (adjust w cycle).step? = cycle.step?.map fun q ↦ w.q.getD q := by
  cases cycle <;> rfl

/-- A code that sets up a cycle puts no refused step in force. -/
theorem usable_activate (pecking : Bool) (h : m.cycle.Usable) :
    (activate site pecking m w).modal.cycle.Usable := by
  rw [activate]
  cases pecking with
  | false =>
    simp only [Bool.false_eq_true, if_false, cycle_holeIfPlaced]
    rintro q ⟨⟩
  | true =>
    simp only [if_true]
    split
    · rename_i hq
      rw [cycle_holeIfPlaced]
      rintro q ⟨⟩
      exact hq
    · exact h

theorem usable_ofMotion (motion : Motion) (h : m.cycle.Usable) :
    (ofMotion site (some motion) m w).modal.cycle.Usable := by
  cases motion with
  | straight kind =>
    rw [ofMotion, straight]
    split <;> exact h
  | arc direction => exact h
  | drill => exact usable_activate false h
  | peck => exact usable_activate true h

theorem setup_cycle (codes : List Nat) :
    (setup site.line m codes w).modal.cycle = if 80 ∈ codes then .idle else m.cycle := by
  rw [setup, Setup.modal_ofCodes, Modal.withCodes]

theorem setup_motion (codes : List Nat) :
    (setup site.line m codes w).motion = Motion.last? codes :=
  Setup.motion_ofCodes codes

/-- A line leaves a usable cycle, unless its words spoil the one in force. -/
theorem usable_ofBlock (h : m.cycle.Usable) (hs : ∀ q, ¬ Spoils m codes w q) :
    (ofBlock site m codes w).modal.cycle.Usable := by
  have hsetup : (setup site.line m codes w).modal.cycle.Usable := by
    rw [setup_cycle]
    split
    · rintro q ⟨⟩
    · exact h
  rw [ofBlock_eq]
  dsimp only
  rw [setup_motion]
  cases hm : Motion.last? codes with
  | some motion => exact usable_ofMotion motion hsetup
  | none =>
    intro q hq
    rw [ofMotion, cycle_bare, step?_adjust] at hq
    obtain ⟨q', hq', rfl⟩ := Option.map_eq_some_iff.1 hq
    cases hw : w.q with
    | none => exact hsetup q' hq'
    | some q =>
      rw [setup_cycle] at hq'
      split at hq'
      · cases hq'
      · rename_i hkept
        by_contra hrefused
        exact hs q ⟨hm, hkept, hq' ▸ rfl, hw, by simpa using hrefused⟩

/-- Words that spoil a cycle are refused, and the step stays in the cycle. -/
theorem Spoils.ofBlock (site : Site) (h : Spoils m codes w q) :
    (ofBlock site m codes w).cause = some (.invalidPeckDepth q) ∧
      (ofBlock site m codes w).modal.cycle.step? = some q := by
  have hcycle : (setup site.line m codes w).modal.cycle = m.cycle := by
    rw [setup_cycle, if_neg h.kept]
  obtain ⟨q', hq'⟩ := Option.isSome_iff_exists.1 h.pecking
  have hstep : (adjust w (setup site.line m codes w).modal.cycle).step? = some q := by
    rw [hcycle, step?_adjust, hq', h.step]
    rfl
  rw [ofBlock_eq]
  dsimp only
  rw [setup_motion, h.bare]
  refine ⟨?_, cycle_bare ▸ hstep⟩
  rw [ofMotion, Effect.bare]
  split
  · rename_i hidle
    rw [hidle] at hstep
    cases hstep
  · dsimp only
    rw [hstep]
    dsimp only
    rw [if_neg (h.refused ▸ Bool.false_ne_true)]

end Effect

/-- The action puts a step which is refused into the pecking cycle in force. -/
inductive Action.Spoils (registers : Registers) (m : Modal) (q : Float) : Action → Prop where
  | block {b : Block} {w : Words Float} (words : b.words.traverse registers.resolve = .ok w)
      (h : Effect.Spoils m b.g w q) : Spoils registers m q (.block b)

theorem Action.Spoils.refused {registers : Registers} {m : Modal} {q : Float} {action : Action}
    (h : action.Spoils registers m q) : Scalar.isPositive q = false := by
  cases h with
  | block words h => exact h.refused

namespace State

variable {s t : State} {site : Site} {action : Action} {flow : Flow}

/-- An action leaves a usable cycle, unless it spoils the one in force. -/
theorem Acts.usable (h : Acts s site action t flow) (hs : s.modal.cycle.Usable)
    (hq : ∀ q, ¬ action.Spoils s.registers s.modal q) : t.modal.cycle.Usable := by
  cases h with
  | idle h notices | assigned registers | unassigned registers n | lost h | skipped h notices
  | opened h passes lines | unresolved h => exact hs
  | refused hw hc | moved hw hc notices hf =>
    exact Effect.usable_ofBlock hs fun q h ↦ hq q (.block hw h)

/-- An action that spoils a cycle fails, and the step stays in the cycle. -/
theorem act_of_spoils {q : Float} (site : Site) (h : action.Spoils s.registers s.modal q) :
    ∃ t, s.act site action = (t, .fail (.invalidPeckDepth q)) ∧ t.modal.cycle.step? = some q := by
  cases h with
  | @block b w hw h =>
    obtain ⟨hcause, hstep⟩ := h.ofBlock site
    refine ⟨s.absorb (Effect.ofBlock site s.modal b.g w), ?_, hstep⟩
    rw [act, State.block, hw]
    dsimp only
    rw [hcause]

end State

/-! ## Runs -/

namespace Machine

variable {p : Program} {o : Options} {m : Machine} {q : Float} {r : Machine ⊕ Finished}

/-- The line in hand puts a step which is refused into the pecking cycle in force. -/
inductive Spoils (p : Program) (m : Machine) (q : Float) : Prop where
  | line {text : String} {statement : Statement} (line : p.line? m.cursor = some text)
      (reads : (Statement.read text.toList).result = .ok statement)
      (h : statement.action.Spoils m.state.registers m.state.modal q) : Spoils p m q

theorem Executes.usable {text : String} {statement : Statement} {s : State} {flow : Flow}
    (h : Executes p o m text statement (s, flow)) (hm : m.state.modal.cycle.Usable)
    (hq : ∀ q, ¬ m.Spoils p q) : s.modal.cycle.Usable := by
  refine (State.acts_of_act h.acted).usable ?_ fun q hs ↦ hq q ⟨h.line, h.reads, ?_⟩
  · rwa [declared_modal]
  · rwa [declared_registers, declared_modal] at hs

/-- A step leaves a usable cycle, unless the line in hand spoils the one in force. -/
theorem Move.usable (h : Move p o m r) (hm : m.state.modal.cycle.Usable)
    (hq : ∀ q, ¬ m.Spoils p q) : (stateAfter r).modal.cycle.Usable := by
  cases h with
  | past h => exact hm
  | @refused text refusal ht hr =>
    have hheard : (m.heard o text).modal.cycle.Usable := by rwa [heard_modal]
    cases refusal with
    | fault cause => exact hheard
    | cutCharacter => exact hheard
  | next h | halted h | failed h | entered h room | tooDeep h full => exact h.usable hm hq

/-- A line that spoils a cycle ends the run, which leaves the step in the cycle. -/
theorem Spoils.step (hf : Faithful p m.read) (h : m.Spoils p q) :
    ∃ text finished, p.line? m.cursor = some text ∧ Machine.step p o m = .inr finished ∧
      finished.outcome = .failed ⟨m.cursor + 1, text, .invalidPeckDepth q⟩ ∧
      finished.state.modal.cycle.step? = some q := by
  obtain ⟨ht, hr, hs⟩ := h
  rename_i text statement
  have hdeclared : statement.action.Spoils (m.declared o text statement).registers
      (m.declared o text statement).modal q := by
    rwa [declared_registers, declared_modal]
  obtain ⟨t, hact, hstep⟩ := State.act_of_spoils (o.site m.cursor text) hdeclared
  exact ⟨text, _, ht, (Executes.of_acted ht hr hact).step hf, rfl, hstep⟩

/-- At every point of a run the cycle in force is usable. -/
theorem Reachable.usable (h : Reachable p o m) : m.state.modal.cycle.Usable := by
  refine h.induct (P := fun m ↦ m.state.modal.cycle.Usable) ?_ fun m m' hr hm hs ↦ ?_
  · obtain ⟨notices, hn⟩ := start_eq_told p o
    rw [hn]
    rintro q ⟨⟩
  · refine Move.usable ((move_iff hr.faithful).2 hs) hm fun q hq ↦ ?_
    obtain ⟨-, finished, -, hs', -⟩ := hq.step (o := o.usable) hr.faithful
    cases hs.symm.trans hs'

/-- A run leaves a usable cycle, unless its last line spoils the one in force. -/
theorem Reachable.usable_end {finished : Finished} (h : Reachable p o m)
    (hs : Machine.step p o.usable m = .inr finished) (hq : ∀ q, ¬ m.Spoils p q) :
    finished.state.modal.cycle.Usable :=
  Move.usable ((move_iff h.faithful).2 hs) h.usable hq

/-- At every point of a run the step of a pecking cycle in force is positive. So it is when the run
has ended, unless the last line has no motion code and puts a step into the cycle that is refused:
then the run fails for it, and leaves it in the cycle. -/
theorem usable_run_iff (p : Program) (o : Options) :
    (∀ m, Reachable p o m → m.state.modal.cycle.Usable) ∧
    (∀ m q, Reachable p o m → m.Spoils p q →
      ∃ text, p.line? m.cursor = some text ∧
        (p.run o).outcome = .failed ⟨m.cursor + 1, text, .invalidPeckDepth q⟩ ∧
        (p.run o).state.modal.cycle.step? = some q) ∧
    ((p.run o).state.modal.cycle.Usable ↔ ¬ ∃ m q, Reachable p o m ∧ m.Spoils p q) := by
  have hspoilt : ∀ m q, Reachable p o m → m.Spoils p q →
      ∃ text, p.line? m.cursor = some text ∧
        (p.run o).outcome = .failed ⟨m.cursor + 1, text, .invalidPeckDepth q⟩ ∧
        (p.run o).state.modal.cycle.step? = some q := by
    intro m q hr hq
    obtain ⟨text, finished, ht, hs, houtcome, hstep⟩ := hq.step (o := o.usable) hr.faithful
    rw [hr.run_eq hs]
    exact ⟨text, ht, houtcome, hstep⟩
  refine ⟨fun m ↦ Reachable.usable, hspoilt, ?_, fun hnone ↦ ?_⟩
  · rintro husable ⟨m, q, hr, hq⟩
    obtain ⟨text, -, -, hstep⟩ := hspoilt m q hr hq
    obtain ⟨-, -, hspoils⟩ := hq
    exact Cycle.not_usable hstep hspoils.refused husable
  · obtain ⟨m, hr, hs⟩ := exists_last p o
    exact hr.usable_end hs fun q hq ↦ hnone ⟨m, q, hr, hq⟩

/-- A cycle is set up with a step of one millimetre, which the next line makes negative. -/
def negativeStep : Program := .ofLines ["G83 Z-1 R1 Q1", "Q-1"]

/-- The cycle that `negativeStep` leaves is not usable. -/
theorem exists_unusable_negativeStep :
    ¬ ∀ (p : Program) (o : Options), (p.run o).state.modal.cycle.Usable := by
  have h : ∃ f, iterate negativeStep (Options.usable {}) 2 (start negativeStep {}) = .inr f ∧
      f.state.modal.cycle.step? = some (-1) := ⟨_, rfl, rfl⟩
  obtain ⟨f, hi, hstep⟩ := h
  have hrun : negativeStep.run {} = f := run_eq_of_iterate hi
  intro hall
  have husable := hall negativeStep {}
  rw [hrun] at husable
  exact Cycle.not_usable hstep (by decide) husable

/-- The second line of `negativeStep` is come to with a usable pecking cycle in force, and spoils
it. -/
theorem usable_run_iff_negativeStep :
    ∃ m text, Reachable negativeStep {} m ∧ m.state.modal.cycle.step? = some 1 ∧
      m.state.modal.cycle.Usable ∧ m.Spoils negativeStep (-1) ∧
      (negativeStep.run {}).outcome = .failed ⟨2, text, .invalidPeckDepth (-1)⟩ ∧
      (negativeStep.run {}).state.modal.cycle.step? = some (-1) := by
  have h : ∃ m, iterate negativeStep (Options.usable {}) 1 (start negativeStep {}) = .inl m ∧
      m.cursor = 1 ∧ m.state.modal.cycle = .peck (-1) 1 1 ∧ m.Spoils negativeStep (-1) :=
    ⟨_, rfl, rfl, rfl, .line rfl rfl (.block rfl ⟨rfl, by decide, rfl, rfl, by decide⟩)⟩
  obtain ⟨m, hi, hc, hcycle, hs⟩ := h
  obtain ⟨husable, hspoilt, -⟩ := usable_run_iff negativeStep {}
  obtain ⟨text, -, houtcome, hstep⟩ := hspoilt m (-1) ⟨1, hi⟩ hs
  rw [hc] at houtcome
  exact ⟨m, text, ⟨1, hi⟩, by rw [hcycle]; rfl, husable m ⟨1, hi⟩, hs, houtcome, hstep⟩

end Machine

end Toolpath
