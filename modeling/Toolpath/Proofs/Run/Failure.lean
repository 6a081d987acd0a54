import Toolpath.Proofs.Run.Continuity

/-!
# Lines that fail

A line fails before it makes a move. Of what it may have changed by then, the registers assigned so
far and the labels declared stay, but the log and the place of the tool are as they were
(`State.Spares`); so are all settings, unless what is refused is the step of a pecking cycle, which
is found out only once feed, codes and the words of the cycle have been taken. The fault bears the
number and the text of the line: `failed_at_line`.
-/

namespace Toolpath

/-! ## Refused cycles -/

namespace Effect

variable {site : Site} {m : Modal} {w : Words Float} {motion : Option Motion} {e : Effect}
  {cause : Cause}

/-- An effect that is refused for the step of a pecking cycle, with the tool at `a`. -/
structure Refused (a : Point Float) (e : Effect) (cause : Cause) : Prop where
  moves : e.moves = []
  position : e.modal.position = a
  depth : ∃ q, cause = .invalidPeckDepth q

/-- The only reason to refuse a motion is the step of a pecking cycle. -/
theorem Performs.refuses (h : Performs site m w motion e) (hc : e.cause = some cause) :
    Refused m.position e cause := by
  cases h with
  | refused cycle notices q =>
    cases hc
    exact ⟨rfl, rfl, q, rfl⟩
  | still | straight kind | arc direction | armed cycle notices | drilled cycle notices hmoves
  | placed axis idle => cases hc

theorem refused_ofBlock {codes : List Nat} (h : (ofBlock site m codes w).cause = some cause) :
    Refused m.position (ofBlock site m codes w) cause := by
  have key : Refused (setup site.line m codes w).modal.position
      (ofMotion site (setup site.line m codes w).motion (setup site.line m codes w).modal w)
      cause :=
    (performs_ofMotion site _ _ w).refuses h
  rw [position_setup] at key
  exact ⟨key.moves, key.position, key.depth⟩

end Effect

/-! ## Actions that fail -/

namespace State

variable {s t u : State} {site : Site} {action : Action} {cause : Cause}

/-- What a failure for `cause` leaves as it was. -/
structure Spares (s t : State) (cause : Cause) : Prop where
  log : t.log = s.log
  position : t.modal.position = s.modal.position
  modal : (∀ q, cause ≠ .invalidPeckDepth q) → t.modal = s.modal

theorem Spares.of_eq (hl : t.log = s.log) (hm : t.modal = s.modal) : Spares s t cause :=
  ⟨hl, congrArg Modal.position hm, fun _ ↦ hm⟩

theorem Acts.spares (h : Acts s site action t (.fail cause)) : Spares s t cause := by
  cases h with
  | unassigned registers n => exact .of_eq rfl rfl
  | lost h => exact .of_eq rfl rfl
  | unresolved h => exact .of_eq rfl rfl
  | refused hw hc =>
    obtain ⟨hmoves, hposition, q, rfl⟩ := Effect.refused_ofBlock hc
    refine ⟨?_, hposition, fun hq ↦ absurd rfl (hq q)⟩
    rw [absorb, hmoves]
    exact Log.append_nil s.log
  | moved hw hc notices hf => rcases hf with hf | hf <;> cases hf

end State

/-! ## Runs that fail -/

namespace Machine

variable {p : Program} {o : Options} {m : Machine} {finished : Finished} {fault : Fault}

/-- A fault is on the line in hand, and the line has made no move. -/
theorem Move.spares (h : Move p o m (.inr finished)) (hf : finished.outcome = .failed fault) :
    fault.line = m.cursor + 1 ∧ p.line? m.cursor = some fault.text ∧
      m.state.Spares finished.state fault.cause := by
  cases h with
  | past h => cases hf
  | @refused text refusal ht hr =>
    cases refusal with
    | fault cause =>
      cases hf
      exact ⟨rfl, ht, .of_eq heard_log heard_modal⟩
    | cutCharacter => cases hf
  | halted h => cases hf
  | failed h =>
    cases hf
    obtain ⟨hlog, hposition, hmodal⟩ := (State.acts_of_act h.acted).spares
    rw [declared_log] at hlog
    rw [declared_modal] at hposition hmodal
    exact ⟨rfl, h.line, hlog, hposition, hmodal⟩
  | tooDeep h full =>
    cases hf
    obtain ⟨command, -, rfl, -⟩ := State.again_of_act h.acted
    exact ⟨rfl, h.line, .of_eq declared_log declared_modal⟩

/-- A run that fails does so at a line it comes to, and its fault bears the number and the text of
that line. The log and the place of the tool are what they were when the line was come to, and so is
the whole modal state unless the step of a pecking cycle is refused. -/
theorem failed_at_line (p : Program) (o : Options) :
    (∀ m finished fault, Reachable p o m → step p o.usable m = .inr finished →
      finished.outcome = .failed fault →
      p.run o = finished ∧ fault.line = m.cursor + 1 ∧ p.line? m.cursor = some fault.text ∧
      finished.state.log = m.state.log ∧
      finished.state.modal.position = m.state.modal.position ∧
      ((∀ q, fault.cause ≠ .invalidPeckDepth q) → finished.state.modal = m.state.modal)) ∧
    ∀ fault, (p.run o).outcome = .failed fault →
      ∃ m, Reachable p o m ∧ step p o.usable m = .inr (p.run o) := by
  refine ⟨fun m finished fault h hs hf ↦ ?_, fun fault hf ↦ exists_last p o⟩
  obtain ⟨hline, htext, hspares⟩ := ((move_iff h.faithful).2 hs).spares hf
  exact ⟨h.run_eq hs, hline, htext, hspares.log, hspares.position, hspares.modal⟩

/-- A pecking cycle without a step, after a move. -/
def peckWithoutStep : Program := .ofLines ["G1 X1", "G91 F5 G83 X1 Z-1"]

/-- A block repeated as often as a register without a value says, after a move. -/
def countWithoutValue : Program := .ofLines ["A: G91 G1 X1", "B: REPEAT A P=R7"]

set_option maxRecDepth 1500 in
/-- The cycle of `peckWithoutStep` is refused when the feed has been set, the command of
`countWithoutValue` before anything is set; either line leaves the one move made before it. -/
theorem failed_at_line_peckOrCount :
    (∃ m finished fault, Reachable peckWithoutStep {} m ∧
      step peckWithoutStep (Options.usable {}) m = .inr finished ∧
      finished.outcome = .failed fault ∧ (∃ q, fault.cause = .invalidPeckDepth q) ∧
      fault.line = m.cursor + 1 ∧ m.cursor = 1 ∧ finished.state.log = m.state.log ∧
      m.state.log.size = 1 ∧ finished.state.modal.position = m.state.modal.position ∧
      m.state.modal.feed.isSome = false ∧ finished.state.modal.feed.isSome = true) ∧
    ∃ m finished fault, Reachable countWithoutValue {} m ∧
      step countWithoutValue (Options.usable {}) m = .inr finished ∧
      finished.outcome = .failed fault ∧ (∀ q, fault.cause ≠ .invalidPeckDepth q) ∧
      fault.line = m.cursor + 1 ∧ m.cursor = 1 ∧ finished.state.log = m.state.log ∧
      m.state.log.size = 1 ∧ finished.state.modal = m.state.modal := by
  constructor
  · have h : ∃ m finished fault, iterate peckWithoutStep (Options.usable {}) 1
        (start peckWithoutStep {}) = .inl m ∧
        step peckWithoutStep (Options.usable {}) m = .inr finished ∧
        finished.outcome = .failed fault ∧ (∃ q, fault.cause = .invalidPeckDepth q) ∧
        m.cursor = 1 ∧ m.state.log.size = 1 ∧ m.state.modal.feed.isSome = false ∧
        finished.state.modal.feed.isSome = true :=
      ⟨_, _, _, rfl, rfl, rfl, ⟨_, rfl⟩, rfl, rfl, rfl, rfl⟩
    obtain ⟨m, finished, fault, hi, hs, hf, hq, hc, hsize, hfeed, hfeed'⟩ := h
    obtain ⟨-, hline, -, hlog, hposition, -⟩ :=
      (failed_at_line peckWithoutStep {}).1 m finished fault ⟨1, hi⟩ hs hf
    exact ⟨m, finished, fault, ⟨1, hi⟩, hs, hf, hq, hline, hc, hlog, hsize, hposition, hfeed,
      hfeed'⟩
  · have h : ∃ m finished fault, iterate countWithoutValue (Options.usable {}) 1
        (start countWithoutValue {}) = .inl m ∧
        step countWithoutValue (Options.usable {}) m = .inr finished ∧
        finished.outcome = .failed fault ∧ fault.cause = .undefinedRegister 7 ∧
        m.cursor = 1 ∧ m.state.log.size = 1 :=
      ⟨_, _, _, rfl, rfl, rfl, rfl, rfl, rfl⟩
    obtain ⟨m, finished, fault, hi, hs, hf, hcause, hc, hsize⟩ := h
    have hq : ∀ q, fault.cause ≠ .invalidPeckDepth q := by
      rw [hcause]
      rintro q ⟨⟩
    obtain ⟨-, hline, -, hlog, -, hmodal⟩ :=
      (failed_at_line countWithoutValue {}).1 m finished fault ⟨1, hi⟩ hs hf
    exact ⟨m, finished, fault, ⟨1, hi⟩, hs, hf, hq, hline, hc, hlog, hsize, hmodal hq⟩

end Machine

end Toolpath
