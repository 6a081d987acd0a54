import Toolpath.Proofs.Run.Quiet

/-!
# What one action does

`State.Acts s site action t flow` lists what an action can come to: the state it leaves, in terms of
the one it finds, and where the run goes from there. `State.act_acts` makes the list complete, so
that what is known of every action is a matter of one case for each entry.
-/

namespace Toolpath

/-- An action that does nothing, except to tell the operator. -/
inductive Action.Idle : Action → Prop where
  | blank : Idle .blank
  | comment : Idle .comment
  | unrecognized : Idle .unrecognized

namespace State

/-- What an action can come to. -/
inductive Acts (s : State) (site : Site) : Action → State → Flow → Prop where
  | idle {action : Action} (h : action.Idle) (notices : Array Notice) :
      Acts s site action (s.told notices) .next
  | assigned {pairs : List (Nat × Value)} (registers : Registers) :
      Acts s site (.assign pairs) { s with registers } .next
  | unassigned {pairs : List (Nat × Value)} (registers : Registers) (n : Nat) :
      Acts s site (.assign pairs) { s with registers } (.fail (.undefinedRegister n))
  | lost {command : Repeat} {cause : Cause} (h : s.loop (site.line - 1) command = .error cause) :
      Acts s site (.again command) s (.fail cause)
  | skipped {command : Repeat} {l : Loop} (h : s.loop (site.line - 1) command = .ok l)
      (notices : Array Notice) :
      Acts s site (.again command) ((s.setPositioning l.positioning).told notices) .next
  | opened {command : Repeat} {l : Loop} (h : s.loop (site.line - 1) command = .ok l)
      (passes : 0 < l.passes) (lines : l.start < l.stop) :
      Acts s site (.again command) s (.again l)
  | unresolved {b : Block} {n : Nat} (h : b.words.traverse s.registers.resolve = .error n) :
      Acts s site (.block b) s (.fail (.undefinedRegister n))
  | refused {b : Block} {w : Words Float} {cause : Cause}
      (h : b.words.traverse s.registers.resolve = .ok w)
      (hc : (Effect.ofBlock site s.modal b.g w).cause = some cause) :
      Acts s site (.block b) (s.absorb (Effect.ofBlock site s.modal b.g w)) (.fail cause)
  | moved {b : Block} {w : Words Float} (h : b.words.traverse s.registers.resolve = .ok w)
      (hc : (Effect.ofBlock site s.modal b.g w).cause = none) (notices : Array Notice)
      {flow : Flow} (hf : flow = .next ∨ flow = .halt) :
      Acts s site (.block b) ((s.absorb (Effect.ofBlock site s.modal b.g w)).told notices) flow

variable {s : State} {site : Site}

theorem assign_acts (pairs : List (Nat × Value)) :
    ∃ registers, (s.assign pairs).1 = { s with registers } ∧
      ((s.assign pairs).2 = .next ∨ ∃ n, (s.assign pairs).2 = .fail (.undefinedRegister n)) := by
  induction pairs generalizing s with
  | nil => exact ⟨s.registers, rfl, .inl rfl⟩
  | cons pair rest ih =>
    rw [assign]
    split
    · exact ih
    · exact ⟨s.registers, rfl, .inr ⟨_, rfl⟩⟩

theorem again_acts (command : Repeat) :
    Acts s site (.again command) (s.again site command).1 (s.again site command).2 := by
  rw [again]
  split
  · rename_i h
    exact .lost h
  · rename_i l h
    split
    · exact .skipped h s.notices
    · split
      · exact .skipped h (s.notices.push _)
      · exact .opened h (by omega) (by omega)

theorem block_acts (b : Block) :
    Acts s site (.block b) (s.block site b).1 (s.block site b).2 := by
  rw [block]
  split
  · rename_i h
    exact .unresolved h
  · rename_i w h
    dsimp only
    split
    · rename_i hc
      exact .refused h hc
    · rename_i hc _
      exact .moved h hc _ (.inr rfl)
    · rename_i hc _
      exact .moved h hc _ (.inl rfl)

/-- The list is complete. -/
theorem act_acts (s : State) (site : Site) (action : Action) :
    Acts s site action (s.act site action).1 (s.act site action).2 := by
  cases action with
  | blank => exact .idle .blank s.notices
  | comment => exact .idle .comment s.notices
  | unrecognized => exact .idle .unrecognized _
  | assign pairs =>
    obtain ⟨registers, hs, hf⟩ := assign_acts (s := s) pairs
    rw [act, hs]
    rcases hf with hf | ⟨n, hf⟩
    · rw [hf]
      exact .assigned registers
    · rw [hf]
      exact .unassigned registers n
  | again command => exact again_acts command
  | block b => exact block_acts b

theorem acts_of_act {action : Action} {t : State} {flow : Flow}
    (h : s.act site action = (t, flow)) : Acts s site action t flow := by
  have := act_acts s site action
  rwa [h] at this

/-- Only a command to repeat opens a block, one with passes and lines. -/
theorem again_of_act {action : Action} {t : State} {l : Loop}
    (h : s.act site action = (t, .again l)) :
    ∃ command, action = .again command ∧ t = s ∧ s.loop (site.line - 1) command = .ok l ∧
      0 < l.passes ∧ l.start < l.stop := by
  cases acts_of_act h with
  | opened hl passes lines => exact ⟨_, rfl, rfl, hl, passes, lines⟩
  | moved hw hc notices hf => rcases hf with hf | hf <;> cases hf

end State

end Toolpath
