import Toolpath.Run.Machine

/-!
# States up to notices

What the operator is told never decides anything. `State.told` replaces the notices of a state, and
the lemmas on it say that a statement does the same whatever the notices are. Two states that are
alike without their notices (`State.quiet`) therefore stay alike: `execute_quiet`.
-/

namespace Toolpath.State

variable {s t : State} {notices : Array Notice} {site : Site} {active : List Nat} {index : Nat}

/-- The state with other notices. -/
def told (s : State) (notices : Array Notice) : State := { s with notices }

/-- The state without notices. -/
def quiet (s : State) : State := s.told #[]

@[simp] theorem quiet_told (s : State) (notices : Array Notice) :
    (s.told notices).quiet = s.quiet := rfl

/-- States are alike when they differ in their notices only. -/
theorem quiet_eq_iff : s.quiet = t.quiet ↔ ∃ notices, t = s.told notices := by
  constructor
  · intro h
    refine ⟨t.notices, ?_⟩
    cases s
    cases t
    simp only [quiet, told, State.mk.injEq] at h ⊢
    exact ⟨h.1.symm, h.2.1.symm, h.2.2.1.symm, h.2.2.2.1.symm, h.2.2.2.2.1.symm, trivial⟩
  · rintro ⟨notices, rfl⟩
    rfl

/-- States that are alike without notices agree on everything else. -/
theorem eq_of_quiet (h : s.quiet = t.quiet) :
    s.log = t.log ∧ s.modal = t.modal ∧ s.registers = t.registers ∧ s.labels = t.labels := by
  obtain ⟨notices, rfl⟩ := quiet_eq_iff.1 h
  exact ⟨rfl, rfl, rfl, rfl⟩

theorem setPositioning_quiet (h : s.quiet = t.quiet) (q : Positioning) :
    (s.setPositioning q).quiet = (t.setPositioning q).quiet := by
  obtain ⟨notices, rfl⟩ := quiet_eq_iff.1 h
  rfl

theorem foldl_note_eq_told {β : Type} (g : β → Notice) (rs : List β) (s : State) :
    ∃ notices, rs.foldl (fun s r => s.note (g r)) s = s.told notices := by
  induction rs generalizing s with
  | nil => exact ⟨s.notices, rfl⟩
  | cons r rest ih =>
    obtain ⟨notices, h⟩ := ih (s.note (g r))
    exact ⟨notices, h⟩

theorem foldl_note_quiet {β : Type} (g : β → Notice) (rs : List β) (s : State) :
    (rs.foldl (fun s r => s.note (g r)) s).quiet = s.quiet := by
  obtain ⟨notices, h⟩ := foldl_note_eq_told g rs s
  rw [h, quiet_told]

/-! ## Statements do not look at notices -/

theorem declare_all_told (labels : List String) :
    labels.foldl (declare active index) (s.told notices) =
      (labels.foldl (declare active index) s).told notices := by
  induction labels generalizing s with
  | nil => rfl
  | cons label rest ih => exact ih (s := declare active index s label)

theorem loop_told (command : Repeat) : (s.told notices).loop index command = s.loop index command :=
  rfl

theorem assign_told (pairs : List (Nat × Value)) :
    (s.told notices).assign pairs = ((s.assign pairs).1.told notices, (s.assign pairs).2) := by
  induction pairs generalizing s with
  | nil => rfl
  | cons pair rest ih =>
    rw [assign, assign, show (s.told notices).registers = s.registers from rfl]
    cases s.registers.resolve pair.2 with
    | ok x => exact ih (s := { s with registers := s.registers.set pair.1 x })
    | error n => rfl

theorem again_told (command : Repeat) :
    ∃ notices', (s.told notices).again site command =
      ((s.again site command).1.told notices', (s.again site command).2) := by
  rw [again, again, loop_told]
  cases s.loop (site.line - 1) command with
  | error cause => exact ⟨notices, rfl⟩
  | ok loop =>
    dsimp only
    split
    · exact ⟨notices, rfl⟩
    · split
      · exact ⟨notices.push (.emptyRepeat site.line site.text), rfl⟩
      · exact ⟨notices, rfl⟩

theorem block_told (b : Block) :
    ∃ notices', (s.told notices).block site b =
      ((s.block site b).1.told notices', (s.block site b).2) := by
  rw [block, block, show (s.told notices).registers = s.registers from rfl,
    show (s.told notices).modal = s.modal from rfl]
  cases b.words.traverse s.registers.resolve with
  | error n => exact ⟨notices, rfl⟩
  | ok words =>
    dsimp only
    generalize Effect.ofBlock site s.modal b.g words = effect
    cases effect.cause with
    | some cause => exact ⟨notices ++ effect.notices, rfl⟩
    | none =>
      cases haltCode? b.m with
      | some code => exact ⟨(notices ++ effect.notices).push (.halted site.line code), rfl⟩
      | none => exact ⟨notices ++ effect.notices, rfl⟩

theorem act_told (action : Action) :
    ∃ notices', (s.told notices).act site action =
      ((s.act site action).1.told notices', (s.act site action).2) := by
  cases action with
  | blank | comment => exact ⟨notices, rfl⟩
  | unrecognized => exact ⟨notices.push (.unrecognizedLine site.line site.text), rfl⟩
  | assign pairs => exact ⟨notices, assign_told pairs⟩
  | again command => exact again_told command
  | block b => exact block_told b

/-! ## Alike states stay alike -/

theorem declare_all_quiet (h : s.quiet = t.quiet) (labels : List String) :
    (labels.foldl (declare active index) s).quiet =
      (labels.foldl (declare active index) t).quiet := by
  obtain ⟨notices, rfl⟩ := quiet_eq_iff.1 h
  rw [declare_all_told]
  rfl

theorem loop_quiet (h : s.quiet = t.quiet) (command : Repeat) :
    s.loop index command = t.loop index command := by
  obtain ⟨notices, rfl⟩ := quiet_eq_iff.1 h
  rfl

theorem act_quiet (h : s.quiet = t.quiet) (action : Action) :
    (s.act site action).1.quiet = (t.act site action).1.quiet ∧
      (s.act site action).2 = (t.act site action).2 := by
  obtain ⟨notices, rfl⟩ := quiet_eq_iff.1 h
  obtain ⟨notices', he⟩ := @act_told s notices site action
  rw [he]
  exact ⟨rfl, rfl⟩

theorem execute_quiet (h : s.quiet = t.quiet) (statement : Statement) :
    (s.execute site active statement).1.quiet = (t.execute site active statement).1.quiet ∧
      (s.execute site active statement).2 = (t.execute site active statement).2 :=
  act_quiet (declare_all_quiet h statement.labels) statement.action

end Toolpath.State
