import Toolpath.Proofs.Program.Cut
import Toolpath.Proofs.Run.Move

/-!
# How a run ends

A run executes a bounded number of lines (`Machine.weight` is at first the bound less one). At its
end it is completed, halted or failed (`Outcome.Regular`), unless it comes to a line that cuts a
character: such a line has no statement and no error either, and leaves the run without a result.
-/

namespace Toolpath

/-- A run ended in a way that is reported. -/
inductive Outcome.Regular : Outcome → Prop where
  | completed : Regular .completed
  | halted (line : Nat) : Regular (.halted line)
  | failed (fault : Fault) : Regular (.failed fault)

namespace Machine

variable {p : Program} {o : Options} {m : Machine} {finished : Finished}

theorem weight_start (p : Program) (o : Options) :
    weight p o.usable (start p o) = p.size * Frame.base p.size ^ o.depth := rfl

theorem regular_fail (s : State) (site : Site) (cause : Cause) :
    (s.fail site cause).outcome.Regular :=
  .failed _

/-- A run that ends at a point ends irregularly only if the line in hand cuts a character. -/
theorem regular_or_cuts (hf : Faithful p m.read) (hs : step p o m = .inr finished) :
    finished.outcome.Regular ∨
      ∃ text, p.line? m.cursor = some text ∧ Statement.Cuts text.toList := by
  cases (move_iff hf).2 hs with
  | past h => exact .inl .completed
  | @refused text refusal ht hr =>
    cases refusal with
    | fault cause => exact .inl (regular_fail _ _ cause)
    | cutCharacter => exact .inr ⟨text, ht, (Statement.read_eq_cut_iff _).1 hr⟩
  | halted h => exact .inl (.halted _)
  | failed h => exact .inl (regular_fail _ _ _)
  | tooDeep h full => exact .inl (regular_fail _ _ _)

/-- At a line that cuts a character a run is abandoned. -/
theorem step_of_cuts {text : String} (hf : Faithful p m.read) (ht : p.line? m.cursor = some text)
    (hc : Statement.Cuts text.toList) :
    step p o m = .inr ⟨m.heard o text, .abandoned (m.cursor + 1)⟩ :=
  (Move.refused ht ((Statement.read_eq_cut_iff _).2 hc)).eq_step hf

/-- Every run ends, within as many lines as its weight and one more. It is completed, halted or
failed exactly when no line it comes to cuts a character. -/
theorem run_ends (p : Program) (o : Options) :
    iterate p o.usable (p.size * Frame.base p.size ^ o.depth + 1) (start p o) = .inr (p.run o) ∧
    ((p.run o).outcome.Regular ↔
      ∀ m text, Reachable p o m → p.line? m.cursor = some text → ¬ Statement.Cuts text.toList) := by
  constructor
  · rw [← weight_start]
    exact iterate_of_weight_lt (sound_start p o o.usable) (Nat.lt_succ_self _)
  · constructor
    · intro hr m text hm ht hc
      rw [hm.run_eq (step_of_cuts hm.faithful ht hc)] at hr
      cases hr
    · intro h
      obtain ⟨m, hm, hs⟩ := exists_last p o
      rcases regular_or_cuts hm.faithful hs with hr | ⟨text, ht, hc⟩
      · exact hr
      · exact absurd hc (h m text hm ht)

/-- The second byte of `€` lies inside it, so a command to repeat from a label of that name leaves a
run without a result. -/
theorem run_cut_label : ¬ ((Program.ofLines ["REPEAT €"]).run {}).outcome.Regular := by
  have h : ∃ s, iterate (.ofLines ["REPEAT €"]) (Options.usable {}) 1
      (start (.ofLines ["REPEAT €"]) {}) = .inr ⟨s, .abandoned 1⟩ := ⟨_, rfl⟩
  obtain ⟨s, hi⟩ := h
  rw [Program.run, run_eq_of_iterate hi]
  intro h
  cases h

end Machine

end Toolpath
