import Toolpath.Proofs.Run.Failure

/-!
# The limit on nesting

The one thing a run does with its limit on open blocks is to fail at it. A run with a greater limit
comes to every point that a run with a lesser one comes to (`Reachable.deeper`), and it ends as that
one does unless the lesser limit is what ends it (`Move.deeper`): `run_deeper`.
-/

namespace Toolpath

/-- One block more would have been open than may be. -/
def Outcome.IsTooDeep (outcome : Outcome) : Prop :=
  ∃ fault limit, outcome = .failed fault ∧ fault.cause = .nestingTooDeep limit

namespace Machine

variable {p : Program} {o : Options} {m : Machine} {r : Machine ⊕ Finished} {text : String}
  {statement : Statement} {result : State × Flow} {shallow deep : Nat}

/-- What a line does is up to the limit only where a block is opened. -/
theorem Executes.deeper (deep : Nat)
    (h : Executes p { o with depth := shallow } m text statement result) :
    Executes p { o with depth := deep } m text statement result :=
  ⟨h.line, h.reads, h.ran⟩

/-- A step is the same with a greater limit, unless it fails at the lesser one and makes no move. -/
theorem Move.deeper (hle : shallow ≤ deep) (h : Move p { o with depth := shallow } m r) :
    Move p { o with depth := deep } m r ∨
      ∃ finished, r = .inr finished ∧ finished.outcome.IsTooDeep ∧
        finished.state.log = m.state.log := by
  cases h with
  | past h => exact .inl (.past h)
  | refused ht hr => exact .inl (.refused ht hr)
  | next h => exact .inl (.next (h.deeper deep))
  | halted h => exact .inl (.halted (h.deeper deep))
  | failed h => exact .inl (.failed (h.deeper deep))
  | entered h room => exact .inl (.entered (h.deeper deep) (Nat.lt_of_lt_of_le room hle))
  | tooDeep h full =>
    obtain ⟨command, -, rfl, -⟩ := State.again_of_act h.acted
    exact .inr ⟨_, rfl, ⟨_, shallow, rfl, rfl⟩, declared_log⟩

theorem Move.deeper_of_inl {m' : Machine} (hle : shallow ≤ deep)
    (h : Move p { o with depth := shallow } m (.inl m')) :
    Move p { o with depth := deep } m (.inl m') := by
  rcases h.deeper hle with h | ⟨finished, hr, -⟩
  · exact h
  · cases hr

/-- A run with a greater limit comes to all that a run with a lesser one comes to. -/
theorem Reachable.deeper (hle : shallow ≤ deep)
    (h : Reachable p { o with depth := shallow } m) : Reachable p { o with depth := deep } m := by
  have base : Reachable p { o with depth := deep } (Machine.start p { o with depth := shallow }) :=
    .start
  refine h.induct base fun m m' hm hd hs ↦ ?_
  have hmove : Move p (Options.usable { o with depth := deep }) m (.inl m') :=
    Move.deeper_of_inl (o := o.usable) hle ((move_iff hm.faithful).2 hs)
  exact hd.step ((move_iff hd.faithful).1 hmove)

/-- The limit on open blocks only cuts runs short. A run that does not fail at it is the same with a
greater limit; of one that does, the log is the beginning of the log with the greater limit. -/
theorem run_deeper (p : Program) (o : Options) (shallow deep : Nat) (hle : shallow ≤ deep) :
    (¬ (p.run { o with depth := shallow }).outcome.IsTooDeep →
      p.run { o with depth := deep } = p.run { o with depth := shallow }) ∧
    ((p.run { o with depth := shallow }).outcome.IsTooDeep →
      (p.run { o with depth := shallow }).state.log.toList <+:
        (p.run { o with depth := deep }).state.log.toList) := by
  obtain ⟨m, h, hs⟩ := exists_last p { o with depth := shallow }
  have hd : Reachable p { o with depth := deep } m := h.deeper hle
  rcases Move.deeper (o := o.usable) hle ((move_iff h.faithful).2 hs) with hmove | ⟨f, hf, ht, hlog⟩
  · have heq : p.run { o with depth := deep } = p.run { o with depth := shallow } :=
      hd.run_eq ((move_iff hd.faithful).1 hmove)
    exact ⟨fun _ ↦ heq, fun _ ↦ heq ▸ List.prefix_rfl⟩
  · obtain rfl : p.run { o with depth := shallow } = f := Sum.inr.inj hf
    refine ⟨fun hne ↦ absurd ht hne, fun _ ↦ ?_⟩
    rw [hlog]
    exact hd.log_prefix_run

/-- A move repeated in a block that is itself repeated, with a move of its own. -/
def movesInBlocks : Program := .ofLines ["A:", "B: G1 X1", "REPEAT B", "G1 X2", "REPEAT A"]

/-- With one open block allowed a run of `movesInBlocks` fails at its second pass, after four moves
that a run with two begins with; with two it is completed, as it is with many more. -/
theorem run_deeper_movesInBlocks :
    (movesInBlocks.run { depth := 1 }).outcome.IsTooDeep ∧
    (movesInBlocks.run { depth := 1 }).state.log.toList.length = 4 ∧
    (movesInBlocks.run { depth := 1 }).state.log.toList <+:
      (movesInBlocks.run { depth := 2 }).state.log.toList ∧
    ¬ (movesInBlocks.run { depth := 2 }).outcome.IsTooDeep ∧
    movesInBlocks.run { depth := 64 } = movesInBlocks.run { depth := 2 } := by
  have fails : ∃ f, iterate movesInBlocks (Options.usable { depth := 1 }) 9
      (start movesInBlocks { depth := 1 }) = .inr f ∧ f.state.log.toList.length = 4 ∧
      f.outcome = .failed ⟨3, "REPEAT B", .nestingTooDeep 1⟩ := ⟨_, rfl, rfl, rfl⟩
  have completes : ∃ f, iterate movesInBlocks (Options.usable { depth := 2 }) 12
      (start movesInBlocks { depth := 2 }) = .inr f ∧ f.outcome = .completed := ⟨_, rfl, rfl⟩
  obtain ⟨f, hf, hsize, hfailed⟩ := fails
  obtain ⟨g, hg, hcompleted⟩ := completes
  obtain rfl : movesInBlocks.run { depth := 1 } = f := run_eq_of_iterate hf
  obtain rfl : movesInBlocks.run { depth := 2 } = g := run_eq_of_iterate hg
  have hdeep : (movesInBlocks.run { depth := 1 }).outcome.IsTooDeep := ⟨_, 1, hfailed, rfl⟩
  have hnot : ¬ (movesInBlocks.run { depth := 2 }).outcome.IsTooDeep := by
    rintro ⟨fault, limit, h, -⟩
    rw [hcompleted] at h
    cases h
  exact ⟨hdeep, hsize, (run_deeper movesInBlocks {} 1 2 (by decide)).2 hdeep, hnot,
    (run_deeper movesInBlocks {} 2 64 (by decide)).1 hnot⟩

end Machine

end Toolpath
