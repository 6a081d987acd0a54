import Toolpath.Proofs.Run.Failure
import Toolpath.Proofs.Run.Nesting

/-!
# Lines after a program

A run reads a line when it comes to it. So a run of a program goes on in the same way when more
lines follow, as long as it does not come to their first (`iterate_append`), and one that is not
completed never does: `run_append`.
-/

namespace Toolpath.Machine

variable {o : Options} {m m' : Machine} {n k : Nat} {ps qs : List String} {text : String}
  {statement : Statement}

/-- The machine with room for the statements of `n` more lines. -/
def padded (n : Nat) (m : Machine) : Machine :=
  { m with read := m.read ++ Array.replicate n none }

@[simp] theorem padded_cursor : (m.padded n).cursor = m.cursor := rfl

@[simp] theorem padded_frames : (m.padded n).frames = m.frames := rfl

@[simp] theorem padded_state : (m.padded n).state = m.state := rfl

theorem fetch_padded (h : m.cursor < m.read.size) : (m.padded n).fetch text = m.fetch text := by
  have hread : (m.padded n).read[(m.padded n).cursor]? = m.read[m.cursor]? :=
    Array.getElem?_append_left h
  rw [fetch, fetch, hread]

theorem keep_padded (h : m.cursor < m.read.size) :
    (m.padded n).keep statement = m.keep statement ++ Array.replicate n none := by
  have hread : (m.padded n).read[(m.padded n).cursor]? = m.read[m.cursor]? :=
    Array.getElem?_append_left h
  rw [keep, keep, hread]
  split
  · rw [padded, Array.setIfInBounds_append, if_pos h]
  · rfl

/-! ## Room for statements -/

theorem size_keep : (m.keep statement).size = m.read.size := by
  rw [keep]
  split
  · exact Array.size_setIfInBounds
  · rfl

/-- A run keeps room for one statement a line. -/
theorem Reachable.size_read {p : Program} (h : Reachable p o m) : m.read.size = p.size := by
  refine h.induct (P := fun m ↦ m.read.size = p.size) Array.size_replicate ?_
  intro m m' hr hm hs
  cases (move_iff hr.faithful).2 hs with
  | next h => exact size_keep.trans hm
  | entered h room => exact size_keep.trans hm

theorem start_append (ps qs : List String) (o : Options) :
    start (.ofLines (ps ++ qs)) o = (start (.ofLines ps) o).padded qs.length := by
  rw [start, start, padded, Program.size_ofLines, Program.size_ofLines, List.length_append,
    Array.replicate_append_replicate]

/-! ## The same lines first -/

/-- On a line of the first program a step is the same, whatever lines follow. -/
theorem step_append (qs : List String) (hr : m.read.size = ps.length) (hc : m.cursor < ps.length) :
    step (.ofLines (ps ++ qs)) o (m.padded qs.length) =
      (step (.ofLines ps) o m).map (padded qs.length) id := by
  have hread : m.cursor < m.read.size := hr ▸ hc
  have hline : (Program.ofLines (ps ++ qs)).line? m.cursor = some ps[m.cursor] := by
    rw [Program.line?_ofLines, List.getElem?_append_left hc, List.getElem?_eq_getElem hc]
  have hline' : (Program.ofLines ps).line? m.cursor = some ps[m.cursor] := by
    rw [Program.line?_ofLines, List.getElem?_eq_getElem hc]
  rw [step, step, padded_cursor, hline, hline']
  dsimp only
  rw [fetch_padded hread, padded_state, padded_frames]
  cases (m.fetch ps[m.cursor]).result with
  | error refusal => rfl
  | ok statement =>
    dsimp only
    rw [keep_padded hread]
    rcases State.execute _ _ _ statement with ⟨s, flow⟩
    cases flow with
    | next | halt | fail cause => rfl
    | again loop =>
      dsimp only
      split
      all_goals rfl

theorem lt_length_of_step {r : Machine ⊕ Finished} (hs : step (.ofLines ps) o m = r)
    (h : r ≠ .inr ⟨m.state, .completed⟩) : m.cursor < ps.length := by
  refine Nat.lt_of_not_le fun hle ↦ h ?_
  rw [← hs, step, Program.line?_ofLines, List.getElem?_eq_none hle]

/-- A run goes on in the same way when more lines follow. -/
theorem iterate_append (h : Reachable (.ofLines ps) o m)
    (hi : iterate (.ofLines ps) o.usable n m = .inl m') :
    iterate (.ofLines (ps ++ qs)) o.usable n (m.padded qs.length) =
      .inl (m'.padded qs.length) := by
  induction n generalizing m with
  | zero =>
    obtain rfl : m = m' := Sum.inl.inj hi
    rfl
  | succ n ih =>
    cases hs : step (.ofLines ps) o.usable m with
    | inl m₁ =>
      rw [iterate_succ_of_inl hs] at hi
      have hc : m.cursor < ps.length := lt_length_of_step hs (by rintro ⟨⟩)
      have hs' := step_append (o := o.usable) qs (h.size_read.trans (Program.size_ofLines ps)) hc
      rw [hs] at hs'
      rw [iterate_succ_of_inl hs']
      exact ih (h.step hs) hi
    | inr f =>
      rw [iterate_succ_of_inr hs] at hi
      cases hi

theorem Reachable.padded (qs : List String) (h : Reachable (.ofLines ps) o m) :
    Reachable (.ofLines (ps ++ qs)) o (m.padded qs.length) := by
  obtain ⟨n, hn⟩ := h
  refine ⟨n, ?_⟩
  rw [start_append]
  exact iterate_append .start hn

/-! ## Whole runs -/

theorem Reachable.run_append_eq {finished : Finished} (h : Reachable (.ofLines ps) o m)
    (hs : Machine.step (.ofLines ps) o.usable m = .inr finished)
    (hne : finished.outcome ≠ .completed) : (Program.ofLines (ps ++ qs)).run o = finished := by
  have hc : m.cursor < ps.length := lt_length_of_step hs fun he ↦ hne (by cases he; rfl)
  have hs' := step_append (o := o.usable) qs (h.size_read.trans (Program.size_ofLines ps)) hc
  rw [hs] at hs'
  exact (h.padded qs).run_eq hs'

/-- Later lines change nothing that comes before them. A run that ends before it is past the last
line ends in the same way when more lines follow. A run that is completed is also a run of the
longer program, point by point, up to its first new line, where no block is open and everything is
as at the end of the shorter program; so its log is the beginning of the longer one. Only a line
that a run comes to can make it fail. -/
theorem run_append (ps qs : List String) (o : Options) :
    (((Program.ofLines ps).run o).outcome ≠ .completed →
      (Program.ofLines (ps ++ qs)).run o = (Program.ofLines ps).run o) ∧
    (((Program.ofLines ps).run o).outcome = .completed →
      ∃ n m, iterate (.ofLines ps) o.usable n (start (.ofLines ps) o) = .inl m ∧
        step (.ofLines ps) o.usable m = .inr ((Program.ofLines ps).run o) ∧
        (∀ k ≤ n, ∃ m', iterate (.ofLines ps) o.usable k (start (.ofLines ps) o) = .inl m' ∧
          iterate (.ofLines (ps ++ qs)) o.usable k (start (.ofLines (ps ++ qs)) o) =
            .inl (m'.padded qs.length)) ∧
        m.cursor = ps.length ∧ m.frames = [] ∧ m.state = ((Program.ofLines ps).run o).state ∧
        ((Program.ofLines ps).run o).state.log.toList <+:
          ((Program.ofLines (ps ++ qs)).run o).state.log.toList) ∧
    ∀ fault, ((Program.ofLines (ps ++ qs)).run o).outcome = .failed fault →
      ∃ m, Reachable (.ofLines (ps ++ qs)) o m ∧ fault.line = m.cursor + 1 ∧
        (ps ++ qs)[m.cursor]? = some fault.text := by
  refine ⟨fun hne ↦ ?_, fun hc ↦ ?_, fun fault hf ↦ ?_⟩
  · obtain ⟨m, h, hs⟩ := exists_last (.ofLines ps) o
    exact h.run_append_eq hs hne
  · obtain ⟨m, h, hs⟩ := exists_last (.ofLines ps) o
    obtain ⟨hsize, hstate⟩ := past_of_completed h.faithful hs hc
    have hlog := (h.padded qs).log_prefix_run
    rw [padded_state, hstate] at hlog
    obtain ⟨n, hn⟩ := id h
    refine ⟨n, m, hn, hs, fun k hk ↦ ?_, ?_, frames_eq_nil h.sound.nested hsize, hstate, hlog⟩
    · obtain ⟨m', hm'⟩ := exists_of_iterate_inl hn hk
      rw [start_append]
      exact ⟨m', hm', iterate_append .start hm'⟩
    · rw [← Program.size_ofLines ps]
      exact Nat.le_antisymm h.cursor_le.1 hsize
  · obtain ⟨m, h, hs⟩ := exists_last (.ofLines (ps ++ qs)) o
    obtain ⟨hline, htext, -⟩ := ((move_iff h.faithful).2 hs).spares hf
    rw [Program.line?_ofLines] at htext
    exact ⟨m, h, hline, htext⟩

/-- A move made twice. -/
def twice : List String := ["A:", "G91 G1 X1", "REPEAT A"]

/-- A run that halts never comes to the malformed line behind it. A run that is completed, with a
block made twice, is the first part of one that then fails at a label it does not know. -/
theorem run_append_malformed :
    ((Program.ofLines ["M30"]).run {}).outcome ≠ .completed ∧
    (Program.ofLines (["M30"] ++ ["G1 Xoops"])).run {} = (Program.ofLines ["M30"]).run {} ∧
    ((Program.ofLines twice).run {}).outcome = .completed ∧
    ((Program.ofLines twice).run {}).state.log.toList <+:
      ((Program.ofLines (twice ++ ["REPEAT Z"])).run {}).state.log.toList := by
  have halts : ∃ f, iterate (.ofLines ["M30"]) (Options.usable {}) 1
      (start (.ofLines ["M30"]) {}) = .inr f ∧ f.outcome = .halted 1 := ⟨_, rfl, rfl⟩
  have completes : ∃ f, iterate (.ofLines twice) (Options.usable {}) 7
      (start (.ofLines twice) {}) = .inr f ∧ f.outcome = .completed := ⟨_, rfl, rfl⟩
  obtain ⟨f, hf, hhalted⟩ := halts
  obtain ⟨g, hg, hcompleted⟩ := completes
  have hne : ((Program.ofLines ["M30"]).run {}).outcome ≠ .completed := by
    rw [Program.run, run_eq_of_iterate hf, hhalted]
    exact Outcome.noConfusion
  have heq : ((Program.ofLines twice).run {}).outcome = .completed := by
    rw [Program.run, run_eq_of_iterate hg, hcompleted]
  obtain ⟨n, m, -, -, -, -, -, -, hprefix⟩ := (run_append twice ["REPEAT Z"] {}).2.1 heq
  exact ⟨hne, (run_append ["M30"] ["G1 Xoops"] {}).1 hne, heq, hprefix⟩

end Toolpath.Machine
