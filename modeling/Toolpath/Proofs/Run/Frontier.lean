import Mathlib.Data.List.Induction
import Toolpath.Proofs.Run.Nesting
import Toolpath.Proofs.Run.Positioning

/-!
# Where repeated blocks lie

A run goes on to the next line or back to one it has executed, so what it has executed is always the
beginning of the program (`Machine.Explored`). A command to repeat is fatal unless its labels are
known, so once it has been executed each of them stands on a line up to its own. The block that it
opens begins before it ends. It also lies before the command, unless the label it ends at stands on
lines on both sides of the command and was declared last behind it: `opened_block`.
-/

namespace Toolpath

/-- The labels that a command needs. -/
def Repeat.labels (command : Repeat) : List String := command.start :: command.stop.toList

namespace State

variable {s t : State} {site : Site} {index : Nat} {flow : Flow} {command : Repeat} {l : Loop}

/-- The labels of a line are on it once they are declared. -/
theorem get?_declare_all_self {active : List Nat} {label : String} {labels : List String}
    (hl : label ∈ labels) :
    (labels.foldl (declare active index) s).labels.get? label = some index := by
  -- From the right, since of two declarations of one label the last counts.
  induction labels using List.reverseRecOn with
  | nil => cases hl
  | append_singleton rest last ih =>
    rw [List.foldl_append]
    by_cases hlast : label = last
    · rw [hlast]
      exact Table.get?_set_self ..
    · have hrest := (List.mem_append.1 hl).resolve_right (hlast ∘ List.mem_singleton.1)
      exact (Table.get?_set_of_ne _ _ hlast).trans (ih hrest)

/-- A command to repeat that finds its block finds its labels. -/
theorem LoopOf.get?_labels {label : String} (h : LoopOf s index command l)
    (hl : label ∈ command.labels) : ∃ i, s.labels.get? label = some i := by
  rcases List.mem_cons.1 hl with rfl | hl
  · exact ⟨l.start, h.start⟩
  · have hstop := h.stop
    rw [Option.mem_toList.1 hl] at hstop
    exact ⟨l.stop, line_eq_ok hstop⟩

/-- A command to repeat that does not fail finds its block. -/
theorem Acts.exists_loop (h : Acts s site (.again command) t flow)
    (hf : ∀ cause, flow ≠ .fail cause) : ∃ l, s.loop (site.line - 1) command = .ok l := by
  cases h with
  | idle h notices => cases h
  | lost h => exact absurd rfl (hf _)
  | skipped h notices | opened h passes lines => exact ⟨_, h⟩

end State

namespace Frame

variable {f : Frame} {fs : List Frame} {c : Nat} {q : Positioning}

theorem length_unwind_le : (unwind fs c q).1.length ≤ fs.length := by
  induction fs generalizing c q with
  | nil => exact Nat.le_refl _
  | cons f fs ih =>
    rw [unwind]
    split
    · split
      · exact Nat.le_refl _
      · exact Nat.le_succ_of_le ih
    · exact Nat.le_refl _

/-- Unwinding opens no block. -/
theorem unwind_ne_cons : (unwind fs c q).1 ≠ f :: fs := by
  intro h
  have hle : (unwind fs c q).1.length ≤ fs.length := length_unwind_le
  rw [h, List.length_cons] at hle
  exact absurd hle (Nat.not_succ_le_self _)

end Frame

namespace Machine

variable {p : Program} {o : Options} {m m' : Machine} {n : Nat} {text : String}
  {statement : Statement}

/-- Of a program nothing from line `n` on has been executed: every label known is on a line before,
and each command to repeat before line `n` has found its labels on lines up to its own. -/
structure Explored (p : Program) (n : Nat) (m : Machine) : Prop where
  cursor_le : m.cursor ≤ n
  frames : ∀ f ∈ m.frames, f.start ≤ n ∧ f.resume ≤ n
  labels_lt : m.state.LabelsBelow n
  commands : ∀ i < n, ∀ statement command, p.statement? i = some statement →
    statement.action = .again command → ∀ label ∈ command.labels, ∃ j ≤ i, label ∈ p.labelsAt j

/-- The labels of the line in hand are among the lines executed once it has been. -/
theorem labelsBelow_declared (h : m.state.LabelsBelow n) (hc : m.cursor < n) :
    (m.declared o text statement).LabelsBelow n :=
  State.labelsBelow_declare_all _ _ hc (State.labelsBelow_of_places heard_places h)

namespace Explored

theorem mono {k : Nat} (h : Explored p n m) (hk : n ≤ k)
    (hcommands : ∀ i < k, n ≤ i → ∀ statement command, p.statement? i = some statement →
      statement.action = .again command → ∀ label ∈ command.labels, ∃ j ≤ i, label ∈ p.labelsAt j) :
    Explored p k m where
  cursor_le := Nat.le_trans h.cursor_le hk
  frames f hf := (h.frames f hf).imp (Nat.le_trans · hk) (Nat.le_trans · hk)
  labels_lt e he := Nat.lt_of_lt_of_le (h.labels_lt e he) hk
  commands i hi := by
    by_cases hin : i < n
    · exact h.commands i hin
    · exact hcommands i hi (Nat.le_of_not_lt hin)

/-- Whatever a line does short of failing, the lines executed reach beyond it afterwards. -/
theorem executed {s : State} {flow : Flow} (h : Explored p n m) (hp : Placed p m)
    (hx : Executes p o m text statement (s, flow)) (hf : ∀ cause, flow ≠ .fail cause) :
    Explored p (max n (m.cursor + 1)) m ∧ s.LabelsBelow (max n (m.cursor + 1)) := by
  have hbelow : (m.declared o text statement).LabelsBelow (max n (m.cursor + 1)) :=
    labelsBelow_declared (fun e he ↦ Nat.lt_of_lt_of_le (h.labels_lt e he) (Nat.le_max_left ..))
      (Nat.lt_of_lt_of_le (Nat.lt_succ_self _) (Nat.le_max_right ..))
  refine ⟨h.mono (Nat.le_max_left ..) ?_, State.labelsBelow_of_places hx.places hbelow⟩
  intro i hi hni statement' command hs ha label hl
  -- The only line to become executed is the one in hand, if it was the first that was not.
  obtain rfl : i = m.cursor := by have := h.cursor_le; omega
  obtain rfl : statement = statement' := Option.some.inj (hx.statement?.symm.trans hs)
  have hacts := State.acts_of_act hx.acted
  rw [ha] at hacts
  obtain ⟨l, hloop⟩ := hacts.exists_loop hf
  obtain ⟨j, hj⟩ := (State.loopOf_of_loop hloop).get?_labels hl
  refine ⟨j, ?_, (agrees_declared hp hs).labels _ _ hj⟩
  have := hbelow _ (Table.mem_of_find hj)
  omega

end Explored

/-- What has been executed stays the beginning of the program. -/
theorem explored_step (hf : Faithful p m.read) (hp : Placed p m) (h : Explored p n m)
    (hs : step p o m = .inl m') : Explored p (max n (m.cursor + 1)) m' := by
  cases (move_iff hf).2 hs with
  | @next text statement s hx =>
    obtain ⟨he, hl⟩ := h.executed hp hx fun _ ↦ Flow.noConfusion
    refine ⟨unwind_cursor_le (Nat.le_max_right ..) he.frames, fun g hg ↦ ?_, hl, he.commands⟩
    obtain ⟨f, hmem, passes, rfl⟩ := Frame.exists_of_mem_unwind hg
    exact he.frames f hmem
  | @entered text statement s loop hx room =>
    obtain ⟨he, hl⟩ := h.executed hp hx fun _ ↦ Flow.noConfusion
    obtain ⟨command, -, rfl, hloop, -⟩ := State.again_of_act hx.acted
    have hstart : loop.start ≤ max n (m.cursor + 1) :=
      Nat.le_of_lt (hl _ (Table.mem_of_find (State.loopOf_of_loop hloop).start))
    refine ⟨hstart, fun g hg ↦ ?_, hl, he.commands⟩
    rcases List.mem_cons.1 hg with rfl | hg
    · exact ⟨hstart, Nat.le_max_right ..⟩
    · exact he.frames g hg

/-- At every point of a run what has been executed is the beginning of the program. -/
theorem Reachable.explored (h : Reachable p o m) : ∃ n, Explored p n m := by
  refine h.induct (P := fun m ↦ ∃ n, Explored p n m) ⟨0, ?_⟩ ?_
  · obtain ⟨notices, hn⟩ := start_eq_told p o
    refine ⟨Nat.le_refl _, fun f hf ↦ (by cases hf), ?_, fun i hi ↦ absurd hi (Nat.not_lt_zero i)⟩
    rw [hn]
    exact fun e he ↦ (by cases he)
  · rintro m m' hm ⟨n, hn⟩ hs
    exact ⟨_, explored_step hm.faithful hm.placed hn hs⟩

/-- The label at which a command finds the end of its block stands on a line up to its own, and on
the line of the end. -/
theorem Explored.stop {s : State} {command : Repeat} {l : Loop} (h : Explored p n m)
    (hc : m.cursor < n) (hs : p.statement? m.cursor = some statement)
    (ha : statement.action = .again command) (hag : s.Agrees p)
    (hl : State.LoopOf s m.cursor command l) (hlt : m.cursor < l.stop) :
    ∃ label, command.stop = some label ∧ s.labels.get? label = some l.stop ∧
      label ∈ p.labelsAt l.stop ∧ ∃ j ≤ m.cursor, label ∈ p.labelsAt j := by
  have hstop := hl.stop
  cases he : command.stop with
  | none =>
    rw [he] at hstop
    exact absurd (Except.ok.inj hstop) (Nat.ne_of_lt hlt)
  | some label =>
    rw [he] at hstop
    have hget := State.line_eq_ok hstop
    refine ⟨label, rfl, hget, hag.labels _ _ hget, h.commands _ hc _ _ hs ha label ?_⟩
    rw [Repeat.labels, he]
    exact List.mem_cons_of_mem _ List.mem_cons_self

/-- A block opened by a command to repeat begins before it ends. It lies before the command, too,
wherever no label stands on two lines, and otherwise unless it ends at a label that stands before
the command as well and was last declared behind it. -/
theorem opened_block {f : Frame} (h : Reachable p o m) (hs : step p o.usable m = .inl m')
    (hopen : m'.frames = f :: m.frames) :
    ∃ statement command, p.statement? m.cursor = some statement ∧
      statement.action = .again command ∧ f.start < f.stop ∧
      (p.LabelsUnique → f.stop ≤ m.cursor) ∧
      (f.stop ≤ m.cursor ∨ ∃ label, command.stop = some label ∧
        m'.state.labels.get? label = some f.stop ∧ label ∈ p.labelsAt f.stop ∧
        ∃ j < m.cursor, label ∈ p.labelsAt j) := by
  obtain ⟨n, hn⟩ := h.explored
  cases (move_iff h.faithful).2 hs with
  | next hx => exact absurd hopen Frame.unwind_ne_cons
  | @entered text statement s l hx room =>
    obtain ⟨command, ha, rfl, hloop, -, hlines⟩ := State.again_of_act hx.acted
    obtain rfl : _ = f := (List.cons.inj hopen).1
    have hn' := (hn.executed h.placed hx fun _ ↦ Flow.noConfusion).1
    have hag : (m.declared o.usable text statement).Agrees p :=
      agrees_declared h.placed hx.statement?
    have hstop : m.cursor < l.stop → _ := hn'.stop (Nat.lt_of_lt_of_le (Nat.lt_succ_self _)
      (Nat.le_max_right ..)) hx.statement? ha hag (State.loopOf_of_loop hloop)
    refine ⟨statement, command, hx.statement?, ha, hlines, fun hu ↦ ?_, ?_⟩
    · refine Nat.le_of_not_lt fun hlt ↦ ?_
      obtain ⟨label, -, -, hl, j, hj, hlj⟩ := hstop hlt
      exact absurd (hu _ _ _ hl hlj ▸ hj) (Nat.not_le_of_lt hlt)
    · refine (Nat.lt_or_ge m.cursor l.stop).symm.imp id fun hlt ↦ ?_
      obtain ⟨label, he, hget, hl, j, hj, hlj⟩ := hstop hlt
      refine ⟨label, he, hget, hl, j, Nat.lt_of_le_of_ne hj ?_, hlj⟩
      -- A label on the line itself would have been declared there last.
      rintro rfl
      rw [Program.labelsAt, hx.statement?] at hlj
      have hline : some l.stop = some m.cursor := hget.symm.trans (State.get?_declare_all_self hlj)
      exact absurd (Option.some.inj hline) (Nat.ne_of_gt hlt)

/-- A block that ends at a label, which is declared again behind the command when the lines around
both are repeated. -/
def movedEnd : Program := .ofLines ["E:", "A:", "S:", "REPEAT S E P=2", "E:", "REPEAT A"]

/-- When `movedEnd` comes to its fourth line for the second time, the block that is opened there
ends behind it, and so includes the command that opens it. -/
theorem exists_stop_gt_movedEnd :
    ¬ ∀ m m' f, Reachable movedEnd {} m → step movedEnd (Options.usable {}) m = .inl m' →
      m'.frames = f :: m.frames → f.start < f.stop ∧ f.stop ≤ m.cursor := by
  have h : ∃ m m' f, iterate movedEnd (Options.usable {}) 8 (start movedEnd {}) = .inl m ∧
      step movedEnd (Options.usable {}) m = .inl m' ∧ m'.frames = f :: m.frames ∧
      m.cursor = 3 ∧ f.stop = 4 := ⟨_, _, _, rfl, rfl, rfl, rfl, rfl⟩
  obtain ⟨m, m', f, hi, hs, hopen, hc, hf⟩ := h
  intro hall
  have hle := (hall m m' f ⟨8, hi⟩ hs hopen).2
  rw [hc, hf] at hle
  exact absurd hle (by decide)

/-- Of the blocks that `movedEnd` opens, the one around the others lies before its command; the
other ends at a label that stands on both sides of its command. -/
theorem opened_block_movedEnd :
    (∃ m m' f, Reachable movedEnd {} m ∧ step movedEnd (Options.usable {}) m = .inl m' ∧
      m'.frames = f :: m.frames ∧ m.cursor = 5 ∧ f.start < f.stop ∧ f.stop ≤ m.cursor) ∧
    ∃ m m' f, Reachable movedEnd {} m ∧ step movedEnd (Options.usable {}) m = .inl m' ∧
      m'.frames = f :: m.frames ∧ m.cursor = 3 ∧ f.start < f.stop ∧ m.cursor < f.stop ∧
      ∃ label, m'.state.labels.get? label = some f.stop ∧ label ∈ movedEnd.labelsAt f.stop ∧
        ∃ j < m.cursor, label ∈ movedEnd.labelsAt j := by
  constructor
  · have h : ∃ m m' f, iterate movedEnd (Options.usable {}) 5 (start movedEnd {}) = .inl m ∧
        step movedEnd (Options.usable {}) m = .inl m' ∧ m'.frames = f :: m.frames ∧
        m.cursor = 5 ∧ f.stop = 5 := ⟨_, _, _, rfl, rfl, rfl, rfl, rfl⟩
    obtain ⟨m, m', f, hi, hs, hopen, hc, hf⟩ := h
    obtain ⟨-, -, -, -, hlines, -⟩ := opened_block ⟨5, hi⟩ hs hopen
    exact ⟨m, m', f, ⟨5, hi⟩, hs, hopen, hc, hlines, Nat.le_of_eq (hf.trans hc.symm)⟩
  · have h : ∃ m m' f, iterate movedEnd (Options.usable {}) 8 (start movedEnd {}) = .inl m ∧
        step movedEnd (Options.usable {}) m = .inl m' ∧ m'.frames = f :: m.frames ∧
        m.cursor = 3 ∧ f.stop = 4 := ⟨_, _, _, rfl, rfl, rfl, rfl, rfl⟩
    obtain ⟨m, m', f, hi, hs, hopen, hc, hf⟩ := h
    have hlt : m.cursor < f.stop := by rw [hc, hf]; decide
    obtain ⟨statement, command, -, -, hlines, -, hstop⟩ := opened_block ⟨8, hi⟩ hs hopen
    obtain ⟨label, -, hget, hl, j, hj⟩ := hstop.resolve_left (Nat.not_le_of_lt hlt)
    exact ⟨m, m', f, ⟨8, hi⟩, hs, hopen, hc, hlines, hlt, label, hget, hl, j, hj⟩

end Machine

end Toolpath
