import Toolpath.Proofs.Run.Action
import Toolpath.Proofs.Run.Move

/-!
# Recorded positionings

`State.Recorded fs s` says that `s` has a positioning on record for every line with a label, and for
the start of each open block of `fs` the one the block has. Every statement keeps this, so a command
to repeat always finds a record (`loop_recorded`), and at every point of a run the record for the
start of an open block is the one it was opened with (`Reachable.recorded`).
-/

namespace Toolpath

variable {fs : List Frame} {s t : State} {index : Nat} {site : Site}

namespace State

/-! ## Commands to repeat -/

/-- Where a block to be repeated comes from. -/
structure LoopOf (s : State) (index : Nat) (command : Repeat) (l : Loop) : Prop where
  start : s.labels.get? command.start = some l.start
  stop : s.stopLine index command.stop = .ok l.stop
  passes : ∃ count, s.count command.count = .ok count ∧ l.passes = morePasses count
  positioning : l.positioning = (s.modes.get? l.start).getD s.modal.positioning

theorem line_eq_ok {label : String} {i : Nat} (h : s.line label = .ok i) :
    s.labels.get? label = some i := by
  rw [line] at h
  split at h
  · rename_i hg
    cases h
    exact hg
  · cases h

theorem loopOf_of_loop {command : Repeat} {l : Loop} (h : s.loop index command = .ok l) :
    LoopOf s index command l := by
  simp only [loop, bind, Except.bind, pure, Except.pure] at h
  split at h
  · cases h
  · rename_i hstart
    split at h
    · cases h
    · rename_i hstop
      split at h
      · cases h
      · rename_i count hcount
        cases h
        exact ⟨line_eq_ok hstart, hstop, ⟨count, hcount, rfl⟩, rfl⟩

/-! ## Records -/

/-- There is a record for every line with a label, and the start of an open block has the record the
block was opened with. -/
structure Recorded (fs : List Frame) (s : State) : Prop where
  labels : ∀ label i, s.labels.get? label = some i → ∃ q, s.modes.get? i = some q
  starts : ∀ f ∈ fs, s.modes.get? f.start = some f.positioning

theorem Recorded.of_places (ht : t.places = s.places) (h : Recorded fs s) : Recorded fs t := by
  have hl : t.labels = s.labels := congrArg Prod.fst ht
  have hm : t.modes = s.modes := congrArg Prod.snd ht
  constructor
  · rw [hl, hm]
    exact h.labels
  · rw [hm]
    exact h.starts

/-- A label line is recorded anew only while no open block starts there. -/
theorem Recorded.declare (label : String) (h : Recorded fs s) :
    Recorded fs (State.declare (fs.map Frame.start) index s label) := by
  by_cases hi : (fs.map Frame.start).contains index = true
  · have hmodes : (State.declare (fs.map Frame.start) index s label).modes = s.modes := if_pos hi
    obtain ⟨f, hf, rfl⟩ := List.mem_map.1 (List.contains_iff_mem.1 hi)
    refine ⟨fun label' i hl ↦ ?_, by rw [hmodes]; exact h.starts⟩
    rw [hmodes]
    by_cases hlabel : label' = label
    · subst hlabel
      obtain rfl : f.start = i := Option.some.inj ((Table.get?_set_self ..).symm.trans hl)
      exact ⟨f.positioning, h.starts f hf⟩
    · exact h.labels label' i ((Table.get?_set_of_ne _ _ hlabel).symm.trans hl)
  · have hmodes : (State.declare (fs.map Frame.start) index s label).modes =
        s.modes.set index s.modal.positioning := if_neg hi
    constructor
    · intro label' i hl
      rw [hmodes]
      by_cases hii : i = index
      · subst hii
        exact ⟨_, Table.get?_set_self ..⟩
      · rw [Table.get?_set_of_ne _ _ hii]
        by_cases hlabel : label' = label
        · subst hlabel
          exact absurd (Option.some.inj ((Table.get?_set_self ..).symm.trans hl)).symm hii
        · exact h.labels label' i ((Table.get?_set_of_ne _ _ hlabel).symm.trans hl)
    · intro f hf
      have hne : f.start ≠ index := by
        rintro rfl
        exact hi (List.contains_iff_mem.2 (List.mem_map_of_mem hf))
      rw [hmodes, Table.get?_set_of_ne _ _ hne]
      exact h.starts f hf

theorem Recorded.declare_all (labels : List String) (h : Recorded fs s) :
    Recorded fs (labels.foldl (State.declare (fs.map Frame.start) index) s) := by
  induction labels generalizing s with
  | nil => exact h
  | cons label rest ih => exact ih (h.declare label)

/-- A command to repeat finds a record for the start of its block. -/
theorem Recorded.loop {command : Repeat} {l : Loop} (h : Recorded fs s)
    (hl : s.loop index command = .ok l) : s.modes.get? l.start = some l.positioning := by
  have hof := loopOf_of_loop hl
  obtain ⟨q, hm⟩ := h.labels _ _ hof.start
  rw [hm, hof.positioning, hm]
  rfl

end State

/-! ## Along a run -/

/-- Unwinding only closes blocks and counts passes. -/
theorem Frame.exists_of_mem_unwind {g : Frame} {c : Nat} {q : Positioning}
    (hg : g ∈ (Frame.unwind fs c q).1) : ∃ f ∈ fs, ∃ passes, g = { f with passes } := by
  induction fs generalizing c q with
  | nil => cases hg
  | cons f fs ih =>
    rw [Frame.unwind] at hg
    split at hg
    · split at hg
      · rcases List.mem_cons.1 hg with rfl | hg
        · exact ⟨f, List.mem_cons_self, _, rfl⟩
        · exact ⟨g, List.mem_cons_of_mem _ hg, g.passes, rfl⟩
      · obtain ⟨f', hf', hp⟩ := ih hg
        exact ⟨f', List.mem_cons_of_mem _ hf', hp⟩
    · exact ⟨g, hg, g.passes, rfl⟩

namespace Machine

variable {p : Program} {o : Options} {m m' : Machine}

theorem recorded_moveTo (c : Nat) (h : m.state.Recorded m.frames) :
    (moveTo c m).state.Recorded (moveTo c m).frames := by
  constructor
  · exact h.labels
  · intro g hg
    obtain ⟨f, hf, passes, rfl⟩ := Frame.exists_of_mem_unwind hg
    exact h.starts f hf

theorem recorded_enter {loop : Loop} (h : m.state.Recorded m.frames)
    (hl : m.state.modes.get? loop.start = some loop.positioning) :
    (enter loop m).state.Recorded (enter loop m).frames := by
  constructor
  · exact h.labels
  · intro g hg
    rcases List.mem_cons.1 hg with rfl | hg
    · exact hl
    · exact h.starts g hg

theorem recorded_declared {text : String} {statement : Statement}
    (h : m.state.Recorded m.frames) : (m.declared o text statement).Recorded m.frames :=
  (h.of_places heard_places).declare_all statement.labels

theorem recorded_step (hf : Faithful p m.read) (h : m.state.Recorded m.frames)
    (hs : step p o m = .inl m') : m'.state.Recorded m'.frames := by
  cases (move_iff hf).2 hs with
  | @next text statement s hx =>
    exact recorded_moveTo (m := { m with state := s, read := m.keep statement }) _
      ((recorded_declared h).of_places hx.places)
  | @entered text statement s loop hx room =>
    obtain ⟨command, -, rfl, hl, -⟩ := State.again_of_act hx.acted
    have hr : (m.declared o text statement).Recorded m.frames := recorded_declared h
    exact recorded_enter (m := { m with state := _, read := m.keep statement }) hr (hr.loop hl)

theorem Reachable.recorded (h : Reachable p o m) : m.state.Recorded m.frames := by
  refine h.induct ⟨fun label i hl ↦ ?_, fun f hf ↦ by cases hf⟩
    fun m m' hr hm hs ↦ recorded_step hr.faithful hm hs
  obtain ⟨notices, hn⟩ := start_eq_told p o
  rw [hn] at hl
  cases hl

end Machine

end Toolpath
