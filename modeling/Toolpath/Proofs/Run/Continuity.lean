import Toolpath.Proofs.Motion.Course
import Toolpath.Proofs.Run.Action
import Toolpath.Proofs.Run.Motion
import Toolpath.Proofs.Run.Move

/-!
# Continuity of the log

Two kinds of lines move the tool without a move (`Effect.Jumps`): coordinates without a motion code
while no cycle is in force, and arcs that are stationary. Every other line makes a course from where
the tool stands to where it leaves the tool (`Move.course`). So along a run each move begins where
the one before it ends, unless a line that jumps is executed between the two: `run_continuous`.
-/

namespace Toolpath

/-! ## What a line does to the place of the tool -/

namespace Effect

variable {site : Site} {m : Modal} {w : Words Float} {line : Nat} {motion : Option Motion}
  {e : Effect}

/-- The settings and the motion that the codes of a line come to, with its words for feed and
spindle put in. -/
def setup (line : Nat) (m : Modal) (codes : List Nat) (w : Words Float) : Setup :=
  Setup.ofCodes line { m with feed := w.f <|> m.feed, spindle := w.s <|> m.spindle } codes

/-- The motion moves the tool without a move. -/
inductive Jumps (site : Site) (m : Modal) (w : Words Float) : Option Motion → Prop where
  /-- Coordinates without a motion code, with no cycle in force. -/
  | bare (axis : w.hasAxis = true) (cycle : m.cycle = .idle) : Jumps site m w none
  /-- An arc from a place to itself. -/
  | stationary {direction : Arc.Direction}
      (h : Arc.resolve m.position (target m w) (centre w) direction site.step = .stationary) :
      Jumps site m w (some (.arc direction))

/-- The moves of an effect lead from `a` to where it leaves the tool. -/
def Leads (a : Point Float) (e : Effect) : Prop := Course a e.moves e.modal.position

/-- A motion that does not jump leads from where the tool stands to where it leaves the tool. -/
theorem Performs.leads (h : Performs site m w motion e) (hj : ¬ Jumps site m w motion) :
    Leads m.position e := by
  cases h with
  | still => exact .nil _
  | straight kind => exact .cons ⟨kind, m.position, target m w, site.tag⟩ (.nil _)
  | arc direction => exact Arc.course_resolve site.tag fun ha ↦ hj (.stationary ha)
  | armed cycle notices => exact .nil _
  | drilled cycle notices hmoves => exact Cycle.course_expand hmoves
  | refused cycle notices q => exact .nil _
  | placed axis idle => exact absurd (.bare axis idle) hj

/-- A motion that jumps makes no move. -/
theorem moves_of_jumps (h : Jumps site m w motion) :
    (ofMotion site motion m w).moves = [] := by
  cases h with
  | bare axis cycle => simp only [ofMotion, bare, cycle, adjust]
  | stationary h => simp only [ofMotion, arc, h, Arc.Path.segments]

theorem position_withCode {m m' : Modal} {code : Nat} (h : m.withCode? code = some m') :
    m'.position = m.position := by
  unfold Modal.withCode? at h
  split at h
  all_goals cases h
  all_goals rfl

/-- No code moves the tool. -/
@[simp] theorem position_setup (codes : List Nat) :
    (setup line m codes w).modal.position = m.position := by
  rw [setup]
  refine Setup.keep_ofCodes (P := fun m' ↦ m'.position = m.position) ?_ ?_ codes
  · exact fun _ _ _ hcode hm ↦ (position_withCode hcode).trans hm
  · rfl

theorem leads_ofBlock {codes : List Nat}
    (h : ¬ Jumps site (setup site.line m codes w).modal w (setup site.line m codes w).motion) :
    Leads m.position (ofBlock site m codes w) := by
  have hl := (performs_ofMotion site _ _ w).leads h
  rw [position_setup] at hl
  exact hl

end Effect

/-- The action moves the tool without a move. -/
inductive Action.Jumps (site : Site) (registers : Registers) (m : Modal) : Action → Prop where
  | block {b : Block} {w : Words Float} (words : b.words.traverse registers.resolve = .ok w)
      (h : Effect.Jumps site (Effect.setup site.line m b.g w).modal w
        (Effect.setup site.line m b.g w).motion) : Jumps site registers m (.block b)

theorem Log.append_nil {α : Type} (log : Log α) : log.append [] = log := by
  cases log
  simp [Log.append]

namespace State

variable {s t : State} {site : Site} {action : Action} {flow : Flow}

/-- Moves made from `s` lead to `t`, or none are made and `jumps` holds. -/
structure Extends (s t : State) (moves : List (Segment Float)) (jumps : Prop) : Prop where
  log : t.log = s.log.append moves
  course : Course s.modal.position moves t.modal.position ∨ (moves = [] ∧ jumps)

theorem Extends.still {jumps : Prop} (hl : t.log = s.log)
    (hp : t.modal.position = s.modal.position) : Extends s t [] jumps := by
  refine ⟨?_, .inl ?_⟩
  · rw [hl, Log.append_nil]
  · rw [hp]
    exact .nil _

/-- The moves of an effect, if it does not jump, lead on from a state. -/
theorem extends_absorb {b : Block} {w : Words Float}
    (hw : b.words.traverse s.registers.resolve = .ok w) :
    Extends s (s.absorb (Effect.ofBlock site s.modal b.g w))
      (Effect.ofBlock site s.modal b.g w).moves
      (Action.Jumps site s.registers s.modal (.block b)) := by
  refine ⟨rfl, ?_⟩
  by_cases hj : Effect.Jumps site (Effect.setup site.line s.modal b.g w).modal w
    (Effect.setup site.line s.modal b.g w).motion
  · exact .inr ⟨Effect.moves_of_jumps hj, .block hw hj⟩
  · exact .inl (Effect.leads_ofBlock hj)

/-- Every action leads on from where the tool stands, unless it jumps. -/
theorem Acts.extends (h : Acts s site action t flow) :
    ∃ moves, Extends s t moves (Action.Jumps site s.registers s.modal action) := by
  cases h with
  | idle h notices | assigned registers | unassigned registers n | lost h | skipped h notices
  | opened h passes lines | unresolved h => exact ⟨[], .still rfl rfl⟩
  | refused hw hc => exact ⟨_, extends_absorb hw⟩
  | moved hw hc notices hf => exact ⟨_, (extends_absorb hw).log, (extends_absorb hw).course⟩

end State

namespace Machine

variable {p : Program} {o : Options} {m : Machine} {r : Machine ⊕ Finished} {text : String}
  {statement : Statement}

/-! ## One line -/

/-- The line in hand moves the tool without a move. -/
inductive Jumps (p : Program) (o : Options) (m : Machine) : Prop where
  | line {text : String} {statement : Statement} (line : p.line? m.cursor = some text)
      (reads : (Statement.read text.toList).result = .ok statement)
      (h : statement.action.Jumps (o.site m.cursor text) m.state.registers m.state.modal) :
      Jumps p o m

theorem Executes.extends {s : State} {flow : Flow} (h : Executes p o m text statement (s, flow)) :
    ∃ moves, m.state.Extends s moves (Jumps p o m) := by
  obtain ⟨moves, hlog, hcourse⟩ := (State.acts_of_act h.acted).extends
  rw [declared_log] at hlog
  rw [declared_modal, declared_registers] at hcourse
  exact ⟨moves, hlog, hcourse.imp_right fun hj ↦ ⟨hj.1, .line h.line h.reads hj.2⟩⟩

/-- The state in which a step leaves a run, whether or not it goes on. -/
def stateAfter (r : Machine ⊕ Finished) : State := r.elim state Finished.state

/-- Executing a line leads on from where the tool stands, unless the line jumps. -/
theorem Move.extends (h : Move p o m r) :
    ∃ moves, m.state.Extends (stateAfter r) moves (Jumps p o m) := by
  cases h with
  | past h => exact ⟨[], .still rfl rfl⟩
  | @refused text refusal ht hr =>
    cases refusal with
    | fault cause => exact ⟨[], .still heard_log (congrArg Modal.position heard_modal)⟩
    | cutCharacter => exact ⟨[], .still heard_log (congrArg Modal.position heard_modal)⟩
  | next h | halted h | failed h | entered h room | tooDeep h full =>
    obtain ⟨moves, hlog, hcourse⟩ := h.extends
    exact ⟨moves, hlog, hcourse⟩

/-! ## Whole runs -/

theorem log_prefix_of_iterate {n : Nat} {finished : Finished} (h : Reachable p o m)
    (hi : iterate p o.usable n m = .inr finished) :
    m.state.log.toList <+: finished.state.log.toList := by
  induction n generalizing m with
  | zero => cases hi
  | succ n ih =>
    cases hs : step p o.usable m with
    | inl m₁ =>
      rw [iterate_succ_of_inl hs] at hi
      obtain ⟨moves, hlog, -⟩ := ((move_iff h.faithful).2 hs).extends
      have hfirst : m.state.log.toList <+: m₁.state.log.toList := by
        rw [show m₁.state.log = _ from hlog, Log.toList_append]
        exact List.prefix_append ..
      exact hfirst.trans (ih (h.step hs) hi)
    | inr f =>
      rw [iterate_succ_of_inr hs] at hi
      obtain rfl : f = finished := Sum.inr.inj hi
      obtain ⟨moves, hlog, -⟩ := ((move_iff h.faithful).2 hs).extends
      rw [show f.state.log = _ from hlog, Log.toList_append]
      exact List.prefix_append ..

/-- The log of a run begins with the log at every point the run comes to. -/
theorem Reachable.log_prefix_run (h : Reachable p o m) :
    m.state.log.toList <+: (p.run o).state.log.toList := by
  obtain ⟨n, hn⟩ := h.iterate_run
  exact log_prefix_of_iterate h hn

/-- A line that jumps is executed when `k` moves have been made. -/
def JumpsAfter (p : Program) (o : Options) (k : Nat) : Prop :=
  ∃ m, Reachable p o m ∧ m.state.log.size = k ∧ Jumps p o.usable m

/-- Each move in a log begins where the moves before it end, and the tool is where they all end,
unless a line that jumps has been executed at that place of the log. -/
structure Continuous (p : Program) (o : Options) (s : State) : Prop where
  starts : ∀ k b, s.log.toList[k]? = some b →
    b.start = Cycle.finish o.start (s.log.toList.take k) ∨ JumpsAfter p o k
  stop : s.modal.position = Cycle.finish o.start s.log.toList ∨ JumpsAfter p o s.log.size

theorem continuous_start (p : Program) (o : Options) : Continuous p o (start p o).state := by
  obtain ⟨notices, hn⟩ := start_eq_told p o
  rw [hn]
  refine ⟨fun k b hb ↦ ?_, .inl rfl⟩
  cases hb

/-- Where moves from the place of the tool end is where the log ends with them, unless there are
none and a line that jumps has just been executed. -/
theorem Continuous.finish {s : State} (h : Continuous p o s) (moves : List (Segment Float)) :
    Cycle.finish s.modal.position moves = Cycle.finish o.start (s.log.toList ++ moves) ∨
      moves = [] ∧ JumpsAfter p o s.log.size := by
  rw [Cycle.finish_append]
  rcases h.stop with hs | hs
  · rw [hs]
    exact .inl rfl
  · cases moves with
    | nil => exact .inr ⟨rfl, hs⟩
    | cons s rest => exact .inl (Cycle.finish_eq_of_ne_nil _ _ (List.cons_ne_nil _ _))

/-- A course from the place of the tool keeps a log continuous. -/
theorem Continuous.course {s t : State} {moves : List (Segment Float)} (h : Continuous p o s)
    (hlog : t.log.toList = s.log.toList ++ moves)
    (hc : Course s.modal.position moves t.modal.position) : Continuous p o t := by
  constructor
  · intro k b hb
    rw [hlog] at hb ⊢
    by_cases hk : k < s.log.toList.length
    · rw [List.getElem?_append_left hk] at hb
      rw [List.take_append_of_le_length (Nat.le_of_lt hk)]
      exact h.starts k b hb
    · obtain ⟨i, rfl⟩ := Nat.exists_eq_add_of_le (Nat.le_of_not_lt hk)
      rw [List.getElem?_append_right (Nat.le_add_right ..), Nat.add_sub_cancel_left] at hb
      rw [List.take_length_add_append, hc.start_eq hb]
      refine (h.finish (moves.take i)).imp_right ?_
      rintro ⟨hnil, hj⟩
      -- Before move `i` there is none, so it is the first of the new ones.
      obtain ⟨hi, -⟩ := List.getElem?_eq_some_iff.1 hb
      obtain rfl : i = 0 := by
        rcases List.take_eq_nil_iff.1 hnil with h0 | h0
        · exact h0
        · rw [h0] at hi
          exact absurd hi (Nat.not_lt_zero i)
      rwa [Log.size_eq] at hj
  · rw [← hc.finish_eq, Log.size_eq, hlog]
    refine (h.finish moves).imp_right ?_
    rintro ⟨rfl, hj⟩
    rwa [List.append_nil, ← Log.size_eq]

/-- More moves keep a log continuous. -/
theorem Continuous.extend {s t : State} {moves : List (Segment Float)} {jumps : Prop}
    (h : Continuous p o s) (he : s.Extends t moves jumps)
    (hj : jumps → JumpsAfter p o s.log.size) : Continuous p o t := by
  have hlog : t.log.toList = s.log.toList ++ moves := by rw [he.log, Log.toList_append]
  rcases he.course with hc | ⟨rfl, hjumps⟩
  · exact h.course hlog hc
  · rw [List.append_nil] at hlog
    constructor
    · rw [hlog]
      exact h.starts
    · rw [Log.size_eq, hlog, ← Log.size_eq]
      exact .inr (hj hjumps)

theorem Reachable.continuous_after (h : Reachable p o m) (hc : Continuous p o m.state)
    (hs : Machine.step p o.usable m = r) : Continuous p o (stateAfter r) := by
  obtain ⟨moves, he⟩ := ((move_iff h.faithful).2 hs).extends
  exact hc.extend he fun hj ↦ ⟨m, h, rfl, hj⟩

theorem Reachable.continuous (h : Reachable p o m) : Continuous p o m.state :=
  h.induct (P := fun m ↦ Continuous p o m.state) (continuous_start p o)
    fun _ _ hr hm hs ↦ hr.continuous_after hm hs

theorem Reachable.continuous_end {finished : Finished} (h : Reachable p o m)
    (hs : Machine.step p o.usable m = .inr finished) : Continuous p o finished.state :=
  h.continuous_after h.continuous hs

theorem Continuous.consecutive {s : State} (h : Continuous p o s) :
    (∀ k a b, s.log.get? k = some a → s.log.get? (k + 1) = some b →
      b.start = a.stop ∨ JumpsAfter p o (k + 1)) ∧
    (∀ a, s.log.get? 0 = some a → a.start = o.start ∨ JumpsAfter p o 0) ∧
    (s.modal.position = ((s.log.toList.getLast?).map Segment.stop).getD o.start ∨
      JumpsAfter p o s.log.size) := by
  have hget : ∀ k, s.log.get? k = s.log.toList[k]? := fun k ↦ Array.getElem?_toList.symm
  refine ⟨fun k a b ha hb ↦ ?_, fun a ha ↦ ?_, h.stop⟩
  · rw [hget] at ha hb
    rw [← Cycle.finish_take_succ o.start ha]
    exact h.starts (k + 1) b hb
  · rw [hget] at ha
    exact h.starts 0 a ha

/-- The log of a run is continuous: of two moves that follow each other the second begins where the
first ends, the first move begins where the tool stood before the first line, and the tool is left
where the last move ends, unless a line that jumps is executed in between. -/
theorem run_continuous (p : Program) (o : Options) :
    (∀ k a b, (p.run o).state.log.get? k = some a → (p.run o).state.log.get? (k + 1) = some b →
      b.start = a.stop ∨ JumpsAfter p o (k + 1)) ∧
    (∀ a, (p.run o).state.log.get? 0 = some a → a.start = o.start ∨ JumpsAfter p o 0) ∧
    ((p.run o).state.modal.position =
        (((p.run o).state.log.toList.getLast?).map Segment.stop).getD o.start ∨
      JumpsAfter p o (p.run o).state.log.size) := by
  obtain ⟨m, h, hs⟩ := exists_last p o
  exact (h.continuous_end hs).consecutive

/-- A move, a line of coordinates, and two more moves. -/
def coordinateLine : Program := .ofLines ["G1 X1", "X5", "G1 X9", "G1 Y2"]

/-- In the log of `coordinateLine` the second move does not begin where the first ends, so a line
that jumps has been executed after one move; the third begins where the second ends. -/
theorem run_continuous_coordinateLine :
    (∃ a b, (coordinateLine.run {}).state.log.get? 0 = some a ∧
      (coordinateLine.run {}).state.log.get? 1 = some b ∧ b.start ≠ a.stop ∧
      JumpsAfter coordinateLine {} 1) ∧
    ∃ a b, (coordinateLine.run {}).state.log.get? 1 = some a ∧
      (coordinateLine.run {}).state.log.get? 2 = some b ∧ b.start = a.stop ∧
      (b.start = a.stop ∨ JumpsAfter coordinateLine {} 2) := by
  have h : ∃ f a b c, iterate coordinateLine (Options.usable {}) 5 (start coordinateLine {})
      = .inr f ∧ f.state.log.get? 0 = some a ∧ f.state.log.get? 1 = some b ∧
      f.state.log.get? 2 = some c ∧ b.start ≠ a.stop ∧ c.start = b.stop :=
    ⟨_, _, _, _, rfl, rfl, rfl, rfl, by decide, rfl⟩
  obtain ⟨f, a, b, c, hi, ha, hb, hc, hne, heq⟩ := h
  have hrun : coordinateLine.run {} = f := run_eq_of_iterate hi
  rw [← hrun] at ha hb hc
  exact ⟨⟨a, b, ha, hb, hne, ((run_continuous coordinateLine {}).1 0 a b ha hb).resolve_left hne⟩,
    b, c, hb, hc, heq, (run_continuous coordinateLine {}).1 1 b c hb hc⟩

end Machine

end Toolpath
