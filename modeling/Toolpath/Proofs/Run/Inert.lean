import Mathlib.Data.List.Forall2
import Toolpath.Proofs.Run.Alike

/-!
# Settings that decide nothing

`Program.Like` says that two programs have the same lines but for codes of compensation and for the
numbers given for feed and spindle. Machines that are alike execute such lines in the same way
(`Like.executes`), so the one run comes to everything the other comes to (`Reachable.like`) and they
end in the same way: `run_inert`.
-/

namespace Toolpath

/-- The lines say the same but for codes of compensation and for the numbers given for feed and
spindle, or are refused for the same cause. -/
def SameLine (text text' : String) : Prop :=
  SameResult Statement.Like (Statement.read text.toList).result (Statement.read text'.toList).result

theorem sameLine_of_read {text text' : String} {a a' : Statement}
    (h : (Statement.read text.toList).result = .ok a)
    (h' : (Statement.read text'.toList).result = .ok a') (ha : a.Like a') :
    SameLine text text' := by
  rw [SameLine, h, h']
  exact .ok ha

/-- The programs have the same lines but for codes of compensation and for the numbers given for
feed and spindle. -/
def Program.Like (p p' : Program) : Prop := ∀ i, Option.Rel SameLine (p.line? i) (p'.line? i)

theorem Program.like_ofLines {xs ys : List String} (h : List.Forall₂ SameLine xs ys) :
    (ofLines xs).Like (ofLines ys) := by
  intro i
  rw [line?_ofLines, line?_ofLines]
  induction h generalizing i with
  | nil => exact .none
  | cons hline hrest ih =>
    cases i with
    | zero => exact .some hline
    | succ i => exact ih i

/-- The runs ended in the same way, up to the texts of their lines. -/
inductive Outcome.Like : Outcome → Outcome → Prop where
  | completed : Like .completed .completed
  | halted (line : Nat) : Like (.halted line) (.halted line)
  | failed (line : Nat) (text text' : String) (cause : Cause) :
      Like (.failed ⟨line, text, cause⟩) (.failed ⟨line, text', cause⟩)
  | abandoned (line : Nat) : Like (.abandoned line) (.abandoned line)

structure Finished.Like (a b : Finished) : Prop where
  state : a.state.Like b.state
  outcome : a.outcome.Like b.outcome

theorem State.Like.fail {s t : State} (h : s.Like t) (site : Site) (text : String) (cause : Cause) :
    (s.fail site cause).Like (t.fail { site with text } cause) :=
  ⟨h.told _ _, .failed site.line site.text text cause⟩

theorem State.Like.refuse {s t : State} (h : s.Like t) (site : Site) (text : String)
    (refusal : Refusal) : (s.refuse site refusal).Like (t.refuse { site with text } refusal) := by
  cases refusal with
  | fault cause => exact h.fail site text cause
  | cutCharacter => exact ⟨h, .abandoned site.line⟩

namespace Machine

variable {p p' : Program} {o : Options} {m m₁ m' : Machine} {text : String}
  {statement : Statement} {s : State} {flow : Flow} {finished : Finished}

/-- The machines stand at the same line with the same blocks open, in states that are alike. -/
structure Like (m m' : Machine) : Prop where
  frames : m'.frames = m.frames
  cursor : m'.cursor = m.cursor
  state : m.state.Like m'.state

theorem like_start (p p' : Program) (o : Options) : (start p o).Like (start p' o) :=
  ⟨rfl, rfl, ⟨.refl _, rfl, rfl, rfl, rfl⟩⟩

theorem Like.moveTo (h : m.Like m') (c : Nat) : (moveTo c m).Like (moveTo c m') := by
  rw [Machine.moveTo, Machine.moveTo, h.frames, h.state.modal.positioning]
  exact ⟨rfl, rfl, h.state.setPositioning _⟩

theorem Like.enter (h : m.Like m') (l : Loop) : (enter l m).Like (enter l m') := by
  rw [Machine.enter, Machine.enter, h.frames, h.cursor]
  exact ⟨rfl, rfl, h.state.setPositioning _⟩

theorem Like.heard (h : m.Like m') (o : Options) (text text' : String) :
    (m.heard o text).Like (m'.heard o text') := by
  obtain ⟨notices, hn⟩ := heard_eq_told o m text
  obtain ⟨notices', hn'⟩ := heard_eq_told o m' text'
  rw [hn, hn']
  exact h.state.told notices notices'

/-- The line in hand does the same in both programs. -/
theorem Like.executes (h : m.Like m') (hp : p.Like p')
    (hx : Executes p o m text statement (s, flow)) :
    ∃ text' statement' s', Executes p' o m' text' statement' (s', flow) ∧ s.Like s' := by
  have hline := hp m.cursor
  rw [hx.line] at hline
  generalize ht : p'.line? m.cursor = line at hline
  cases hline with
  | @some _ text' hread =>
    rw [SameLine, hx.reads] at hread
    generalize hr : (Statement.read text'.toList).result = result at hread
    cases hread with
    | @ok _ statement' hlike =>
      obtain ⟨hstate, hflow⟩ := State.like_execute (o.site m.cursor text) text'
        (m.frames.map Frame.start) (h.heard o text text') hlike
      rw [hx.ran] at hstate hflow
      refine ⟨text', statement', _, ⟨?_, hr, ?_⟩, hstate⟩
      · rw [h.cursor, ht]
      · rw [h.cursor, h.frames]
        exact Prod.ext rfl hflow

/-- Where the one run goes on, so does the other. -/
theorem Like.step (h : m.Like m') (hp : p.Like p') (hf : Faithful p m.read)
    (hf' : Faithful p' m'.read) (hs : Machine.step p o m = .inl m₁) :
    ∃ m₁', Machine.step p' o m' = .inl m₁' ∧ m₁.Like m₁' := by
  cases (move_iff hf).2 hs with
  | @next text statement s hx =>
    obtain ⟨text', statement', s', hx', hlike⟩ := h.executes hp hx
    have hm : Like { m with state := s, read := m.keep statement }
        { m' with state := s', read := m'.keep statement' } := ⟨h.frames, h.cursor, hlike⟩
    have hmove := hm.moveTo (m.cursor + 1)
    refine ⟨_, (move_iff hf').1 (.next hx'), ?_⟩
    rw [h.cursor]
    exact hmove
  | @entered text statement s l hx room =>
    obtain ⟨text', statement', s', hx', hlike⟩ := h.executes hp hx
    have hm : Like { m with state := s, read := m.keep statement }
        { m' with state := s', read := m'.keep statement' } := ⟨h.frames, h.cursor, hlike⟩
    exact ⟨_, (move_iff hf').1 (.entered hx' (h.frames ▸ room)), hm.enter l⟩

/-- Where the one run ends, so does the other, in the same way. -/
theorem Like.finish (h : m.Like m') (hp : p.Like p') (hf : Faithful p m.read)
    (hf' : Faithful p' m'.read) (hs : Machine.step p o m = .inr finished) :
    ∃ finished', Machine.step p' o m' = .inr finished' ∧ finished.Like finished' := by
  suffices key : ∃ finished', Move p' o m' (.inr finished') ∧ finished.Like finished' by
    obtain ⟨finished', hmove, hlike⟩ := key
    exact ⟨finished', (move_iff hf').1 hmove, hlike⟩
  cases (move_iff hf).2 hs with
  | past hl =>
    have hline := hp m.cursor
    rw [hl] at hline
    generalize ht : p'.line? m.cursor = line at hline
    cases hline
    refine ⟨_, .past ?_, h.state, .completed⟩
    rw [h.cursor, ht]
  | @refused text refusal ht hr =>
    have hline := hp m.cursor
    rw [ht] at hline
    generalize ht' : p'.line? m.cursor = line at hline
    cases hline with
    | @some _ text' hread =>
      rw [SameLine, hr] at hread
      generalize hr' : (Statement.read text'.toList).result = result at hread
      cases hread
      refine ⟨_, .refused ?_ hr', ?_⟩
      · rw [h.cursor, ht']
      · rw [h.cursor]
        exact (h.heard o text text').refuse (o.site m.cursor text) text' refusal
  | halted hx =>
    obtain ⟨text', statement', s', hx', hlike⟩ := h.executes hp hx
    refine ⟨_, .halted hx', hlike, ?_⟩
    rw [h.cursor]
    exact .halted _
  | @failed text statement s cause hx =>
    obtain ⟨text', statement', s', hx', hlike⟩ := h.executes hp hx
    refine ⟨_, .failed hx', ?_⟩
    rw [h.cursor]
    exact hlike.fail (o.site m.cursor text) text' cause
  | @tooDeep text statement s l hx full =>
    obtain ⟨text', statement', s', hx', hlike⟩ := h.executes hp hx
    refine ⟨_, .tooDeep hx' (h.frames ▸ full), ?_⟩
    rw [h.cursor]
    exact hlike.fail (o.site m.cursor text) text' _

/-- The one run comes to everything the other comes to. -/
theorem Reachable.like (hp : p.Like p') (h : Reachable p o m) :
    ∃ m', Reachable p' o m' ∧ m.Like m' := by
  refine h.simulate ⟨_, .start, like_start p p' o⟩ fun m m₁ m' hm hm' hlike hs ↦ ?_
  obtain ⟨m₁', hs', hlike'⟩ := hlike.step hp hm.faithful hm'.faithful hs
  exact ⟨m₁', hm'.step hs', hlike'⟩

/-- Compensation, feed and spindle speed never decide anything. Two programs that are the same but
for codes of compensation and for the numbers given for feed and spindle make the same moves and
leave the same registers and labels, the same positioning, cycle and place of the tool; and they end
in the same way at the same line, for the same cause if they fail. -/
theorem run_inert (p p' : Program) (o : Options) (h : p.Like p') :
    (p'.run o).state.log = (p.run o).state.log ∧
    (p'.run o).state.registers = (p.run o).state.registers ∧
    (p'.run o).state.labels = (p.run o).state.labels ∧
    (p'.run o).state.modal.positioning = (p.run o).state.modal.positioning ∧
    (p'.run o).state.modal.cycle = (p.run o).state.modal.cycle ∧
    (p'.run o).state.modal.position = (p.run o).state.modal.position ∧
    (p.run o).outcome.Like (p'.run o).outcome := by
  obtain ⟨m, hm, hs⟩ := exists_last p o
  obtain ⟨m', hm', hlike⟩ := hm.like h
  obtain ⟨finished', hs', hend⟩ := hlike.finish h hm.faithful hm'.faithful hs
  obtain rfl : p'.run o = finished' := hm'.run_eq hs'
  exact ⟨hend.state.log, hend.state.registers, hend.state.labels, hend.state.modal.positioning,
    hend.state.modal.cycle, hend.state.modal.position, hend.outcome⟩

/-- A move made twice on the left side of the path, and a pecking cycle without a step. -/
def besidePath : Program := .ofLines ["A: G41 G91 G1 X1 F5", "REPEAT A", "G83 Q0"]

/-- The same with compensation switched on at another line, and with another feed. -/
def besideOther : Program := .ofLines ["A: G91 G1 X1 F7", "REPEAT A", "G42 G83 Q0"]

/-- The two programs make the same two moves and then fail for the same step of a pecking cycle,
though they leave other settings behind. -/
theorem run_inert_beside :
    besidePath.Like besideOther ∧
    (besidePath.run {}).state.log.size = 2 ∧
    (besideOther.run {}).state.log = (besidePath.run {}).state.log ∧
    (besidePath.run {}).state.modal.compensation = .left ∧
    (besideOther.run {}).state.modal.compensation = .right ∧
    (besidePath.run {}).outcome.Like (besideOther.run {}).outcome := by
  have hmove : ∃ x f, (Statement.read "A: G41 G91 G1 X1 F5".toList).result =
        .ok ⟨["A"], .block { g := [41, 91, 1], words := { x := some x, f := some (.literal f) } }⟩ ∧
      ∃ f', (Statement.read "A: G91 G1 X1 F7".toList).result =
        .ok ⟨["A"], .block { g := [91, 1], words := { x := some x, f := some (.literal f') } }⟩ :=
    ⟨_, _, rfl, _, rfl⟩
  have hpeck : ∃ q, (Statement.read "G83 Q0".toList).result =
        .ok ⟨[], .block { g := [83], words := { q := some q } }⟩ ∧
      (Statement.read "G42 G83 Q0".toList).result =
        .ok ⟨[], .block { g := [42, 83], words := { q := some q } }⟩ := ⟨_, rfl, rfl⟩
  have hlike : besidePath.Like besideOther := by
    obtain ⟨x, f, hmove, f', hmove'⟩ := hmove
    obtain ⟨q, hpeck, hpeck'⟩ := hpeck
    refine Program.like_ofLines (.cons (sameLine_of_read hmove hmove' ?_) (.cons ?_
      (.cons (sameLine_of_read hpeck hpeck' ?_) .nil)))
    · exact ⟨rfl, .block
        ⟨rfl, rfl, ⟨rfl, rfl, rfl, rfl, rfl, rfl, rfl, rfl⟩, .literal f f', .same _⟩⟩
    · exact .ok ⟨rfl, .same _⟩
    · exact ⟨rfl, .block
        ⟨rfl, rfl, ⟨rfl, rfl, rfl, rfl, rfl, rfl, rfl, rfl⟩, .same _, .same _⟩⟩
  have h : ∃ f, iterate besidePath (Options.usable {}) 4 (start besidePath {}) = .inr f ∧
      f.state.log.size = 2 ∧ f.state.modal.compensation = .left := ⟨_, rfl, rfl, rfl⟩
  have h' : ∃ f, iterate besideOther (Options.usable {}) 4 (start besideOther {}) = .inr f ∧
      f.state.modal.compensation = .right := ⟨_, rfl, rfl⟩
  obtain ⟨f, hf, hsize, hleft⟩ := h
  obtain ⟨f', hf', hright⟩ := h'
  obtain rfl : besidePath.run {} = f := run_eq_of_iterate hf
  obtain rfl : besideOther.run {} = f' := run_eq_of_iterate hf'
  obtain ⟨hlog, -, -, -, -, -, houtcome⟩ := run_inert besidePath besideOther {} hlike
  exact ⟨hlike, hsize, hlog, hleft, hright, houtcome⟩

end Machine

end Toolpath
