import Toolpath.Proofs.Run.Continuity

/-!
# Lines with a motion code

A line with a motion code that is executed either leaves the tool and the log as they were or makes
a course from where the tool stood to where it stands afterwards. The exception is an arc whose end
lies within the tolerance of where the tool stands, though elsewhere: it makes no move, and the tool
is at the end of it all the same. So says `line_travels`, of any state and any words.
-/

namespace Toolpath

/-- An arc is stationary when its ends are the same within the tolerance. -/
theorem Arc.resolve_eq_stationary_iff {α : Type} [Analytic α] {start stop : Point α} {c : Centre α}
    {direction : Direction} {step : α} :
    resolve start stop c direction step = .stationary ↔
      start.sameXY stop = true ∧ Scalar.abs (start.z - stop.z) ≤ Point.tolerance := by
  rw [resolve]
  split
  · rename_i hxy
    split
    · rename_i hz
      exact iff_of_true rfl ⟨hxy, hz⟩
    · rename_i hz
      exact iff_of_false (fun h ↦ by cases h) fun h ↦ hz h.2
  · rename_i hxy
    refine iff_of_false (fun h ↦ ?_) fun h ↦ hxy h.1
    split at h
    · cases h
    · dsimp only at h
      split at h <;> cases h

/-- A course without moves leads nowhere. -/
theorem Course.eq_of_nil {α : Type} {a b : Point α} (h : Course a [] b) : b = a := by
  cases h
  rfl

namespace Effect

variable {site : Site} {m : Modal} {w : Words Float} {codes : List Nat}

/-- An arc leaves the tool at the programmed end, whether or not it makes a move. -/
theorem position_ofBlock_of_arc {direction : Arc.Direction}
    (h : (setup site.line m codes w).motion = some (.arc direction)) :
    (ofBlock site m codes w).modal.position = target (setup site.line m codes w).modal w := by
  change (ofMotion site (setup site.line m codes w).motion (setup site.line m codes w).modal
    w).modal.position = _
  rw [h]
  rfl

/-- A line that jumps makes no move. -/
theorem moves_ofBlock_of_jumps
    (h : Jumps site (setup site.line m codes w).modal w (setup site.line m codes w).motion) :
    (ofBlock site m codes w).moves = [] :=
  moves_of_jumps h

end Effect

namespace State

variable {s t : State} {site : Site} {b : Block}

/-- The log and the place of the tool are as they were. -/
def Rests (s t : State) : Prop := t.log = s.log ∧ t.modal.position = s.modal.position

/-- Moves have been made, and they lead without a gap from where the tool stood to where it is. -/
def Travels (s t : State) : Prop :=
  ∃ moves, moves ≠ [] ∧ t.log = s.log.append moves ∧
    Course s.modal.position moves t.modal.position

/-- The tool has been moved within the tolerance, and no move made. -/
def Drifts (s t : State) : Prop :=
  t.log = s.log ∧ t.modal.position ≠ s.modal.position ∧
    s.modal.position.sameXY t.modal.position = true ∧
    Scalar.abs (s.modal.position.z - t.modal.position.z) ≤ Point.tolerance

/-- Moves that lead on without a gap are a rest if there are none. -/
theorem rests_or_travels {moves : List (Segment Float)} (hlog : t.log = s.log.append moves)
    (h : Course s.modal.position moves t.modal.position) : s.Rests t ∨ s.Travels t := by
  cases moves with
  | nil => exact .inl ⟨hlog.trans (Log.append_nil _), h.eq_of_nil⟩
  | cons move rest => exact .inr ⟨_, List.cons_ne_nil _ _, hlog, h⟩

/-- Words with a motion code that are not refused rest, travel or are an arc that drifts. -/
theorem Acts.travels {flow : Flow} {motion : Motion} (h : Acts s site (.block b) t flow)
    (hm : Motion.last? b.g = some motion) (ok : ∀ cause, flow ≠ .fail cause) :
    s.Rests t ∨ s.Travels t ∨ (∃ direction, motion = .arc direction) ∧ s.Drifts t := by
  cases h with
  | idle h notices => cases h
  | unresolved h => exact absurd rfl (ok _)
  | refused hw hc => exact absurd rfl (ok _)
  | @moved b w hw hc notices flow hf =>
    have hmotion : (Effect.setup site.line s.modal b.g w).motion = some motion :=
      (Effect.Setup.motion_ofCodes b.g).trans hm
    by_cases hj : Effect.Jumps site (Effect.setup site.line s.modal b.g w).modal w
      (Effect.setup site.line s.modal b.g w).motion
    · have hlog : s.log.append (Effect.ofBlock site s.modal b.g w).moves = s.log := by
        rw [Effect.moves_ofBlock_of_jumps hj, Log.append_nil]
      by_cases hp : (Effect.ofBlock site s.modal b.g w).modal.position = s.modal.position
      · exact .inl ⟨hlog, hp⟩
      · rw [hmotion] at hj
        cases hj with
        | @stationary direction hs =>
          -- It is left at its end, which only the tolerance takes for where it stood.
          obtain ⟨hxy, hz⟩ := Arc.resolve_eq_stationary_iff.1 hs
          rw [Effect.position_setup, ← Effect.position_ofBlock_of_arc hmotion] at hxy hz
          exact .inr (.inr ⟨⟨direction, rfl⟩, hlog, hp, hxy, hz⟩)
    · have hcourse : Course s.modal.position (Effect.ofBlock site s.modal b.g w).moves
          (Effect.ofBlock site s.modal b.g w).modal.position := Effect.leads_ofBlock hj
      exact (rests_or_travels (t := (s.absorb _).told _) rfl hcourse).imp_right .inl

/-- A line with a motion code that is executed without a failure leaves the tool and the log as they
were, or makes moves that lead without a gap from where the tool stood to where it stands, or is an
arc to a place that the tolerance does not tell from where the tool stood: such a line moves the
tool there without a move. -/
theorem line_travels {active : List Nat} {statement : Statement} {flow : Flow} {motion : Motion}
    (hx : s.execute site active statement = (t, flow)) (ha : statement.action = .block b)
    (hm : Motion.last? b.g = some motion) (ok : ∀ cause, flow ≠ .fail cause) :
    s.Rests t ∨ s.Travels t ∨ (∃ direction, motion = .arc direction) ∧ s.Drifts t := by
  obtain ⟨labels, modes, hd⟩ := declare_all_eq active (site.line - 1) statement.labels s
  rw [execute, hd, ha] at hx
  exact (acts_of_act hx).travels hm ok

/-- The words of an arc to a place a tenth of the tolerance away. -/
def tinyArc : Block := { g := [2], words := { x := some (.literal 1e-10) } }

/-- From the start of a run `tinyArc` neither rests nor travels. -/
theorem exists_drift_tinyArc :
    ¬ ∀ s t : State, s.execute ⟨1, "G2 X0.0000000001", 0, 5⟩ [] ⟨[], .block tinyArc⟩ = (t, .next) →
      s.Rests t ∨ s.Travels t := by
  have h : ∃ t, (start {}).execute ⟨1, "G2 X0.0000000001", 0, 5⟩ [] ⟨[], .block tinyArc⟩
      = (t, .next) ∧ t.log.toList = [] ∧ t.modal.position ≠ (start {}).modal.position :=
    ⟨_, rfl, rfl, by decide⟩
  obtain ⟨t, hx, hlog, hp⟩ := h
  intro hall
  rcases hall _ _ hx with ⟨-, hrest⟩ | ⟨moves, hne, hmoves, -⟩
  · exact hp hrest
  · rw [hmoves, Log.toList_append] at hlog
    exact hne (List.append_eq_nil_iff.1 hlog).2

/-- A straight move after a label travels, and `tinyArc` drifts. -/
theorem line_travels_straightOrTiny :
    (∃ t, (start {}).execute ⟨1, "A: G1 X1", 0, 5⟩ []
        ⟨["A"], .block { g := [1], words := { x := some (.literal 1) } }⟩ = (t, .next) ∧
      (start {}).Travels t) ∧
    ∃ t, (start {}).execute ⟨1, "G2 X0.0000000001", 0, 5⟩ [] ⟨[], .block tinyArc⟩ = (t, .next) ∧
      (start {}).Drifts t := by
  constructor
  · have h : ∃ t, (start {}).execute ⟨1, "A: G1 X1", 0, 5⟩ []
          ⟨["A"], .block { g := [1], words := { x := some (.literal 1) } }⟩ = (t, .next) ∧
        t.modal.position ≠ (start {}).modal.position := ⟨_, rfl, by decide⟩
    obtain ⟨t, hx, hp⟩ := h
    refine ⟨t, hx, ?_⟩
    rcases line_travels hx rfl rfl fun _ ↦ Flow.noConfusion with hrest | htravel | ⟨⟨_, harc⟩, -⟩
    · exact absurd hrest.2 hp
    · exact htravel
    · cases harc
  · have h : ∃ t, (start {}).execute ⟨1, "G2 X0.0000000001", 0, 5⟩ [] ⟨[], .block tinyArc⟩
        = (t, .next) ∧ t.log.toList = [] ∧ t.modal.position ≠ (start {}).modal.position :=
      ⟨_, rfl, rfl, by decide⟩
    obtain ⟨t, hx, hlog, hp⟩ := h
    refine ⟨t, hx, ?_⟩
    rcases line_travels hx rfl rfl fun _ ↦ Flow.noConfusion with hrest | ⟨moves, hne, hmoves, -⟩ |
      ⟨-, hdrift⟩
    · exact absurd hrest.2 hp
    · rw [hmoves, Log.toList_append] at hlog
      exact absurd (List.append_eq_nil_iff.1 hlog).2 hne
    · exact hdrift

end State

end Toolpath
