import Toolpath.Number.Machine
import Toolpath.Proofs.Number.Sum
import Toolpath.Proofs.Playback.Current

/-!
# The cursor within its segment

Along a segment of finite length the cursor is never before its start and never behind its end, in
exact arithmetic and in that of the machine, as long as the ticks go forward. The walk of a tick
keeps it there (`Turn.Advances.inside`), since what is left to go is never below zero, and the calls
that set a speed let none below zero through. The speed that a player is made with goes unchecked:
with one below zero the first tick takes the cursor out of its segment (`not_inside_stepped`).
-/

namespace Toolpath

open Scalar (isFinite)

theorem Segment.length_nonneg {α : Type} [Analytic α] [Analytic.Metric α] {s : Segment α}
    (h : isFinite s.length = true) : 0 ≤ s.length :=
  Analytic.Metric.nonneg (Scalar.Ordered.le_self_of_isFinite h) (Analytic.Metric.not_neg_sqrt _)

namespace Playback

namespace Player

variable {α σ : Type} [Analytic α]

/-- The cursor is no further than the ends of the segment it is on, if that is of finite length. -/
def Inside (p : Player α σ) : Prop :=
  ∀ s, p.segments[p.index]? = some s → isFinite s.length = true → 0 ≤ p.along ∧ p.along ≤ s.length

variable [Analytic.Metric α] {p : Player α σ}

/-- At the start of a segment the cursor is within it. -/
theorem inside_of_along (h : p.along = 0) : p.Inside := by
  intro s _ hf
  rw [h]
  exact ⟨Analytic.Metric.zero_le_zero, s.length_nonneg hf⟩

end Player

open Player

/-- A way forward does not lead out of a segment. -/
theorem Turn.Advances.inside {α σ : Type} [Analytic α] [Analytic.Metric α] [Remover σ α]
    {t t' : Turn α σ} {distance : α} {snapped : Option (Point α)}
    (h : Advances t distance snapped t') (hd : ¬distance < 0) (hi : t.player.Inside) :
    t'.player.Inside := by
  induction h with
  | skips hs hn h ih => exact ih hd (inside_of_along (by rw [player_skip]))
  | passes hs hn hd' h ih =>
    exact ih (Analytic.Metric.not_neg_sub hd') (inside_of_along (by rw [player_pass]))
  | @proceeds t s distance snapped hs hn hlt =>
    obtain ⟨updates, remover, hp⟩ := player_proceed t s distance
    rw [hp]
    intro s' hs' hf
    cases hs.symm.trans hs'
    obtain ⟨h0, hle⟩ := hi s hs hf
    have hle' : t.player.along + distance ≤ s.length :=
      Analytic.Metric.add_le_of_lt_sub h0 hle hf hd hlt
    refine ⟨Analytic.Metric.nonneg (Scalar.Ordered.le_self_of_le hle').1 ?_, hle'⟩
    exact Analytic.Metric.not_neg_add (Analytic.Metric.not_neg h0) hd
  | @runsOut t distance snapped hs =>
    obtain ⟨marker, updates, remover, hp⟩ := player_runOut t snapped
    rw [hp]
    exact inside_of_along rfl

namespace Player

variable {α σ : Type} [Analytic α] [Analytic.Metric α] {p p' : Player α σ} {call : Call α σ}

/-- The time between ticks does not run backwards. -/
theorem not_neg_seconds (c : Config α) : ¬c.seconds < 0 :=
  Analytic.Metric.not_neg_add (Analytic.Metric.not_neg_natCast _)
    (Analytic.Metric.not_neg_div_natCast (Analytic.Metric.not_neg_natCast _) _)

/-- A player that goes forward goes on to do so: no call sets a speed below zero. -/
theorem Changes.not_neg_speed (hc : p.Changes call p') (hv : ¬p.speed < 0) : ¬p'.speed < 0 := by
  cases hc with
  | unloaded =>
    rcases p.supplied_eq with hp | ⟨loader, operations, hp⟩
    · rwa [hp]
    · rw [hp]
      exact hv
  | start ho hv' => exact Analytic.Metric.not_neg_of_isPositive hv'
  | setSpeed hv' => exact Analytic.Metric.not_neg_of_isPositive hv'
  | timer hr ho ht => cases ht <;> exact hv
  | step ho hs ht => cases ht <;> exact hv
  | _ => exact hv

variable [Remover σ α]

theorem Inside.begin (h : p.Inside) {speed : α} (ho : p.closed = false)
    (hv : Scalar.isPositive speed = true) :
    (Turn.begin { player := p } speed).1.player.Inside := by
  have hc := changes_begin ho hv
  generalize (Turn.begin { player := p } speed).1.player = p' at hc
  cases hc with
  | ignored => exact h
  | start => exact inside_of_along rfl
  | unloaded =>
    rcases p.supplied_eq with hp | ⟨loader, operations, hp⟩
    · rwa [hp]
    · exact inside_of_along (by rw [hp]; rfl)

theorem Inside.tick (h : p.Inside) (hv : ¬p.speed < 0) :
    (Turn.tick { player := p }).player.Inside :=
  (Turn.advances_tick { player := p }).inside
    (Analytic.Metric.not_neg_mul hv (not_neg_seconds p.config)) h

/-- What does not tick leaves the cursor where it is or puts it to the start of a segment. -/
theorem Inside.perform (h : p.Inside) (hv : ¬p.speed < 0) (call : Call α σ) :
    (p.perform call).player.Inside := by
  obtain ⟨t, result, ht, hp⟩ := takes_perform p call
  rw [hp]
  cases ht with
  | timer | step => exact h.tick hv
  | load operations => exact inside_of_along (by rw [Turn.player_load]; rfl)
  | stop | close => exact inside_of_along (by rw [Turn.player_stop]; rfl)
  | start ho hv' => exact h.begin ho hv'
  | pause | resume =>
    rw [Turn.player_setStatus]
    exact h
  | _ => exact h

/-- Once the cursor is within its segment it stays so, whatever is called for, if the speed is not
below zero. -/
theorem Inside.after (h : p.Inside) (hv : ¬p.speed < 0) (calls : List (Call α σ)) :
    (p.after calls).Inside := by
  induction calls generalizing p with
  | nil => exact h
  | cons call calls ih => exact ih (h.perform hv call) ((changes_perform p call).not_neg_speed hv)

/-- After any calls the cursor is within its segment, or at zero behind them all, if the player was
made with a speed that is not below zero. Whatever it was made with, this is so from the moment on
when the speed is not below zero and the cursor is at the start of a segment, as it is after every
start of playback. -/
theorem along_within_segment (config : Config α) (calls : List (Call α σ)) :
    let p := (new config).after calls
    (p.index = p.segments.size → p.along = 0) ∧
      (¬config.speed < 0 → p.Inside) ∧
      ∀ before later, calls = before ++ later → ¬((new config).after before).speed < 0 →
        ((new config).after before).along = 0 → p.Inside := by
  intro p
  refine ⟨fun hi => ((lawful_after config calls).ended hi).2, fun hv => ?_, ?_⟩
  · exact (inside_of_along rfl).after hv calls
  · rintro before later rfl hv ha
    have hp : p = ((new config).after before).after later := after_append ..
    rw [hp]
    exact (inside_of_along ha).after hv later

/-- Two and a half seconds at a millimetre a second: a millimetre in the first operation, and one
and a half of the two in the next. -/
theorem along_within_segment_stretches :
    let config : Config Float := ⟨2500000000, 1, 0⟩
    let p : Player Float (List (Point Float)) := (new config).after [.load stretches, .step]
    ¬config.speed < 0 ∧ p.Inside ∧ p.index = 1 ∧ 1 < p.along := by
  intro config p
  have hv : ¬config.speed < 0 := by decide +kernel
  exact ⟨hv, (along_within_segment config _).2.1 hv, by decide +kernel, by decide +kernel⟩

/-- A player is made with whatever speed it is given: with one below zero the first tick takes the
cursor out of its segment, backwards. -/
theorem not_inside_stepped :
    let p : Player Float (List (Point Float)) :=
      (new ⟨1000000000, -1, 0⟩).after [.load stretches, .step]
    ¬p.Inside := by
  intro p hp
  obtain ⟨s, hs, hf⟩ : ∃ s ∈ p.segments[p.index]?, isFinite s.length = true := by decide +kernel
  exact absurd (hp s hs hf).1 (by decide +kernel)

end Player

end Playback

end Toolpath
