import Toolpath.Number.Machine
import Toolpath.Proofs.Playback.Distance
import Toolpath.Proofs.Playback.Lifecycle

/-!
# The operation under the cursor

A player that has been put to its first segment and has not moved since need not have the operation
of that segment for the current one. Loading makes the first operation current, be it that it has
nothing to play, and stopping takes the cursor back but leaves the operation
(`Stocked.underCursor_iff` says when that comes to the same). No other call takes the two apart
(`Changes.courses`), and where a marker is to be seen they are together.
-/

namespace Toolpath.Playback

section Stamped

variable {α : Type}

/-- The first operation that has something to play. -/
def opening (operations : List (Operation α)) : Option Nat :=
  operations.findIdx? fun o => !o.log.isEmpty

/-- The first move is one of the first operation that has any. -/
theorem operation_of_stamped (n : Nat) (operations : List (Operation α)) :
    (stamped n operations).head?.map (fun s => s.tag.operation) =
      (opening operations).map (n + ·) := by
  induction operations generalizing n with
  | nil => rfl
  | cons o operations ih =>
    rw [opening, List.findIdx?_cons, stamped]
    cases ho : o.log.isEmpty with
    | true =>
      have hl : o.log.toList = [] := by simpa [Log.isEmpty, Log.toList] using ho
      rw [hl]
      refine (ih (n + 1)).trans ?_
      rw [opening, if_neg (by simp), Option.map_map]
      congr 1
      funext i
      exact (Nat.add_right_comm n i 1).symm
    | false =>
      obtain ⟨s, rest, hl⟩ : ∃ s rest, o.log.toList = s :: rest := by
        refine List.exists_cons_of_ne_nil ?_
        simpa [Log.isEmpty, Log.toList] using ho
      rw [hl]
      simp

/-- A move belongs to one of the operations. -/
theorem exists_of_mem_stamped {n : Nat} {operations : List (Operation α)} {s : Segment α}
    (h : s ∈ stamped n operations) :
    ∃ o i, operations[i]? = some o ∧ s.tag.operation = n + i := by
  induction operations generalizing n with
  | nil => cases h
  | cons o operations ih =>
    rw [stamped] at h
    rcases List.mem_append.1 h with h | h
    · obtain ⟨move, -, rfl⟩ := List.mem_map.1 h
      exact ⟨o, 0, rfl, rfl⟩
    · obtain ⟨o', i, ho, hi⟩ := ih h
      exact ⟨o', i + 1, ho, by omega⟩

end Stamped

namespace Player

variable {α σ : Type} [Analytic α] {p p' : Player α σ} {call : Call α σ} {s : Segment α} {i : Nat}

/-- A renderer is shown the operation that a segment belongs to, and its label. -/
structure Shows (p : Player α σ) (s : Segment α) : Prop where
  operation : p.snapshot.operation = s.tag.operation
  label : ∃ o, p.operations[s.tag.operation]? = some o ∧ p.snapshot.label = some o.label

/-- The current operation is the one of the segment under the cursor, if there is one. -/
def UnderCursor (p : Player α σ) : Prop :=
  ∀ s, p.segments[p.index]? = some s → p.Shows s

theorem underCursor_of_none (h : p.segments[p.index]? = none) : p.UnderCursor := by
  intro s hs
  cases h.symm.trans hs

/-- What is shown hangs on the current operation alone. -/
theorem Stocked.shows (h : p.Stocked) (hs : p.segments[i]? = some s)
    (ho : p.operation = s.tag.operation) : p.Shows s := by
  have hm : s ∈ stamped 0 p.operations := by
    rw [h.segments] at hs
    exact List.mem_of_getElem? (by simpa using hs)
  obtain ⟨o, j, hj, hs⟩ := exists_of_mem_stamped hm
  have hj : p.operations[s.tag.operation]? = some o := by
    rw [hs, Nat.zero_add]
    exact hj
  refine ⟨ho, o, hj, ?_⟩
  rw [snapshot]
  dsimp only
  rw [ho, hj]
  rfl

theorem Stocked.underCursor (h : p.Stocked) (hs : p.segments[p.index]? = some s)
    (ho : p.operation = s.tag.operation) : p.UnderCursor := by
  intro s' hs'
  cases hs.symm.trans hs'
  exact h.shows hs ho

/-- At the first segment the current operation has to be the first that has something to play. -/
theorem Stocked.underCursor_iff (h : p.Stocked) (hi : p.index = 0) :
    p.UnderCursor ↔ ∀ i ∈ opening p.operations, i = p.operation := by
  have hf : p.segments[p.index]? = (stamped 0 p.operations).head? := by
    rw [hi, h.segments]
    simp [List.head?_eq_getElem?]
  have ho := operation_of_stamped 0 p.operations
  simp only [← hf, Nat.zero_add, Option.map_id'] at ho
  rw [← ho]
  constructor
  · rintro hu i hi
    obtain ⟨s, hs, rfl⟩ := Option.map_eq_some_iff.1 hi
    exact (hu s hs).operation.symm
  · intro hu s hs
    exact h.shows hs (hu _ (Option.mem_map_of_mem _ hs)).symm

/-- The cursor stays where it is, and so does the current operation. -/
structure Stays (p p' : Player α σ) : Prop where
  segments : p'.segments = p.segments
  index : p'.index = p.index
  operation : p'.operation = p.operation
  resting : p.Resting → p'.Resting

theorem UnderCursor.stays (hu : p.UnderCursor) (h : p.Stays p') (hs : p'.Stocked) :
    p'.UnderCursor := by
  intro s hs'
  have ho := (hu s (by rwa [← h.segments, ← h.index])).operation
  exact hs.shows hs' (h.operation.trans ho)

theorem Ticked.underCursor (h : p.Ticked p') (hs : p'.Stocked) : p'.UnderCursor := by
  cases h with
  | within hi along completed updates remover => exact hs.underCursor hi rfl
  | ended => exact underCursor_of_none (Array.getElem?_eq_none (Nat.le_refl _))

end Player

/-- The call takes the cursor back and does not enter the operation there. -/
def Call.PutsBack {α σ : Type} : Call α σ → Prop
  | .load _ | .stop => True
  | _ => False

namespace Player

variable {α σ : Type} [Analytic α] {p p' : Player α σ} {call : Call α σ}

/-- Where a call leaves cursor and current operation. -/
theorem Changes.courses (hc : p.Changes call p') (hs : p'.Stocked) :
    p'.UnderCursor ∨ call.PutsBack ∧ p'.Resting ∨ p.Stays p' := by
  cases hc with
  | load operations => exact .inr (.inl ⟨trivial, resting_loaded p operations⟩)
  | stop => exact .inr (.inl ⟨trivial, resting_rested p⟩)
  | unloaded ho hv hn =>
    have he : p.supplied.segments.size ≤ 0 := Array.getElem?_eq_none_iff.1 hn
    exact .inl (underCursor_of_none (Array.getElem?_eq_none (Nat.le_trans he (Nat.zero_le _))))
  | start ho hv hf remover => exact .inl (hs.underCursor hf rfl)
  | timer hr ho ht => exact .inl (ht.underCursor hs)
  | step ho he ht => exact .inl (ht.underCursor hs)
  | close => exact .inl (underCursor_of_none rfl)
  | pause hr =>
    exact .inr (.inr ⟨rfl, rfl, rfl, fun h => absurd (hr.symm.trans h.status) (by decide)⟩)
  | resume ho hp =>
    exact .inr (.inr ⟨rfl, rfl, rfl, fun h => absurd (hp.symm.trans h.status) (by decide)⟩)
  | _ => exact .inr (.inr ⟨rfl, rfl, rfl, fun h => ⟨h.index, h.along, h.status, h.marker⟩⟩)

/-- A player that has not the operation under its cursor rests. -/
theorem Changes.underCursor_or_resting (hc : p.Changes call p') (hs : p'.Stocked)
    (h : p.UnderCursor ∨ p.Resting) : p'.UnderCursor ∨ p'.Resting := by
  rcases hc.courses hs with hu | ⟨-, hr⟩ | hst
  · exact .inl hu
  · exact .inr hr
  · exact h.imp (fun hu => hu.stays hst hs) hst.resting

variable [Remover σ α]

theorem underCursor_or_resting (config : Config α) (calls : List (Call α σ)) :
    ((new config : Player α σ).after calls).UnderCursor ∨
      ((new config : Player α σ).after calls).Resting := by
  refine (after_induct (P := fun p => p.Stocked ∧ (p.UnderCursor ∨ p.Resting))
    (fun p call p' h hc => ?_) ?_ calls).2
  · exact ⟨h.1.change hc, hc.underCursor_or_resting (h.1.change hc) h.2⟩
  · exact ⟨stocked_new config, .inr (resting_new config)⟩

/-- Whatever a player was called for, a renderer is shown the operation under the cursor, unless the
player is at rest. Loading takes the two apart if the first operation has nothing to play but a
later one has, and stopping does if another operation than the first to play is the current one; no
other call does. -/
theorem operation_under_cursor (config : Config α) (calls : List (Call α σ)) :
    let p := (new config).after calls
    (p.UnderCursor ∨ p.Resting) ∧
      (∀ operations, (p.perform (.load operations)).player.UnderCursor ↔
        ∀ i ∈ opening operations, i = 0) ∧
      ((p.perform .stop).player.UnderCursor ↔ ∀ i ∈ opening p.operations, i = p.operation) ∧
      ∀ call : Call α σ, ¬call.PutsBack → p.UnderCursor → (p.perform call).player.UnderCursor := by
  intro p
  have hs : p.Stocked := stocked_after config calls
  have hkeep : ∀ call, (p.perform call).player.Stocked := fun call =>
    hs.change (changes_perform p call)
  refine ⟨underCursor_or_resting config calls, fun operations => ?_, ?_, fun call hb hu => ?_⟩
  · have hl : (p.perform (.load operations)).player = p.loaded operations := Turn.player_load ..
    have h := (hkeep (.load operations)).underCursor_iff (by rw [hl]; rfl)
    rw [h, hl]
    exact Iff.rfl
  · have hr : (p.perform .stop).player = p.rested := Turn.player_stop ..
    have h := (hkeep .stop).underCursor_iff (by rw [hr]; rfl)
    rw [h, hr]
    exact Iff.rfl
  · rcases (changes_perform p call).courses (hkeep call) with h | ⟨h, -⟩ | h
    · exact h
    · exact absurd h hb
    · exact hu.stays h (hkeep call)

/-- One millimetre in one operation, and two more in the next. -/
def stretches : List (Operation Float) :=
  [⟨"A", Log.ofList [⟨.feed, ⟨0, 0, 0⟩, ⟨1, 0, 0⟩, {}⟩]⟩,
    ⟨"B", Log.ofList [⟨.feed, ⟨1, 0, 0⟩, ⟨3, 0, 0⟩, {}⟩]⟩]

/-- Two millimetres on, the second operation is entered; it stays the current one when playback is
stopped and the cursor is back in the first. -/
theorem not_underCursor_stopped :
    ¬((new ⟨1000000000, 2, 0⟩ : Player Float (List (Point Float))).after
      [.load stretches, .step, .stop]).UnderCursor := by
  intro hu
  have hs := stocked_after (σ := List (Point Float)) ⟨1000000000, 2, 0⟩
    [.load stretches, .step, .stop]
  have ho := (hs.underCursor_iff (by decide +kernel)).1 hu 0 (by decide +kernel)
  exact absurd ho (by decide +kernel)

end Player

end Toolpath.Playback
