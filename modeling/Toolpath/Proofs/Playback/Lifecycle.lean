import Toolpath.Proofs.Playback.Turn

/-!
# The life of a player

However a player is called, its cursor stays over its segments or just behind the last of them, it
plays only while it is open, within a segment and visible, and a visible marker is where the cursor
is. Its segments and their length are always those of its operations. Nothing is asked of the
arithmetic: lengths may be infinite or undefined.
-/

namespace Toolpath.Playback.Player

variable {α σ : Type} [Analytic α] {p p' : Player α σ} {call : Call α σ}

/-- A point is where the cursor is along its segment, or the start of the first segment while the
marker has been placed once only, by the start of playback. -/
def Marks (p : Player α σ) (s : Segment α) (position : Point α) : Prop :=
  position = s.pointAt p.along ∨
    p.index = 0 ∧ p.along = 0 ∧ p.updates = 1 ∧ position = s.start

/-- Status, cursor and marker agree. -/
structure Lawful (p : Player α σ) : Prop where
  index_le : p.index ≤ p.segments.size
  playing : p.status ≠ .stopped →
    p.closed = false ∧ p.index < p.segments.size ∧ p.marker.isSome = true
  ended : p.index = p.segments.size → p.status = .stopped ∧ p.along = 0
  shut : p.closed = true →
    p.status = .stopped ∧ p.marker = none ∧ p.index = 0 ∧ p.along = 0
  marked : ∀ s position, p.segments[p.index]? = some s → p.marker = some position →
    p.Marks s position

/-- Status, cursor and marker of a player at rest. -/
structure Resting (p : Player α σ) : Prop where
  index : p.index = 0
  along : p.along = 0
  status : p.status = .stopped
  marker : p.marker = none

theorem resting_new (config : Config α) : (new config : Player α σ).Resting := ⟨rfl, rfl, rfl, rfl⟩

theorem resting_rested (p : Player α σ) : p.rested.Resting := ⟨rfl, rfl, rfl, rfl⟩

theorem resting_loaded (p : Player α σ) (operations : List (Operation α)) :
    (p.loaded operations).Resting := ⟨rfl, rfl, rfl, rfl⟩

theorem Resting.release (h : p.Resting) : p.release.Resting :=
  ⟨h.index, h.along, h.status, h.marker⟩

/-- A player at rest is lawful, whatever it has loaded and whether it is closed or not. -/
theorem Resting.lawful (h : p.Resting) : p.Lawful where
  index_le := by
    rw [h.index]
    exact Nat.zero_le _
  playing hs := absurd h.status hs
  ended _ := ⟨h.status, h.along⟩
  shut _ := ⟨h.status, h.marker, h.index, h.along⟩
  marked s position _ hm := by
    rw [h.marker] at hm
    cases hm

theorem Lawful.supplied (h : p.Lawful) : p.supplied.Lawful := by
  rcases p.supplied_eq with hp | ⟨loader, operations, hp⟩
  · rw [hp]
    exact h
  · rw [hp]
    exact (resting_loaded _ operations).lawful

/-- An open player is lawful within a segment if its marker is where it should be. -/
theorem lawful_within {s : Segment α} {position : Point α} (ho : p.closed = false)
    (hs : p.segments[p.index]? = some s) (hm : p.marker = some position)
    (hp : p.Marks s position) : p.Lawful where
  index_le := Nat.le_of_lt (Array.getElem?_eq_some_iff.1 hs).1
  playing _ := ⟨ho, (Array.getElem?_eq_some_iff.1 hs).1, by rw [hm]; rfl⟩
  ended h := absurd h (Nat.ne_of_lt (Array.getElem?_eq_some_iff.1 hs).1)
  shut h := absurd (ho.symm.trans h) Bool.false_ne_true
  marked s' position' hs' hm' := by
    cases hs.symm.trans hs'
    cases hm.symm.trans hm'
    exact hp

theorem lawful_started {speed : α} {first : Segment α} {remover : Option σ}
    (ho : p.closed = false) (hs : p.segments[0]? = some first) :
    (p.started speed first remover).Lawful :=
  lawful_within ho hs rfl (.inr ⟨rfl, rfl, rfl, rfl⟩)

/-- A tick leaves the marker at the cursor or the cursor behind all segments, wherever it was. -/
theorem Ticked.lawful (h : p.Ticked p') (ho : p.closed = false) : p'.Lawful := by
  cases h with
  | within hs => exact lawful_within ho hs rfl (.inl rfl)
  | ended =>
    refine ⟨Nat.le_refl _, fun h => absurd rfl h, fun _ => ⟨rfl, rfl⟩, fun h => ?_, ?_⟩
    · exact absurd (ho.symm.trans h) Bool.false_ne_true
    · intro s position h _
      exact absurd (Array.getElem?_eq_some_iff.1 h).1 (Nat.lt_irrefl _)

/-- A player that plays may change between running and paused. -/
theorem Lawful.withStatus {status : Status} (h : p.Lawful) (hs : p.status ≠ .stopped) :
    { p with status }.Lawful := by
  obtain ⟨ho, hi, hm⟩ := h.playing hs
  obtain ⟨position, hm⟩ := Option.isSome_iff_exists.1 hm
  have hi := Array.getElem?_eq_getElem hi
  exact lawful_within ho hi hm (h.marked _ position hi hm)

theorem Lawful.change (h : p.Lawful) (hc : p.Changes call p') : p'.Lawful := by
  cases hc with
  | ignored => exact h
  | load operations => exact (resting_loaded p operations).lawful
  | setLoader => exact ⟨h.index_le, h.playing, h.ended, h.shut, h.marked⟩
  | addObserver => exact ⟨h.index_le, h.playing, h.ended, h.shut, h.marked⟩
  | setRemover => exact ⟨h.index_le, h.playing, h.ended, h.shut, h.marked⟩
  | clearRemover => exact ⟨h.index_le, h.playing, h.ended, h.shut, h.marked⟩
  | unloaded => exact h.supplied
  | start ho hv hs remover => exact lawful_started ((closed_supplied p).trans ho) hs
  | timer hr ho ht => exact ht.lawful ho
  | step ho hs ht => exact ht.lawful ho
  | pause hr => exact h.withStatus (by simp [hr])
  | resume ho hp => exact h.withStatus (by simp [hp])
  | stop => exact (resting_rested p).lawful
  | setSpeed => exact ⟨h.index_le, h.playing, h.ended, h.shut, h.marked⟩
  | close ho => exact (resting_rested p).release.lawful

/-- The segments are the moves of the operations, one after the other, and the length of the whole,
if there are any, is what they add up to. -/
structure Stocked (p : Player α σ) : Prop where
  segments : p.segments = (stamped 0 p.operations).toArray
  total : p.segments.isEmpty = false → p.total = Log.sum ((stamped 0 p.operations).map Segment.length)

theorem stocked_new (config : Config α) : (new config : Player α σ).Stocked :=
  ⟨rfl, fun h => by cases h⟩

theorem Stocked.supplied (h : p.Stocked) : p.supplied.Stocked := by
  rcases p.supplied_eq with hp | ⟨loader, operations, hp⟩
  · rwa [hp]
  · rw [hp]
    exact ⟨rfl, fun _ => rfl⟩

theorem Stocked.change (h : p.Stocked) (hc : p.Changes call p') : p'.Stocked := by
  cases hc with
  | load => exact ⟨rfl, fun _ => rfl⟩
  | unloaded => exact h.supplied
  | start => exact ⟨h.supplied.segments, h.supplied.total⟩
  | timer hr ho ht => cases ht <;> exact ⟨h.segments, h.total⟩
  | step ho hs ht => cases ht <;> exact ⟨h.segments, h.total⟩
  | close => exact ⟨rfl, fun h => by cases h⟩
  | _ => exact ⟨h.segments, h.total⟩

variable [Remover σ α]

theorem stocked_after (config : Config α) (calls : List (Call α σ)) :
    ((new config : Player α σ).after calls).Stocked :=
  after_induct (fun _ _ _ h hc => h.change hc) (stocked_new config) calls

/-- Status, cursor and marker agree after any calls in any order, refused ones among them. -/
theorem lawful_after (config : Config α) (calls : List (Call α σ)) :
    ((new config : Player α σ).after calls).Lawful :=
  after_induct (fun _ _ _ h hc => h.change hc) (resting_new config).lawful calls

end Toolpath.Playback.Player
