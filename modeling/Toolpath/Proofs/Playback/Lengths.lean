import Toolpath.Proofs.Playback.Arrival
import Toolpath.Proofs.Playback.Current

/-!
# What is loaded, and how much of it is done

A player comes to its operations by a call that loads them, or by the loader when it is to start with
nothing to play; it lets go of them when it is closed. `Player.loadedBy` reads off the calls which
operations that leaves in it, if any. With operations in it the player has their moves for segments,
stamped and in order, and the sum of their lengths; without, it is blank. The completed length is in
either case summed up anew: that of the segments before the cursor that take time, added from the left
(`Player.completed_after`).

A player that was closed takes operations in like any other, and being closed once more it keeps them.
-/

namespace Toolpath.Playback

/-! ## Moves in order -/

/-- The moves of some operations one after the other, each with the place of its operation. -/
def numbered {α : Type} (operations : List (Operation α)) : List (Segment α) :=
  operations.zipIdx.flatMap fun o =>
    o.1.log.toList.map fun s => { s with tag := { s.tag with operation := o.2 } }

theorem stamped_eq_flatMap {α : Type} (n : Nat) (operations : List (Operation α)) :
    stamped n operations = (operations.zipIdx n).flatMap fun o =>
      o.1.log.toList.map fun s => { s with tag := { s.tag with operation := o.2 } } := by
  induction operations generalizing n with
  | nil => rfl
  | cons o operations ih => rw [stamped, List.zipIdx_cons, List.flatMap_cons, ih]

theorem stamped_zero {α : Type} (operations : List (Operation α)) :
    stamped 0 operations = numbered operations :=
  stamped_eq_flatMap 0 operations

namespace Player

variable {α σ : Type} [Analytic α] {p p' : Player α σ} {call : Call α σ} {speed : α}
  {held : Option (List (Operation α))} {operations : List (Operation α)}

/-! ## What is loaded -/

/-- The operations that a call takes in, if it does: those that it is given, or those that the loader
supplies to a start with nothing to play. -/
def intake (p : Player α σ) : Call α σ → Option (List (Operation α))
  | .load operations => some operations
  | .start speed =>
    if p.closed = false ∧ Scalar.isPositive speed = true ∧ p.segments.isEmpty = true then
      p.loader.map fun l => l.supply l.calls
    else none
  | _ => none

/-- What is loaded after a call: what it takes in, or what was loaded before. Only the first closing of
a player lets go of that. -/
def keeps (p : Player α σ) (held : Option (List (Operation α))) :
    Call α σ → Option (List (Operation α))
  | .close => if p.closed then held else none
  | call => (p.intake call).or held

/-- What is loaded after some calls. -/
def loadedBy [Remover σ α] (p : Player α σ) :
    (held : Option (List (Operation α))) → List (Call α σ) → Option (List (Operation α))
  | held, [] => held
  | held, call :: calls => (p.perform call).player.loadedBy (p.keeps held call) calls

/-- Nothing is loaded. -/
structure Blank (p : Player α σ) : Prop extends p.Resting where
  operations : p.operations = []
  segments : p.segments = #[]
  total : p.total = 0

/-- Some operations are loaded. -/
structure Filled (held : List (Operation α)) (p : Player α σ) : Prop where
  operations : p.operations = held
  segments : p.segments.toList = numbered held
  total : p.total = Log.sum ((numbered held).map Segment.length)

/-- What is said to be loaded is. -/
def Carries (p : Player α σ) : Option (List (Operation α)) → Prop
  | none => p.Blank
  | some held => p.Filled held

theorem carries_new (config : Config α) : (new config : Player α σ).Carries none :=
  ⟨resting_new config, rfl, rfl, rfl⟩

theorem carries_loaded (p : Player α σ) (operations : List (Operation α)) :
    (p.loaded operations).Carries (some operations) := by
  rw [Carries]
  constructor
  · rfl
  · rw [← stamped_zero]
    rfl
  · rw [← stamped_zero]
    rfl

theorem keeps_of_ignores (h : p.Ignores call) : p.keeps held call = held := by
  cases call with
  | load | setLoader | addObserver | setRemover | clearRemover | stop => exact h.elim
  | close => exact if_pos h
  | start speed =>
    have hnone : p.intake (.start speed) = none := by
      refine if_neg fun hopen => ?_
      rcases h with h | h
      · cases h.symm.trans hopen.1
      · cases h.symm.trans hopen.2.1
    change (p.intake (.start speed)).or held = held
    rw [hnone, Option.none_or]
  | _ => rfl

/-- A start that is accepted takes in what the loader supplies. -/
theorem Carries.supplied (h : p.Carries held) (ho : p.closed = false)
    (hv : Scalar.isPositive speed = true) : p.supplied.Carries (p.keeps held (.start speed)) := by
  change p.supplied.Carries ((p.intake (.start speed)).or held)
  rw [intake, Player.supplied]
  cases hs : p.segments.isEmpty with
  | true =>
    rw [if_pos rfl, if_pos ⟨ho, hv, rfl⟩]
    cases p.loader with
    | none => exact h
    | some l => exact carries_loaded _ (l.supply l.calls)
  | false =>
    rw [if_neg Bool.false_ne_true, if_neg fun h => by cases h.2.2]
    exact h

/-- What is loaded stays so if the segments and their length do, and a blank player goes on resting. -/
theorem Carries.of_eq (h : p.Carries held) (ho : p'.operations = p.operations)
    (hs : p'.segments = p.segments) (ht : p'.total = p.total) (hr : p.Blank → p'.Resting) :
    p'.Carries held := by
  cases held with
  | none => exact ⟨hr h, ho.trans h.operations, hs.trans h.segments, ht.trans h.total⟩
  | some held =>
    exact ⟨ho.trans h.operations, (congrArg Array.toList hs).trans h.segments, ht.trans h.total⟩

theorem Blank.not_some (h : p.Blank) {i : Nat} {s : Segment α} : p.segments[i]? ≠ some s := by
  rw [h.segments]
  exact nofun

theorem Carries.change (h : p.Carries held) (hc : p.Changes call p') :
    p'.Carries (p.keeps held call) := by
  cases hc with
  | ignored hi =>
    rw [keeps_of_ignores hi]
    exact h
  | load operations => exact carries_loaded p operations
  | unloaded ho hv => exact h.supplied ho hv
  | start ho hv hs remover =>
    exact (h.supplied ho hv).of_eq rfl rfl rfl fun hb => absurd hs hb.not_some
  -- A blank player is at rest and has nothing to play, so it neither ticks nor pauses.
  | timer hr ho ht =>
    have hb (hb : p.Blank) : p'.Resting := by cases hr.symm.trans hb.status
    cases ht <;> exact h.of_eq rfl rfl rfl hb
  | step ho hs ht =>
    have hb (hb : p.Blank) : p'.Resting := by
      rw [hb.segments] at hs
      cases hs
    cases ht <;> exact h.of_eq rfl rfl rfl hb
  | pause hr => exact h.of_eq rfl rfl rfl fun hb => by cases hr.symm.trans hb.status
  | resume ho hr => exact h.of_eq rfl rfl rfl fun hb => by cases hr.symm.trans hb.status
  | stop => exact h.of_eq rfl rfl rfl fun _ => resting_rested p
  | close ho =>
    have hnone : p.keeps held .close = none := if_neg (by simp [ho])
    rw [hnone]
    exact ⟨(resting_rested p).release, rfl, rfl, rfl⟩
  | _ => exact h.of_eq rfl rfl rfl fun hb => ⟨hb.index, hb.along, hb.status, hb.marker⟩

/-! ## What is completed -/

theorem Summed.supplied (h : p.Summed) : p.supplied.Summed := by
  rcases p.supplied_eq with hp | ⟨loader, operations, hp⟩
  · rwa [hp]
  · rw [hp]
    rfl

variable [Remover σ α]

/-- No call lets the completed length fall behind or run ahead. -/
theorem Summed.perform (h : p.Summed) (call : Call α σ) : (p.perform call).player.Summed := by
  obtain ⟨t, result, ht, hp⟩ := takes_perform p call
  rw [hp]
  cases ht with
  | timer | step => exact (Turn.advances_tick { player := p }).summed h
  | load =>
    rw [Turn.player_load]
    rfl
  | start ho hv =>
    cases hs : p.supplied.segments[0]? with
    | none =>
      rw [(Turn.begin_of_none (t := { player := p }) hs).1]
      exact h.supplied
    | some first =>
      obtain ⟨remover, hbegin, -⟩ := Turn.begin_of_some (t := { player := p }) _ hs
      rw [hbegin]
      rfl
  | stop =>
    rw [Turn.player_stop]
    rfl
  | close =>
    rw [Turn.player_stop]
    rfl
  | pause | resume =>
    rw [Turn.player_setStatus]
    exact h
  | _ => exact h

/-! ## A run -/

/-- The calls say what is loaded, and the completed length is kept up with the cursor. -/
theorem Carries.after (h : p.Carries held) (hsum : p.Summed) (calls : List (Call α σ)) :
    (p.after calls).Carries (p.loadedBy held calls) ∧ (p.after calls).Summed := by
  induction calls generalizing p held with
  | nil => exact ⟨h, hsum⟩
  | cons call calls ih => exact ih (h.change (changes_perform p call)) (hsum.perform call)

/-- Whatever a player was called for, its completed length is the sum, from the left, of the lengths of
the segments before the cursor that take time. Its segments are the moves of the operations that the
calls have left in it, each with the place of its operation, and their length is the sum of theirs. If
the calls have left none in it, because there never were any or because it was closed and nothing was
loaded since, then there are no segments, the cursor is where it was at first, and there is no length. -/
theorem completed_after (config : Config α) (calls : List (Call α σ)) :
    let p : Player α σ := (new config).after calls
    p.completed = lastingLength p.passed ∧
    match (new config : Player α σ).loadedBy none calls with
    | some operations =>
      p.operations = operations ∧ p.segments.toList = numbered operations ∧
        p.total = Log.sum (p.segments.toList.map Segment.length)
    | none =>
      p.operations = [] ∧ p.segments = #[] ∧ p.index = 0 ∧ p.along = 0 ∧ p.total = 0 ∧
        p.completed = 0 := by
  intro p
  obtain ⟨hcarries, hsum⟩ : p.Carries ((new config).loadedBy none calls) ∧ p.Summed :=
    (carries_new config).after rfl calls
  refine ⟨hsum, ?_⟩
  cases hheld : (new config : Player α σ).loadedBy none calls with
  | some operations =>
    rw [hheld] at hcarries
    refine ⟨hcarries.operations, hcarries.segments, ?_⟩
    rw [hcarries.segments]
    exact hcarries.total
  | none =>
    rw [hheld] at hcarries
    refine ⟨hcarries.operations, hcarries.segments, hcarries.index, hcarries.along, hcarries.total, ?_⟩
    have hnil : p.passed = [] := by
      rw [passed, hcarries.segments]
      exact List.take_nil
    rw [hsum, hnil]
    rfl

/-- Without operations the length is that of no segments, but for the sign of zero. -/
example : ((0 : Float) == Log.sum []) = true := by decide +kernel

/-- A player that is closed a second time keeps what it has taken in since. -/
theorem segments_ne_empty_closedTwice :
    let p := (new ⟨1000000000, 2, 0⟩ : Player Float (List (Point Float))).after
      [.close, .load stretches, .close]
    p.closed = true ∧ p.segments.size = 2 ∧ (p.total == 0) = false := by
  decide +kernel

end Player

end Toolpath.Playback
