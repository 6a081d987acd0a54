import Toolpath.Playback.Player

/-!
# What one call does to a player

Every part of a call has an equation for the player it leaves, whatever it sends out. A tick is a
walk of the cursor (`Turn.Advances`): over segments that are negligible, over segments that are
passed, to a stop within one or off the end. `Player.Ticked` lists where that leaves a player.
`Player.Takes` has the turn that each call takes, and `takes_perform` says that there are no others;
`Player.Changes` lists all that a call can make of a player, whatever it sends out.
-/

namespace Toolpath.Playback

/-! ## Parts of a call -/

namespace Turn

variable {α σ : Type}

@[simp] theorem player_setStatus (t : Turn α σ) (status : Status) :
    (t.setStatus status).player = { t.player with status } := by
  rw [setStatus]
  split
  case isTrue h => rw [← h]
  case isFalse => rfl

@[simp] theorem player_hide (t : Turn α σ) :
    t.hide.player = { t.player with marker := none } := by
  rw [hide]
  split
  case h_1 h => rw [← h]
  case h_2 => rfl

@[simp] theorem player_enter (t : Turn α σ) (operation : Nat) :
    (t.enter operation).player = { t.player with operation } := by
  rw [enter]
  split
  case isTrue h => rw [← h]
  case isFalse => rfl

theorem along_enter (t : Turn α σ) (operation : Nat) :
    (t.enter operation).player.along = t.player.along := by
  rw [player_enter]

theorem player_remove [Remover σ α] (t : Turn α σ) (position : Point α) :
    ∃ remover, (t.remove position).player = { t.player with remover } := by
  rw [remove]
  split
  case h_1 => exact ⟨t.player.remover, rfl⟩
  case h_2 remover h =>
    refine ⟨some (Remover.removeAt remover position).1, ?_⟩
    -- Whether the remover fails or not, its answer goes to the operator alone.
    dsimp only
    split
    · rfl
    · rfl

theorem player_place [Remover σ α] (t : Turn α σ) (position : Point α) :
    ∃ remover, (t.place position).player =
      { t.player with marker := some position, updates := t.player.updates + 1, remover } := by
  rw [place]
  dsimp only
  split
  · exact ⟨t.player.remover, rfl⟩
  · exact player_remove _ _

end Turn

namespace Player

variable {α σ : Type} [Scalar α]

/-- The player at rest before its first segment. -/
def rested (p : Player α σ) : Player α σ :=
  { p with
    index := 0, along := 0, completed := 0, updates := 0, marker := none, status := .stopped }

/-- The player at the start of its first segment. -/
def started (p : Player α σ) (speed : α) (first : Segment α) (remover : Option σ) : Player α σ :=
  { p with
    speed, index := 0, along := 0, completed := 0, updates := 1, status := .running
    operation := first.tag.operation, marker := some first.start, remover }

end Player

namespace Player

variable {α σ : Type} [Analytic α]

/-- The player at rest over other operations. -/
def loaded (p : Player α σ) (operations : List (Operation α)) : Player α σ :=
  { p.rested with
    operations
    segments := (stamped 0 operations).toArray
    total := Log.sum ((stamped 0 operations).map Segment.length)
    operation := 0 }

/-- The player with what its loader supplies if nothing is loaded. -/
def supplied (p : Player α σ) : Player α σ :=
  if p.segments.isEmpty then
    match p.loader with
    | some l =>
      { p with loader := some { l with calls := l.calls + 1 } }.loaded (l.supply l.calls)
    | none => p
  else p

theorem supplied_eq (p : Player α σ) :
    p.supplied = p ∨
      ∃ loader operations, p.supplied = { p with loader }.loaded operations := by
  rw [supplied]
  split
  · split
    · exact .inr ⟨_, _, rfl⟩
    · exact .inl rfl
  · exact .inl rfl

@[simp] theorem closed_supplied (p : Player α σ) : p.supplied.closed = p.closed := by
  rcases p.supplied_eq with h | ⟨loader, operations, h⟩
  · rw [h]
  · rw [h]
    rfl

end Player

namespace Turn

variable {α σ : Type}

@[simp] theorem player_stop [Scalar α] (t : Turn α σ) : t.stop.player = t.player.rested := by
  rw [stop, player_setStatus, player_hide]
  rfl

@[simp] theorem player_finish [Scalar α] (t : Turn α σ) :
    t.finish.player =
      { t.player with index := t.player.segments.size, along := 0, status := .stopped } := by
  rw [finish, player_setStatus]
  dsimp only
  split
  · rfl
  · rfl

/-! ## A tick -/

section Tick

variable [Analytic α] {t t' : Turn α σ} {s : Segment α} {distance : α} {snapped : Option (Point α)}

/-- The cursor behind a segment that is passed over. -/
def skip (t : Turn α σ) (s : Segment α) : Turn α σ :=
  let t := t.enter s.tag.operation
  { t with player := { t.player with index := t.player.index + 1, along := 0 } }

/-- The cursor behind a segment that is gone along to its end. -/
def pass (t : Turn α σ) (s : Segment α) : Turn α σ :=
  let t := t.enter s.tag.operation
  { t with
    player :=
      { t.player with
        index := t.player.index + 1, along := 0, completed := t.player.completed + s.length } }

@[simp] theorem player_skip (t : Turn α σ) (s : Segment α) :
    (t.skip s).player =
      { t.player with
        operation := s.tag.operation, index := t.player.index + 1, along := 0 } := by
  rw [skip, player_enter]

@[simp] theorem player_pass (t : Turn α σ) (s : Segment α) :
    (t.pass s).player =
      { t.player with
        operation := s.tag.operation, index := t.player.index + 1, along := 0
        completed := t.player.completed + s.length } := by
  rw [pass, player_enter]

variable [Remover σ α]

/-- The cursor further along its segment, and the marker there. -/
def proceed (t : Turn α σ) (s : Segment α) (distance : α) : Turn α σ :=
  let t := t.enter s.tag.operation
  let along := t.player.along + distance
  place { t with player := { t.player with along } } (s.pointAt along)

/-- Playback at its end, with the marker at the end of the last segment passed in the tick. -/
def runOut (t : Turn α σ) : (snapped : Option (Point α)) → Turn α σ
  | some position => (t.place position).finish
  | none => t.finish

/-- The cursor goes on by a distance. -/
inductive Advances :
    Turn α σ → (distance : α) → (snapped : Option (Point α)) → Turn α σ → Prop where
  | skips {t t' : Turn α σ} {s : Segment α} {distance : α} {snapped : Option (Point α)}
      (hs : t.player.segments[t.player.index]? = some s)
      (hn : s.isNegligible = true) (h : Advances (t.skip s) distance snapped t') :
      Advances t distance snapped t'
  | passes {t t' : Turn α σ} {s : Segment α} {distance : α} {snapped : Option (Point α)}
      (hs : t.player.segments[t.player.index]? = some s)
      (hn : s.isNegligible = false) (hd : ¬ distance < s.length - t.player.along)
      (h : Advances (t.pass s) (distance - (s.length - t.player.along)) (some s.stop) t') :
      Advances t distance snapped t'
  | proceeds {t : Turn α σ} {s : Segment α} {distance : α} {snapped : Option (Point α)}
      (hs : t.player.segments[t.player.index]? = some s)
      (hn : s.isNegligible = false) (hd : distance < s.length - t.player.along) :
      Advances t distance snapped (t.proceed s distance)
  | runsOut {t : Turn α σ} {distance : α} {snapped : Option (Point α)}
      (hs : t.player.segments[t.player.index]? = none) :
      Advances t distance snapped (t.runOut snapped)

theorem advance_runOut {left : Nat} (hs : t.player.segments[t.player.index]? = none) :
    t.advance left distance snapped = t.runOut snapped := by
  rw [advance.eq_def, hs]
  cases left with
  | zero => cases snapped <;> rfl
  | succ left => cases snapped <;> rfl

theorem advance_skip {left : Nat} (hs : t.player.segments[t.player.index]? = some s)
    (hn : s.isNegligible = true) :
    t.advance (left + 1) distance snapped = (t.skip s).advance left distance snapped := by
  rw [advance.eq_def, hs]
  dsimp only
  rw [if_pos hn]
  rfl

theorem advance_proceed {left : Nat} (hs : t.player.segments[t.player.index]? = some s)
    (hn : s.isNegligible = false) (hd : distance < s.length - t.player.along) :
    t.advance (left + 1) distance snapped = t.proceed s distance := by
  rw [advance.eq_def, hs]
  dsimp only
  rw [if_neg (by simp [hn]), if_pos (by rw [along_enter]; exact hd)]
  rfl

theorem advance_pass {left : Nat} (hs : t.player.segments[t.player.index]? = some s)
    (hn : s.isNegligible = false) (hd : ¬ distance < s.length - t.player.along) :
    t.advance (left + 1) distance snapped =
      (t.pass s).advance left (distance - (s.length - t.player.along)) (some s.stop) := by
  rw [advance.eq_def, hs]
  dsimp only
  rw [if_neg (by simp [hn]), if_neg (by rw [along_enter]; exact hd), along_enter]
  rfl

/-- With as many steps as there are segments from the cursor on it goes all the way. -/
theorem advances_advance {left : Nat} (hl : t.player.segments.size - t.player.index = left) :
    Advances t distance snapped (t.advance left distance snapped) := by
  induction left generalizing t distance snapped with
  | zero =>
    have hs := Array.getElem?_eq_none (show t.player.segments.size ≤ t.player.index by omega)
    rw [advance_runOut hs]
    exact .runsOut hs
  | succ left ih =>
    have hi : t.player.index < t.player.segments.size := by omega
    obtain ⟨s, hs⟩ : ∃ s, t.player.segments[t.player.index]? = some s :=
      ⟨_, Array.getElem?_eq_getElem hi⟩
    cases hn : s.isNegligible with
    | true =>
      rw [advance_skip hs hn]
      refine .skips hs hn (ih ?_)
      rw [player_skip]
      dsimp only
      omega
    | false =>
      by_cases hd : distance < s.length - t.player.along
      · rw [advance_proceed hs hn hd]
        exact .proceeds hs hn hd
      · rw [advance_pass hs hn hd]
        refine .passes hs hn hd (ih ?_)
        rw [player_pass]
        dsimp only
        omega

theorem advances_tick (t : Turn α σ) :
    Advances t (t.player.speed * t.player.config.seconds) none t.tick :=
  advances_advance rfl

theorem player_proceed (t : Turn α σ) (s : Segment α) (distance : α) :
    ∃ updates remover, (t.proceed s distance).player =
      { t.player with
        operation := s.tag.operation, along := t.player.along + distance
        marker := some (s.pointAt (t.player.along + distance)), updates, remover } := by
  rw [proceed, player_enter]
  obtain ⟨remover, h⟩ := player_place (α := α) (σ := σ)
    { t.enter s.tag.operation with
      player :=
        { t.player with operation := s.tag.operation, along := t.player.along + distance } }
    (s.pointAt (t.player.along + distance))
  exact ⟨_, remover, h⟩

theorem player_runOut (t : Turn α σ) (snapped : Option (Point α)) :
    ∃ marker updates remover, (t.runOut snapped).player =
      { t.player with
        index := t.player.segments.size, along := 0, status := .stopped
        marker, updates, remover } := by
  cases snapped with
  | none => exact ⟨t.player.marker, t.player.updates, t.player.remover, player_finish t⟩
  | some position =>
    obtain ⟨remover, h⟩ := player_place t position
    rw [runOut, player_finish, h]
    exact ⟨_, _, remover, rfl⟩

end Tick

end Turn

/-- All that a tick can make of a player. -/
inductive Player.Ticked {α σ : Type} [Analytic α] (p : Player α σ) : Player α σ → Prop where
  /-- The cursor stops within a segment, and the marker is there. -/
  | within {i : Nat} {s : Segment α} (hs : p.segments[i]? = some s) (along completed : α)
      (updates : Nat) (remover : Option σ) :
      Ticked p
        { p with
          index := i, along, completed, operation := s.tag.operation
          marker := some (s.pointAt along), updates, remover }
  /-- The cursor runs off the end. -/
  | ended (completed : α) (operation : Nat) (marker : Option (Point α)) (updates : Nat)
      (remover : Option σ) :
      Ticked p
        { p with
          index := p.segments.size, along := 0, completed, operation, marker, updates, remover
          status := .stopped }

/-- A cursor that is moved first ends no differently. -/
theorem Player.Ticked.of_moved {α σ : Type} [Analytic α] {p p' : Player α σ} {index : Nat}
    {along completed : α} {operation : Nat}
    (h : Ticked { p with index, along, completed, operation } p') : p.Ticked p' := by
  cases h with
  | within hs => exact within (p := p) hs _ _ _ _
  | ended => exact ended (p := p) _ _ _ _ _

theorem Turn.Advances.ticked {α σ : Type} [Analytic α] [Remover σ α] {t t' : Turn α σ}
    {distance : α} {snapped : Option (Point α)} (h : Advances t distance snapped t') :
    t.player.Ticked t'.player := by
  induction h with
  | skips hs hn h ih =>
    rw [player_skip] at ih
    exact ih.of_moved
  | passes hs hn hd h ih =>
    rw [player_pass] at ih
    exact ih.of_moved
  | @proceeds t s distance snapped hs hn hd =>
    obtain ⟨updates, remover, hp⟩ := player_proceed t s distance
    rw [hp]
    exact .within hs _ _ _ _
  | @runsOut t distance snapped hs =>
    obtain ⟨marker, updates, remover, hp⟩ := player_runOut t snapped
    rw [hp]
    exact .ended _ _ _ _ _

/-! ## A call -/

namespace Turn

variable {α σ : Type} [Analytic α] {t : Turn α σ} {speed : α} {first : Segment α}

@[simp] theorem player_load (t : Turn α σ) (operations : List (Operation α)) :
    (t.load operations).player = t.player.loaded operations := by
  rw [load, player_stop]
  rfl

@[simp] theorem player_loadIfEmpty (t : Turn α σ) : t.loadIfEmpty.player = t.player.supplied := by
  rw [loadIfEmpty, Player.supplied]
  split
  · cases t.player.loader with
    | none => rfl
    | some l => exact player_load ..
  · rfl

variable [Remover σ α]

theorem begin_of_none (h : t.player.supplied.segments[0]? = none) :
    (t.begin speed).1.player = t.player.supplied ∧ (t.begin speed).2 = .error .notLoaded := by
  rw [← player_loadIfEmpty] at h
  rw [begin, h]
  exact ⟨player_loadIfEmpty t, rfl⟩

theorem begin_of_some (speed : α) (h : t.player.supplied.segments[0]? = some first) :
    ∃ remover, (t.begin speed).1.player = t.player.supplied.started speed first remover ∧
      (t.begin speed).2 = .ok () := by
  rw [← player_loadIfEmpty] at h
  rw [begin, h]
  obtain ⟨remover, hp⟩ := player_place
    ((rewind { t.loadIfEmpty with player := { t.loadIfEmpty.player with speed } }).enter
      first.tag.operation) first.start
  refine ⟨remover, ?_, rfl⟩
  rw [player_enter] at hp
  dsimp only [send]
  rw [player_setStatus, hp, player_loadIfEmpty]
  rfl

end Turn

namespace Player

variable {α σ : Type} [Analytic α] {p : Player α σ} {call : Call α σ} {speed : α}

/-- The call asks for nothing, or it is refused. -/
def Ignores (p : Player α σ) : Call α σ → Prop
  | .start speed => p.closed = true ∨ Scalar.isPositive speed = false
  | .timer => p.status ≠ .running ∨ p.closed = true
  | .step => p.closed = true ∨ p.segments.isEmpty = true
  | .pause => p.status ≠ .running
  | .resume => p.closed = true ∨ p.status ≠ .paused
  | .setSpeed speed => Scalar.isPositive speed = false
  | .close => p.closed = true
  | _ => False

/-- The turn that a call takes. -/
inductive Takes [Remover σ α] (p : Player α σ) : Call α σ → Turn α σ → Prop where
  | ignored {call : Call α σ} (h : p.Ignores call) : Takes p call { player := p }
  | load (operations : List (Operation α)) :
      Takes p (.load operations) (Turn.load { player := p } operations)
  | setLoader (loader : Loader α) :
      Takes p (.setLoader loader) { player := { p with loader := some loader } }
  | addObserver (name : Nat) :
      Takes p (.addObserver name) { player := { p with observers := p.observers ++ [name] } }
  | setRemover (remover : σ) (interval : Nat) :
      Takes p (.setRemover remover interval)
        { player :=
            { p with
              remover := some remover, config := { p.config with removalInterval := interval } } }
  | clearRemover : Takes p .clearRemover { player := { p with remover := none } }
  | start {speed : α} (ho : p.closed = false) (hv : Scalar.isPositive speed = true) :
      Takes p (.start speed) (Turn.begin { player := p } speed).1
  | timer (hr : p.status = .running) (ho : p.closed = false) :
      Takes p .timer (Turn.tick { player := p })
  | step (ho : p.closed = false) (hs : p.segments.isEmpty = false) :
      Takes p .step (Turn.tick { player := p })
  | pause (hr : p.status = .running) : Takes p .pause (Turn.setStatus { player := p } .paused)
  | resume (ho : p.closed = false) (hp : p.status = .paused) :
      Takes p .resume (Turn.setStatus { player := p } .running)
  | stop : Takes p .stop (Turn.stop { player := p })
  | setSpeed {speed : α} (hv : Scalar.isPositive speed = true) :
      Takes p (.setSpeed speed) { player := { p with speed } }
  | close (ho : p.closed = false) :
      Takes p .close
        { Turn.stop { player := p } with player := (Turn.stop { player := p }).player.release }

/-- All that a call can make of a player. -/
inductive Changes (p : Player α σ) : Call α σ → Player α σ → Prop where
  | ignored {call : Call α σ} (h : p.Ignores call) : Changes p call p
  | load (operations : List (Operation α)) : Changes p (.load operations) (p.loaded operations)
  | setLoader (loader : Loader α) :
      Changes p (.setLoader loader) { p with loader := some loader }
  | addObserver (name : Nat) :
      Changes p (.addObserver name) { p with observers := p.observers ++ [name] }
  | setRemover (remover : σ) (interval : Nat) :
      Changes p (.setRemover remover interval)
        { p with remover := some remover, config := { p.config with removalInterval := interval } }
  | clearRemover : Changes p .clearRemover { p with remover := none }
  /-- The loader supplies nothing either. -/
  | unloaded {speed : α} (ho : p.closed = false) (hv : Scalar.isPositive speed = true)
      (hs : p.supplied.segments[0]? = none) : Changes p (.start speed) p.supplied
  | start {speed : α} {first : Segment α} (ho : p.closed = false)
      (hv : Scalar.isPositive speed = true) (hs : p.supplied.segments[0]? = some first)
      (remover : Option σ) : Changes p (.start speed) (p.supplied.started speed first remover)
  | timer {p' : Player α σ} (hr : p.status = .running) (ho : p.closed = false)
      (ht : p.Ticked p') : Changes p .timer p'
  | step {p' : Player α σ} (ho : p.closed = false) (hs : p.segments.isEmpty = false)
      (ht : p.Ticked p') : Changes p .step p'
  | pause (hr : p.status = .running) : Changes p .pause { p with status := .paused }
  | resume (ho : p.closed = false) (hp : p.status = .paused) :
      Changes p .resume { p with status := .running }
  | stop : Changes p .stop p.rested
  | setSpeed {speed : α} (hv : Scalar.isPositive speed = true) :
      Changes p (.setSpeed speed) { p with speed }
  | close (ho : p.closed = false) : Changes p .close p.rested.release

variable [Remover σ α]

theorem perform_start (ho : p.closed = false) (hv : Scalar.isPositive speed = true) :
    p.perform (.start speed) =
      ⟨(Turn.begin { player := p } speed).1.player, (Turn.begin { player := p } speed).1.signals,
        (Turn.begin { player := p } speed).2⟩ := by
  rw [perform, if_neg (by simp [ho]), if_neg (by simp [hv])]

/-- A start that is accepted puts an open player at its first segment. -/
theorem start_ok (h : (p.perform (.start speed)).result = .ok ()) :
    p.closed = false ∧ Scalar.isPositive speed = true ∧
      ∃ first remover, p.supplied.segments[0]? = some first ∧
        (p.perform (.start speed)).player = p.supplied.started speed first remover := by
  cases ho : p.closed with
  | true =>
    rw [perform, if_pos ho] at h
    cases h
  | false =>
    cases hv : Scalar.isPositive speed with
    | false =>
      rw [perform, if_neg (by simp [ho]), if_pos (by simp [hv])] at h
      cases h
    | true =>
      rw [perform_start ho hv] at h ⊢
      cases hs : p.supplied.segments[0]? with
      | none =>
        rw [(Turn.begin_of_none (t := { player := p }) hs).2] at h
        cases h
      | some first =>
        obtain ⟨remover, hp, -⟩ := Turn.begin_of_some (t := { player := p }) speed hs
        exact ⟨rfl, rfl, first, remover, rfl, hp⟩

/-- Every call takes one of these turns, and its reply is what the turn leaves. -/
theorem takes_perform (p : Player α σ) (call : Call α σ) :
    ∃ t result, p.Takes call t ∧ p.perform call = ⟨t.player, t.signals, result⟩ := by
  cases call with
  | load operations => exact ⟨_, _, .load operations, rfl⟩
  | setLoader loader => exact ⟨_, _, .setLoader loader, rfl⟩
  | addObserver name => exact ⟨_, _, .addObserver name, rfl⟩
  | setRemover remover interval => exact ⟨_, _, .setRemover remover interval, rfl⟩
  | clearRemover => exact ⟨_, _, .clearRemover, rfl⟩
  | start speed =>
    rw [perform]
    split
    case isTrue ho => exact ⟨_, _, .ignored (.inl ho), rfl⟩
    case isFalse ho =>
      split
      case isTrue hv => exact ⟨_, _, .ignored (.inr (by simpa using hv)), rfl⟩
      case isFalse hv => exact ⟨_, _, .start (by simpa using ho) (by simpa using hv), rfl⟩
  | timer =>
    rw [perform]
    split
    case isTrue h => exact ⟨_, _, .timer h.1 (by simpa using h.2), rfl⟩
    case isFalse h => exact ⟨_, _, .ignored (by rw [Ignores]; grind), rfl⟩
  | step =>
    rw [perform]
    split
    case isTrue ho => exact ⟨_, _, .ignored (.inl ho), rfl⟩
    case isFalse ho =>
      split
      case isTrue hs => exact ⟨_, _, .ignored (.inr hs), rfl⟩
      case isFalse hs => exact ⟨_, _, .step (by simpa using ho) (by simpa using hs), rfl⟩
  | pause =>
    rw [perform]
    split
    case isTrue hr => exact ⟨_, _, .pause hr, rfl⟩
    case isFalse hr => exact ⟨_, _, .ignored hr, rfl⟩
  | resume =>
    rw [perform]
    split
    case isTrue ho => exact ⟨_, _, .ignored (.inl ho), rfl⟩
    case isFalse ho =>
      split
      case isTrue hp => exact ⟨_, _, .resume (by simpa using ho) hp, rfl⟩
      case isFalse hp => exact ⟨_, _, .ignored (.inr hp), rfl⟩
  | stop => exact ⟨_, _, .stop, rfl⟩
  | setSpeed speed =>
    rw [perform]
    split
    case isTrue hv => exact ⟨_, _, .setSpeed hv, rfl⟩
    case isFalse hv => exact ⟨_, _, .ignored (by simpa [Ignores] using hv), rfl⟩
  | close =>
    rw [perform]
    split
    case isTrue ho => exact ⟨_, _, .ignored ho, rfl⟩
    case isFalse ho => exact ⟨_, _, .close (by simpa using ho), rfl⟩

theorem changes_begin (ho : p.closed = false) (hv : Scalar.isPositive speed = true) :
    p.Changes (.start speed) (Turn.begin { player := p } speed).1.player := by
  cases hs : p.supplied.segments[0]? with
  | none =>
    rw [(Turn.begin_of_none (t := { player := p }) hs).1]
    exact .unloaded ho hv hs
  | some first =>
    obtain ⟨remover, hp, -⟩ := Turn.begin_of_some (t := { player := p }) speed hs
    rw [hp]
    exact .start ho hv hs remover

theorem Takes.changes {t : Turn α σ} (h : p.Takes call t) : p.Changes call t.player := by
  cases h with
  | ignored h => exact .ignored h
  | load operations =>
    rw [Turn.player_load]
    exact .load operations
  | setLoader loader => exact .setLoader loader
  | addObserver name => exact .addObserver name
  | setRemover remover interval => exact .setRemover remover interval
  | clearRemover => exact .clearRemover
  | start ho hv => exact changes_begin ho hv
  | timer hr ho => exact .timer hr ho (Turn.advances_tick { player := p }).ticked
  | step ho hs => exact .step ho hs (Turn.advances_tick { player := p }).ticked
  | pause hr =>
    rw [Turn.player_setStatus]
    exact .pause hr
  | resume ho hp =>
    rw [Turn.player_setStatus]
    exact .resume ho hp
  | stop =>
    rw [Turn.player_stop]
    exact .stop
  | setSpeed hv => exact .setSpeed hv
  | close ho =>
    rw [Turn.player_stop]
    exact .close ho

theorem changes_perform (p : Player α σ) (call : Call α σ) :
    p.Changes call (p.perform call).player := by
  obtain ⟨t, result, ht, hp⟩ := takes_perform p call
  rw [hp]
  exact ht.changes

/-- The player after some calls, whatever becomes of each. -/
def after (p : Player α σ) (calls : List (Call α σ)) : Player α σ :=
  calls.foldl (fun p call => (p.perform call).player) p

@[simp] theorem after_nil (p : Player α σ) : p.after [] = p := rfl

theorem after_append (p : Player α σ) (calls more : List (Call α σ)) :
    p.after (calls ++ more) = (p.after calls).after more := List.foldl_append

@[simp] theorem after_cons (p : Player α σ) (call : Call α σ) (calls : List (Call α σ)) :
    p.after (call :: calls) = (p.perform call).player.after calls := rfl

/-- What a new player has and every change keeps, every player has. -/
theorem after_induct {P : Player α σ → Prop} (keep : ∀ p call p', P p → p.Changes call p' → P p')
    (hp : P p) (calls : List (Call α σ)) : P (p.after calls) := by
  induction calls generalizing p with
  | nil => exact hp
  | cons call calls ih => exact ih (keep p call _ hp (changes_perform p call))

end Player

end Toolpath.Playback
