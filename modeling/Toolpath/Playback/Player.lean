import Toolpath.Motion.Segment
import Toolpath.Playback.Failure

/-!
# The player

A player moves a marker along the segments of its operations, one tick at a time. It tells its
observers what changes, and at every so many places of the marker it lets a remover take material
away. `Player.perform` is the whole interface: one call, its result, and what it sent out in order.
-/

namespace Toolpath.Playback

inductive Status where
  | stopped
  | running
  | paused
deriving DecidableEq

namespace Status

def name : Status → String
  | stopped => "Stopped"
  | running => "Running"
  | paused => "Paused"

end Status

/-- Takes material away at a point, or says why it cannot. -/
class Remover (σ : Type) (α : outParam Type) where
  removeAt : σ → Point α → σ × Except (Failure α) Unit

/-- A labelled list of moves. -/
structure Operation (α : Type) where
  label : String
  log : Log α

/-- Supplies operations when a player has none; what it supplies may change from call to call. -/
structure Loader (α : Type) where
  supply : Nat → List (Operation α)
  /-- How often it has been called. -/
  calls : Nat := 0

structure Config (α : Type) where
  /-- The time between ticks, in nanoseconds. -/
  tick : Nat
  /-- In millimetres a second, until a call changes it. -/
  speed : α
  /-- Material is taken away at every such update of the marker; never if it is zero. -/
  removalInterval : Nat := 0

namespace Config

/-- The time between ticks in seconds: whole seconds, and the rest by one division. -/
def seconds {α : Type} [Scalar α] (c : Config α) : α :=
  ((c.tick / 10 ^ 9 : Nat) : α) + ((c.tick % 10 ^ 9 : Nat) : α) / ((10 ^ 9 : Nat) : α)

end Config

/-- What observers are told. -/
inductive Event (α : Type) where
  | moved (position : Point α) (operation : Nat)
  | hidden
  | status (status : Status)
  | operation (index : Nat) (label : String)

/-- An event and the observers that are told of it. -/
structure Message (α : Type) where
  receivers : List Nat
  event : Event α

/-- What a player sends out. -/
inductive Signal (α : Type) where
  /-- To the observers that are attached. -/
  | event (message : Message α)
  /-- A call of the remover. -/
  | cut (position : Point α)
  /-- To the operator. -/
  | notice (notice : Notice α)

/-- What a renderer sees of a player. -/
structure Snapshot (α : Type) where
  status : Status
  segment : Nat
  along : α
  count : Nat
  speed : α
  marker : Option (Point α)
  operation : Nat
  label : Option String
  progress : α

instance {α : Type} [Scalar α] : BEq (Snapshot α) where
  beq s t :=
    s.status == t.status && s.segment == t.segment && s.along == t.along && s.count == t.count
      && s.speed == t.speed && s.marker == t.marker && s.operation == t.operation
      && s.label == t.label && s.progress == t.progress

structure Player (α σ : Type) where
  config : Config α
  speed : α
  operations : List (Operation α) := []
  /-- The segments of all operations, stamped with the place of their operation. -/
  segments : Array (Segment α) := #[]
  total : α
  /-- The segment under the cursor; past the last when playback has run off the end. -/
  index : Nat := 0
  /-- How far the cursor is along its segment. -/
  along : α
  /-- The length of the segments before the cursor. -/
  completed : α
  status : Status := .stopped
  operation : Nat := 0
  marker : Option (Point α) := none
  /-- How often the marker was placed since the cursor was last reset. -/
  updates : Nat := 0
  loader : Option (Loader α) := none
  remover : Option σ := none
  observers : List Nat := []
  closed : Bool := false

/-- A player and what it has sent out so far. -/
structure Turn (α σ : Type) where
  player : Player α σ
  signals : Array (Signal α) := #[]

namespace Turn

variable {α σ : Type}

def send (t : Turn α σ) (signal : Signal α) : Turn α σ := { t with signals := t.signals.push signal }

/-- Tells the observers that are attached. -/
def tell (t : Turn α σ) (event : Event α) : Turn α σ :=
  t.send (.event ⟨t.player.observers, event⟩)

/-- Sets the status and tells of a change. -/
def setStatus (t : Turn α σ) (status : Status) : Turn α σ :=
  if t.player.status = status then t
  else tell { t with player := { t.player with status } } (.status status)

/-- Takes the marker away and tells so if it was visible. -/
def hide (t : Turn α σ) : Turn α σ :=
  match t.player.marker with
  | none => t
  | some _ => tell { t with player := { t.player with marker := none } } .hidden

/-- Makes an operation the current one and tells of a change. -/
def enter (t : Turn α σ) (operation : Nat) : Turn α σ :=
  if t.player.operation = operation then t
  else
    let label := (t.player.operations[operation]?.map Operation.label).getD ""
    tell { t with player := { t.player with operation } } (.operation operation label)

/-- Lets the remover work at a point. -/
def remove [Remover σ α] (t : Turn α σ) (position : Point α) : Turn α σ :=
  match t.player.remover with
  | none => t
  | some remover =>
    let (remover, result) := Remover.removeAt remover position
    let t := send { t with player := { t.player with remover := some remover } } (.cut position)
    match result with
    | .ok _ => t
    | .error failure => t.send (.notice (.removalFailed position failure))

/-- Places the marker, and lets the remover work if its turn has come. -/
def place [Remover σ α] (t : Turn α σ) (position : Point α) : Turn α σ :=
  let updates := t.player.updates + 1
  let t := tell { t with player := { t.player with marker := some position, updates } }
    (.moved position t.player.operation)
  let interval := t.player.config.removalInterval
  if interval = 0 ∨ updates % interval ≠ 0 then t else t.remove position

variable [Scalar α]

/-- Puts the cursor before the first segment. -/
def rewind (t : Turn α σ) : Turn α σ :=
  { t with player := { t.player with index := 0, along := 0, completed := 0, updates := 0 } }

def stop (t : Turn α σ) : Turn α σ := t.rewind.hide.setStatus .stopped

/-- The end of the last segment is behind the cursor. -/
def finish (t : Turn α σ) : Turn α σ :=
  let t := { t with player := { t.player with index := t.player.segments.size, along := 0 } }
  let t := if t.player.status = .stopped then t else t.send (.notice .finished)
  t.setStatus .stopped

end Turn

/-- Moves stamped with the place of their operation, from place `n` on. -/
def stamped {α : Type} : (n : Nat) → List (Operation α) → List (Segment α)
  | _, [] => []
  | n, o :: rest =>
    (o.log.toList.map fun s => { s with tag := { s.tag with operation := n } })
      ++ stamped (n + 1) rest

namespace Turn

variable {α σ : Type} [Analytic α]

/-- Stops and takes new operations in. -/
def load (t : Turn α σ) (operations : List (Operation α)) : Turn α σ :=
  let segments := stamped 0 operations
  let t := t.stop
  { t with
    player :=
      { t.player with
        operations
        segments := segments.toArray
        total := Log.sum (segments.map Segment.length)
        operation := 0 } }

/-- Moves the cursor over at most `left` segments and `distance` more millimetres. The marker goes
to `snapped`, the end of the last segment that was passed, if the segments run out. -/
def advance [Remover σ α] (t : Turn α σ) : (left : Nat) → (distance : α) →
    (snapped : Option (Point α)) → Turn α σ
  | left, distance, snapped =>
    match left, t.player.segments[t.player.index]? with
    | left + 1, some segment =>
      let t := t.enter segment.tag.operation
      let p := t.player
      if segment.isNegligible then
        advance { t with player := { p with index := p.index + 1, along := 0 } } left distance snapped
      else
        let length := segment.length
        let remaining := length - p.along
        if distance < remaining then
          let along := p.along + distance
          place { t with player := { p with along } } (segment.pointAt along)
        else
          advance
            { t with
              player :=
                { p with index := p.index + 1, along := 0, completed := p.completed + length } }
            left (distance - remaining) (some segment.stop)
    | _, _ =>
      match snapped with
      | some position => (t.place position).finish
      | none => t.finish

/-- One tick, in any status. -/
def tick [Remover σ α] (t : Turn α σ) : Turn α σ :=
  let p := t.player
  t.advance (p.segments.size - p.index) (p.speed * p.config.seconds) none

/-- Operations from the loader, if none are loaded. -/
def loadIfEmpty (t : Turn α σ) : Turn α σ :=
  if t.player.segments.isEmpty then
    match t.player.loader with
    | some l =>
      load { t with player := { t.player with loader := some { l with calls := l.calls + 1 } } }
        (l.supply l.calls)
    | none => t
  else t

/-- Playback from the first segment on. -/
def begin [Remover σ α] (t : Turn α σ) (speed : α) : Turn α σ × Except (Failure α) Unit :=
  let t := t.loadIfEmpty
  match t.player.segments[0]? with
  | none => (t.send (.notice .nothingToPlay), .error .notLoaded)
  | some first =>
    let t := rewind { t with player := { t.player with speed } }
    let t := ((t.enter first.tag.operation).place first.start).setStatus .running
    (t.send (.notice (.started speed t.player.segments.size)), .ok ())

end Turn

/-- The calls of a player. -/
inductive Call (α σ : Type) where
  | load (operations : List (Operation α))
  | setLoader (loader : Loader α)
  | addObserver (name : Nat)
  /-- Material is taken away at every `interval`-th update of the marker. -/
  | setRemover (remover : σ) (interval : Nat)
  | clearRemover
  | start (speed : α)
  /-- The timer has run down. -/
  | timer
  | step
  | pause
  | resume
  | stop
  | setSpeed (speed : α)
  | close

/-- The player after a call, what it sent out, and the result of the call. -/
structure Reply (α σ : Type) where
  player : Player α σ
  signals : Array (Signal α)
  result : Except (Failure α) Unit

namespace Turn

variable {α σ : Type}

/-- The reply of a call that is accepted. -/
def accept (t : Turn α σ) : Reply α σ := ⟨t.player, t.signals, .ok ()⟩

end Turn

namespace Player

variable {α σ : Type} [Analytic α]

/-- A player with nothing loaded. -/
def new (config : Config α) : Player α σ :=
  { config, speed := config.speed, total := 0, along := 0, completed := 0 }

/-- The reply of a call that is refused and changes nothing. -/
def refuse (p : Player α σ) (failure : Failure α) : Reply α σ := ⟨p, #[], .error failure⟩

/-- Nothing but the configuration and the speed are left. -/
def release (p : Player α σ) : Player α σ :=
  { p with
    operations := [], segments := #[], total := 0, loader := none, remover := none, observers := []
    closed := true }

/-- One call. -/
def perform [Remover σ α] (p : Player α σ) : Call α σ → Reply α σ
  | .load operations => (Turn.load { player := p } operations).accept
  | .setLoader loader => Turn.accept { player := { p with loader := some loader } }
  | .addObserver name => Turn.accept { player := { p with observers := p.observers ++ [name] } }
  | .setRemover remover interval =>
    Turn.accept
      { player :=
          { p with remover := some remover, config := { p.config with removalInterval := interval } } }
  | .clearRemover => Turn.accept { player := { p with remover := none } }
  | .start speed =>
    if p.closed then p.refuse .closed
    else if !Scalar.isPositive speed then p.refuse (.invalidSpeed speed)
    else
      let (t, result) := Turn.begin { player := p } speed
      ⟨t.player, t.signals, result⟩
  | .timer =>
    if p.status = .running ∧ !p.closed then (Turn.tick { player := p }).accept
    else Turn.accept { player := p }
  | .step =>
    if p.closed then p.refuse .closed
    else if p.segments.isEmpty then p.refuse .notLoaded
    else (Turn.tick { player := p }).accept
  | .pause =>
    if p.status = .running then (Turn.setStatus { player := p } .paused).accept
    else Turn.accept { player := p }
  | .resume =>
    if p.closed then p.refuse .closed
    else if p.status = .paused then (Turn.setStatus { player := p } .running).accept
    else Turn.accept { player := p }
  | .stop => (Turn.stop { player := p }).accept
  | .setSpeed speed =>
    if Scalar.isPositive speed then Turn.accept { player := { p with speed } }
    else p.refuse (.invalidSpeed speed)
  | .close =>
    if p.closed then Turn.accept { player := p }
    else
      let t := Turn.stop { player := p }
      Turn.accept { t with player := t.player.release }

/-- A player over the moves of one log. -/
def ofLog [Remover σ α] (config : Config α) (log : Log α) : Player α σ :=
  ((new config).perform (.load [⟨"Operation 1", log⟩])).player

/-- The fraction of the whole length that lies behind the cursor. -/
def progress (p : Player α σ) : α :=
  if p.segments.isEmpty then 0
  else if p.segments.size ≤ p.index then 1
  else if p.total ≤ Segment.negligible then 0
  else Scalar.clampUnit ((p.completed + p.along) / p.total)

def snapshot (p : Player α σ) : Snapshot α where
  status := p.status
  segment := p.index
  along := p.along
  count := p.segments.size
  speed := p.speed
  marker := p.marker
  operation := p.operation
  label := p.operations[p.operation]?.map Operation.label
  progress := p.progress

end Player

/-- The events among some signals. -/
def events {α : Type} (signals : Array (Signal α)) : List (Event α) :=
  signals.toList.filterMap fun
    | .event m => some m.event
    | _ => none

/-- The events among some signals that an observer is told of. -/
def heard {α : Type} (observer : Nat) (signals : Array (Signal α)) : List (Event α) :=
  signals.toList.filterMap fun
    | .event m => if observer ∈ m.receivers then some m.event else none
    | _ => none

/-- The places among some signals at which the remover was called. -/
def cuts {α : Type} (signals : Array (Signal α)) : List (Point α) :=
  signals.toList.filterMap fun
    | .cut p => some p
    | _ => none

/-- What the operator is told among some signals. -/
def notices {α : Type} (signals : Array (Signal α)) : List (Notice α) :=
  signals.toList.filterMap fun
    | .notice n => some n
    | _ => none

/-- What an observer hears of a call. -/
def Reply.heard {α σ : Type} (r : Reply α σ) (observer : Nat) : List (Event α) :=
  Playback.heard observer r.signals

end Toolpath.Playback
