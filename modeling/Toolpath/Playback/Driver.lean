import Toolpath.Playback.Player

/-!
# Playback in the background

A driver owns a player. Requests wait in a queue and are handled one at a time, between ticks of
the timer; after each of either the driver publishes what a renderer may see. Handling the request
to close ends the driver: what still waits is answered with a failure, and so is what comes later,
unless it is to close once more.
-/

namespace Toolpath.Playback

/-- What may be asked of a driver. -/
inductive Request (α : Type) where
  | start (speed : α)
  | pause
  | resume
  | stop
  | step
  | setSpeed (speed : α)
  | close

namespace Request

variable {α σ : Type}

def call : Request α → Call α σ
  | start speed => .start speed
  | pause => .pause
  | resume => .resume
  | stop => .stop
  | step => .step
  | setSpeed speed => .setSpeed speed
  | close => .close

def isClose : Request α → Bool
  | close => true
  | _ => false

/-- The answer of a driver that has ended. To close it once more is no failure. -/
def late (request : Request α) : Except (Failure α) Unit :=
  if request.isClose then .ok () else .error .driverStopped

end Request

/-- What a driver sends out. -/
inductive Output (α : Type) where
  /-- To everyone: what there is to see now, which differs from what was to be seen before. -/
  | change (snapshot : Snapshot α)
  /-- To the sender of a request, by the number of its sending. -/
  | reply (n : Nat) (result : Except (Failure α) Unit)

namespace Output

variable {α : Type}

def snapshot? : Output α → Option (Snapshot α)
  | change snapshot => some snapshot
  | reply .. => none

def reply? : Output α → Option (Nat × Except (Failure α) Unit)
  | change _ => none
  | reply n result => some (n, result)

end Output

structure Driver (α σ : Type) where
  player : Player α σ
  published : Snapshot α
  /-- The requests that wait, each with the number of its sending, first come first. -/
  queue : List (Nat × Request α) := []
  /-- How many requests have been sent. -/
  sent : Nat := 0
  /-- What was sent out, in the order sent. -/
  output : List (Output α) := []
  notices : List (Notice α) := []
  ended : Bool := false

/-- What may happen to a driver. -/
inductive Move (α : Type) where
  | send (request : Request α)
  /-- The request that has waited longest is handled. -/
  | handle
  /-- The timer has run down. -/
  | tick

namespace Driver

variable {α σ : Type} [Analytic α]

def ofPlayer (player : Player α σ) : Driver α σ := { player, published := player.snapshot }

/-- The answers given, in the order given. -/
def replies (d : Driver α σ) : List (Nat × Except (Failure α) Unit) :=
  d.output.filterMap Output.reply?

/-- The snapshots that followed one that differed. -/
def changes (d : Driver α σ) : List (Snapshot α) := d.output.filterMap Output.snapshot?

/-- Publishes what the player shows, if it differs from what is published. -/
def publish (d : Driver α σ) : Driver α σ :=
  let snapshot := d.player.snapshot
  if d.published == snapshot then d
  else { d with published := snapshot, output := d.output ++ [.change snapshot] }

def answer (d : Driver α σ) (n : Nat) (result : Except (Failure α) Unit) : Driver α σ :=
  { d with output := d.output ++ [.reply n result] }

/-- A request joins the queue; a driver that has ended answers at once. -/
def send (d : Driver α σ) (request : Request α) : Driver α σ :=
  let n := d.sent
  let d := { d with sent := n + 1 }
  if d.ended then d.answer n request.late
  else { d with queue := d.queue ++ [(n, request)] }

/-- The player after a call and what it tells the operator. -/
def perform [Remover σ α] (d : Driver α σ) (call : Call α σ) : Driver α σ × Except (Failure α) Unit :=
  let reply := d.player.perform call
  let refused := match reply.result with
    | .ok _ => []
    | .error failure => [Notice.commandFailed failure]
  ({ d with
      player := reply.player
      notices := d.notices ++ Playback.notices reply.signals ++ refused }, reply.result)

/-- Answers whoever waits in a driver that has ended. -/
def dismiss (d : Driver α σ) : Driver α σ :=
  { d with
    queue := []
    output := d.output ++ d.queue.map fun (n, request) => .reply n request.late
    ended := true }

/-- Handles one request. -/
def handle [Remover σ α] (d : Driver α σ) : Driver α σ :=
  match d.queue with
  | [] => d
  | (n, request) :: rest =>
    let (d, result) := { d with queue := rest }.perform request.call
    let d := d.publish.answer n result
    if request.isClose then d.dismiss else d

/-- Lets the timer run down once. -/
def tick [Remover σ α] (d : Driver α σ) : Driver α σ :=
  if d.ended then d else (d.perform .timer).1.publish

def move [Remover σ α] (d : Driver α σ) : Move α → Driver α σ
  | .send request => d.send request
  | .handle => d.handle
  | .tick => d.tick

/-- Sends a request and waits for its answer, with nothing else in the way. -/
def ask [Remover σ α] (d : Driver α σ) (request : Request α) :
    Driver α σ × Except (Failure α) Unit :=
  let d := (d.send request).handle
  (d, (d.replies.getLast?.map Prod.snd).getD (.error .driverStopped))

/-- Whether the last published snapshot shows playback at its end. -/
def showsEnd (d : Driver α σ) : Bool :=
  d.published.status == .stopped && decide (d.published.count ≤ d.published.segment)

/-- Ticks until playback is at its end, at most `n` of them. -/
def playOut [Remover σ α] : (n : Nat) → Driver α σ → Driver α σ
  | 0, d => d
  | n + 1, d => if d.showsEnd then d else playOut n d.tick

end Driver

end Toolpath.Playback
