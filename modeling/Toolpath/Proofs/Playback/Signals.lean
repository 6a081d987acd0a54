import Mathlib.Data.List.Basic
import Toolpath.Proofs.Playback.Turn

/-!
# What a call sends out

Every part of a call has an equation for the events it sends out. What the parts of a tick keep, a
tick keeps (`Turn.Stable`), and what all parts of a call keep, every call keeps (`Turn.Steady`).
The observers attached before a call are told of everything that happens in it and no others are
(`Player.heard_perform`), also if the call detaches them.
-/

namespace Toolpath.Playback

/-! ## Events among signals -/

section Events

variable {α : Type} {signals : Array (Signal α)}

@[simp] theorem events_push_event (m : Message α) :
    events (signals.push (.event m)) = events signals ++ [m.event] := by
  simp [events]

@[simp] theorem events_push_cut (position : Point α) :
    events (signals.push (.cut position)) = events signals := by
  simp [events]

@[simp] theorem events_push_notice (notice : Notice α) :
    events (signals.push (.notice notice)) = events signals := by
  simp [events]

/-- If all events go to the same observers, each of these is told of all of them. -/
theorem heard_of_receivers {observers : List Nat}
    (h : ∀ m, .event m ∈ signals → m.receivers = observers) (observer : Nat) :
    heard observer signals = if observer ∈ observers then events signals else [] := by
  by_cases ho : observer ∈ observers
  · rw [heard, events, if_pos ho]
    refine List.filterMap_congr fun s hs => ?_
    cases s with
    | event m => simp [h m (Array.mem_toList_iff.1 hs), ho]
    | cut => rfl
    | notice => rfl
  · rw [heard, if_neg ho, List.filterMap_eq_nil_iff]
    intro s hs
    cases s with
    | event m => simp [h m (Array.mem_toList_iff.1 hs), ho]
    | cut => rfl
    | notice => rfl

end Events

namespace Turn

variable {α σ : Type} {t : Turn α σ}

/-! ## What is silent or told

Status, marker and operation change with an event that tells of it, or not at all. -/

section Told

variable {P : Turn α σ → Prop}

theorem setStatus_cases {status : Status} (same : P t)
    (told : t.player.status ≠ status →
      P (tell { t with player := { t.player with status } } (.status status))) :
    P (t.setStatus status) := by
  rw [setStatus]
  split
  case isTrue => exact same
  case isFalse h => exact told h

theorem hide_cases (same : P t)
    (told : t.player.marker ≠ none →
      P (tell { t with player := { t.player with marker := none } } .hidden)) : P t.hide := by
  rw [hide]
  split
  case h_1 => exact same
  case h_2 h => exact told (by simp [h])

theorem enter_cases {operation : Nat} (same : P t)
    (told : ∀ label, P (tell { t with player := { t.player with operation } }
      (.operation operation label))) : P (t.enter operation) := by
  rw [enter]
  split
  case isTrue => exact same
  case isFalse => exact told _

/-- If there is a remover it is called, and a failure of it is told to the operator alone. -/
theorem remove_cases [Remover σ α] {position : Point α} (absent : t.player.remover = none → P t)
    (called : t.player.remover.isSome = true → ∀ remover,
      P (send { t with player := { t.player with remover := some remover } } (.cut position)))
    (failed : ∀ t failure, P t → P (t.send (.notice (.removalFailed position failure)))) :
    P (t.remove position) := by
  rw [remove]
  split
  case h_1 h => exact absent h
  case h_2 h =>
    have hc := called (by simp [h])
    dsimp only
    split
    · exact hc _
    · exact failed _ _ (hc _)

end Told

/-! ## The events of the parts of a call -/

@[simp] theorem events_tell (t : Turn α σ) (event : Event α) :
    events (t.tell event).signals = events t.signals ++ [event] := events_push_event _

theorem events_setStatus (t : Turn α σ) (status : Status) :
    events (t.setStatus status).signals =
      events t.signals ++ if t.player.status = status then [] else [.status status] := by
  rw [setStatus]
  split
  · exact (List.append_nil _).symm
  · exact events_tell _ _

theorem events_enter (t : Turn α σ) (operation : Nat) :
    events (t.enter operation).signals =
      events t.signals ++
        if t.player.operation = operation then []
        else [.operation operation
          ((t.player.operations[operation]?.map Operation.label).getD "")] := by
  rw [enter]
  split
  · exact (List.append_nil _).symm
  · exact events_tell _ _

/-- The remover's work is no event. -/
theorem events_remove [Remover σ α] (t : Turn α σ) (position : Point α) :
    events (t.remove position).signals = events t.signals :=
  remove_cases (P := fun t' => events t'.signals = events t.signals) (fun _ => rfl)
    (fun _ _ => events_push_cut position) fun _ _ h => (events_push_notice _).trans h

theorem events_place [Remover σ α] (t : Turn α σ) (position : Point α) :
    events (t.place position).signals =
      events t.signals ++ [.moved position t.player.operation] := by
  rw [place]
  dsimp only
  split
  · exact events_tell _ _
  · exact (events_remove _ _).trans (events_tell _ _)

/-- Playback from the first segment on, once there is something loaded. -/
def launch [Analytic α] [Remover σ α] (t : Turn α σ) (speed : α) :
    Turn α σ × Except (Failure α) Unit :=
  match t.player.segments[0]? with
  | none => (t.send (.notice .nothingToPlay), .error .notLoaded)
  | some first =>
    let t := rewind { t with player := { t.player with speed } }
    let t := ((t.enter first.tag.operation).place first.start).setStatus .running
    (t.send (.notice (.started speed t.player.segments.size)), .ok ())

theorem begin_eq [Analytic α] [Remover σ α] (t : Turn α σ) (speed : α) :
    t.begin speed = t.loadIfEmpty.launch speed := rfl

/-! ## What a tick keeps -/

/-- The parts of a tick keep the property. -/
structure Stable [Remover σ α] (P : Turn α σ → Prop) : Prop where
  notice : ∀ t notice, P t → P (t.send (.notice notice))
  setStatus : ∀ t status, P t → P (t.setStatus status)
  enter : ∀ t operation, P t → P (t.enter operation)
  place : ∀ t position, P t → P (t.place position)
  cursor : ∀ t index along completed,
    P t → P { t with player := { t.player with index, along, completed } }

namespace Stable

variable [Analytic α] [Remover σ α] {P : Turn α σ → Prop} {t' : Turn α σ} {distance : α}
  {snapped : Option (Point α)}

theorem finish (hP : Stable P) (h : P t) : P t.finish := by
  have h := hP.cursor t t.player.segments.size 0 t.player.completed h
  rw [Turn.finish]
  refine hP.setStatus _ _ ?_
  dsimp only
  split
  · exact h
  · exact hP.notice _ _ h

theorem advances (hP : Stable P) (ha : Advances t distance snapped t') (h : P t) : P t' := by
  induction ha with
  | @skips t t' s distance snapped hs hn ha ih =>
    exact ih (hP.cursor _ _ _ (t.enter s.tag.operation).player.completed (hP.enter t _ h))
  | @passes t t' s distance snapped hs hn hd ha ih =>
    exact ih (hP.cursor _ _ _ _ (hP.enter t s.tag.operation h))
  | @proceeds t s distance snapped hs hn hd =>
    have he := hP.enter t s.tag.operation h
    exact hP.place _ _ (hP.cursor _ (t.enter s.tag.operation).player.index _
      (t.enter s.tag.operation).player.completed he)
  | @runsOut t distance snapped hs =>
    cases snapped with
    | none => exact hP.finish h
    | some position => exact hP.finish (hP.place t position h)

theorem tick (hP : Stable P) (h : P t) : P t.tick := hP.advances (advances_tick t) h

end Stable

/-! ## What a call keeps -/

/-- All parts of a call keep the property, and it does not hang on what a renderer does not see. -/
structure Steady [Remover σ α] (P : Turn α σ → Prop) : Prop where
  notice : ∀ t notice, P t → P (t.send (.notice notice))
  setStatus : ∀ t status, P t → P (t.setStatus status)
  hide : ∀ t, P t → P t.hide
  enter : ∀ t operation, P t → P (t.enter operation)
  place : ∀ t position, P t → P (t.place position)
  silent : ∀ t (q : Player α σ), q.status = t.player.status → q.marker = t.player.marker →
    q.observers = t.player.observers → q.closed = t.player.closed →
    P t → P { t with player := q }

namespace Steady

variable [Remover σ α] {P : Turn α σ → Prop} {p : Player α σ}

theorem stable (hP : Steady P) : Stable P where
  notice := hP.notice
  setStatus := hP.setStatus
  enter := hP.enter
  place := hP.place
  cursor t _ _ _ := hP.silent t _ rfl rfl rfl rfl

variable [Analytic α]

theorem stop (hP : Steady P) (h : P t) : P t.stop :=
  hP.setStatus _ _ (hP.hide _ (hP.silent t _ rfl rfl rfl rfl h))

theorem load (hP : Steady P) (operations : List (Operation α)) (h : P t) :
    P (t.load operations) :=
  hP.silent t.stop _ rfl rfl rfl rfl (hP.stop h)

theorem loadIfEmpty (hP : Steady P) (h : P t) : P t.loadIfEmpty := by
  rw [Turn.loadIfEmpty]
  split
  · split
    · exact hP.load _ (hP.silent t _ rfl rfl rfl rfl h)
    · exact h
  · exact h

theorem begin (hP : Steady P) (speed : α) (h : P t) : P (t.begin speed).1 := by
  have h := hP.loadIfEmpty h
  rw [begin_eq, launch]
  split
  · exact hP.notice _ _ h
  · refine hP.notice _ _ (hP.setStatus _ _ (hP.place _ _ (hP.enter _ _ ?_)))
    exact hP.silent t.loadIfEmpty _ rfl rfl rfl rfl h

/-- What a call sends out is sent in the course of a turn that has the property. After it the
player is as the turn leaves it, released if the call closes it; or the call changes what concerns
no observer yet. -/
theorem perform (hP : Steady P) (h : P { player := p }) (call : Call α σ) :
    (∃ q, P ⟨q, (p.perform call).signals⟩ ∧
      ((p.perform call).player = q ∨ (p.perform call).player = q.release)) ∨
    (p.perform call).signals = #[] ∧
      ∃ config speed loader remover observers,
        (p.perform call).player = { p with config, speed, loader, remover, observers } := by
  obtain ⟨t, result, ht, hp⟩ := Player.takes_perform p call
  rw [hp]
  cases ht with
  | ignored => exact .inl ⟨_, h, .inl rfl⟩
  | load operations => exact .inl ⟨_, hP.load operations h, .inl rfl⟩
  | start => exact .inl ⟨_, hP.begin _ h, .inl rfl⟩
  | timer => exact .inl ⟨_, hP.stable.tick h, .inl rfl⟩
  | step => exact .inl ⟨_, hP.stable.tick h, .inl rfl⟩
  | pause => exact .inl ⟨_, hP.setStatus _ _ h, .inl rfl⟩
  | resume => exact .inl ⟨_, hP.setStatus _ _ h, .inl rfl⟩
  | stop => exact .inl ⟨_, hP.stop h, .inl rfl⟩
  | close => exact .inl ⟨_, hP.stop h, .inr rfl⟩
  | _ => exact .inr ⟨rfl, _, _, _, _, _, rfl⟩

end Steady

end Turn

/-! ## What an observer is told -/

namespace Turn

variable {α σ : Type} {t : Turn α σ} {observers : List Nat}

/-- The observers stay, and everything is told to them. -/
structure Tells (observers : List Nat) (t : Turn α σ) : Prop where
  attached : t.player.observers = observers
  receivers : ∀ m, .event m ∈ t.signals → m.receivers = observers

namespace Tells

theorem send {signal : Signal α} (h : t.Tells observers)
    (hs : ∀ m, signal = .event m → m.receivers = observers) : (t.send signal).Tells observers where
  attached := h.attached
  receivers m hm := by
    rcases Array.mem_push.1 hm with hm | hm
    · exact h.receivers m hm
    · exact hs m hm.symm

theorem silent {q : Player α σ} (h : t.Tells observers) (hq : q.observers = t.player.observers) :
    Tells observers { t with player := q } := ⟨hq.trans h.attached, h.receivers⟩

theorem tell {q : Player α σ} {event : Event α} (h : t.Tells observers)
    (hq : q.observers = t.player.observers) :
    Tells observers (Turn.tell { t with player := q } event) :=
  (h.silent hq).send fun m hm => by
    cases hm
    exact hq.trans h.attached

theorem remove [Remover σ α] {position : Point α} (h : t.Tells observers) :
    (t.remove position).Tells observers := by
  refine remove_cases (fun _ => h) (fun _ remover => ?_) fun t failure h => ?_
  · exact send (h.silent rfl) fun m hm => by cases hm
  · exact send h fun m hm => by cases hm

theorem steady [Remover σ α] (observers : List Nat) : Steady (Tells (α := α) (σ := σ) observers) where
  notice t _ h := h.send fun m hm => by cases hm
  setStatus _ _ h := setStatus_cases h fun _ => h.tell rfl
  hide _ h := hide_cases h fun _ => h.tell rfl
  enter _ _ h := enter_cases h fun _ => h.tell rfl
  place t position h := by
    rw [place]
    dsimp only
    split
    · exact h.tell rfl
    · exact remove (h.tell rfl)
  silent t q _ _ ho _ h := h.silent ho

end Tells

end Turn

namespace Player

variable {α σ : Type} [Analytic α] [Remover σ α]

/-- The observers attached before a call are told of everything that happens in it, closing
included, and nobody else is told of anything. -/
theorem heard_perform (p : Player α σ) (call : Call α σ) (observer : Nat) :
    (p.perform call).heard observer =
      if observer ∈ p.observers then events (p.perform call).signals else [] := by
  refine heard_of_receivers ?_ observer
  have h : Turn.Tells p.observers { player := p } := ⟨rfl, fun m hm => absurd hm (by simp)⟩
  rcases (Turn.Tells.steady p.observers).perform h call with ⟨q, ht, -⟩ | ⟨hs, -⟩
  · exact ht.receivers
  · intro m hm
    rw [hs] at hm
    exact absurd hm (by simp)

/-- The replies to some calls, one after the other. -/
def replies (p : Player α σ) : List (Call α σ) → List (Reply α σ)
  | [] => []
  | call :: calls => p.perform call :: (p.perform call).player.replies calls

/-- What an observer hears of some calls. -/
def heard (p : Player α σ) (observer : Nat) (calls : List (Call α σ)) : List (Event α) :=
  (p.replies calls).flatMap fun r => r.heard observer

@[simp] theorem heard_nil (p : Player α σ) (observer : Nat) : p.heard observer [] = [] := rfl

@[simp] theorem heard_cons (p : Player α σ) (observer : Nat) (call : Call α σ)
    (calls : List (Call α σ)) :
    p.heard observer (call :: calls) =
      (p.perform call).heard observer ++ (p.perform call).player.heard observer calls := rfl

theorem heard_append (p : Player α σ) (observer : Nat) (calls more : List (Call α σ)) :
    p.heard observer (calls ++ more) =
      p.heard observer calls ++ (p.after calls).heard observer more := by
  induction calls generalizing p with
  | nil => rfl
  | cons call calls ih =>
    rw [List.cons_append, heard_cons, heard_cons, ih, after_cons, List.append_assoc]

end Player

end Toolpath.Playback
