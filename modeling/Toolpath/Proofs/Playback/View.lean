import Toolpath.Proofs.Playback.Distance
import Toolpath.Proofs.Playback.Signals

/-!
# What an observer knows of a player

An observer that keeps the marker and the status as it is told of them has both right after every
call, from the moment it is attached, over the closing of the player and for ever after. It is told
of changes only. In a turn the view that the events add up to is that of the player
(`Turn.Shown`), which every part of a call keeps; once the player is closed nothing is sent out
any more (`Player.Shut.perform`).
-/

namespace Toolpath.Playback

/-- The statuses among some events. -/
def statuses {α : Type} (events : List (Event α)) : List Status :=
  events.filterMap fun
    | .status status => some status
    | _ => none

/-- What a renderer has to know of a player. -/
structure View (α : Type) where
  marker : Option (Point α)
  status : Status

namespace View

variable {α : Type} {v : View α} {events : List (Event α)}

/-- The view after an event. -/
def hear (v : View α) : Event α → View α
  | .moved position _ => { v with marker := some position }
  | .hidden => { v with marker := none }
  | .status status => { v with status }
  | .operation .. => v

/-- The event tells of a change, as far as events are there to do so. -/
def News (v : View α) : Event α → Prop
  | .hidden => v.marker ≠ none
  | .status status => v.status ≠ status
  | _ => True

/-- Every event is news when it comes. -/
def Learns (v : View α) : List (Event α) → Prop
  | [] => True
  | event :: events => v.News event ∧ (v.hear event).Learns events

theorem learns_append {more : List (Event α)} :
    v.Learns (events ++ more) ↔ v.Learns events ∧ (events.foldl hear v).Learns more := by
  induction events generalizing v with
  | nil => simp [Learns]
  | cons event events ih => simp [Learns, ih, and_assoc]

/-- A status follows on another one only. -/
theorem Learns.statuses_chain (h : v.Learns events) :
    (v.status :: statuses events).IsChain (· ≠ ·) := by
  induction events generalizing v with
  | nil => exact .singleton _
  | cons event events ih =>
    obtain ⟨hn, h⟩ := h
    cases event with
    | status status => exact .cons_cons hn (ih h)
    | moved position operation => exact ih (v := v.hear (.moved position operation)) h
    | hidden => exact ih (v := v.hear .hidden) h
    | operation index label => exact ih (v := v.hear (.operation index label)) h

/-- The marker is there when it is said to be hidden. -/
theorem Learns.marker_ne_none {earlier later : List (Event α)}
    (h : v.Learns (earlier ++ .hidden :: later)) : (earlier.foldl hear v).marker ≠ none :=
  (learns_append.1 h).2.1

end View

/-- What there is to know of a player. -/
def Player.view {α σ : Type} (p : Player α σ) : View α := ⟨p.marker, p.status⟩

namespace Turn

variable {α σ : Type} {t : Turn α σ} {v : View α}

/-- What was sent out was news and adds up to what the player shows. -/
structure Shown (v : View α) (t : Turn α σ) : Prop where
  view : (events t.signals).foldl View.hear v = t.player.view
  news : v.Learns (events t.signals)

namespace Shown

theorem of_events {t' : Turn α σ} (h : t.Shown v)
    (he : events t'.signals = events t.signals) (hv : t'.player.view = t.player.view) :
    t'.Shown v := by
  constructor
  · rw [he, hv]
    exact h.view
  · rw [he]
    exact h.news

/-- One more event that tells of what has changed. -/
theorem of_event {t' : Turn α σ} {event : Event α} (h : t.Shown v)
    (he : events t'.signals = events t.signals ++ [event]) (hn : t.player.view.News event)
    (hv : t'.player.view = t.player.view.hear event) : t'.Shown v := by
  constructor
  · rw [he, List.foldl_append, h.view]
    exact hv.symm
  · rw [he, View.learns_append, h.view]
    exact ⟨h.news, hn, trivial⟩

theorem setStatus {status : Status} (h : t.Shown v) : (t.setStatus status).Shown v :=
  setStatus_cases h fun hs => h.of_event (events_tell _ _) hs rfl

theorem hide (h : t.Shown v) : t.hide.Shown v :=
  hide_cases h fun hm => h.of_event (events_tell _ _) hm rfl

theorem enter {operation : Nat} (h : t.Shown v) : (t.enter operation).Shown v :=
  enter_cases h fun _ => h.of_event (events_tell _ _) trivial rfl

theorem place [Remover σ α] {position : Point α} (h : t.Shown v) : (t.place position).Shown v := by
  obtain ⟨remover, hp⟩ := player_place t position
  refine h.of_event (events_place t position) trivial ?_
  rw [hp]
  rfl

theorem steady [Remover σ α] (v : View α) : Steady (Shown (σ := σ) v) where
  notice t notice h := h.of_events (events_push_notice notice) rfl
  setStatus t status h := h.setStatus
  hide t h := h.hide
  enter t operation h := h.enter
  place t position h := h.place
  silent t q hs hm _ _ h := h.of_events rfl (by rw [Player.view, Player.view, hs, hm])

end Shown

end Turn

/-- The observers of a player after a call. -/
def Call.attached {α σ : Type} (closed : Bool) (observers : List Nat) : Call α σ → List Nat
  | .addObserver name => observers ++ [name]
  | .close => if closed then observers else []
  | _ => observers

/-- Nothing but closing detaches an observer. -/
theorem Call.subset_attached {α σ : Type} {call : Call α σ} (h : call ≠ .close) (closed : Bool)
    (observers : List Nat) : observers ⊆ call.attached closed observers := by
  cases call with
  | addObserver name => exact List.subset_append_left _ _
  | close => exact absurd rfl h
  | _ => exact List.Subset.refl observers

namespace Player

variable {α σ : Type} [Analytic α] {p p' : Player α σ} {call : Call α σ}

/-- Closed, at rest and out of sight. -/
structure Shut (p : Player α σ) : Prop where
  closed : p.closed = true
  status : p.status = .stopped
  marker : p.marker = none

theorem observers_supplied (p : Player α σ) : p.supplied.observers = p.observers := by
  rcases p.supplied_eq with h | ⟨loader, operations, h⟩
  · rw [h]
  · rw [h]
    rfl

theorem Changes.observers_eq (hc : p.Changes call p') :
    p'.observers = call.attached p.closed p.observers := by
  cases hc with
  | ignored h =>
    cases call with
    | close => exact (if_pos h).symm
    | addObserver => exact h.elim
    | _ => rfl
  | timer hr ho ht => cases ht <;> rfl
  | step ho hs ht => cases ht <;> rfl
  | unloaded => exact observers_supplied p
  | start => exact observers_supplied p
  | close ho =>
    rw [Call.attached, ho]
    rfl
  | _ => rfl

/-- An open player stays open and keeps its observers, or it is shut. -/
theorem Changes.opened_or_shut (hc : p.Changes call p') (ho : p.closed = false) :
    p'.closed = false ∧ p.observers ⊆ p'.observers ∨ p'.Shut := by
  by_cases hcall : call = .close
  · subst hcall
    cases hc with
    | ignored h => exact absurd (ho.symm.trans h) Bool.false_ne_true
    | close => exact .inr ⟨rfl, rfl, rfl⟩
  · refine .inl ⟨?_, hc.observers_eq ▸ Call.subset_attached hcall _ _⟩
    cases hc with
    | timer hr ho ht => cases ht <;> exact ho
    | step ho hs ht => cases ht <;> exact ho
    | unloaded => exact (closed_supplied p).trans ho
    | start => exact (closed_supplied p).trans ho
    | close => exact absurd rfl hcall
    | _ => exact ho

theorem Shut.stop (h : p.Shut) : Turn.stop { player := p } = { player := p.rested } := by
  rw [Turn.stop, Turn.hide]
  dsimp only [Turn.rewind]
  rw [h.marker]
  dsimp only
  rw [Turn.setStatus, if_pos h.status, rested, ← h.marker, ← h.status]

variable [Remover σ α]

/-- A player that is shut sends nothing out and stays so. -/
theorem Shut.perform (h : p.Shut) (call : Call α σ) :
    (p.perform call).signals = #[] ∧ (p.perform call).player.Shut := by
  obtain ⟨t, result, ht, hp⟩ := takes_perform p call
  have hopen : p.closed ≠ false := by simp [h.closed]
  rw [hp]
  cases ht with
  | ignored => exact ⟨rfl, h⟩
  | load operations =>
    rw [Turn.load, h.stop]
    exact ⟨rfl, h.closed, rfl, rfl⟩
  | stop =>
    rw [h.stop]
    exact ⟨rfl, h.closed, rfl, rfl⟩
  | pause hr => exact absurd (h.status.symm.trans hr) (by decide)
  | start ho => exact absurd ho hopen
  | timer hr ho => exact absurd ho hopen
  | step ho => exact absurd ho hopen
  | resume ho => exact absurd ho hopen
  | close ho => exact absurd ho hopen
  | _ => exact ⟨rfl, h.closed, h.status, h.marker⟩

/-! ## A run -/

/-- What an observer has been told is all there is to know, and it will be told of what comes. -/
structure Follows (v : View α) (observer : Nat) (told : List (Event α)) (p : Player α σ) : Prop where
  view : told.foldl View.hear v = p.view
  news : v.Learns told
  attached : p.closed = false ∧ observer ∈ p.observers ∨ p.Shut

variable {v : View α} {observer : Nat} {told : List (Event α)}

/-- The events of a call are news and add up to what the player shows after it. -/
theorem shown_perform (p : Player α σ) (call : Call α σ) :
    Turn.Shown p.view ⟨(p.perform call).player, (p.perform call).signals⟩ := by
  have h : Turn.Shown p.view { player := p } := ⟨rfl, trivial⟩
  rcases (Turn.Shown.steady p.view).perform h call with ⟨q, ht, hq | hq⟩ | ⟨hs, _, _, _, _, _, hq⟩
  · rwa [hq]
  · rw [hq]
    exact ht.of_events rfl rfl
  · rw [hs, hq]
    exact ⟨rfl, trivial⟩

theorem Follows.perform (h : p.Follows v observer told) (call : Call α σ) :
    (p.perform call).player.Follows v observer (told ++ (p.perform call).heard observer) := by
  rw [heard_perform]
  rcases h.attached with ⟨ho, ha⟩ | hs
  · have hv := shown_perform p call
    rw [if_pos ha]
    refine ⟨?_, ?_, ?_⟩
    · rw [List.foldl_append, h.view]
      exact hv.view
    · rw [View.learns_append, h.view]
      exact ⟨h.news, hv.news⟩
    · exact ((changes_perform p call).opened_or_shut ho).imp_left fun hc => ⟨hc.1, hc.2 ha⟩
  · obtain ⟨hn, hs'⟩ := hs.perform call
    have hv : (p.perform call).player.view = p.view := by
      rw [Player.view, Player.view, hs.marker, hs.status, hs'.marker, hs'.status]
    have hn : (if observer ∈ p.observers then events (p.perform call).signals else []) = [] := by
      rw [hn]
      exact ite_self []
    rw [hn, List.append_nil]
    exact ⟨h.view.trans hv.symm, h.news, .inr hs'⟩

theorem Follows.after {calls : List (Call α σ)} (h : p.Follows v observer told) :
    (p.after calls).Follows v observer (told ++ p.heard observer calls) := by
  induction calls generalizing p told with
  | nil => rwa [heard_nil, List.append_nil]
  | cons call calls ih =>
    rw [heard_cons, ← List.append_assoc]
    exact ih (h.perform call)

/-- Whoever is attached to an open player knows marker and status after every call from what it was
told since. It is told of no status twice in a row, and of the marker being hidden only while that
is visible. -/
theorem view_heard (ho : p.closed = false) (observer : Nat) (calls : List (Call α σ)) :
    let q := (p.perform (.addObserver observer)).player
    let told := q.heard observer calls
    told.foldl View.hear p.view = (q.after calls).view ∧
      (statuses told).IsChain (· ≠ ·) ∧
      ∀ earlier later, told = earlier ++ .hidden :: later →
        (earlier.foldl View.hear p.view).marker ≠ none := by
  intro q told
  have hq : q.Follows p.view observer [] :=
    ⟨rfl, trivial, .inl ⟨ho, List.mem_append_right _ (List.mem_singleton_self observer)⟩⟩
  have h : (q.after calls).Follows p.view observer told := hq.after
  refine ⟨h.view, h.news.statuses_chain.tail, fun earlier later he => ?_⟩
  have hn := h.news
  rw [he] at hn
  exact hn.marker_ne_none

/-- From the start of playback over its stop to the end: what happens once the player is closed is
not told, be it that the observer is attached again. -/
theorem view_heard_startStopClose :
    let q := (overCorner.perform (.addObserver 7)).player
    let calls := [.start 2, .stop, .close, .addObserver 7, .load [corner]]
    let told := q.heard 7 calls
    overCorner.closed = false ∧
      told = [.moved ⟨0, 0, 0⟩ 0, .status .running, .hidden, .status .stopped] ∧
      told.foldl View.hear overCorner.view = (q.after calls).view ∧
      (statuses told).IsChain (· ≠ ·) ∧
      (([.moved ⟨0, 0, 0⟩ 0, .status .running] : List (Event ℝ)).foldl View.hear
        overCorner.view).marker ≠ none := by
  intro q calls told
  have ht : told = [.moved ⟨0, 0, 0⟩ 0, .status .running, .hidden, .status .stopped] := by
    rw [show told = _ from heard_cons .., show q.perform (.start 2) = _ from start_overCorner [7]]
    rfl
  obtain ⟨hv, hc, hm⟩ := view_heard (p := overCorner) rfl 7 calls
  exact ⟨rfl, ht, hv, hc, hm _ [.status .stopped] ht⟩

end Player

end Toolpath.Playback
