import Toolpath.Proofs.Playback.Lifecycle
import Toolpath.Proofs.Playback.Signals

/-!
# When the remover is called

The remover is called at every so many placings of the marker, counted from where the cursor was
last put to the start, and at no other time. What a call sends out is what it tells the observers
with the calls of the remover put in where they are due (`withCuts`). The count is kept by every
part of a tick; only loading, starting and stopping begin it anew, and these do so before they
place the marker.
-/

namespace Toolpath.Playback

/-! ## Where a call of the remover is due -/

section Lists

variable {α : Type}

/-- The place an event puts the marker to. -/
def Event.place? : Event α → Option (Point α)
  | .moved position _ => some position
  | _ => none

/-- What the observers are told among some signals. -/
def messages (signals : Array (Signal α)) : List (Message α) :=
  signals.toList.filterMap fun
    | .event m => some m
    | _ => none

/-- Some signals but for what the operator is told. -/
def deeds (signals : Array (Signal α)) : List (Signal α) :=
  signals.toList.filter fun
    | .notice _ => false
    | _ => true

/-- Where the marker is put to, time after time. -/
def placings (events : List (Event α)) : List (Point α) := events.filterMap Event.place?

/-- How the remover is to be called. -/
structure Hook where
  /-- At each placing of the marker whose number is a multiple of this; never if it is zero. -/
  interval : Nat
  installed : Bool

/-- The remover is to be called at the `n`-th placing of the marker. -/
def Hook.due (hook : Hook) (n : Nat) : Bool := hook.installed && decide (hook.interval ∣ n)

/-- Some messages, and after each that places the marker the call of the remover if one is due, when
the marker was placed `k` times before. -/
def Hook.withCuts (hook : Hook) : (k : Nat) → List (Message α) → List (Signal α)
  | _, [] => []
  | k, m :: rest =>
    match m.event.place? with
    | none => .event m :: hook.withCuts k rest
    | some position =>
      .event m :: ((if hook.due (k + 1) then [.cut position] else []) ++ hook.withCuts (k + 1) rest)

/-- Those of some places of the marker at which the remover is to be called. -/
def Hook.spots (hook : Hook) : (k : Nat) → List (Point α) → List (Point α)
  | _, [] => []
  | k, position :: rest =>
    (if hook.due (k + 1) then [position] else []) ++ hook.spots (k + 1) rest

/-- Where a signal calls the remover. -/
def Signal.cut? : Signal α → Option (Point α)
  | .cut position => some position
  | _ => none

variable {hook : Hook} {k : Nat} {ms : List (Message α)} {signals : Array (Signal α)}

theorem events_eq_map (signals : Array (Signal α)) :
    events signals = (messages signals).map Message.event := by
  rw [events, messages, List.map_filterMap]
  refine List.filterMap_congr fun s _ => ?_
  cases s <;> rfl

theorem placings_cons_of_none {event : Event α} {more : List (Event α)}
    (h : event.place? = none) : placings (event :: more) = placings more :=
  List.filterMap_cons_none h

theorem placings_cons_of_some {event : Event α} {more : List (Event α)} {position : Point α}
    (h : event.place? = some position) : placings (event :: more) = position :: placings more :=
  List.filterMap_cons_some h

theorem placings_append (events more : List (Event α)) :
    placings (events ++ more) = placings events ++ placings more := List.filterMap_append ..

theorem Hook.due_succ (hook : Hook) (n : Nat) :
    hook.due (n + 1) =
      if hook.interval = 0 ∨ (n + 1) % hook.interval ≠ 0 then false else hook.installed := by
  split
  case isTrue h =>
    refine Bool.and_eq_false_imp.2 fun _ => decide_eq_false fun hd => ?_
    rcases h with h | h
    · rw [h, Nat.zero_dvd] at hd
      exact Nat.succ_ne_zero n hd
    · exact h (Nat.mod_eq_zero_of_dvd hd)
  case isFalse h =>
    have hd : hook.interval ∣ n + 1 := Nat.dvd_of_mod_eq_zero (not_not.1 (not_or.1 h).2)
    rw [Hook.due, decide_eq_true hd, Bool.and_true]

theorem withCuts_append (more : List (Message α)) :
    hook.withCuts k (ms ++ more) =
      hook.withCuts k ms ++ hook.withCuts (k + (placings (ms.map Message.event)).length) more := by
  induction ms generalizing k with
  | nil => rfl
  | cons m ms ih =>
    cases hm : m.event.place? with
    | none => simp [Hook.withCuts, placings, hm, ih]
    | some position =>
      simp [Hook.withCuts, placings, hm, ih, Nat.add_assoc, Nat.add_comm 1]

/-- Without a placing of the marker there is nothing to be put in, whatever the count. -/
theorem withCuts_of_no_placing (h : placings (ms.map Message.event) = []) (k j : Nat) :
    hook.withCuts k ms = hook.withCuts j ms := by
  induction ms with
  | nil => rfl
  | cons m ms ih =>
    cases hm : m.event.place? with
    | none =>
      have h : placings (ms.map Message.event) = [] := by simpa [placings, hm] using h
      simp [Hook.withCuts, hm, ih h]
    | some position => simp [placings, hm] at h

theorem filterMap_cut_withCuts (k : Nat) (ms : List (Message α)) :
    (hook.withCuts k ms).filterMap Signal.cut? = hook.spots k (placings (ms.map Message.event)) := by
  induction ms generalizing k with
  | nil => rfl
  | cons m ms ih =>
    cases hm : m.event.place? with
    | none =>
      rw [Hook.withCuts, hm, List.map_cons, placings_cons_of_none hm]
      exact ih k
    | some position =>
      rw [Hook.withCuts, hm, List.map_cons, placings_cons_of_some hm, Hook.spots, ← ih]
      cases hook.due (k + 1) <;> rfl

/-- Where the remover is called where that is due, the places it is called at follow from where the
marker was put to. -/
theorem cuts_of_called (h : deeds signals = hook.withCuts k (messages signals)) :
    cuts signals = hook.spots k (placings (events signals)) := by
  rw [events_eq_map, ← filterMap_cut_withCuts, ← h, deeds, List.filterMap_filter, cuts]
  refine List.filterMap_congr fun s _ => ?_
  cases s <;> rfl

@[simp] theorem messages_push_event (m : Message α) :
    messages (signals.push (.event m)) = messages signals ++ [m] := by
  simp [messages]

@[simp] theorem messages_push_cut (position : Point α) :
    messages (signals.push (.cut position)) = messages signals := by
  simp [messages]

@[simp] theorem messages_push_notice (notice : Notice α) :
    messages (signals.push (.notice notice)) = messages signals := by
  simp [messages]

@[simp] theorem deeds_push_event (m : Message α) :
    deeds (signals.push (.event m)) = deeds signals ++ [.event m] := by
  simp [deeds]

@[simp] theorem deeds_push_cut (position : Point α) :
    deeds (signals.push (.cut position)) = deeds signals ++ [.cut position] := by
  simp [deeds]

@[simp] theorem deeds_push_notice (notice : Notice α) :
    deeds (signals.push (.notice notice)) = deeds signals := by
  simp [deeds]

end Lists

/-- How the remover of a player is to be called. -/
def Player.hook {α σ : Type} (p : Player α σ) : Hook := ⟨p.config.removalInterval, p.remover.isSome⟩

namespace Turn

variable {α σ : Type} {t : Turn α σ} {hook : Hook} {k n : Nat}

/-! ## Parts of a call -/

theorem messages_remove [Remover σ α] (t : Turn α σ) (position : Point α) :
    messages (t.remove position).signals = messages t.signals :=
  remove_cases (P := fun t' => messages t'.signals = messages t.signals) (fun _ => rfl)
    (fun _ _ => messages_push_cut position) fun _ _ h => (messages_push_notice _).trans h

/-- The remover is called once, if it is there. -/
theorem deeds_remove [Remover σ α] (t : Turn α σ) (position : Point α) :
    deeds (t.remove position).signals =
      deeds t.signals ++ if t.player.remover.isSome then [.cut position] else [] := by
  refine remove_cases (P := fun t' => deeds t'.signals = _) (fun h => ?_) (fun h remover => ?_)
    fun _ _ h => (deeds_push_notice _).trans h
  · rw [h]
    exact (List.append_nil _).symm
  · rw [if_pos h]
    exact deeds_push_cut position

theorem hook_remove [Remover σ α] (t : Turn α σ) (position : Point α) :
    (t.remove position).player.hook = t.player.hook := by
  refine remove_cases (P := fun t' => t'.player.hook = t.player.hook) (fun _ => rfl)
    (fun h remover => ?_) fun _ _ h => h
  rw [Player.hook, Player.hook, h]
  rfl

/-- The marker is placed, and the remover not called yet. -/
def placed (t : Turn α σ) (position : Point α) : Turn α σ :=
  tell { t with player := { t.player with marker := some position, updates := t.player.updates + 1 } }
    (.moved position t.player.operation)

theorem place_eq [Remover σ α] (t : Turn α σ) (position : Point α) :
    t.place position =
      if t.player.hook.interval = 0 ∨ (t.player.updates + 1) % t.player.hook.interval ≠ 0 then
        t.placed position
      else (t.placed position).remove position := rfl

theorem hook_place [Remover σ α] (t : Turn α σ) (position : Point α) :
    (t.place position).player.hook = t.player.hook := by
  rw [place_eq]
  split
  · rfl
  · exact hook_remove _ _

theorem messages_place [Remover σ α] (t : Turn α σ) (position : Point α) :
    messages (t.place position).signals =
      messages t.signals ++ [⟨t.player.observers, .moved position t.player.operation⟩] := by
  rw [place_eq]
  split
  · exact messages_push_event _
  · exact (messages_remove _ _).trans (messages_push_event _)

/-- The marker is placed, and the remover called if that is due. -/
theorem deeds_place [Remover σ α] (t : Turn α σ) (position : Point α) :
    deeds (t.place position).signals =
      deeds t.signals ++ [.event ⟨t.player.observers, .moved position t.player.operation⟩] ++
        if t.player.hook.due (t.player.updates + 1) then [.cut position] else [] := by
  have hp : deeds (t.placed position).signals =
      deeds t.signals ++ [.event ⟨t.player.observers, .moved position t.player.operation⟩] :=
    deeds_push_event _
  rw [Hook.due_succ, place_eq]
  split
  · rw [hp]
    exact (List.append_nil _).symm
  · rw [deeds_remove, hp]
    rfl

/-- Since the marker had been placed `k` times it was placed `n` times more, and the remover was
called where that was due. -/
structure Counts (hook : Hook) (k n : Nat) (t : Turn α σ) : Prop where
  updates : t.player.updates = k + n
  placed : (placings (events t.signals)).length = n
  called : deeds t.signals = hook.withCuts k (messages t.signals)
  hook : t.player.hook = hook

namespace Counts

theorem silent {q : Player α σ} (h : t.Counts hook k n) (hu : q.updates = t.player.updates)
    (hh : q.hook = t.player.hook) : Counts hook k n { t with player := q } :=
  ⟨hu.trans h.updates, h.placed, h.called, hh.trans h.hook⟩

theorem notice {notice : Notice α} (h : t.Counts hook k n) :
    (t.send (.notice notice)).Counts hook k n where
  updates := h.updates
  placed := by
    rw [send, events_push_notice]
    exact h.placed
  called := by
    rw [send, deeds_push_notice, messages_push_notice]
    exact h.called
  hook := h.hook

/-- An event that does not place the marker. -/
theorem tell {event : Event α} (h : t.Counts hook k n) (he : event.place? = none) :
    (t.tell event).Counts hook k n where
  updates := h.updates
  placed := by
    have hp : placings [event] = [] := by simp [placings, he]
    rw [events_tell, placings_append, hp, List.append_nil]
    exact h.placed
  called := by
    rw [Turn.tell, send, deeds_push_event, messages_push_event, withCuts_append, h.called]
    simp [Hook.withCuts, he]
  hook := h.hook

theorem setStatus (status : Status) (h : t.Counts hook k n) :
    (t.setStatus status).Counts hook k n :=
  setStatus_cases h fun _ => tell (h.silent rfl rfl) rfl

theorem hide (h : t.Counts hook k n) : t.hide.Counts hook k n :=
  hide_cases h fun _ => tell (h.silent rfl rfl) rfl

theorem enter {operation : Nat} (h : t.Counts hook k n) :
    (t.enter operation).Counts hook k n :=
  enter_cases h fun _ => tell (h.silent rfl rfl) rfl

theorem place [Remover σ α] {position : Point α} (h : t.Counts hook k n) :
    (t.place position).Counts hook k (n + 1) := by
  obtain ⟨remover, hp⟩ := player_place t position
  refine ⟨?_, ?_, ?_, (hook_place t position).trans h.hook⟩
  · rw [hp]
    exact congrArg (· + 1) h.updates
  · rw [events_place, placings_append, List.length_append, h.placed]
    rfl
  · have hm : (placings ((messages t.signals).map Message.event)).length = n := by
      rw [← events_eq_map]
      exact h.placed
    rw [deeds_place, messages_place, withCuts_append, hm, ← h.called, h.hook, h.updates]
    simp [Hook.withCuts, Event.place?]

/-- The count begins anew, if the marker was not placed yet. -/
theorem rewind [Scalar α] (h : t.Counts hook k 0) : t.rewind.Counts hook 0 0 where
  updates := rfl
  placed := h.placed
  called := by
    refine h.called.trans (withCuts_of_no_placing ?_ k 0)
    rw [← events_eq_map]
    exact List.length_eq_zero_iff.1 h.placed
  hook := h.hook

theorem stable [Remover σ α] (hook : Hook) (k : Nat) :
    Stable fun t : Turn α σ => ∃ n, t.Counts hook k n where
  notice _ _ := fun ⟨n, h⟩ => ⟨n, h.notice⟩
  setStatus _ status := fun ⟨n, h⟩ => ⟨n, h.setStatus status⟩
  enter _ _ := fun ⟨n, h⟩ => ⟨n, h.enter⟩
  place _ _ := fun ⟨n, h⟩ => ⟨n + 1, h.place⟩
  cursor _ _ _ _ := fun ⟨n, h⟩ => ⟨n, h.silent rfl rfl⟩

variable [Analytic α]

theorem stop (h : t.Counts hook k 0) : t.stop.Counts hook 0 0 := h.rewind.hide.setStatus _

theorem load (operations : List (Operation α)) (h : t.Counts hook k 0) :
    (t.load operations).Counts hook 0 0 := h.stop.silent rfl rfl

/-- The count begins anew if the loader is asked. -/
theorem loadIfEmpty (h : t.Counts hook k 0) :
    t.loadIfEmpty.Counts hook k 0 ∨
      t.player.segments.isEmpty = true ∧ t.loadIfEmpty.Counts hook 0 0 := by
  rw [Turn.loadIfEmpty]
  split
  case isTrue he =>
    split
    · exact .inr ⟨he, load _ (h.silent rfl rfl)⟩
    · exact .inl h
  case isFalse => exact .inl h

variable [Remover σ α]

theorem launch_of_none (speed : α) (h : t.Counts hook k 0) (hs : t.player.segments[0]? = none) :
    (t.launch speed).1.Counts hook k 0 ∧ (t.launch speed).2 = .error .notLoaded := by
  rw [launch, hs]
  exact ⟨h.notice, rfl⟩

/-- The start of playback places the marker once, and that is the first time. -/
theorem launch_of_some {first : Segment α} (speed : α) (h : t.Counts hook k 0)
    (hs : t.player.segments[0]? = some first) :
    (t.launch speed).1.Counts hook 0 1 ∧ (t.launch speed).2 = .ok () := by
  rw [launch, hs]
  have hr : (Turn.rewind { t with player := { t.player with speed } }).Counts hook 0 0 :=
    rewind (h.silent rfl rfl)
  exact ⟨(setStatus _ (place (enter hr))).notice, rfl⟩

end Counts

end Turn

theorem Player.counts_self {α σ : Type} (p : Player α σ) :
    Turn.Counts p.hook p.updates 0 { player := p } := ⟨rfl, rfl, rfl, rfl⟩

/-! ## A call -/

/-- How the remover is to be called after a call to a player. -/
def Call.rehook {α σ : Type} (closed : Bool) (hook : Hook) : Call α σ → Hook
  | .setRemover _ interval => ⟨interval, true⟩
  | .clearRemover => ⟨hook.interval, false⟩
  | .close => if closed then hook else ⟨hook.interval, false⟩
  | _ => hook

namespace Player

variable {α σ : Type} [Analytic α] {p p' : Player α σ} {call : Call α σ}

/-- A lawful player, and with nothing loaded its marker was not placed. -/
structure Tallied (p : Player α σ) : Prop where
  lawful : p.Lawful
  blank : p.segments.isEmpty = true → p.updates = 0

theorem tallied_new (config : Config α) : (new config : Player α σ).Tallied :=
  ⟨(resting_new config).lawful, fun _ => rfl⟩

theorem Tallied.supplied (h : p.Tallied) : p.supplied.Tallied := by
  refine ⟨h.lawful.supplied, ?_⟩
  rcases p.supplied_eq with hp | ⟨loader, operations, hp⟩
  · rw [hp]
    exact h.blank
  · rw [hp]
    exact fun _ => rfl

theorem Ticked.isEmpty (h : p.Ticked p') : p'.segments.isEmpty = p.segments.isEmpty := by
  cases h <;> rfl

theorem Tallied.change (h : p.Tallied) (hc : p.Changes call p') : p'.Tallied := by
  refine ⟨h.lawful.change hc, ?_⟩
  cases hc with
  | load => exact fun _ => rfl
  | unloaded => exact h.supplied.blank
  | @start speed first ho hv hs remover =>
    intro he
    have he : p.supplied.segments = #[] := Array.isEmpty_iff.1 he
    rw [he] at hs
    cases hs
  | timer hr ho ht =>
    -- What plays has a segment under its cursor.
    have hi := (h.lawful.playing (by simp [hr])).2.1
    intro he
    rw [ht.isEmpty, Array.isEmpty_iff] at he
    rw [he] at hi
    exact absurd hi (Nat.not_lt_zero _)
  | step ho hs ht =>
    intro he
    rw [ht.isEmpty, hs] at he
    cases he
  | stop => exact fun _ => rfl
  | close => exact fun _ => rfl
  | _ => exact h.blank

variable [Remover σ α]

theorem tallied_after (config : Config α) (calls : List (Call α σ)) :
    ((new config : Player α σ).after calls).Tallied :=
  after_induct (fun _ _ _ h hc => h.change hc) (tallied_new config) calls

/-- The call loads, stops, which closing does as well, or starts playback. To be refused a start is
none of these. -/
def rewinds (p : Player α σ) : Call α σ → Bool
  | .load _ | .stop => true
  | .start speed => (p.perform (.start speed)).result.isOk
  | .close => !p.closed
  | _ => false

/-- How often the marker was placed before a call places it, since the cursor was last put to the
start. -/
def base (p : Player α σ) (k : Nat) (call : Call α σ) : Nat := if p.rewinds call then 0 else k

/-- A call goes on counting where the player is, and calls the remover where that is due. -/
structure Counted (p : Player α σ) (call : Call α σ) : Prop where
  called : deeds (p.perform call).signals =
    p.hook.withCuts (p.base p.updates call) (messages (p.perform call).signals)
  updates : (p.perform call).player.updates =
    p.base p.updates call + (placings (events (p.perform call).signals)).length
  hook : (p.perform call).player.hook = call.rehook p.closed p.hook

theorem Counted.of_counts {k n : Nat} {call : Call α σ} {t : Turn α σ}
    (h : t.Counts p.hook k n) (hs : (p.perform call).signals = t.signals)
    (hu : (p.perform call).player.updates = t.player.updates)
    (hh : (p.perform call).player.hook = call.rehook p.closed p.hook)
    (hk : p.base p.updates call = k) : p.Counted call := by
  subst hk
  refine ⟨?_, ?_, hh⟩
  · rw [hs]
    exact h.called
  · rw [hu, hs, h.updates, h.placed]

/-- The call is performed by a turn. -/
theorem Counted.of_turn {k n : Nat} {call : Call α σ} {t : Turn α σ}
    {result : Except (Failure α) Unit} (h : t.Counts p.hook k n)
    (hp : p.perform call = ⟨t.player, t.signals, result⟩)
    (hh : call.rehook p.closed p.hook = p.hook)
    (hk : p.base p.updates call = k) : p.Counted call := by
  refine .of_counts h ?_ ?_ ?_ hk
  · rw [hp]
  · rw [hp]
  · rw [hp, hh]
    exact h.hook

theorem refused_start {speed : α} (h : p.closed = true ∨ Scalar.isPositive speed = false) :
    ∃ failure, p.perform (.start speed) = ⟨p, #[], .error failure⟩ := by
  rw [perform]
  split
  · exact ⟨_, rfl⟩
  · have hv : Scalar.isPositive speed = false := by simp_all
    exact ⟨_, if_pos (by rw [hv]; rfl)⟩

theorem Tallied.counted_start {speed : α} (h : p.Tallied) (ho : p.closed = false)
    (hv : Scalar.isPositive speed = true) : p.Counted (.start speed) := by
  have hp := perform_start ho hv
  rw [Turn.begin_eq] at hp
  have hl : Turn.Counts p.hook p.updates 0 (Turn.loadIfEmpty { player := p }) := by
    rcases p.counts_self.loadIfEmpty with hc | ⟨he, hc⟩
    · exact hc
    · rwa [h.blank he]
  cases hs : (Turn.loadIfEmpty { player := p }).player.segments[0]? with
  | none =>
    obtain ⟨h, he⟩ := hl.launch_of_none speed hs
    refine .of_turn h hp rfl (if_neg ?_)
    rw [rewinds, hp, he]
    exact Bool.false_ne_true
  | some first =>
    obtain ⟨h, he⟩ := hl.launch_of_some speed hs
    refine .of_turn h hp rfl (if_pos ?_)
    rw [rewinds, hp, he]
    rfl

theorem Tallied.counted (htally : p.Tallied) (call : Call α σ) : p.Counted call := by
  have h := p.counts_self
  have ht : ∃ n, Turn.Counts p.hook p.updates n (Turn.tick { player := p }) :=
    (Turn.Counts.stable p.hook p.updates).tick ⟨0, h⟩
  obtain ⟨n, ht⟩ := ht
  obtain ⟨t, result, htakes, hp⟩ := takes_perform p call
  cases htakes with
  | ignored hi =>
    cases call with
    | start speed =>
      obtain ⟨failure, hp⟩ := refused_start hi
      refine .of_turn h hp rfl (if_neg ?_)
      rw [rewinds, hp]
      exact Bool.false_ne_true
    | close =>
      have ho : p.closed = true := hi
      exact .of_turn h hp (by rw [Call.rehook, ho]; rfl) (by rw [base, rewinds, ho]; rfl)
    | load | setLoader | addObserver | setRemover | clearRemover | stop => exact hi.elim
    | _ => exact .of_turn h hp rfl rfl
  | load operations => exact .of_turn (h.load operations) hp rfl rfl
  | start ho hv => exact htally.counted_start ho hv
  | timer | step => exact .of_turn ht hp rfl rfl
  | pause | resume => exact .of_turn (h.setStatus _) hp rfl rfl
  | stop => exact .of_turn h.stop hp rfl rfl
  | @setSpeed speed hv =>
    have hs : Turn.Counts p.hook p.updates 0 { player := { p with speed } } := h.silent rfl rfl
    exact .of_turn hs hp rfl rfl
  | close ho =>
    refine .of_counts h.stop ?_ ?_ ?_ (by rw [base, rewinds, ho]; rfl)
    · rw [hp]
    · rw [hp]
      rfl
    · rw [hp]
      dsimp only
      rw [Turn.player_stop, Call.rehook, ho]
      rfl
  | _ => exact ⟨rfl, rfl, rfl⟩

/-! ## A run -/

/-- How often the marker was placed when it had been placed `k` times before some calls, since one
of these last loaded, stopped or started. -/
def ordinal (p : Player α σ) (k : Nat) : List (Call α σ) → Nat
  | [] => k
  | call :: calls =>
    (p.perform call).player.ordinal
      (p.base k call + (placings (events (p.perform call).signals)).length) calls

/-- A player keeps the count itself. -/
theorem Tallied.updates_after {calls : List (Call α σ)} (h : p.Tallied) :
    (p.after calls).updates = p.ordinal p.updates calls := by
  induction calls generalizing p with
  | nil => rfl
  | cons call calls ih =>
    rw [after_cons, ih (h.change (changes_perform p call)), ordinal, (h.counted call).updates]

end Player

end Toolpath.Playback
