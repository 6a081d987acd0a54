import Toolpath.Number.Machine
import Toolpath.Proofs.Playback.Itinerary

/-!
# The end of playback

However playback is driven on, paused and slowed down, it comes to an end in one state alone: the
cursor has gone along every segment that takes time, and the marker is at the end of the last of
them, or where playback began if there is none. A tick may cross several segments and carries the
end of the last one along until it knows whether it has run off the end. `Player.terminus` is where
the marker will be in the end, and no step of a tick changes it (`Turn.Advances.terminus_eq`); nor
does any other call that leaves playback going (`Underway.perform`).
-/

namespace Toolpath.Playback

/-! ## Segments that take time -/

section Segments

variable {α : Type} [Analytic α] {s : Segment α} {segments : List (Segment α)}

/-- The segments that playback does not pass over. -/
def lasting (segments : List (Segment α)) : List (Segment α) :=
  segments.filter fun s => !s.isNegligible

/-- How far playback goes along some segments. The lengths are added from the left. -/
def lastingLength (segments : List (Segment α)) : α :=
  ((lasting segments).map Segment.length).foldl (· + ·) 0

/-- Where the last segment ends that takes time. -/
def lastStop? (segments : List (Segment α)) : Option (Point α) :=
  (lasting segments).getLast?.map Segment.stop

theorem lasting_cons_of_negligible (hn : s.isNegligible = true) :
    lasting (s :: segments) = lasting segments :=
  List.filter_cons_of_neg (by simp [hn])

theorem lasting_cons (hn : s.isNegligible = false) :
    lasting (s :: segments) = s :: lasting segments :=
  List.filter_cons_of_pos (by simp [hn])

theorem lastStop?_cons_of_negligible (hn : s.isNegligible = true) :
    lastStop? (s :: segments) = lastStop? segments := by
  rw [lastStop?, lasting_cons_of_negligible hn, lastStop?]

theorem lastStop?_cons (hn : s.isNegligible = false) :
    lastStop? (s :: segments) = (lastStop? segments).or (some s.stop) := by
  rw [lastStop?, lasting_cons hn, List.getLast?_cons, lastStop?]
  cases (lasting segments).getLast? with
  | none => rfl
  | some last => rfl

theorem lasting_append (segments more : List (Segment α)) :
    lasting (segments ++ more) = lasting segments ++ lasting more := List.filter_append ..

theorem lastingLength_append_of_negligible (hn : s.isNegligible = true) :
    lastingLength (segments ++ [s]) = lastingLength segments := by
  have hnil : lasting ([] : List (Segment α)) = [] := rfl
  rw [lastingLength, lasting_append, lasting_cons_of_negligible hn, hnil, List.append_nil,
    lastingLength]

theorem lastingLength_append (hn : s.isNegligible = false) :
    lastingLength (segments ++ [s]) = lastingLength segments + s.length := by
  rw [lastingLength, lasting_append, lasting_cons hn, List.map_append, List.foldl_append]
  rfl

end Segments

namespace Player

section Cursor

variable {α σ : Type} {p : Player α σ} {s : Segment α}

/-- The segments before the cursor. -/
def passed (p : Player α σ) : List (Segment α) := p.segments.toList.take p.index

/-- The segments from the cursor on. -/
def upcoming (p : Player α σ) : List (Segment α) := p.segments.toList.drop p.index

theorem passed_succ (hs : p.segments[p.index]? = some s) :
    p.segments.toList.take (p.index + 1) = p.passed ++ [s] := by
  rw [List.take_add_one, Array.getElem?_toList, hs, passed]
  rfl

theorem upcoming_of_some (hs : p.segments[p.index]? = some s) :
    p.upcoming = s :: p.segments.toList.drop (p.index + 1) := by
  obtain ⟨hi, hs⟩ := Array.getElem?_eq_some_iff.1 hs
  rw [upcoming, List.drop_eq_getElem_cons (by simpa using hi), Array.getElem_toList, hs]

theorem upcoming_of_none (hs : p.segments[p.index]? = none) : p.upcoming = [] :=
  List.drop_eq_nil_of_le (by simpa using hs)

theorem passed_of_none (hs : p.segments[p.index]? = none) : p.passed = p.segments.toList :=
  List.take_of_length_le (by simpa using hs)

end Cursor

variable {α σ : Type} [Analytic α] {p : Player α σ} {s : Segment α}

/-- Where the marker will be when the cursor has run off the end, if the last segment that the tick
has passed by now ends at `snapped`. -/
def terminus (p : Player α σ) (snapped : Option (Point α)) : Option (Point α) :=
  ((lastStop? p.upcoming).or snapped).or p.marker

/-- The completed length is that of the segments before the cursor. -/
def Summed (p : Player α σ) : Prop := p.completed = lastingLength p.passed

theorem terminus_of_none (hs : p.segments[p.index]? = none) (snapped : Option (Point α)) :
    p.terminus snapped = snapped.or p.marker := by
  rw [terminus, upcoming_of_none hs]
  rfl

/-- What lies ahead decides where the marker comes to, as long as some of it takes time. -/
theorem terminus_of_lasting (hs : p.segments[p.index]? = some s) (hn : s.isNegligible = false)
    (snapped : Option (Point α)) :
    p.terminus snapped = (lastStop? (p.segments.toList.drop (p.index + 1))).or (some s.stop) := by
  rw [terminus, upcoming_of_some hs, lastStop?_cons hn]
  cases lastStop? (p.segments.toList.drop (p.index + 1)) with
  | none => rfl
  | some last => rfl

end Player

/-! ## A tick -/

namespace Turn

variable {α σ : Type} [Analytic α] [Remover σ α] {t t' : Turn α σ} {distance : α}
  {snapped : Option (Point α)}

theorem marker_runOut (t : Turn α σ) (snapped : Option (Point α)) :
    (t.runOut snapped).player.marker = snapped.or t.player.marker := by
  cases snapped with
  | none =>
    rw [runOut, player_finish]
    rfl
  | some position =>
    obtain ⟨remover, hp⟩ := player_place t position
    rw [runOut, player_finish, hp]
    rfl

/-- On its way a tick does not change where the marker comes to in the end. -/
theorem Advances.terminus_eq (h : Advances t distance snapped t') :
    t'.player.terminus none = t.player.terminus snapped := by
  induction h with
  | @skips t t' s distance snapped hs hn h ih =>
    rw [ih, player_skip, Player.terminus, Player.terminus, Player.upcoming_of_some hs,
      lastStop?_cons_of_negligible hn]
    rfl
  | @passes t t' s distance snapped hs hn hd h ih =>
    rw [ih, Player.terminus_of_lasting hs hn, player_pass, Player.terminus]
    dsimp only [Player.upcoming]
    cases lastStop? (t.player.segments.toList.drop (t.player.index + 1)) with
    | none => rfl
    | some last => rfl
  | @proceeds t s distance snapped hs hn hd =>
    obtain ⟨updates, remover, hp⟩ := player_proceed t s distance
    have hs' : (t.proceed s distance).player.segments[(t.proceed s distance).player.index]? =
        some s := by
      rw [hp]
      exact hs
    rw [Player.terminus_of_lasting hs hn, Player.terminus_of_lasting hs' hn, hp]
  | @runsOut t distance snapped hs =>
    have hm := marker_runOut t snapped
    obtain ⟨marker, updates, remover, hp⟩ := player_runOut t snapped
    rw [Player.terminus_of_none hs, ← hm, hp]
    exact Player.terminus_of_none (Array.getElem?_eq_none (Nat.le_refl _)) none

/-- A segment that the cursor leaves behind is added to the completed length if it takes time. -/
theorem Advances.summed (h : Advances t distance snapped t') (hp : t.player.Summed) :
    t'.player.Summed := by
  induction h with
  | @skips t t' s distance snapped hs hn h ih =>
    refine ih ?_
    rw [player_skip, Player.Summed, Player.passed]
    dsimp only
    rw [Player.passed_succ hs, lastingLength_append_of_negligible hn]
    exact hp
  | @passes t t' s distance snapped hs hn hd h ih =>
    refine ih ?_
    rw [player_pass, Player.Summed, Player.passed]
    dsimp only
    rw [Player.passed_succ hs, lastingLength_append hn, hp]
  | @proceeds t s distance snapped hs hn hd =>
    obtain ⟨updates, remover, heq⟩ := player_proceed t s distance
    rw [heq]
    exact hp
  | @runsOut t distance snapped hs =>
    obtain ⟨marker, updates, remover, heq⟩ := player_runOut t snapped
    rw [Player.Summed, Player.passed_of_none hs] at hp
    rw [heq, Player.Summed, Player.passed_of_none (Array.getElem?_eq_none (Nat.le_refl _))]
    exact hp

end Turn

/-! ## A run -/

namespace Player

variable {α σ : Type} [Analytic α] {p p' : Player α σ} {call : Call α σ}
  {segments : Array (Segment α)} {goal : Point α}

/-- Playback of the segments is on its way to the goal, or there. -/
structure Underway (segments : Array (Segment α)) (goal : Point α) (p : Player α σ) : Prop where
  opened : p.closed = false
  segments : p.segments = segments
  summed : p.Summed
  terminus : p.terminus none = some goal
  ended : p.status = .stopped → p.segments[p.index]? = none

/-- Playback has come to the end of the segments, and the marker to the goal. -/
structure Arrived (segments : Array (Segment α)) (goal : Point α) (p : Player α σ) : Prop where
  status : p.status = .stopped
  index : p.index = segments.size
  along : p.along = 0
  completed : p.completed = lastingLength segments.toList
  progress : p.progress = 1
  marker : p.marker = some goal

theorem underway_started {speed : α} (first : Segment α) {remover : Option σ}
    (ho : p.closed = false) :
    (p.started speed first remover).Underway p.segments
      ((lastStop? p.segments.toList).getD first.start) where
  opened := ho
  segments := rfl
  summed := rfl
  terminus := by
    change ((lastStop? p.segments.toList).or none).or (some first.start) = _
    cases lastStop? p.segments.toList with
    | none => rfl
    | some last => rfl
  ended := nofun

/-- Playback that has stopped on its way has arrived. -/
theorem Underway.arrived (h : p.Underway segments goal) (hl : p.Lawful)
    (hne : segments.isEmpty = false) (hs : p.status = .stopped) : p.Arrived segments goal := by
  have hnone := h.ended hs
  have hindex : p.index = p.segments.size :=
    Nat.le_antisymm hl.index_le (Array.getElem?_eq_none_iff.1 hnone)
  have hgoal := h.terminus
  have hsum := h.summed
  rw [terminus_of_none hnone] at hgoal
  rw [Summed, passed_of_none hnone] at hsum
  obtain rfl := h.segments
  refine ⟨hs, hindex, (hl.ended hindex).2, hsum, ?_, hgoal⟩
  rw [progress, if_neg (by simp [hne]), if_pos hindex.ge]

theorem Changes.keeps_segments (hc : p.Changes call p') (h : call.Continues) :
    p'.closed = p.closed ∧ p'.segments = p.segments := by
  cases hc with
  | load | unloaded | start | stop | close => exact h.elim
  | timer hr ho ht => cases ht <;> exact ⟨rfl, rfl⟩
  | step ho hs ht => cases ht <;> exact ⟨rfl, rfl⟩
  | _ => exact ⟨rfl, rfl⟩

variable [Remover σ α]

/-- A call that leaves playback going leaves it on its way. -/
theorem Underway.perform (h : p.Underway segments goal) (hc : call.Continues) :
    (p.perform call).player.Underway segments goal := by
  obtain ⟨hclosed, hsegments⟩ := (changes_perform p call).keeps_segments hc
  have hway : (p.perform call).player.Summed ∧
      (p.perform call).player.terminus none = p.terminus none := by
    obtain ⟨t, result, ht, hp⟩ := takes_perform p call
    rw [hp]
    cases ht with
    | load | start | stop | close => exact hc.elim
    | timer | step =>
      have ha := Turn.advances_tick { player := p }
      exact ⟨ha.summed h.summed, ha.terminus_eq⟩
    | pause | resume =>
      rw [Turn.player_setStatus]
      exact ⟨h.summed, rfl⟩
    | _ => exact ⟨h.summed, rfl⟩
  constructor
  · exact hclosed.trans h.opened
  · exact hsegments.trans h.segments
  · exact hway.1
  · exact hway.2.trans h.terminus
  · exact (announces_perform h.ended hc).ended

theorem Underway.after {calls : List (Call α σ)} (h : p.Underway segments goal)
    (hc : ∀ call ∈ calls, call.Continues) : (p.after calls).Underway segments goal := by
  induction calls generalizing p with
  | nil => exact h
  | cons call calls ih =>
    obtain ⟨hcall, hcalls⟩ := List.forall_mem_cons.1 hc
    exact ih (h.perform hcall) hcalls

/-- A step behind all segments does nothing at all. -/
theorem Arrived.perform_step (h : p.Arrived p.segments goal) (ho : p.closed = false)
    (hne : p.segments.isEmpty = false) : p.perform .step = ⟨p, #[], .ok ()⟩ := by
  have hnone : p.segments[p.index]? = none := Array.getElem?_eq_none h.index.ge
  have hturn : (Turn.tick { player := p } : Turn α σ) = { player := p } := by
    rw [Turn.tick, Turn.advance_runOut hnone, Turn.runOut, Turn.finish]
    dsimp only
    rw [if_pos h.status, Turn.setStatus, if_pos h.status, ← h.index, ← h.along]
  rw [perform, if_neg (by simp [ho]), if_neg (by simp [hne]), hturn]
  rfl

/-- Playback that has arrived does not go on by itself. -/
theorem Arrived.stopped_perform (h : p.Arrived p.segments goal) (ho : p.closed = false)
    (hne : p.segments.isEmpty = false) (hc : call.Continues) :
    (p.perform call).player.status = .stopped := by
  have hchange := changes_perform p call
  generalize hp' : (p.perform call).player = p' at hchange ⊢
  cases hchange with
  | load | unloaded | start | stop | close => exact hc.elim
  | timer hr | pause hr => cases hr.symm.trans h.status
  | resume _ hr => cases hr.symm.trans h.status
  | step =>
    rw [← hp', h.perform_step ho hne]
    exact h.status
  | _ => exact h.status

theorem stopped_after {calls : List (Call α σ)} (h : p.Underway segments goal) (hl : p.Lawful)
    (hne : segments.isEmpty = false) (hs : p.status = .stopped)
    (hc : ∀ call ∈ calls, call.Continues) : (p.after calls).status = .stopped := by
  induction calls generalizing p with
  | nil => exact hs
  | cons call calls ih =>
    obtain ⟨hcall, hcalls⟩ := List.forall_mem_cons.1 hc
    have harrived := h.arrived hl hne hs
    refine ih (h.perform hcall) (hl.change (changes_perform p call)) ?_ hcalls
    obtain rfl := h.segments
    exact harrived.stopped_perform h.opened hne hcall

/-- However playback is driven on after it was started, it goes on until it has gone along every
segment that takes time. Then it stops with the marker at the end of the last of these, or at the
start of the first segment if there are none, and it stays so, whatever it is called for other than
to load, start, stop or close; a step more does nothing. -/
theorem arrived_after_start {config : Config α} {before calls : List (Call α σ)} {speed : α}
    {r : Reply α σ} (hr : ((new config).after before).perform (.start speed) = r)
    (hok : r.result = .ok ()) (hc : ∀ call ∈ calls, call.Continues) :
    let p := r.player.after calls
    ∃ first, r.player.segments[0]? = some first ∧
      let goal := (lastStop? r.player.segments.toList).getD first.start
      (p.status ≠ .stopped → p.index < r.player.segments.size) ∧
      (p.status = .stopped →
        p.Arrived r.player.segments goal ∧ p.perform .step = ⟨p, #[], .ok ()⟩ ∧
          ∀ more : List (Call α σ), (∀ call ∈ more, call.Continues) →
            (p.after more).Arrived r.player.segments goal) := by
  subst hr
  obtain ⟨ho, -, first, remover, hs, hp⟩ := start_ok hok
  have hlawful : ∀ more, ((((new config).after before).perform (.start speed)).player.after
      more).Lawful := by
    intro more
    have h := lawful_after config (before ++ .start speed :: more)
    rwa [after_append, after_cons] at h
  rw [hp] at hlawful ⊢
  have hway : (((new config).after before).supplied.started speed first remover).Underway _ _ :=
    underway_started first ((closed_supplied _).trans ho)
  have hne : ((new config).after before).supplied.segments.isEmpty = false :=
    decide_eq_false (Array.getElem?_eq_some_iff.1 hs).1.ne'
  have hp := hway.after hc
  refine ⟨first, hs, fun hplays => ?_, fun hstop => ?_⟩
  · have hi := ((hlawful calls).playing hplays).2.1
    rwa [hp.segments] at hi
  · have harrived := hp.arrived (hlawful calls) hne hstop
    refine ⟨harrived, ?_, fun more hmore => ?_⟩
    · rw [← hp.segments] at harrived hne
      exact harrived.perform_step hp.opened hne
    · have hl := hlawful (calls ++ more)
      rw [after_append] at hl
      exact (hp.after hmore).arrived hl hne (stopped_after hp (hlawful calls) hne hstop hmore)

/-- A millimetre in one operation, two more in the next, and a stay where they end. -/
def lingering : List (Operation Float) :=
  [⟨"A", Log.ofList [⟨.feed, ⟨0, 0, 0⟩, ⟨1, 0, 0⟩, {}⟩]⟩,
    ⟨"B", Log.ofList [⟨.feed, ⟨1, 0, 0⟩, ⟨3, 0, 0⟩, {}⟩, ⟨.feed, ⟨3, 0, 0⟩, ⟨3, 0, 0⟩, {}⟩]⟩]

/-- The first tick ends within the second segment, the next one beyond all of them. -/
theorem arrived_after_start_lingering :
    let r := ((new ⟨1000000000, 1, 0⟩ : Player Float (List (Point Float))).after
      [.load lingering]).perform (.start 2)
    let calls := [.timer, .pause, .step]
    let p := r.player.after calls
    r.result = .ok () ∧ (∀ call ∈ calls, call.Continues) ∧ p.status = .stopped ∧
      p.Arrived r.player.segments ⟨3, 0, 0⟩ := by
  intro r calls p
  have hok : r.result = .ok () := rfl
  have hc : ∀ call ∈ calls, call.Continues := by
    intro call h
    simp only [calls, List.mem_cons, List.not_mem_nil, or_false] at h
    rcases h with rfl | rfl | rfl <;> trivial
  have hstop : p.status = .stopped := by decide +kernel
  obtain ⟨first, hf, -, harrived⟩ := arrived_after_start rfl hok hc
  have hgoal : lastStop? r.player.segments.toList = some ⟨3, 0, 0⟩ := by decide +kernel
  have hp := (harrived hstop).1
  rw [hgoal] at hp
  exact ⟨hok, hc, hstop, hp⟩

end Player

end Toolpath.Playback
