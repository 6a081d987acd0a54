import Toolpath.Proofs.Playback.Lifecycle
import Toolpath.Proofs.Playback.View

/-!
# The operations a playback goes through

From its start to its end a playback enters the operations that have something to play, one after
the other, whatever number of them one tick crosses; the first is entered by the start itself. What
has been announced and what lies ahead of the cursor (`Player.ahead`) always add up to the same
list: a tick takes from the one what it adds to the other, and no other call touches either.
-/

namespace Toolpath.Playback

section Lists

variable {α : Type}

/-- The operations that some events announce, with their labels. -/
def crossings (events : List (Event α)) : List (Nat × String) :=
  events.filterMap fun
    | .operation index label => some (index, label)
    | _ => none

/-- The operations that have something to play, with their places from `n` on and their labels. -/
def itinerary (n : Nat) (operations : List (Operation α)) : List (Nat × String) :=
  (operations.zipIdx n).filterMap fun (o, i) => if o.log.isEmpty then none else some (i, o.label)

/-- The entries of a list that differ from the one before, the first of them from `c`. -/
def switches (c : Nat) : List Nat → List Nat
  | [] => []
  | x :: xs => if x = c then switches c xs else x :: switches x xs

theorem crossings_append (events more : List (Event α)) :
    crossings (events ++ more) = crossings events ++ crossings more := List.filterMap_append ..

@[simp] theorem switches_self (c : Nat) (xs : List Nat) : switches c (c :: xs) = switches c xs :=
  if_pos rfl

theorem switches_of_ne {c x : Nat} (h : x ≠ c) (xs : List Nat) :
    switches c (x :: xs) = x :: switches x xs := if_neg h

theorem switches_replicate (c n : Nat) (xs : List Nat) :
    switches c (List.replicate n c ++ xs) = switches c xs := by
  induction n with
  | zero => rfl
  | succ n ih => rw [List.replicate_succ, List.cons_append, switches_self, ih]

/-- The places of the operations that some moves belong to. -/
def places (segments : List (Segment α)) : List Nat := segments.map fun s => s.tag.operation

theorem places_stamped_cons (n : Nat) (o : Operation α) (operations : List (Operation α)) :
    places (stamped n (o :: operations)) =
      List.replicate o.log.toList.length n ++ places (stamped (n + 1) operations) := by
  rw [places, stamped, List.map_append, List.map_map]
  congr 1
  exact List.map_const' ..

theorem itinerary_cons_of_isEmpty {o : Operation α} (n : Nat) (h : o.log.isEmpty = true)
    (operations : List (Operation α)) :
    itinerary n (o :: operations) = itinerary (n + 1) operations := by
  simp [itinerary, List.zipIdx_cons, h]

theorem itinerary_cons {o : Operation α} (n : Nat) (h : o.log.isEmpty = false)
    (operations : List (Operation α)) :
    itinerary n (o :: operations) = (n, o.label) :: itinerary (n + 1) operations := by
  simp [itinerary, List.zipIdx_cons, h]

theorem length_eq_zero_of_isEmpty {log : Log α} (h : log.isEmpty = true) :
    log.toList.length = 0 := by
  simpa [Log.isEmpty, Log.toList] using h

theorem exists_length_of_isEmpty {log : Log α} (h : log.isEmpty = false) :
    ∃ k, log.toList.length = k + 1 := by
  refine Nat.exists_eq_succ_of_ne_zero ?_
  simpa [Log.isEmpty, Log.toList] using h

/-- Coming from an earlier operation, the moves switch to each operation that has any. -/
theorem switches_stamped {c n : Nat} (h : c < n) (operations : List (Operation α)) :
    switches c (places (stamped n operations)) = (itinerary n operations).map Prod.fst := by
  induction operations generalizing c n with
  | nil => rfl
  | cons o operations ih =>
    rw [places_stamped_cons]
    cases ho : o.log.isEmpty with
    | true =>
      rw [length_eq_zero_of_isEmpty ho, itinerary_cons_of_isEmpty n ho]
      exact ih (Nat.lt_succ_of_lt h)
    | false =>
      obtain ⟨k, hk⟩ := exists_length_of_isEmpty ho
      rw [hk, itinerary_cons n ho, List.replicate_succ, List.cons_append, switches_of_ne h.ne',
        switches_replicate, ih (Nat.lt_succ_self n)]
      rfl

/-- From the first move on they switch to each but the first operation that has any. -/
theorem switches_stamped_first {n : Nat} {operations : List (Operation α)} {first : Segment α}
    (h : (stamped n operations)[0]? = some first) :
    switches first.tag.operation (places (stamped n operations)) =
      (itinerary n operations).tail.map Prod.fst := by
  induction operations generalizing n with
  | nil => cases h
  | cons o operations ih =>
    rw [places_stamped_cons]
    cases ho : o.log.isEmpty with
    | true =>
      have hl := length_eq_zero_of_isEmpty ho
      rw [hl, itinerary_cons_of_isEmpty n ho]
      refine ih ?_
      rwa [stamped, List.length_eq_zero_iff.1 hl] at h
    | false =>
      obtain ⟨k, hk⟩ := exists_length_of_isEmpty ho
      have hn : first.tag.operation = n := by
        obtain ⟨s, rest, hs⟩ := List.exists_cons_of_length_eq_add_one hk
        rw [stamped, hs] at h
        cases h
        rfl
      rw [hn, switches_replicate, itinerary_cons n ho, switches_stamped (Nat.lt_succ_self n)]
      rfl

theorem label_of_mem_itinerary {operations : List (Operation α)} {i : Nat} {label : String}
    (h : (i, label) ∈ itinerary 0 operations) :
    (operations[i]?.map Operation.label).getD "" = label := by
  obtain ⟨⟨o, j⟩, hm, he⟩ := List.mem_filterMap.1 h
  dsimp only at he
  split at he
  · cases he
  · cases he
    rw [List.mem_zipIdx_iff_getElem?.1 hm]
    rfl

theorem le_of_mem_itinerary {n : Nat} {operations : List (Operation α)} {entry : Nat × String}
    (h : entry ∈ itinerary n operations) : n ≤ entry.1 := by
  obtain ⟨⟨o, i⟩, hm, he⟩ := List.mem_filterMap.1 h
  dsimp only at he
  split at he
  · cases he
  · cases he
    exact List.le_snd_of_mem_zipIdx hm

/-- An itinerary goes upwards, hence it has each operation once. -/
theorem itinerary_pairwise (n : Nat) (operations : List (Operation α)) :
    (itinerary n operations).Pairwise fun a b => a.1 < b.1 := by
  induction operations generalizing n with
  | nil => exact .nil
  | cons o operations ih =>
    cases ho : o.log.isEmpty with
    | true =>
      rw [itinerary_cons_of_isEmpty n ho]
      exact ih (n + 1)
    | false =>
      rw [itinerary_cons n ho]
      exact .cons (fun entry h => le_of_mem_itinerary h) (ih (n + 1))

end Lists

/-! ## What lies ahead -/

namespace Player

variable {α σ : Type} {p : Player α σ} {s : Segment α}

/-- An operation with its label. -/
def labelled (p : Player α σ) (i : Nat) : Nat × String :=
  (i, (p.operations[i]?.map Operation.label).getD "")

/-- The operations that will be announced before the cursor runs off the end. -/
def ahead (p : Player α σ) : List (Nat × String) :=
  (switches p.operation (places (p.segments.toList.drop p.index))).map p.labelled

theorem ahead_of_some (hs : p.segments[p.index]? = some s) :
    p.ahead = (switches p.operation
      (s.tag.operation :: places (p.segments.toList.drop (p.index + 1)))).map p.labelled := by
  obtain ⟨hi, hs⟩ := Array.getElem?_eq_some_iff.1 hs
  rw [ahead, List.drop_eq_getElem_cons (by simpa using hi), Array.getElem_toList, hs]
  rfl

theorem ahead_of_none (hs : p.segments[p.index]? = none) : p.ahead = [] := by
  rw [ahead, List.drop_eq_nil_of_le (by simpa using hs)]
  rfl

end Player

namespace Turn

variable {α σ : Type} {t : Turn α σ} {s : Segment α} {whole : List (Nat × String)}

theorem crossings_enter (t : Turn α σ) (operation : Nat) :
    crossings (events (t.enter operation).signals) =
      crossings (events t.signals) ++
        if t.player.operation = operation then [] else [t.player.labelled operation] := by
  rw [events_enter, crossings_append]
  split
  · rfl
  · rfl

theorem crossings_place [Remover σ α] (t : Turn α σ) (position : Point α) :
    crossings (events (t.place position).signals) = crossings (events t.signals) := by
  rw [events_place, crossings_append]
  exact List.append_nil _

theorem crossings_setStatus (t : Turn α σ) (status : Status) :
    crossings (events (t.setStatus status).signals) = crossings (events t.signals) := by
  rw [events_setStatus, crossings_append]
  split
  · exact List.append_nil _
  · exact List.append_nil _

theorem crossings_finish [Analytic α] (t : Turn α σ) :
    crossings (events t.finish.signals) = crossings (events t.signals) := by
  rw [finish, crossings_setStatus]
  dsimp only
  split
  · rfl
  · exact congrArg crossings (events_push_notice _)

/-- What was announced and what lies ahead add up; nothing lies ahead of a player that has
stopped. -/
structure Announces (whole : List (Nat × String)) (t : Turn α σ) : Prop where
  sum : crossings (events t.signals) ++ t.player.ahead = whole
  ended : t.player.status = .stopped → t.player.segments[t.player.index]? = none

namespace Announces

variable {t' : Turn α σ}

/-- Neither are events sent out nor does the cursor move. -/
theorem still (h : t.Announces whole)
    (hc : crossings (events t'.signals) = crossings (events t.signals))
    (ha : t'.player.ahead = t.player.ahead)
    (ho : t'.player.status = .stopped → t'.player.segments[t'.player.index]? = none) :
    t'.Announces whole := by
  refine ⟨?_, ho⟩
  rw [hc, ha]
  exact h.sum

/-- The operation under the cursor is taken from what lies ahead and announced, if it is another
one than before. -/
theorem enter (h : t.Announces whole) (hs : t.player.segments[t.player.index]? = some s) :
    (t.enter s.tag.operation).Announces whole := by
  have hp := player_enter t s.tag.operation
  by_cases ho : t.player.operation = s.tag.operation
  · refine h.still ?_ ?_ ?_
    · rw [crossings_enter, if_pos ho, List.append_nil]
    · rw [hp, ← ho]
    · rw [hp]
      exact h.ended
  · have ha : t.player.labelled s.tag.operation :: (t.enter s.tag.operation).player.ahead =
        t.player.ahead := by
      rw [Player.ahead_of_some hs, switches_of_ne (Ne.symm ho), hp,
        Player.ahead_of_some (p := { t.player with operation := s.tag.operation }) hs, switches_self]
      rfl
    refine ⟨?_, ?_⟩
    · rw [crossings_enter, if_neg ho, List.append_assoc, List.singleton_append, ha]
      exact h.sum
    · rw [hp]
      exact h.ended

/-- The cursor leaves a segment of the operation that was entered last. -/
theorem behind {along completed : α} (h : t.Announces whole)
    (hs : t.player.segments[t.player.index]? = some s) (ho : t.player.operation = s.tag.operation) :
    Announces whole
      { t with player := { t.player with index := t.player.index + 1, along, completed } } := by
  refine h.still rfl ?_ fun hstop => ?_
  · rw [Player.ahead_of_some hs, ← ho, switches_self]
    rfl
  · cases hs.symm.trans (h.ended hstop)

theorem place [Remover σ α] {position : Point α} (h : t.Announces whole) :
    (t.place position).Announces whole := by
  obtain ⟨remover, hp⟩ := player_place t position
  refine h.still (crossings_place t position) ?_ ?_
  · rw [hp]
    rfl
  · rw [hp]
    exact h.ended

/-- The status may change, but not to stopped. -/
theorem setStatus {status : Status} (h : t.Announces whole) (hs : status ≠ .stopped) :
    (t.setStatus status).Announces whole := by
  refine h.still (crossings_setStatus t status) ?_ fun hstop => ?_
  · rw [player_setStatus]
    rfl
  · rw [player_setStatus] at hstop
    exact absurd hstop hs

variable [Analytic α]

theorem finish (h : t.Announces whole) (hs : t.player.segments[t.player.index]? = none) :
    t.finish.Announces whole := by
  have hn : t.finish.player.segments[t.finish.player.index]? = none := by
    rw [player_finish]
    exact Array.getElem?_eq_none le_rfl
  refine h.still (crossings_finish t) ?_ fun _ => hn
  rw [Player.ahead_of_none hs, Player.ahead_of_none hn]

theorem advances [Remover σ α] {distance : α} {snapped : Option (Point α)}
    (ha : Advances t distance snapped t') (h : t.Announces whole) : t'.Announces whole := by
  induction ha with
  | @skips t t' s distance snapped hs hn ha ih =>
    have he := h.enter hs
    exact ih (he.behind (by rwa [player_enter]) (by rw [player_enter]))
  | @passes t t' s distance snapped hs hn hd ha ih =>
    have he := h.enter hs
    exact ih (he.behind (by rwa [player_enter]) (by rw [player_enter]))
  | @proceeds t s distance snapped hs hn hd =>
    have he := h.enter hs
    exact place (he.still rfl rfl he.ended)
  | @runsOut t distance snapped hs =>
    cases snapped with
    | none => exact h.finish hs
    | some position =>
      obtain ⟨remover, hp⟩ := player_place t position
      exact finish h.place (by rwa [hp])

theorem tick [Remover σ α] (h : t.Announces whole) : t.tick.Announces whole :=
  advances (advances_tick t) h

end Announces

end Turn

/-! ## A run -/

/-- Calls that neither load nor start, stop or close. -/
def Call.Continues {α σ : Type} : Call α σ → Prop
  | .load _ | .start _ | .stop | .close => False
  | _ => True

theorem Call.Continues.ne_close {α σ : Type} {call : Call α σ} (h : call.Continues) :
    call ≠ .close := by
  rintro rfl
  exact h

namespace Player

variable {α σ : Type} [Analytic α] {p p' : Player α σ} {call : Call α σ}
  {whole : List (Nat × String)}

/-- What lies ahead of a player that was just started: all operations but the first. -/
theorem ahead_started {speed : α} {first : Segment α} {remover : Option σ}
    (h : p.segments = (stamped 0 p.operations).toArray) (hs : p.segments[0]? = some first) :
    (p.started speed first remover).ahead = (itinerary 0 p.operations).tail := by
  have hf : (stamped 0 p.operations)[0]? = some first := by simpa [h] using hs
  have ha : (p.started speed first remover).ahead =
      (switches first.tag.operation (places (stamped 0 p.operations))).map p.labelled := by
    rw [ahead, started]
    dsimp only
    rw [h]
    rfl
  have hl : ∀ entry ∈ (itinerary 0 p.operations).tail, p.labelled entry.1 = entry := fun entry he =>
    Prod.ext rfl (label_of_mem_itinerary (List.mem_of_mem_tail he))
  calc
    (p.started speed first remover).ahead
      = (switches first.tag.operation (places (stamped 0 p.operations))).map p.labelled := ha
    _ = (itinerary 0 p.operations).tail.map fun entry => p.labelled entry.1 := by
      rw [switches_stamped_first hf, List.map_map]
      rfl
    _ = (itinerary 0 p.operations).tail.map id := List.map_congr_left hl
    _ = (itinerary 0 p.operations).tail := List.map_id _

variable [Remover σ α]

/-- A call that leaves playback going announces what it takes from what lies ahead. -/
theorem announces_perform (ho : p.status = .stopped → p.segments[p.index]? = none)
    (hp : call.Continues) :
    Turn.Announces p.ahead ⟨(p.perform call).player, (p.perform call).signals⟩ := by
  have h : Turn.Announces p.ahead { player := p } := ⟨rfl, ho⟩
  obtain ⟨t, result, ht, hreply⟩ := takes_perform p call
  rw [hreply]
  cases ht with
  | load | start | stop | close => exact hp.elim
  | timer | step => exact h.tick
  | pause | resume => exact h.setStatus (by decide)
  | _ => exact ⟨rfl, ho⟩

theorem crossings_heard {observer : Nat} {calls : List (Call α σ)}
    (hs : p.status = .stopped → p.segments[p.index]? = none) (ho : observer ∈ p.observers)
    (hc : ∀ call ∈ calls, call.Continues) :
    crossings (p.heard observer calls) ++ (p.after calls).ahead = p.ahead ∧
      ((p.after calls).status = .stopped → (p.after calls).ahead = []) := by
  induction calls generalizing p with
  | nil => exact ⟨rfl, fun h => ahead_of_none (hs h)⟩
  | cons call calls ih =>
    obtain ⟨hcall, hcalls⟩ := List.forall_mem_cons.1 hc
    have ha := announces_perform hs hcall
    have ho' : observer ∈ (p.perform call).player.observers := by
      rw [(changes_perform p call).observers_eq]
      exact Call.subset_attached hcall.ne_close _ _ ho
    obtain ⟨hsum, hend⟩ := ih ha.ended ho' hcalls
    refine ⟨?_, hend⟩
    rw [heard_cons, heard_perform, if_pos ho, crossings_append, List.append_assoc, after_cons, hsum]
    exact ha.sum

/-- From a start to the end of playback the operations that have something to play are announced,
each once and in order, but for the first, which the start enters; before the end, the first few
of them. -/
theorem crossings_after_start {config : Config α} {before calls : List (Call α σ)} {speed : α}
    {observer : Nat} {r : Reply α σ}
    (hr : ((new config).after before).perform (.start speed) = r) (hok : r.result = .ok ())
    (ho : observer ∈ r.player.observers) (hc : ∀ call ∈ calls, call.Continues) :
    let told := crossings (r.player.heard observer calls)
    let whole := (itinerary 0 r.player.operations).tail
    told <+: whole ∧ ((r.player.after calls).status = .stopped → told = whole) ∧
      whole.Pairwise fun a b => a.1 < b.1 := by
  subst hr
  obtain ⟨-, -, first, remover, hs, hp⟩ := start_ok hok
  have hseg := (stocked_after config (before ++ [.start speed])).segments
  rw [after_append, after_cons, after_nil, hp] at hseg
  rw [hp] at ho ⊢
  have ha : (((new config).after before).supplied.started speed first remover).ahead =
      (itinerary 0 ((new config).after before).supplied.operations).tail := ahead_started hseg hs
  obtain ⟨hsum, hend⟩ := crossings_heard (fun h => by cases h) ho hc
  rw [ha] at hsum
  refine ⟨⟨_, hsum⟩, fun hstop => ?_, (itinerary_pairwise 0 _).tail⟩
  rw [hend hstop, List.append_nil] at hsum
  exact hsum

/-- Two corners, with a stay on the spot and operations without a move between and before them. -/
noncomputable def stations : List (Operation ℝ) :=
  [⟨"none", {}⟩, corner, ⟨"spot", Log.ofList [⟨.feed, ⟨0, 0, 0⟩, ⟨0, 0, 0⟩, {}⟩]⟩, ⟨"none", {}⟩, corner]

/-- A player over the stations that ticks once a second and has one observer. -/
noncomputable def overStations : Player ℝ (List (Point ℝ)) :=
  (new ⟨1000000000, 1, 0⟩).after [.load stations, .addObserver 7]

theorem start_overStations :
    overStations.perform (.start 20) =
      ⟨overStations.started 20 ⟨.feed, ⟨0, 0, 0⟩, ⟨3, 0, 0⟩, { operation := 1 }⟩ none,
        #[.event ⟨[7], .operation 1 "Operation 1"⟩, .event ⟨[7], .moved ⟨0, 0, 0⟩ 1⟩,
          .event ⟨[7], .status .running⟩, .notice (.started 20 7)], .ok ()⟩ :=
  perform_start rfl (Scalar.isPositive_iff.2 (by norm_num))

theorem lengths_overStations : overStations.lengths = [3, 0, 4, 0, 3, 0, 4] := by
  calc
    overStations.lengths =
        corner.log.toList.map Segment.length ++
          Point.distance ⟨0, 0, 0⟩ ⟨0, 0, 0⟩ :: corner.log.toList.map Segment.length := rfl
    _ = [3, 0, 4, 0, 3, 0, 4] := by
      rw [lengths_corner]
      norm_num [Point.distance, Analytic.sqrt, Elementary.sqrt]

/-- One tick of a second at twenty millimetres a second takes in all there is. -/
theorem crossings_after_start_stations :
    let r := overStations.perform (.start 20)
    let told := crossings (r.player.heard 7 [.timer])
    r.result = .ok () ∧ 7 ∈ r.player.observers ∧ (r.player.after [.timer]).status = .stopped ∧
      told = [(2, "spot"), (4, "Operation 1")] := by
  intro r told
  have hr : r = _ := start_overStations
  have hd : ∀ s ∈ overStations.segments, Sharp s := by
    refine sharp_of_lengths ?_
    rw [lengths_overStations]
    norm_num [Segment.negligible, Scalar.tenth]
  have hready : r.player.Ready := by
    rw [hr]
    exact ⟨rfl, rfl, by norm_num [started], hd⟩
  have ha : r.player.Along 0 := by
    rw [hr]
    exact along_started hd
  have hl : r.player.lengths = [3, 0, 4, 0, 3, 0, 4] := by
    rw [hr]
    exact lengths_overStations
  have hg : r.player.distances [.timer] = [20] := by
    calc
      r.player.distances [.timer] = [20 * Config.seconds ⟨1000000000, 1, 0⟩] := by
        rw [hr]
        rfl
      _ = [20] := by norm_num [Config.seconds]
  have hp : ∀ call ∈ ([.timer] : List (Call ℝ (List (Point ℝ)))), call.Plays ∧ call.Continues := by
    intro call h
    rw [List.mem_singleton.1 h]
    exact ⟨trivial, trivial⟩
  have hstop : (r.player.after [.timer]).status = .stopped := by
    obtain ⟨hat, hready', hs⟩ :=
      hready.at_after ha (fun call h => (hp call h).1) (.inr (by simp [hg]))
    refine hat.stopped hready'.sharp ?_
    rw [lengths, hs, ← lengths, hl, hg]
    norm_num
  have ho : 7 ∈ r.player.observers := by
    rw [hr]
    exact List.mem_singleton_self 7
  have hok : r.result = .ok () := by rw [hr]
  obtain ⟨-, hw, -⟩ := crossings_after_start (r := r) rfl hok ho fun call h => (hp call h).2
  refine ⟨hok, ho, hstop, (hw hstop).trans ?_⟩
  rw [hr]
  rfl

end Player

end Toolpath.Playback
