import Mathlib.Tactic.NormNum.RealSqrt
import Toolpath.Proofs.Playback.Place

/-!
# The distance a player has gone

In exact arithmetic a player that was started is, once it has ticked, where the distances of its
ticks add up to, or off the end of its segments if they are no longer than that. The run is an
induction on its calls (`Player.Ready.at_after`): a tick is accounted for by the walk of the cursor,
and a call that is not a tick leaves the cursor alone.
-/

namespace Toolpath.Playback

namespace Player

variable {K σ : Type} [Field K] [LinearOrder K] [FloorSemiring K] [Elementary K]
  {p p' : Player K σ} {call : Call K σ} {gone : K}

/-! ## The length of the whole -/

theorem sum_lengths (ls : List K) : Log.sum ls = ls.sum := by
  rw [Log.sum, List.sum_eq_foldl]
  simp

theorem total_loaded (p : Player K σ) (operations : List (Operation K)) :
    (p.loaded operations).total = (p.loaded operations).lengths.sum := by
  simp only [loaded, lengths]
  exact sum_lengths _

theorem total_supplied (h : p.total = p.lengths.sum) :
    p.supplied.total = p.supplied.lengths.sum := by
  rcases p.supplied_eq with hp | ⟨loader, operations, hp⟩
  · rwa [hp]
  · rw [hp]
    exact total_loaded _ operations

/-- The length of the whole is always that of the segments together. -/
theorem total_after [Remover σ K] (config : Config K) (calls : List (Call K σ)) :
    ((new config).after calls : Player K σ).total = ((new config).after calls).lengths.sum := by
  refine after_induct (P := fun p => p.total = p.lengths.sum) (fun p call p' h hc => ?_) rfl calls
  cases hc with
  | load operations => exact total_loaded p operations
  | unloaded => exact total_supplied h
  | start => exact total_supplied h
  | timer hr ho ht => cases ht <;> exact h
  | step ho hs ht => cases ht <;> exact h
  | close => rfl
  | _ => exact h

/-! ## A player that has gone a distance -/

/-- The player has segments to play, and it is open. -/
structure Ready (p : Player K σ) : Prop where
  opened : p.closed = false
  loaded : p.segments.isEmpty = false
  speed_pos : 0 < p.speed
  sharp : ∀ s ∈ p.segments, Sharp s

section Went

variable [IsStrictOrderedRing K]

/-- Some distance was gone along segments of the given lengths, as far as they reach. -/
structure Went (lengths : List K) (distance : K) (p : Player K σ) : Prop where
  sum : p.completed + p.along = min distance lengths.sum
  progress : 0 < lengths.sum → p.progress = min distance lengths.sum / lengths.sum
  place : distance < lengths.sum →
    ∀ i along, PlaceAt lengths distance i along ↔ i = p.index ∧ along = p.along
  ended : lengths.sum ≤ distance →
    p.index = lengths.length ∧ p.along = 0 ∧ p.status = .stopped

theorem progress_within (h : p.Ready) (ht : p.total = p.lengths.sum)
    (hp : PlaceAt p.lengths gone p.index p.along) (hg : p.completed + p.along = gone) :
    p.progress = gone / p.lengths.sum := by
  obtain ⟨length, hl, hl0, h0, ha, -⟩ := id hp
  obtain ⟨s, hs, rfl⟩ := exists_of_getElem?_lengths hl
  have hi : p.index < p.segments.size := (Array.getElem?_eq_some_iff.1 hs).1
  have hn := lengths_nonneg h.sharp
  have hlt : Segment.negligible < p.lengths.sum := by
    calc
      Segment.negligible < s.length :=
        (h.sharp s (Array.mem_of_getElem? hs)).resolve_left hl0
      _ ≤ p.lengths.sum := List.single_le_sum hn _ (List.mem_of_getElem? hl)
  have hg0 : 0 ≤ gone := (List.sum_nonneg fun l hl => hn l (List.mem_of_mem_take hl)).trans
    hp.sum_take_le_distance
  have hsum : 0 < p.lengths.sum := negligible_pos.trans hlt
  rw [progress, if_neg (by simp [h.loaded]), if_neg (by omega), ht, if_neg (not_le.2 hlt), hg]
  exact Scalar.clampUnit_eq (div_nonneg hg0 hsum.le) ((div_le_one hsum).2 (hp.lt_sum hn).le)

theorem At.went (h : p.At gone) (hr : p.Ready) (ht : p.total = p.lengths.sum) :
    Went p.lengths gone p := by
  have hn := lengths_nonneg hr.sharp
  cases h with
  | within hp hc =>
    have hlt : gone < p.lengths.sum := hp.lt_sum hn
    have hg : p.completed + p.along = gone := by
      obtain ⟨-, -, -, -, -, hd⟩ := hp
      rwa [hc]
    refine ⟨?_, fun _ => ?_, fun _ i along => ⟨fun hp' => hp'.unique hn hp, ?_⟩, fun hle => ?_⟩
    · rw [min_eq_left hlt.le, hg]
    · rw [min_eq_left hlt.le, progress_within hr ht hp hg]
    · rintro ⟨rfl, rfl⟩
      exact hp
    · exact absurd hlt (not_lt.2 hle)
  | ended hi ha hs hc hd =>
    refine ⟨?_, fun hsum => ?_, fun hlt => ?_, fun _ => ⟨?_, ha, hs⟩⟩
    · rw [min_eq_right hd, ha, hc]
      exact add_zero _
    · rw [min_eq_right hd, div_self hsum.ne', progress, if_neg (by simp [hr.loaded]),
        if_pos hi.ge]
    · exact absurd hlt (not_lt.2 hd)
    · rw [hi, length_lengths]

end Went

end Player

/-! ## A run -/

/-- The calls by which playback is driven on. -/
def Call.Plays {α σ : Type} : Call α σ → Prop
  | .timer | .step | .pause | .resume | .setSpeed _ => True
  | _ => False

namespace Player

/-- A call makes the player tick. -/
def ticks {α σ : Type} (p : Player α σ) : Call α σ → Bool
  | .timer => p.status = .running
  | .step => true
  | _ => false

/-- The distances that the ticks among some calls are worth. -/
def distances {α σ : Type} [Analytic α] [Remover σ α] (p : Player α σ) : List (Call α σ) → List α
  | [] => []
  | call :: calls =>
    let rest := (p.perform call).player.distances calls
    if p.ticks call then p.speed * p.config.seconds :: rest else rest

section Distances

variable {α σ : Type} [Analytic α] [Remover σ α] {p : Player α σ} {call : Call α σ}
  {calls : List (Call α σ)}

theorem distances_of_ticks (ht : p.ticks call = true) :
    p.distances (call :: calls) =
      p.speed * p.config.seconds :: (p.perform call).player.distances calls :=
  if_pos ht

theorem distances_of_idle (ht : p.ticks call = false) :
    p.distances (call :: calls) = (p.perform call).player.distances calls :=
  if_neg (by simp [ht])

end Distances

variable {K σ : Type} [Field K] [LinearOrder K] [FloorSemiring K] [Elementary K]
  {p p' : Player K σ} {call : Call K σ} {gone : K}

theorem Ready.change (h : p.Ready) (hp : call.Plays) (hc : p.Changes call p') :
    p'.Ready ∧ p'.segments = p.segments := by
  cases hc with
  | ignored => exact ⟨h, rfl⟩
  | timer hr ho ht => cases ht <;> exact ⟨⟨h.opened, h.loaded, h.speed_pos, h.sharp⟩, rfl⟩
  | step ho hs ht => cases ht <;> exact ⟨⟨h.opened, h.loaded, h.speed_pos, h.sharp⟩, rfl⟩
  | pause => exact ⟨⟨h.opened, h.loaded, h.speed_pos, h.sharp⟩, rfl⟩
  | resume => exact ⟨⟨h.opened, h.loaded, h.speed_pos, h.sharp⟩, rfl⟩
  | setSpeed hv => exact ⟨⟨h.opened, h.loaded, Scalar.isPositive_iff.1 hv, h.sharp⟩, rfl⟩
  | _ => exact hp.elim

/-- A player that is not made to tick stays where it is. -/
theorem Changes.idle (hc : p.Changes call p') (hp : call.Plays) (ht : p.ticks call = false) :
    p'.segments = p.segments ∧ p'.index = p.index ∧ p'.along = p.along ∧
      p'.completed = p.completed ∧ (p.status = .stopped → p'.status = .stopped) := by
  cases hc with
  | ignored => exact ⟨rfl, rfl, rfl, rfl, id⟩
  | timer hr => simp [ticks, hr] at ht
  | step => simp [ticks] at ht
  | pause hr => exact ⟨rfl, rfl, rfl, rfl, fun h => by simp [hr] at h⟩
  | resume ho hs => exact ⟨rfl, rfl, rfl, rfl, fun h => by simp [hs] at h⟩
  | setSpeed => exact ⟨rfl, rfl, rfl, rfl, id⟩
  | _ => exact hp.elim

theorem Along.idle (h : p.Along gone) (hc : p.Changes call p') (hp : call.Plays)
    (ht : p.ticks call = false) : p'.Along gone := by
  obtain ⟨hs, hi, ha, hl, -⟩ := hc.idle hp ht
  have hls : p'.lengths = p.lengths := by rw [lengths, hs, lengths]
  constructor
  · rw [hl, hls, hi]
    exact h.completed
  · rw [ha]
    exact h.nonneg
  · rw [hs, hi, ha]
    exact h.le_length
  · rw [hs, hi, ha, hl]
    exact h.sum_eq
  · rw [hs, hi, ha, hl]
    exact h.ended

theorem At.idle (h : p.At gone) (hc : p.Changes call p') (hp : call.Plays)
    (ht : p.ticks call = false) : p'.At gone := by
  obtain ⟨hs, hi, ha, hl, ht⟩ := hc.idle hp ht
  have hls : p'.lengths = p.lengths := by rw [lengths, hs, lengths]
  cases h with
  | within hp hc =>
    refine .within ?_ ?_
    · rwa [hls, hi, ha]
    · rwa [hl, hls, hi]
  | ended hi' ha' hs' hc hd =>
    refine .ended ?_ (ha.trans ha') (ht hs') ?_ ?_
    · rwa [hi, hs]
    · rwa [hl, hls]
    · rwa [hls]

variable [Remover σ K]

theorem perform_of_ticks (h : p.Ready) (ht : p.ticks call = true) :
    (p.perform call).player = (Turn.tick { player := p }).player := by
  cases call with
  | timer =>
    rw [perform, if_pos ⟨of_decide_eq_true ht, by simp [h.opened]⟩]
    rfl
  | step =>
    rw [perform, if_neg (by simp [h.opened]), if_neg (by simp [h.loaded])]
    rfl
  | _ => cases ht

variable [IsStrictOrderedRing K]

theorem Along.tick (ha : p.Along gone) (h : p.Ready) (ht : p.ticks call = true) :
    (p.perform call).player.At (gone + p.speed * p.config.seconds) := by
  rw [perform_of_ticks h ht]
  exact (Turn.advances_tick { player := p }).at
    (mul_nonneg h.speed_pos.le p.config.seconds_nonneg) h.sharp ha

/-- Once a player is made to tick it is where its ticks take it. -/
theorem Ready.at_after {calls : List (Call K σ)} (h : p.Ready) (ha : p.Along gone)
    (hp : ∀ call ∈ calls, call.Plays) (hn : p.At gone ∨ p.distances calls ≠ []) :
    (p.after calls).At (gone + (p.distances calls).sum) ∧
      (p.after calls).Ready ∧ (p.after calls).segments = p.segments := by
  induction calls generalizing p gone with
  | nil =>
    have hat : p.At gone := hn.resolve_right fun h => h rfl
    refine ⟨?_, h, rfl⟩
    have hg : gone + (p.distances []).sum = gone := add_zero gone
    rw [after_nil, hg]
    exact hat
  | cons call calls ih =>
    obtain ⟨hc, hcs⟩ := List.forall_mem_cons.1 hp
    obtain ⟨h', hs⟩ := h.change hc (changes_perform p call)
    rw [after_cons]
    cases ht : p.ticks call with
    | true =>
      have hat := ha.tick h ht
      obtain ⟨hat', hr, hs'⟩ := ih h' hat.along hcs (.inl hat)
      refine ⟨?_, hr, hs'.trans hs⟩
      rw [distances_of_ticks ht, List.sum_cons, ← add_assoc]
      exact hat'
    | false =>
      rw [distances_of_idle ht] at hn ⊢
      obtain ⟨hat', hr, hs'⟩ := ih h' (ha.idle (changes_perform p call) hc ht) hcs
        (hn.imp_left fun h => h.idle (changes_perform p call) hc ht)
      exact ⟨hat', hr, hs'.trans hs⟩

/-- Once playback has started, its ticks add up: whatever they are interrupted by, the cursor is at
the one place at their distance from the start, or off the end if they reach that far. -/
theorem went_after_start {config : Config K} {before calls : List (Call K σ)} {speed : K}
    {r : Reply K σ} (hr : ((new config).after before).perform (.start speed) = r)
    (hok : r.result = .ok ()) (hd : ∀ s ∈ r.player.segments, Sharp s)
    (hc : ∀ call ∈ calls, call.Plays) (hn : r.player.distances calls ≠ []) :
    Went r.player.lengths (r.player.distances calls).sum (r.player.after calls) := by
  subst hr
  obtain ⟨ho, hv, first, remover, hs, hp⟩ := start_ok hok
  rw [hp] at hd hn ⊢
  have hready : (((new config).after before).supplied.started speed first remover).Ready :=
    ⟨(closed_supplied _).trans ho, decide_eq_false (Array.getElem?_eq_some_iff.1 hs).1.ne',
      Scalar.isPositive_iff.1 hv, hd⟩
  obtain ⟨hat, hready', hseg⟩ := hready.at_after (along_started hd) hc (.inr hn)
  have htotal := total_after (σ := σ) config (before ++ .start speed :: calls)
  rw [after_append, after_cons, hp] at htotal
  have hls : (((new config).after before).supplied.started speed first remover).lengths =
      ((((new config).after before).supplied.started speed first remover).after calls).lengths := by
    rw [lengths, lengths, hseg]
  rw [hls]
  exact (zero_add (M := K) _ ▸ hat).went hready' htotal

/-- Takes nothing away and remembers where it was called. -/
instance recorder {α : Type} : Remover (List (Point α)) α where
  removeAt places position := (position :: places, .ok ())

/-- Three millimetres, a move on the spot, and four millimetres. -/
def corner : Operation ℝ where
  label := "Operation 1"
  log := Log.ofList
    [⟨.feed, ⟨0, 0, 0⟩, ⟨3, 0, 0⟩, {}⟩, ⟨.feed, ⟨3, 0, 0⟩, ⟨3, 0, 0⟩, {}⟩,
      ⟨.feed, ⟨3, 0, 0⟩, ⟨3, 4, 0⟩, {}⟩]

theorem lengths_corner : corner.log.toList.map Segment.length = [3, 0, 4] := by
  norm_num [corner, Log.toList, Log.ofList, Segment.length, Point.distance, Analytic.sqrt,
    Elementary.sqrt]

/-- A player over the corner that ticks once a second. -/
noncomputable def overCorner : Player ℝ (List (Point ℝ)) :=
  (new ⟨1000000000, 1, 0⟩).after [.load [corner]]

theorem start_overCorner (observers : List Nat) :
    { overCorner with observers }.perform (.start 2) =
      ⟨{ overCorner with
          observers, speed := 2, status := .running, marker := some ⟨0, 0, 0⟩, updates := 1 },
        #[.event ⟨observers, .moved ⟨0, 0, 0⟩ 0⟩, .event ⟨observers, .status .running⟩,
          .notice (.started 2 3)], .ok ()⟩ :=
  perform_start rfl (Scalar.isPositive_iff.2 two_pos)

/-- Two and a half seconds at two millimetres a second go over the first two moves. -/
theorem went_after_start_corner :
    let r := ((new ⟨2500000000, 1, 0⟩ : Player ℝ (List (Point ℝ))).after [.load [corner]]).perform
      (.start 2)
    let calls : List (Call ℝ (List (Point ℝ))) := [.pause, .timer, .resume, .step]
    r.result = .ok () ∧ (∀ s ∈ r.player.segments, Sharp s) ∧ (∀ call ∈ calls, call.Plays) ∧
      r.player.distances calls = [5] ∧ r.player.lengths = [3, 0, 4] ∧
      Went [3, 0, 4] 5 (r.player.after calls) ∧
      (r.player.after calls).index = 2 ∧ (r.player.after calls).along = 2 := by
  intro r calls
  have hr : r = ⟨_, _, _⟩ := perform_start rfl (Scalar.isPositive_iff.2 two_pos)
  have hok : r.result = .ok () := by
    rw [hr]
    rfl
  have hl : r.player.lengths = [3, 0, 4] := by
    calc
      r.player.lengths = corner.log.toList.map Segment.length := by
        rw [hr]
        rfl
      _ = [3, 0, 4] := lengths_corner
  have hd : ∀ s ∈ r.player.segments, Sharp s := by
    intro s hs
    have hs' : s.length ∈ r.player.lengths :=
      List.mem_map.2 ⟨s, Array.mem_toList_iff.2 hs, rfl⟩
    rw [hl] at hs'
    simp only [List.mem_cons, List.not_mem_nil, or_false] at hs'
    rcases hs' with h | h | h <;> norm_num [Sharp, h, Segment.negligible, Scalar.tenth]
  have hc : ∀ call ∈ calls, call.Plays := by
    intro call h
    simp only [calls, List.mem_cons, List.not_mem_nil, or_false] at h
    rcases h with rfl | rfl | rfl | rfl <;> trivial
  have hg : r.player.distances calls = [5] := by
    calc
      r.player.distances calls = [2 * Config.seconds ⟨2500000000, 1, 0⟩] := by
        rw [hr]
        rfl
      _ = [5] := by norm_num [Config.seconds]
  have hn : r.player.distances calls ≠ [] := by simp [hg]
  have hw : Went [3, 0, 4] 5 (r.player.after calls) := by
    rw [← hl, ← List.sum_singleton (x := (5 : ℝ)), ← hg]
    exact went_after_start rfl hok hd hc hn
  have hp : PlaceAt [3, 0, 4] (5 : ℝ) 2 2 := ⟨4, rfl, by norm_num⟩
  obtain ⟨hi, ha⟩ := (hw.place (by norm_num) 2 2).1 hp
  exact ⟨hok, hd, hc, hg, hl, hw, hi.symm, ha.symm⟩

end Player

end Toolpath.Playback
