import Mathlib.Algebra.Order.BigOperators.Group.List
import Mathlib.Tactic.Linarith
import Mathlib.Tactic.Ring
import Toolpath.Number.Exact
import Toolpath.Proofs.Playback.Turn

/-!
# Places along segments

A distance from the start of some segments is a place along them, a segment and how far along it,
and there is no other place at that distance. In exact arithmetic a tick takes the cursor from the
place of one distance to the place of the next, however many ends of segments lie in between
(`Turn.Advances.at`): no distance is lost or gained there. The induction is on the walk of the
cursor; what it carries is that the completed lengths are those of the segments behind.
-/

namespace Toolpath.Playback

/-! ## Lengths and places -/

section Places

theorem sum_take_succ {K : Type} [AddMonoid K] {lengths : List K} {length : K} {i : Nat}
    (h : lengths[i]? = some length) :
    (lengths.take (i + 1)).sum = (lengths.take i).sum + length := by
  rw [List.take_add_one, h, List.sum_append]
  simp

variable {K : Type} [Field K] [LinearOrder K] [IsStrictOrderedRing K]

/-- The place at a distance along segments of the given lengths: a segment that is not a point, and
how far along it. -/
def PlaceAt (lengths : List K) (distance : K) (i : Nat) (along : K) : Prop :=
  ∃ length, lengths[i]? = some length ∧ length ≠ 0 ∧ 0 ≤ along ∧ along < length ∧
    (lengths.take i).sum + along = distance

variable {lengths : List K} {distance along along' : K} {i j : Nat}

theorem sum_take_mono (h : ∀ length ∈ lengths, 0 ≤ length) (hij : i ≤ j) :
    (lengths.take i).sum ≤ (lengths.take j).sum :=
  (List.take_sublist_take_left hij).sum_le_sum fun _ hl => h _ (List.mem_of_mem_take hl)

theorem sum_take_le (h : ∀ length ∈ lengths, 0 ≤ length) (i : Nat) :
    (lengths.take i).sum ≤ lengths.sum :=
  (List.take_sublist i lengths).sum_le_sum h

/-- A place lies before the end of its segment, hence before everything that comes after. -/
theorem PlaceAt.lt_sum_take (h : ∀ length ∈ lengths, 0 ≤ length)
    (hp : PlaceAt lengths distance i along) (hij : i < j) : distance < (lengths.take j).sum := by
  obtain ⟨length, hl, -, -, ha, hd⟩ := hp
  calc
    distance = (lengths.take i).sum + along := hd.symm
    _ < (lengths.take i).sum + length := by linarith
    _ = (lengths.take (i + 1)).sum := (sum_take_succ hl).symm
    _ ≤ (lengths.take j).sum := sum_take_mono h hij

theorem PlaceAt.sum_take_le_distance (hp : PlaceAt lengths distance i along) :
    (lengths.take i).sum ≤ distance := by
  obtain ⟨length, -, -, h0, -, hd⟩ := hp
  linarith

/-- There is one place at a distance at most. -/
theorem PlaceAt.unique (h : ∀ length ∈ lengths, 0 ≤ length)
    (hp : PlaceAt lengths distance i along) (hp' : PlaceAt lengths distance j along') :
    i = j ∧ along = along' := by
  have hij : i = j := by
    rcases Nat.lt_trichotomy i j with hij | hij | hij
    · exact absurd (hp.lt_sum_take h hij) (not_lt.2 hp'.sum_take_le_distance)
    · exact hij
    · exact absurd (hp'.lt_sum_take h hij) (not_lt.2 hp.sum_take_le_distance)
  subst hij
  obtain ⟨-, -, -, -, -, hd⟩ := hp
  obtain ⟨-, -, -, -, -, hd'⟩ := hp'
  exact ⟨rfl, by linarith⟩

theorem PlaceAt.lt_sum (h : ∀ length ∈ lengths, 0 ≤ length)
    (hp : PlaceAt lengths distance i along) : distance < lengths.sum :=
  (hp.lt_sum_take h (Nat.lt_succ_self i)).trans_le (sum_take_le h _)

end Places

section Lengths

variable {K σ : Type} [Field K] [LinearOrder K] [FloorSemiring K] [Elementary K] {s : Segment K}
  {p : Player K σ} {i : Nat}

/-- A segment is a point or too long to be passed over. -/
def Sharp (s : Segment K) : Prop := s.length = 0 ∨ Segment.negligible < s.length

theorem Sharp.length_eq_zero (h : Sharp s) (hn : s.isNegligible = true) : s.length = 0 := by
  rcases h with h | h
  · exact h
  · exact absurd (of_decide_eq_true hn) (not_le.2 h)

/-- The lengths of the segments. -/
def Player.lengths (p : Player K σ) : List K := p.segments.toList.map Segment.length

theorem Player.length_lengths (p : Player K σ) : p.lengths.length = p.segments.size := by
  simp [Player.lengths]

theorem Player.getElem?_lengths (hs : p.segments[i]? = some s) :
    p.lengths[i]? = some s.length := by
  simp [Player.lengths, hs]

theorem Player.sharp_of_lengths (h : ∀ length ∈ p.lengths, length = 0 ∨ Segment.negligible < length) :
    ∀ s ∈ p.segments, Sharp s := fun s hs =>
  h _ (List.mem_map.2 ⟨s, Array.mem_toList_iff.2 hs, rfl⟩)

theorem Player.exists_of_getElem?_lengths {length : K} (h : p.lengths[i]? = some length) :
    ∃ s, p.segments[i]? = some s ∧ s.length = length := by
  simpa [Player.lengths] using h

variable [IsStrictOrderedRing K]

theorem negligible_pos : (0 : K) < Segment.negligible := by
  rw [Segment.negligible, Scalar.tenth]
  positivity

theorem Config.seconds_nonneg (config : Config K) : 0 ≤ config.seconds := by
  rw [seconds]
  positivity

theorem Sharp.length_nonneg (h : Sharp s) : 0 ≤ s.length := by
  rcases h with h | h
  · exact h.ge
  · exact (negligible_pos.trans h).le

theorem length_ne_zero (hn : s.isNegligible = false) : s.length ≠ 0 := by
  intro h
  have hlt : Segment.negligible < s.length := not_le.1 (of_decide_eq_false hn)
  rw [h] at hlt
  exact absurd hlt (not_lt.2 negligible_pos.le)

theorem Player.lengths_nonneg (hd : ∀ s ∈ p.segments, Sharp s) :
    ∀ length ∈ p.lengths, 0 ≤ length := by
  intro length h
  obtain ⟨s, hs, rfl⟩ := List.mem_map.1 h
  exact (hd s (Array.mem_toList_iff.1 hs)).length_nonneg

end Lengths

/-! ## A tick -/

section Tick

variable {K σ : Type} [Field K] [LinearOrder K] [FloorSemiring K] [Elementary K]
  {p : Player K σ} {distance : K}

namespace Player

/-- The cursor has come a distance: the lengths behind it and its place along its segment add up to
that, and behind the last segment they add up to no more. -/
structure Along (p : Player K σ) (distance : K) : Prop where
  completed : p.completed = (p.lengths.take p.index).sum
  nonneg : 0 ≤ p.along
  le_length : ∀ s, p.segments[p.index]? = some s → p.along ≤ s.length
  sum_eq : ∀ s, p.segments[p.index]? = some s → p.completed + p.along = distance
  -- Ticks go on behind the last segment, where no length is left for them: hence no equation here.
  ended : p.segments[p.index]? = none → p.along = 0 ∧ p.completed ≤ distance

/-- The cursor is at the place of a distance, or playback is over and the segments are no longer
than that. -/
inductive At (p : Player K σ) (distance : K) : Prop where
  | within (hp : PlaceAt p.lengths distance p.index p.along)
      (hc : p.completed = (p.lengths.take p.index).sum)
  | ended (hi : p.index = p.segments.size) (ha : p.along = 0) (hs : p.status = .stopped)
      (hc : p.completed = p.lengths.sum) (hd : p.lengths.sum ≤ distance)

theorem At.along (h : p.At distance) : p.Along distance := by
  cases h with
  | within hp hc =>
    obtain ⟨length, hl, -, h0, ha, hd⟩ := hp
    obtain ⟨s, hs, rfl⟩ := exists_of_getElem?_lengths hl
    refine ⟨hc, h0, fun s' hs' => ?_, fun _ _ => hc ▸ hd, fun hn => ?_⟩
    · cases hs.symm.trans hs'
      exact ha.le
    · cases hs.symm.trans hn
  | ended hi ha _ hc hd =>
    have hn : p.segments[p.index]? = none := Array.getElem?_eq_none hi.ge
    refine ⟨?_, ha.ge, fun s hs => ?_, fun s hs => ?_, fun _ => ⟨ha, hc.trans_le hd⟩⟩
    · rw [hc, List.take_of_length_le (by rw [length_lengths, hi])]
    · cases hn.symm.trans hs
    · cases hn.symm.trans hs

variable [IsStrictOrderedRing K]

/-- A distance that takes in all segments leads off their end. -/
theorem At.stopped (h : p.At distance) (hd : ∀ s ∈ p.segments, Sharp s)
    (hle : p.lengths.sum ≤ distance) : p.status = .stopped := by
  cases h with
  | within hp hc => exact absurd (hp.lt_sum (lengths_nonneg hd)) (not_lt.2 hle)
  | ended hi ha hs hc hd => exact hs

/-- Behind a segment the lengths add up to its end. -/
theorem along_behind {s : Segment K} {completed : K} {operation : Nat}
    (hd : ∀ s ∈ p.segments, Sharp s) (hs : p.segments[p.index]? = some s)
    (hp : p.completed = (p.lengths.take p.index).sum) (hc : completed = p.completed + s.length) :
    { p with operation, index := p.index + 1, along := 0, completed }.Along completed where
  completed := by
    refine hc.trans ?_
    rw [hp]
    exact (sum_take_succ (getElem?_lengths hs)).symm
  nonneg := le_rfl
  le_length s' hs' := (hd s' (Array.mem_of_getElem? hs')).length_nonneg
  sum_eq _ _ := add_zero completed
  ended _ := ⟨rfl, le_rfl⟩

theorem along_started {speed : K} {first : Segment K} {remover : Option σ}
    (hd : ∀ s ∈ p.segments, Sharp s) : (p.started speed first remover).Along 0 where
  completed := rfl
  nonneg := le_rfl
  le_length s hs := (hd s (Array.mem_of_getElem? hs)).length_nonneg
  sum_eq _ _ := add_zero 0
  ended _ := ⟨rfl, le_rfl⟩

end Player

namespace Turn

variable [IsStrictOrderedRing K] [Remover σ K] {t t' : Turn K σ} {gone : K}
  {snapped : Option (Point K)}

/-- The walk of the cursor takes it on by just the distance it is given. -/
theorem Advances.at (h : Advances t distance snapped t') (h0 : 0 ≤ distance)
    (hd : ∀ s ∈ t.player.segments, Sharp s) (ha : t.player.Along gone) :
    t'.player.At (gone + distance) := by
  induction h generalizing gone with
  | @skips t t' s distance snapped hs hn h ih =>
    -- The segment is a point, so the cursor stands on it and leaves nothing of it behind.
    have hl : s.length = 0 := (hd s (Array.mem_of_getElem? hs)).length_eq_zero hn
    have h0' : t.player.along = 0 := le_antisymm (hl ▸ ha.le_length s hs) ha.nonneg
    have hg : t.player.completed = gone := by
      rw [← ha.sum_eq s hs, h0']
      exact (add_zero _).symm
    rw [← hg]
    refine ih h0 (by rwa [player_skip]) ?_
    rw [player_skip]
    exact Player.along_behind hd hs ha.completed (by rw [hl]; exact (add_zero _).symm)
  | @passes t t' s distance snapped hs hn hlt h ih =>
    have hle : s.length - t.player.along ≤ distance := not_lt.1 hlt
    have hg : gone + distance =
        t.player.completed + s.length + (distance - (s.length - t.player.along)) := by
      rw [← ha.sum_eq s hs]
      ring
    rw [hg]
    refine ih (sub_nonneg.2 hle) (by rwa [player_pass]) ?_
    rw [player_pass]
    exact Player.along_behind hd hs ha.completed rfl
  | @proceeds t s distance snapped hs hn hlt =>
    obtain ⟨updates, remover, hp⟩ := player_proceed t s distance
    rw [hp]
    have hlt' : t.player.along + distance < s.length := by linarith
    have hg : (t.player.lengths.take t.player.index).sum + (t.player.along + distance) =
        gone + distance := by
      rw [← ha.completed, ← ha.sum_eq s hs]
      ring
    exact .within ⟨s.length, Player.getElem?_lengths hs, length_ne_zero hn,
      add_nonneg ha.nonneg h0, hlt', hg⟩ ha.completed
  | @runsOut t distance snapped hs =>
    obtain ⟨marker, updates, remover, hp⟩ := player_runOut t snapped
    have hi : t.player.segments.size ≤ t.player.index := Array.getElem?_eq_none_iff.1 hs
    have hc : t.player.completed = t.player.lengths.sum := by
      rw [ha.completed, List.take_of_length_le (by rwa [Player.length_lengths])]
    rw [hp]
    refine .ended rfl rfl rfl hc ?_
    calc
      t.player.lengths.sum = t.player.completed := hc.symm
      _ ≤ gone := (ha.ended hs).2
      _ ≤ gone + distance := le_add_of_nonneg_right h0

end Turn

end Tick

end Toolpath.Playback
