import Mathlib
import Toolpath.Proofs.Motion.Course
import Toolpath.Proofs.Number.Order

/-!
# Pecks

The moves of a pecking cycle are a round of plunge and retract for each of some depths. Over numbers
that are in a total order the depths go down from where the tool stands to the bottom of the hole
and never below it, however the depths between are rounded: `descent_of_pecks`. In exact arithmetic
the depths are a step apart, and what is refused is a step that is not above zero or too many of
them (`expand_peck_exact`).
-/

namespace Toolpath

/-- A number is not above the greater of anything and it. -/
theorem Scalar.le_greatest {α : Type} [Scalar α] {a b : α} (hb : b ≤ b) : b ≤ greatest a b := by
  rw [greatest]
  split
  case isTrue h => exact h
  case isFalse => exact hb

namespace Cycle

variable {α : Type} {tag : Tag} {start : Point α} {top x y z r q last : α} {left k : ℕ}
  {depths : List α} {moves : List (Segment α)}

/-! ## Rounds -/

/-- For each of some depths the plunge to it and the retract from it. The first plunge begins at
`start`, every other where the retract before it ends. -/
def rounds (tag : Tag) (start : Point α) (x y r : α) : List α → List (Segment α)
  | [] => []
  | depth :: rest => plunge tag start x y depth r ++ rounds tag ⟨x, y, r⟩ x y r rest

theorem length_rounds : (rounds tag start x y r depths).length = 2 * depths.length := by
  induction depths generalizing start with
  | nil => rfl
  | cons depth rest ih =>
    rw [rounds, List.length_append, ih, List.length_cons, plunge, List.length_cons,
      List.length_singleton]
    omega

theorem rounds_injective {more : List α} (h : rounds tag start x y r depths =
    rounds tag start x y r more) : depths = more := by
  induction depths generalizing start more with
  | nil =>
    cases more with
    | nil => rfl
    | cons depth more => cases h
  | cons depth rest ih =>
    cases more with
    | nil => cases h
    | cons depth' more =>
      obtain ⟨hplunge, hrest⟩ := List.append_inj h rfl
      cases hplunge
      rw [ih hrest]

theorem course_rounds (h : depths ≠ []) :
    Course start (rounds tag start x y r depths) ⟨x, y, r⟩ := by
  induction depths generalizing start with
  | nil => exact absurd rfl h
  | cons depth rest ih =>
    refine (course_plunge ..).append ?_
    cases rest with
    | nil => exact .nil _
    | cons depth' rest => exact ih (List.cons_ne_nil _ _)

/-! ## The way down -/

section Scalar

variable [Scalar α]

/-- Depths that lead from a height down to a bottom and no further. -/
structure Descent (top z : α) (depths : List α) : Prop where
  above : ∀ d ∈ depths, z ≤ d
  last : ∃ d, depths.getLast? = some d ∧ d ≤ z
  falling : z < top → (top :: depths).Pairwise (· > ·)

namespace Descent

theorem ne_nil (h : Descent top z depths) : depths ≠ [] := by
  rintro rfl
  obtain ⟨d, hd, -⟩ := h.last
  cases hd

variable [Scalar.Ordered α] {d : α}

/-- One peck that reaches the bottom. -/
theorem singleton (hz : z ≤ d) (hd : d ≤ z) : Descent top z [d] where
  above d' hd' := by rwa [List.mem_singleton.1 hd']
  last := ⟨d, rfl, hd⟩
  falling htop := List.pairwise_pair.2 (Scalar.Ordered.lt_of_le_of_lt hd htop)

/-- A peck that goes deeper but not to the bottom, before a descent from there. -/
theorem cons (hz : z < d) (htop : z < top → d < top) (h : Descent d z depths) :
    Descent top z (d :: depths) where
  above := List.forall_mem_cons.2 ⟨Scalar.Ordered.le_of_lt hz, h.above⟩
  last := by
    obtain ⟨d', hd', hle⟩ := h.last
    exact ⟨d', by rw [List.getLast?_cons, hd']; rfl, hle⟩
  falling hlt := by
    have hrest := h.falling hz
    refine List.pairwise_cons.2 ⟨List.forall_mem_cons.2 ⟨htop hlt, fun d' hd' ↦ ?_⟩, hrest⟩
    exact Scalar.Ordered.lt_trans (List.rel_of_pairwise_cons hrest hd') (htop hlt)

end Descent

variable [Scalar.Ordered α]

/-- Pecks go down to the bottom. By induction on the pecks that are left, with the depth that the
tool has been down to. -/
theorem descent_of_pecks (hz : z ≤ z) (hlast : last ≤ last) (hleft : 0 < left)
    (h : pecks tag top x y z r q left k start last = some moves) :
    ∃ depths, moves = rounds tag start x y r depths ∧ depths.length ≤ left ∧
      Descent last z depths := by
  induction left generalizing k start last moves with
  | zero => exact absurd hleft (lt_irrefl 0)
  | succ left ih =>
    rw [pecks] at h
    have hge : z ≤ if left = 0 then z else Scalar.greatest (top - q * (k : α)) z := by
      split
      · exact hz
      · exact Scalar.le_greatest hz
    have hbottom : left = 0 → (if left = 0 then z else Scalar.greatest (top - q * (k : α)) z) = z :=
      fun hzero ↦ if_pos hzero
    generalize (if left = 0 then z else Scalar.greatest (top - q * (k : α)) z) = depth at *
    split at h
    · cases h
    rename_i hdeeper
    split at h
    case isTrue hreached =>
      cases h
      exact ⟨[depth], (List.append_nil _).symm, Nat.le_add_left .., .singleton hge hreached⟩
    case isFalse habove =>
      obtain ⟨more, hmore, rfl⟩ := Option.map_eq_some_iff.1 h
      have hnumber := (Scalar.Ordered.le_self_of_le hge).2
      have hleft : 0 < left := by
        refine Nat.pos_of_ne_zero fun hzero ↦ habove ?_
        rw [hbottom hzero]
        exact hz
      obtain ⟨depths, rfl, hlength, hdescent⟩ := ih hnumber hleft hmore
      refine ⟨depth :: depths, rfl, Nat.succ_le_succ hlength, hdescent.cons ?_ fun hlt ↦ ?_⟩
      · exact Scalar.Ordered.lt_of_not_ge hz hnumber habove
      · exact Scalar.Ordered.lt_of_not_ge hnumber hlast fun hle ↦ hdeeper ⟨hle, hlt⟩

/-- What is asked of the moves of a pecked hole: a round for each of some depths, from where the
tool stands to above the hole. -/
structure Pecked (tag : Tag) (start : Point α) (x y z r : α) (depths : List α)
    (moves : List (Segment α)) : Prop extends Descent start.z z depths where
  moves_eq : moves = rounds tag start x y r depths
  length_eq : moves.length = 2 * depths.length
  course : Course start moves ⟨x, y, r⟩
  pos : 1 ≤ depths.length
  few : depths.length ≤ mostPecks
  /-- Where the tool does not stand above the bottom, one peck leads to it. -/
  single : start.z ≤ z → depths.length = 1

omit [Scalar.Ordered α] in
/-- What stands behind a pecked hole: the step is positive and the pecks are counted. -/
theorem expand_peck_eq_ok (h : (peck z r q).expand start x y tag = .ok moves) :
    Scalar.isPositive q = true ∧ max 1 (Scalar.ceil ((start.z - z) / q)) ≤ mostPecks ∧
      pecks tag start.z x y z r q (max 1 (Scalar.ceil ((start.z - z) / q))) 1 start start.z =
        some moves := by
  rw [expand] at h
  split at h
  case isFalse => cases h
  case isTrue hq =>
    split at h
    · rename_i hmoves
      cases h
      obtain ⟨n, hn, hpecks⟩ := Option.bind_eq_some_iff.1 hmoves
      rw [peckCount] at hn
      split at hn
      · cases hn
      · cases hn
        exact ⟨hq, Nat.le_of_not_lt ‹_›, hpecks⟩
    · cases h

theorem pecked_of_expand (hz : z ≤ z) (hstart : start.z ≤ start.z)
    (h : (peck z r q).expand start x y tag = .ok moves) :
    ∃ depths, Pecked tag start x y z r depths moves := by
  obtain ⟨hq, hfew, hpecks⟩ := expand_peck_eq_ok h
  obtain ⟨depths, hmoves, hlength, hdescent⟩ :=
    descent_of_pecks hz hstart (Nat.lt_of_lt_of_le Nat.one_pos (Nat.le_max_left ..)) hpecks
  have hpos := List.length_pos_iff.2 hdescent.ne_nil
  refine ⟨depths, hdescent, hmoves, hmoves ▸ length_rounds, ?_, hpos, hlength.trans hfew, ?_⟩
  · rw [hmoves]
    exact course_rounds hdescent.ne_nil
  · intro hle
    have hq : 0 < q := of_decide_eq_true (Bool.and_eq_true_iff.1 hq).2
    rw [Scalar.Ordered.ceil_sub_div hle hq] at hlength
    exact Nat.le_antisymm hlength hpos

end Scalar

/-! ## Exact arithmetic -/

section Exact

variable {K : Type} [Field K] [LinearOrder K] [IsStrictOrderedRing K] [FloorSemiring K]
  {top x y z r q last : K} {start : Point K} {moves : List (Segment K)}

/-- Depths a step apart, from the one with number `k` on, and the bottom. -/
def steps (top z q : K) (k left : ℕ) : List K :=
  (List.range' k left).map (fun i ↦ top - i * q) ++ [z]

/-- In exact arithmetic no peck is refused. By induction on the pecks before the last. -/
theorem pecks_exact (hq : 0 < q) (hlast : top - k * q < last)
    (habove : ∀ i < left, z < top - (k + i : ℕ) * q) :
    pecks tag top x y z r q (left + 1) k start last =
      some (rounds tag start x y r (steps top z q k left)) := by
  induction left generalizing k start last with
  | zero =>
    rw [pecks, if_pos rfl, if_neg (fun h ↦ h.1.not_gt h.2), if_pos le_rfl]
    exact congrArg some (List.append_nil _).symm
  | succ left ih =>
    have hz : z < top - k * q := habove 0 (Nat.succ_pos _)
    have hdepth : Scalar.greatest (top - q * (k : K)) z = top - k * q := by
      rw [Scalar.greatest, mul_comm, if_pos hz.le]
    rw [pecks, if_neg (Nat.succ_ne_zero _), hdepth, if_neg (fun h ↦ h.1.not_gt hlast),
      if_neg hz.not_ge, ih ?_ ?_]
    · rfl
    · push_cast
      linarith
    · intro i hi
      have := habove (i + 1) (Nat.succ_lt_succ hi)
      rwa [← add_assoc, add_right_comm] at this

/-- In exact arithmetic the depths are a step apart, and what is refused is a step that is not above
zero or too many of them. -/
theorem expand_peck_exact :
    (peck z r q).expand start x y tag = .ok moves ↔
      0 < q ∧ max 1 ⌈(start.z - z) / q⌉₊ ≤ mostPecks ∧
        moves = rounds tag start x y r
          (steps start.z z q 1 (max 1 ⌈(start.z - z) / q⌉₊ - 1)) := by
  have hpecks (hq : 0 < q) : pecks tag start.z x y z r q (max 1 ⌈(start.z - z) / q⌉₊) 1 start
      start.z = some (rounds tag start x y r
        (steps start.z z q 1 (max 1 ⌈(start.z - z) / q⌉₊ - 1))) := by
    obtain ⟨left, hleft⟩ := Nat.exists_eq_add_of_le' (Nat.le_max_left 1 ⌈(start.z - z) / q⌉₊)
    rw [hleft, Nat.add_sub_cancel]
    refine pecks_exact hq ?_ fun i hi ↦ ?_
    · rw [Nat.cast_one, one_mul]
      exact sub_lt_self _ hq
    · have hlt : 1 + i < ⌈(start.z - z) / q⌉₊ := by omega
      rw [Nat.lt_ceil, lt_div_iff₀ hq] at hlt
      linarith
  constructor
  · intro h
    obtain ⟨hq, hfew, h⟩ := expand_peck_eq_ok h
    have hq := Scalar.isPositive_iff.1 hq
    exact ⟨hq, hfew, Option.some.inj (h.symm.trans (hpecks hq))⟩
  · rintro ⟨hq, hfew, rfl⟩
    have hcount : peckCount start.z z q = some (max 1 ⌈(start.z - z) / q⌉₊) :=
      if_neg (Nat.not_lt_of_le hfew)
    rw [expand, if_pos (Scalar.isPositive_iff.2 hq), hcount, Option.bind_some, hpecks hq]

theorem pecked_steps (h : (peck z r q).expand start x y tag = .ok moves) :
    Pecked tag start x y z r (steps start.z z q 1 (max 1 ⌈(start.z - z) / q⌉₊ - 1)) moves := by
  obtain ⟨depths, hpecked⟩ := pecked_of_expand le_rfl le_rfl h
  have hmoves := (expand_peck_exact.1 h).2.2
  rwa [rounds_injective (hpecked.moves_eq.symm.trans hmoves)] at hpecked

end Exact

/-! ## Machine numbers -/

/-- A pecked hole is made of rounds that go down to the bottom and no further, at machine numbers as
in exact arithmetic. There the depths are a step apart, and exactly the steps are refused that are
not above zero or would be too many. The last depth at machine numbers is the bottom itself, but for
the sign of a zero. -/
theorem pecked_expand :
    (∀ (tag : Tag) (start : Point Float) (x y z r q : Float) (moves : List (Segment Float)),
      start.z.isFinite = true → z.isFinite = true →
      (peck z r q).expand start x y tag = .ok moves →
        ∃ depths bottom, Pecked tag start x y z r depths moves ∧
          depths.getLast? = some bottom ∧ (bottom = z ∨ (bottom == 0) = true ∧ (z == 0) = true)) ∧
    ∀ (K : Type) [Field K] [LinearOrder K] [IsStrictOrderedRing K] [FloorSemiring K] (tag : Tag)
      (start : Point K) (x y z r q : K),
      ((∃ moves, (peck z r q).expand start x y tag = .ok moves) ↔
        0 < q ∧ max 1 ⌈(start.z - z) / q⌉₊ ≤ mostPecks) ∧
      ∀ moves, (peck z r q).expand start x y tag = .ok moves →
        Pecked tag start x y z r (steps start.z z q 1 (max 1 ⌈(start.z - z) / q⌉₊ - 1)) moves := by
  refine ⟨fun tag start x y z r q moves hstart hz h ↦ ?_, fun K _ _ _ _ tag start x y z r q ↦ ?_⟩
  · obtain ⟨depths, hpecked⟩ := pecked_of_expand (Scalar.Ordered.le_self_of_isFinite hz)
      (Scalar.Ordered.le_self_of_isFinite hstart) h
    obtain ⟨bottom, hlast, hle⟩ := hpecked.last
    have hge := hpecked.above bottom (List.mem_of_getLast? hlast)
    exact ⟨depths, bottom, hpecked, hlast, Binary.eq_or_zero_of_le_of_ge hle hge⟩
  · refine ⟨⟨?_, ?_⟩, fun moves h ↦ pecked_steps h⟩
    · rintro ⟨moves, h⟩
      obtain ⟨hq, hfew, -⟩ := expand_peck_exact.1 h
      exact ⟨hq, hfew⟩
    · rintro ⟨hq, hfew⟩
      exact ⟨_, expand_peck_exact.2 ⟨hq, hfew, rfl⟩⟩

/-- Two pecks, the second short, and the same hole in rational numbers. -/
theorem pecked_expand_twice :
    (∃ depths bottom, Pecked {} ⟨0, 0, 2⟩ 1 1 (-1) 2 depths
        (rounds {} (⟨0, 0, 2⟩ : Point Float) 1 1 2 [0, -1]) ∧ depths.getLast? = some bottom ∧
        (bottom = -1 ∨ (bottom == 0) = true ∧ ((-1 : Float) == 0) = true)) ∧
      ∃ moves, (peck (-1 : ℚ) 2 2).expand ⟨0, 0, 2⟩ 1 1 {} = .ok moves ∧
        Pecked {} ⟨0, 0, 2⟩ 1 1 (-1) 2 [0, -1] moves := by
  have hcount : max 1 ⌈((2 : ℚ) - -1) / 2⌉₊ = 2 := by decide +kernel
  refine ⟨pecked_expand.1 {} ⟨0, 0, 2⟩ 1 1 (-1) 2 2 _ (by decide +kernel) (by decide +kernel)
    (by decide +kernel), ?_⟩
  obtain ⟨hok, hpecked⟩ := pecked_expand.2 ℚ {} ⟨0, 0, 2⟩ 1 1 (-1) 2 2
  obtain ⟨moves, hmoves⟩ := hok.2 ⟨two_pos, by rw [hcount]; decide⟩
  refine ⟨moves, hmoves, ?_⟩
  have hsteps : steps (2 : ℚ) (-1) 2 1 1 = [0, -1] := by decide +kernel
  have := hpecked moves hmoves
  rwa [hcount, hsteps] at this

end Cycle

end Toolpath
