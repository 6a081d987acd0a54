import Toolpath.Proofs.Number.Sum
import Toolpath.Proofs.Playback.Turn
import Toolpath.Proofs.Run.Move
import Toolpath.Proofs.Stock.Admission

/-!
# Settings in use

What uses settings tests them again: a run its greatest step, a player its speed, a block and a ball
what they are made of. These tests and those of the check agree on every value, the undefined one, the
infinite ones and the two zeros among them, so that settings which pass the check are taken as they are,
and a length or a speed that does not is refused where it is used (`Config.check_suffices`).
-/

namespace Toolpath

/-! ## Numbers -/

namespace Binary

variable {x : Float}

/-- A number that is not positive is not finite, or not above zero. -/
theorem isPositive_eq_false_iff : Scalar.isPositive x = false ↔ x.isFinite = false ∨ x ≤ 0 := by
  rw [Scalar.isPositive, Bool.and_eq_false_iff, decide_eq_false_iff_not]
  refine or_congr_right' fun hfinite ↦ ?_
  have h0 : (0 : Float) ≤ 0 := by decide
  have hx : x ≤ x := Scalar.Ordered.le_self_of_isFinite (Bool.of_not_eq_false hfinite)
  constructor
  · exact fun h ↦ not_not.1 (mt (Scalar.Ordered.lt_of_not_ge h0 hx) h)
  · exact fun h hlt ↦ Scalar.Ordered.not_ge hlt h

/-- A number between zero and another number is finite. -/
theorem isPositive_of_le {y z : Float} (h0 : 0 < x) (hx : x ≤ y) (hy : y < z) :
    Scalar.isPositive x = true := by
  have hneg : ¬x < 0 := fun h ↦ Scalar.Ordered.not_ge h0 (Scalar.Ordered.le_of_lt h)
  have hfinite : x.isFinite = true := isFinite_of_lt hneg (Scalar.Ordered.lt_of_le_of_lt hx hy)
  exact Bool.and_eq_true_iff.2 ⟨hfinite, decide_eq_true h0⟩

end Binary

/-! ## Runs -/

open Settings (Interpreter)

/-- The steps that are used as they are given are the good ones. -/
theorem Arc.usableStep_eq_self_iff {step : Float} :
    usableStep step = step ↔ Interpreter.goodStep step = true := by
  have hgood : Interpreter.goodStep step = true ↔ 0 < step ∧ step ≤ 90 := by
    rw [Interpreter.goodStep, Bool.and_eq_true, decide_eq_true_eq, decide_eq_true_eq]
  rw [hgood, usableStep]
  cases hpos : Scalar.isPositive step with
  | false =>
    refine iff_of_false (fun h ↦ ?_) fun h ↦ ?_
    · rw [← show (defaultStep : Float) = step from h] at hpos
      exact absurd hpos (by decide +kernel)
    · have := Binary.isPositive_of_le h.1 h.2 (show (90 : Float) < 91 by decide)
      rw [hpos] at this
      cases this
  | true =>
    have h0 : 0 < step := of_decide_eq_true (Bool.and_eq_true_iff.1 hpos).2
    have hgreatest : (greatestStep : Float) = 90 := by decide +kernel
    rw [if_pos rfl, Scalar.least, hgreatest]
    by_cases h : step ≤ 90
    · rw [if_pos h]
      exact iff_of_true rfl ⟨h0, h⟩
    · rw [if_neg h, if_pos (by decide)]
      exact iff_of_false (fun h90 ↦ h (h90 ▸ by decide)) fun hgood ↦ h hgood.2

namespace Machine

variable {p : Program} {o : Options} {m : Machine} {text : String} {statement : Statement}
  {state : State} {loop : Loop}

/-- The first block is opened if any may be. -/
theorem Executes.opens (hf : Faithful p m.read) (hm : m.frames = []) (hdepth : 0 < o.depth)
    (h : Executes p o m text statement (state, .again loop)) :
    Machine.step p o m = .inl (enter loop { m with state, read := m.keep statement }) := by
  rw [h.step hf, follow, hm]
  exact if_pos hdepth

end Machine

/-! ## Players -/

namespace Playback.Player

variable {α σ : Type} [Analytic α] [Remover σ α] {p : Player α σ} {speed : α}

/-- An open player refuses a speed that is not positive. -/
theorem start_of_not_isPositive (ho : p.closed = false) (hv : Scalar.isPositive speed = false) :
    p.perform (.start speed) = p.refuse (.invalidSpeed speed) := by
  rw [perform, if_neg (by simp [ho]), if_pos (by simp [hv])]

/-- An open player that has segments starts at every other speed. -/
theorem start_of_isPositive (ho : p.closed = false) (hs : p.segments.isEmpty = false)
    (hv : Scalar.isPositive speed = true) : (p.perform (.start speed)).result = .ok () := by
  have hsupplied : p.supplied = p := by rw [supplied, hs]; rfl
  have hsize : 0 < p.segments.size := by simpa [Nat.pos_iff_ne_zero] using hs
  have hfirst : p.supplied.segments[0]? = some p.segments[0] := by
    rw [hsupplied]
    exact Array.getElem?_eq_getElem hsize
  obtain ⟨-, -, hok⟩ := Turn.begin_of_some (t := { player := p }) speed hfirst
  rw [perform_start ho hv]
  exact hok

end Playback.Player

/-! ## Blocks and balls -/

namespace Stock

/-- A block is refused only as something that removes material. -/
theorem exists_of_block_eq_error {size origin : Point Float} {resolution : Float}
    {failure : Playback.Failure Float} (h : block size origin resolution = .error failure) :
    ∃ reason, failure = .removal reason := by
  rw [block] at h
  split at h
  · cases h
    exact ⟨_, rfl⟩
  · split at h
    · cases h
      exact ⟨_, rfl⟩
    · cases h

theorem Ball.exists_of_not_isPositive {radius : Float} (h : Scalar.isPositive radius = false) :
    ∃ reason, Ball.ofRadius radius = .error (.removal reason) := by
  rw [Ball.ofRadius, h]
  exact ⟨_, rfl⟩

end Stock

namespace Settings

/-- What a block and a ball are made of, but for the place of the block. -/
def Stock.lengths (s : Stock) : List Float := [s.width, s.height, s.depth, s.resolution, s.toolRadius]

namespace Config

variable {c : Config}

/-- A length that is not positive is refused, by the block or by the ball. -/
theorem removal_of_not_isPositive {x : Float} (hx : x ∈ c.stock.lengths)
    (h : Scalar.isPositive x = false) : ∃ reason, c.removal = .error (.removal reason) := by
  rw [removal]
  cases hblock : Toolpath.Stock.block ⟨c.stock.width, c.stock.height, c.stock.depth⟩ c.stock.origin
      c.stock.resolution with
  | error failure =>
    obtain ⟨reason, rfl⟩ := Toolpath.Stock.exists_of_block_eq_error hblock
    exact ⟨reason, rfl⟩
  | ok stock =>
    obtain ⟨hres, hsize, -⟩ := Toolpath.Stock.block_eq_ok_iff.1 hblock
    have hradius : Scalar.isPositive c.stock.toolRadius = false := by
      simp only [Bool.and_eq_true] at hsize
      simp only [Stock.lengths, List.mem_cons, List.not_mem_nil, or_false] at hx
      rcases hx with rfl | rfl | rfl | rfl | rfl <;> simp_all
    obtain ⟨reason, hball⟩ := Toolpath.Stock.Ball.exists_of_not_isPositive hradius
    rw [hball]
    exact ⟨reason, rfl⟩

/-- A run uses the step of settings that pass the check as it is, and notices nothing. -/
theorem options_of_check (h : c.check = .ok ()) :
    c.options.usable = c.options ∧ c.options.opening = State.start c.options := by
  have hgood := (Interpreter.check_eq_ok_iff.1 (check_eq_ok_iff.1 h).1).1
  have hstep : Arc.usableStep c.options.step = c.options.step := Arc.usableStep_eq_self_iff.2 hgood
  have husable : c.options.usable = c.options := by
    rw [Options.usable, hstep]
  refine ⟨husable, ?_⟩
  have hself : (c.options.step == c.options.step) = true := by
    refine Float.beq_self_iff.2 fun hnan ↦ ?_
    have hnan : Interpreter.goodStep Float.nan = true := hnan ▸ hgood
    exact absurd hnan (by decide)
  rw [Options.opening, husable]
  exact if_pos hself

/-- Settings that pass the check are never refused or replaced where they are used: a run takes the step
as it is and opens at least one block, an open player with segments starts at the speed, and the ball
and the block are made. Conversely a length that the check finds fault with keeps the ball and the block
from being made, and such a speed an open player from starting. -/
theorem check_suffices (c : Config) :
    (c.check = .ok () →
      c.options.usable = c.options ∧ c.options.opening = State.start c.options ∧
      (∀ p m text statement state loop, Machine.Reachable p c.options m → m.frames = [] →
        Machine.Executes p c.options.usable m text statement (state, .again loop) →
        Machine.step p c.options.usable m =
          .inl (Machine.enter loop { m with state, read := m.keep statement })) ∧
      (∀ (σ : Type) [Playback.Remover σ Float] (p : Playback.Player Float σ),
        p.closed = false → p.segments.isEmpty = false →
        (p.perform (.start c.playback.speed)).result = .ok ()) ∧
      ∃ removal, c.removal = .ok removal) ∧
    (∀ x ∈ c.stock.lengths, x.isFinite = false ∨ x ≤ 0 →
      ∃ reason, c.removal = .error (.removal reason)) ∧
    (c.playback.speed.isFinite = false ∨ c.playback.speed ≤ 0 →
      ∀ (σ : Type) [Playback.Remover σ Float] (p : Playback.Player Float σ), p.closed = false →
        (p.perform (.start c.playback.speed)).result = .error (.invalidSpeed c.playback.speed)) := by
  refine ⟨fun h ↦ ?_, fun x hx hbad ↦ ?_, fun hbad σ _ p ho ↦ ?_⟩
  · obtain ⟨hinterpreter, hplayback, -⟩ := check_eq_ok_iff.1 h
    have hdepth : 0 < c.options.depth :=
      UInt64.pos_iff_ne_zero.2 (Interpreter.check_eq_ok_iff.1 hinterpreter).2
    obtain ⟨husable, hopening⟩ := options_of_check h
    obtain ⟨removal, hremoval, -⟩ := removal_of_check h
    refine ⟨husable, hopening, ?_, ?_, removal, hremoval⟩
    · intro p m text statement state loop hm hframes hx
      exact hx.opens hm.faithful hframes hdepth
    · intro σ _ p ho hs
      exact Playback.Player.start_of_isPositive ho hs (Playback.check_eq_ok_iff.1 hplayback).2
  · exact removal_of_not_isPositive hx (Binary.isPositive_eq_false_iff.2 hbad)
  · rw [Playback.Player.start_of_not_isPositive ho (Binary.isPositive_eq_false_iff.2 hbad)]
    rfl

/-- Settings at the bounds of what passes. -/
def strict : Config := { interpreter := ⟨90, 1⟩, playback := { tick := 1, speed := 1e-300 } }

/-- An undefined depth, and a speed that is zero from below. -/
def broken : Config := { playback := { speed := -0 }, stock := { depth := 0 / 0 } }

/-- A block that is repeated once. -/
def repeated : Program := .ofLines ["A:", "B:", "REPEAT A P=2"]

/-- A player, made by settings, of a move of ten millimetres. -/
def stroke (c : Config) : Playback.Player Float Toolpath.Stock.Removal :=
  .ofLog c.player (.ofList [⟨.feed, ⟨0, 0, 0⟩, ⟨10, 0, 0⟩, {}⟩])

/-- With the settings at the bounds a block is opened, a player starts and a block of stock is made; with
the others nothing is. -/
theorem check_suffices_strict :
    strict.check = .ok () ∧ strict.options.usable = strict.options ∧
    (∃ m m' f, Machine.Reachable repeated strict.options m ∧ m.frames = [] ∧
      Machine.step repeated strict.options.usable m = .inl m' ∧ m'.frames = [f]) ∧
    (strict.stroke.perform (.start strict.playback.speed)).result = .ok () ∧
    (∃ removal, strict.removal = .ok removal) ∧
    (∃ reason, broken.removal = .error (.removal reason)) ∧
    (broken.stroke.perform (.start broken.playback.speed)).result =
      .error (.invalidSpeed broken.playback.speed) := by
  have hcheck : strict.check = .ok () := by decide +kernel
  obtain ⟨m, state, loop, hi, hframes, hx⟩ : ∃ m state loop,
      Machine.iterate repeated strict.options.usable 2 (Machine.start repeated strict.options) = .inl m ∧
      m.frames = [] ∧ Machine.Executes repeated strict.options.usable m "REPEAT A P=2"
        ⟨[], .again ⟨"A", none, some (.literal 2)⟩⟩ (state, .again loop) :=
    ⟨_, _, _, rfl, rfl, ⟨rfl, rfl, rfl⟩⟩
  obtain ⟨husable, -, hopens, hstarts, hremoval⟩ := (check_suffices strict).1 hcheck
  obtain ⟨-, hlengths, hspeed⟩ := check_suffices broken
  refine ⟨hcheck, husable, ?_, hstarts _ strict.stroke rfl rfl, hremoval, ?_, ?_⟩
  · have hstep := hopens repeated m _ _ state loop ⟨2, hi⟩ hframes hx
    exact ⟨m, _, _, ⟨2, hi⟩, hframes, hstep, congrArg _ hframes⟩
  · exact hlengths (0 / 0) (by simp [Stock.lengths, broken]) (.inl (by decide +kernel))
  · exact hspeed (.inr (by decide +kernel)) _ broken.stroke rfl

end Config

end Settings

end Toolpath
