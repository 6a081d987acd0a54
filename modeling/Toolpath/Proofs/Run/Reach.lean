import Toolpath.Run.Machine

/-!
# Points of a run

`Machine.iterate p o n m` executes lines from `m` on, `n` of them if the run does not end before.
`Machine.Reachable p o m` says that a run of `p` comes to `m`, with a line in hand or past the last
one.

* `Reachable.induct` is the rule for invariants: what holds at the start and is kept by every step
  holds at every point of a run.
* `exists_last` finds the point at which a run ends, and `iterate_of_weight_lt` bounds how far away
  it is.
-/

namespace Toolpath.Machine

/-- Executes up to `n` lines. -/
def iterate (p : Program) (o : Options) : (n : Nat) → Machine → Machine ⊕ Finished
  | 0, m => .inl m
  | n + 1, m =>
    match step p o m with
    | .inl m' => iterate p o n m'
    | .inr finished => .inr finished

variable {p : Program} {o : Options} {m m' : Machine} {n k : Nat} {finished : Finished}
  {r : Machine ⊕ Finished}

/-! ## Counted steps -/

theorem iterate_succ_of_inl (h : step p o m = .inl m') :
    iterate p o (n + 1) m = iterate p o n m' := by
  rw [iterate, h]

theorem iterate_succ_of_inr (h : step p o m = .inr finished) :
    iterate p o (n + 1) m = .inr finished := by
  rw [iterate, h]

/-- Counted steps compose. -/
theorem iterate_add (h : iterate p o n m = .inl m') :
    iterate p o (n + k) m = iterate p o k m' := by
  induction n generalizing m with
  | zero =>
    obtain rfl : m = m' := Sum.inl.inj h
    rw [Nat.zero_add]
  | succ n ih =>
    rw [Nat.add_right_comm]
    cases hs : step p o m with
    | inl m₁ =>
      rw [iterate_succ_of_inl hs] at h ⊢
      exact ih h
    | inr finished =>
      rw [iterate_succ_of_inr hs] at h
      cases h

/-- Steps that do not end a run come to a point after each of them. -/
theorem exists_of_iterate_inl (h : iterate p o n m = .inl m') (hk : k ≤ n) :
    ∃ m₁, iterate p o k m = .inl m₁ := by
  induction n generalizing m k with
  | zero =>
    obtain rfl : k = 0 := Nat.le_zero.1 hk
    exact ⟨m, rfl⟩
  | succ n ih =>
    cases k with
    | zero => exact ⟨m, rfl⟩
    | succ k =>
      cases hs : step p o m with
      | inl m₁ =>
        rw [iterate_succ_of_inl hs] at h ⊢
        exact ih h (Nat.le_of_succ_le_succ hk)
      | inr finished =>
        rw [iterate_succ_of_inr hs] at h
        cases h

theorem iterate_snoc (h : iterate p o n m = .inl m') (hs : step p o m' = r) :
    iterate p o (n + 1) m = r := by
  rw [iterate_add h]
  cases r with
  | inl m₁ => exact iterate_succ_of_inl hs
  | inr finished => exact iterate_succ_of_inr hs

/-- Steps that end a run pass through the point at which it ends. -/
theorem exists_of_iterate_inr (h : iterate p o n m = .inr finished) :
    ∃ k m', iterate p o k m = .inl m' ∧ step p o m' = .inr finished := by
  induction n generalizing m with
  | zero => cases h
  | succ n ih =>
    cases hs : step p o m with
    | inl m₁ =>
      rw [iterate_succ_of_inl hs] at h
      obtain ⟨k, m', hk, he⟩ := ih h
      exact ⟨k + 1, m', by rw [iterate_succ_of_inl hs, hk], he⟩
    | inr f =>
      rw [iterate_succ_of_inr hs] at h
      obtain rfl : f = finished := Sum.inr.inj h
      exact ⟨0, m, rfl, hs⟩

/-! ## Whole runs -/

theorem run_of_inl {h : Sound p o m} (hs : step p o m = .inl m') :
    run p o m h = run p o m' (step_spec h hs).1 := by
  rw [run]
  split
  · rename_i he
    rw [hs] at he
    cases he
  · rename_i m₁ he
    obtain rfl : m' = m₁ := Sum.inl.inj (hs ▸ he)
    rfl

theorem run_of_inr {h : Sound p o m} (hs : step p o m = .inr finished) :
    run p o m h = finished := by
  rw [run]
  split
  · rename_i f he
    exact Sum.inr.inj (he ▸ hs)
  · rename_i he
    rw [hs] at he
    cases he

/-- Steps that end a run end it as the run does. -/
theorem run_eq_of_iterate {h : Sound p o m} (hi : iterate p o n m = .inr finished) :
    run p o m h = finished := by
  induction n generalizing m with
  | zero => cases hi
  | succ n ih =>
    cases hs : step p o m with
    | inl m₁ =>
      rw [iterate_succ_of_inl hs] at hi
      rw [run_of_inl hs]
      exact ih hi
    | inr f =>
      rw [iterate_succ_of_inr hs] at hi
      rw [run_of_inr hs]
      exact Sum.inr.inj hi

/-- A run ends within as many steps as its weight, and one. -/
theorem iterate_of_weight_lt (h : Sound p o m) (hn : weight p o m < n) :
    iterate p o n m = .inr (run p o m h) := by
  induction n generalizing m with
  | zero => exact absurd hn (Nat.not_lt_zero _)
  | succ n ih =>
    cases hs : step p o m with
    | inl m₁ =>
      obtain ⟨h₁, hw⟩ := step_spec h hs
      rw [iterate_succ_of_inl hs, run_of_inl hs]
      exact ih h₁ (by omega)
    | inr f => rw [iterate_succ_of_inr hs, run_of_inr hs]

/-! ## Reachable points -/

/-- A run of `p` comes to `m`. -/
def Reachable (p : Program) (o : Options) (m : Machine) : Prop :=
  ∃ n, iterate p o.usable n (start p o) = .inl m

namespace Reachable

theorem start : Reachable p o (start p o) := ⟨0, rfl⟩

theorem step (h : Reachable p o m) (hs : Machine.step p o.usable m = .inl m') :
    Reachable p o m' := by
  obtain ⟨n, hn⟩ := h
  exact ⟨n + 1, iterate_snoc hn hs⟩

/-- What holds at the start and is kept by every step holds wherever a run comes. -/
theorem induct {P : Machine → Prop} (base : P (Machine.start p o))
    (keep : ∀ m m', Reachable p o m → P m → Machine.step p o.usable m = .inl m' → P m')
    (h : Reachable p o m) : P m := by
  obtain ⟨n, hn⟩ := h
  -- Induction on the steps that are left, so the point reached so far varies.
  suffices key : ∀ n m₀, Reachable p o m₀ → P m₀ → iterate p o.usable n m₀ = .inl m → P m from
    key n _ Reachable.start base hn
  intro n
  induction n with
  | zero =>
    rintro m₀ - hp hi
    obtain rfl : m₀ = m := Sum.inl.inj hi
    exact hp
  | succ n ih =>
    intro m₀ hr hp hi
    cases hs : Machine.step p o.usable m₀ with
    | inl m₁ =>
      rw [iterate_succ_of_inl hs] at hi
      exact ih m₁ (hr.step hs) (keep m₀ m₁ hr hp hs) hi
    | inr f =>
      rw [iterate_succ_of_inr hs] at hi
      cases hi

theorem sound (h : Reachable p o m) : Sound p o.usable m :=
  h.induct (sound_start p o o.usable) fun _ _ _ hm hs => (step_spec hm hs).1

/-- A run ends where a point it comes to has no next one. -/
theorem run_eq (h : Reachable p o m) (hs : Machine.step p o.usable m = .inr finished) :
    p.run o = finished := by
  obtain ⟨n, hn⟩ := h
  exact run_eq_of_iterate (iterate_snoc hn hs)

/-- From every point it comes to a run goes on to its end. -/
theorem iterate_run (h : Reachable p o m) : ∃ n, iterate p o.usable n m = .inr (p.run o) := by
  have hrun := iterate_of_weight_lt h.sound (Nat.lt_succ_self _)
  obtain ⟨n, hn⟩ := h
  refine ⟨_, hrun.trans ?_⟩
  rw [Program.run, run_eq_of_iterate ((iterate_add hn).trans hrun)]

/-- Two runs stay related if their starts can be and every step of the one can be followed by the
other. The other may execute lines of its own in between. -/
theorem simulate {p' : Program} {o' : Options} {R : Machine → Machine → Prop}
    (base : ∃ m', Reachable p' o' m' ∧ R (Machine.start p o) m')
    (keep : ∀ m m₁ m', Reachable p o m → Reachable p' o' m' → R m m' →
      Machine.step p o.usable m = .inl m₁ → ∃ m₁', Reachable p' o' m₁' ∧ R m₁ m₁')
    (h : Reachable p o m) : ∃ m', Reachable p' o' m' ∧ R m m' := by
  refine h.induct (P := fun m ↦ ∃ m', Reachable p' o' m' ∧ R m m') base ?_
  rintro m m₁ hm ⟨m', hm', hr⟩ hs
  exact keep m m₁ m' hm hm' hr hs

end Reachable

/-- A run ends with the step at a point it comes to. -/
theorem exists_last (p : Program) (o : Options) :
    ∃ m, Reachable p o m ∧ step p o.usable m = .inr (p.run o) := by
  obtain ⟨k, m, hk, hs⟩ := exists_of_iterate_inr
    (iterate_of_weight_lt (sound_start p o o.usable) (Nat.lt_succ_self _))
  exact ⟨m, ⟨k, hk⟩, hs⟩

end Toolpath.Machine
