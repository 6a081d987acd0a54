import Toolpath.Proofs.Stock.Carving

/-!
# Blocks whose cells words can count

The place at which the state of a cell is kept is counted in words that wrap around
(`Grid.slot?_eq`). In a block that keeps as many states as it has cells, and has no more than words
count (`Grid.Whole`), nothing wraps: every cell has a place of its own and every place a cell
(`Grid.Whole.slot?_eq`, `Grid.Whole.existsUnique_cell`). A block that is made is of that kind if it is
not asked for more cells than words can count (`Grid.whole_of_block`), and stays so whatever is cleared.
-/

namespace Toolpath.Stock

namespace Frame

variable {α : Type} {f : Frame α} {x y z i : Nat}

/-- The number of cells. -/
def cells (f : Frame α) : Nat := f.width * f.height * f.depth

/-- The block has such a cell. -/
def Has (f : Frame α) (x y z : Nat) : Prop := x < f.width ∧ y < f.height ∧ z < f.depth

instance (f : Frame α) (x y z : Nat) : Decidable (f.Has x y z) :=
  inferInstanceAs (Decidable (x < f.width ∧ y < f.height ∧ z < f.depth))

/-- The place of a cell: whole layers first, whole columns of its layer next. -/
def place (f : Frame α) (x y z : Nat) : Nat := z * f.width * f.height + y * f.width + x

/-- A digit below `m` before a rest below `n` makes a number below `m * n`. -/
theorem mul_add_lt {n m q r : Nat} (hr : r < n) (hq : q < m) : q * n + r < m * n := by
  calc
    q * n + r < q * n + n := Nat.add_lt_add_left hr _
    _ = (q + 1) * n := (Nat.succ_mul q n).symm
    _ ≤ m * n := Nat.mul_le_mul_right n hq

theorem place_eq (f : Frame α) (x y z : Nat) :
    f.place x y z = (z * f.height + y) * f.width + x := by
  rw [place]
  ring

theorem place_lt (h : f.Has x y z) : f.place x y z < f.cells := by
  obtain ⟨hx, hy, hz⟩ := h
  calc
    f.place x y z = (z * f.height + y) * f.width + x := place_eq f x y z
    _ < f.depth * f.height * f.width := mul_add_lt hx (mul_add_lt hy hz)
    _ = f.cells := by rw [cells]; ring

/-- Every place is that of a cell. -/
theorem exists_place (hi : i < f.cells) : ∃ x y z, f.Has x y z ∧ f.place x y z = i := by
  rw [cells] at hi
  have hwh : 0 < f.width * f.height := Nat.pos_of_ne_zero fun h => by simp [h] at hi
  have hw : 0 < f.width := Nat.pos_of_mul_pos_right hwh
  have hh : 0 < f.height := Nat.pos_of_mul_pos_left hwh
  refine ⟨i % f.width, i / f.width % f.height, i / f.width / f.height,
    ⟨Nat.mod_lt _ hw, Nat.mod_lt _ hh, ?_⟩, ?_⟩
  · rw [Nat.div_div_eq_div_mul]
    exact Nat.div_lt_of_lt_mul hi
  · rw [place_eq, Nat.mul_comm (_ / f.height), Nat.div_add_mod, Nat.mul_comm _ f.width,
      Nat.div_add_mod]

end Frame

namespace Grid

variable {α : Type} {g : Grid α} {x y z i : Nat}

/-- The block has a state for every cell, and words can count them. -/
structure Whole (g : Grid α) : Prop where
  count : g.cellCount = g.frame.cells
  fits : g.frame.cells < 2 ^ 64

theorem index?_of_has (h : g.frame.Has x y z) : g.index? x y z = some (g.frame.place x y z) :=
  index?_eq_some_iff.2 ⟨h, rfl⟩

theorem isCell_of_has (hcount : g.cellCount = g.frame.cells) (h : g.frame.Has x y z) :
    g.IsCell x y z (g.frame.place x y z) :=
  ⟨index?_of_has h, (Frame.place_lt h).trans_eq hcount.symm⟩

theorem index?_eq_none_iff : g.index? x y z = none ↔ ¬ g.frame.Has x y z := by
  rw [index?]
  split
  case isTrue h => exact iff_of_false (by simp) (not_not.2 h)
  case isFalse h => exact iff_of_true rfl h

theorem has_of_index? (h : g.index? x y z = some i) : g.frame.Has x y z ∧ g.frame.place x y z = i :=
  index?_eq_some_iff.1 h

theorem cleared_iff_of_isCell (hc : g.IsCell x y z i) :
    g.Cleared x y z ↔ g.cleared[i]? = some true := by
  constructor
  · rintro ⟨j, hj, hcleared⟩
    obtain rfl : i = j := Option.some.inj (hc.1.symm.trans hj.1)
    exact hcleared
  · intro hcleared
    exact ⟨i, hc, hcleared⟩

/-- The count of places, step by step in words, is that without a bound, wrapped around. -/
theorem slot?_eq (g : Grid α) (x y z : Nat) :
    g.slot? x y z = (g.index? x y z).map (· % 2 ^ 64) := by
  rw [slot?, index?]
  split
  case isTrue =>
    simp only [Option.map_some, UInt64.toNat_add, UInt64.toNat_mul, Nat.toUInt64_eq,
      UInt64.toNat_ofNat', Nat.mod_mul_mod, Nat.mul_mod_mod, Nat.mod_add_mod, Nat.add_mod_mod]
  case isFalse => rfl

theorem slot?_of_frame {g' : Grid α} (h : g'.frame = g.frame) (x y z : Nat) :
    g'.slot? x y z = g.slot? x y z := by
  rw [slot?_eq, slot?_eq, index?_of_frame h]

/-- Only cells of the block matter to carving. -/
theorem Carves.congr_of_has {g' : Grid α} {P Q : Nat → Nat → Nat → Prop} (h : g.Carves g' P)
    (hPQ : ∀ x y z, g.frame.Has x y z → (P x y z ↔ Q x y z)) : g.Carves g' Q :=
  Clears.congr h fun _ _ => exists₃_congr fun x y z => and_congr_right fun hi =>
    hPQ x y z (has_of_index? hi).1

namespace Whole

theorem lt_of_index? (hg : g.Whole) (h : g.index? x y z = some i) : i < g.cellCount := by
  obtain ⟨hhas, rfl⟩ := has_of_index? h
  rw [hg.count]
  exact Frame.place_lt hhas

/-- No place is left out, and none is given twice. -/
theorem existsUnique_cell (hg : g.Whole) (hi : i < g.cellCount) :
    ∃! c : Nat × Nat × Nat, g.index? c.1 c.2.1 c.2.2 = some i := by
  obtain ⟨x, y, z, hhas, rfl⟩ := Frame.exists_place (hi.trans_eq hg.count)
  refine ⟨(x, y, z), index?_of_has hhas, ?_⟩
  rintro ⟨x', y', z'⟩ h
  obtain ⟨rfl, rfl, rfl⟩ := index?_inj h (index?_of_has hhas)
  rfl

/-- No place leaves the words. -/
theorem slot?_eq (hg : g.Whole) (x y z : Nat) : g.slot? x y z = g.index? x y z := by
  rw [Grid.slot?_eq]
  cases h : g.index? x y z with
  | none => rfl
  | some i =>
    have hi : i < 2 ^ 64 := (hg.lt_of_index? h).trans_le (hg.count.trans_lt hg.fits).le
    exact congrArg some (Nat.mod_eq_of_lt hi)

theorem of_clears {g' : Grid α} {P : Nat → Prop} (hg : g.Whole) (h : g.Clears g' P) :
    g'.Whole where
  count := by rw [h.size, h.frame, hg.count]
  fits := h.frame ▸ hg.fits

theorem clear (hg : g.Whole) (x y z : Nat) : (g.clear x y z).Whole :=
  hg.of_clears (carves_clear g x y z)

end Whole

end Grid

/-! ## Blocks that are made -/

/-- A block is made if its extents and its resolution are positive and finite. -/
theorem block_eq_ok_iff {size origin : Point Float} {resolution : Float} {g : Grid Float32} :
    block size origin resolution = .ok g ↔
      Scalar.isPositive resolution = true ∧
      (Scalar.isPositive size.x && Scalar.isPositive size.y && Scalar.isPositive size.z) = true ∧
      g = Grid.full (narrow origin) (Scalar.ceil (size.x / resolution))
        (Scalar.ceil (size.y / resolution)) (Scalar.ceil (size.z / resolution))
        (Binary.narrow resolution) := by
  rw [block]
  cases Scalar.isPositive resolution with
  | false => simp
  | true =>
    cases Scalar.isPositive size.x && Scalar.isPositive size.y && Scalar.isPositive size.z with
    | false => simp
    | true => simp [eq_comm]

/-- A new block has as many bytes as cells if words can count the cells. -/
theorem Grid.whole_of_block {size origin : Point Float} {resolution : Float} {g : Grid Float32}
    (h : block size origin resolution = .ok g) (hfit : g.width * g.height * g.depth < 2 ^ 64) :
    g.Whole where
  count := by
    obtain ⟨-, -, rfl⟩ := block_eq_ok_iff.1 h
    exact Array.size_replicate.trans (Nat.mod_eq_of_lt hfit)
  fits := hfit

end Toolpath.Stock
