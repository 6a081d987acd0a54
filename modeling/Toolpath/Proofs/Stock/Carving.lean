import Mathlib.Data.List.Basic
import Mathlib.Tactic.Ring
import Toolpath.Stock.Removal

/-!
# What cuts leave of a block

A cut takes away the cells that its sphere covers, and which these are is a matter of the sphere and
of the block's `Frame`, not of what was cut before (`mem_reached_iff`, `reached_of_frame`). What is left
is said place by place (`Clears`) or, if no two cells share a place, cell by cell (`Carves`).

Here places are counted without a bound, as in exact arithmetic (`Grid.index?`), and a cut passes over
a place at which nothing is kept. A program cuts the same way as long as words can count the cells.
-/

namespace Toolpath.Stock

/-- A block apart from the state of its cells. -/
structure Frame (α : Type) where
  origin : Point α
  width : Nat
  height : Nat
  depth : Nat
  resolution : α

namespace Frame

variable {α : Type} [Scalar α]

/-- A sphere measured in the cells of a block. -/
def measureSphere (f : Frame α) (sphere : Sphere α) : Sphere α :=
  Grid.measureSphere ⟨f.origin, f.width, f.height, f.depth, f.resolution, #[]⟩ sphere

/-- A cut of the sphere comes to the cell and finds its centre in the sphere. -/
structure Covers (f : Frame α) (sphere : Sphere α) (x y z : Nat) : Prop where
  reaches : (Grid.endsBefore (f.measureSphere sphere).centre.x (f.measureSphere sphere).radius
    || Grid.endsBefore (f.measureSphere sphere).centre.y (f.measureSphere sphere).radius
    || Grid.endsBefore (f.measureSphere sphere).centre.z (f.measureSphere sphere).radius) = false
  column : x ∈ Grid.span f.width (f.measureSphere sphere).centre.x (f.measureSphere sphere).radius
  row : y ∈ Grid.span f.height (f.measureSphere sphere).centre.y (f.measureSphere sphere).radius
  layer : z ∈ Grid.span f.depth (f.measureSphere sphere).centre.z (f.measureSphere sphere).radius
  inside : Grid.inside (f.measureSphere sphere) x y z = true

end Frame

namespace Grid

variable {α : Type} {g g' g'' : Grid α} {x y z x' y' z' i : Nat}

def frame (g : Grid α) : Frame α := ⟨g.origin, g.width, g.height, g.depth, g.resolution⟩

/-! ## Cells that a cut comes to -/

section Reached

variable [Scalar α]

theorem mem_reached_iff {sphere : Sphere α} {c : Cell} :
    c ∈ g.reached sphere ↔ g.frame.Covers sphere c.x c.y c.z := by
  rw [reached]
  dsimp only
  split
  case isTrue hends =>
    refine iff_of_false List.not_mem_nil fun h => ?_
    exact Bool.false_ne_true (h.reaches.symm.trans hends)
  case isFalse hends =>
    simp only [List.mem_flatMap, List.mem_map, List.mem_filter]
    constructor
    · rintro ⟨z, hz, y, hy, x, ⟨hx, hin⟩, rfl⟩
      exact ⟨Bool.eq_false_iff.2 hends, hx, hy, hz, hin⟩
    · intro h
      exact ⟨c.z, h.layer, c.y, h.row, c.x, ⟨h.column, h.inside⟩, rfl⟩

theorem reached_of_frame (h : g'.frame = g.frame) (sphere : Sphere α) :
    g'.reached sphere = g.reached sphere := by
  cases g
  cases g'
  simp only [frame, Frame.mk.injEq] at h
  obtain ⟨rfl, rfl, rfl, rfl, rfl⟩ := h
  rfl

end Reached

/-! ## Places -/

/-- A list that is true wherever another one is has as many true entries at least. -/
theorem count_le_count {l l' : List Bool} (h : ∀ i : Nat, l[i]? = some true → l'[i]? = some true) :
    l.count true ≤ l'.count true := by
  induction l generalizing l' with
  | nil => exact Nat.zero_le _
  | cons b l ih =>
    cases l' with
    | nil =>
      have hn : (b :: l).count true = 0 := by
        rw [List.count_eq_zero]
        intro hm
        obtain ⟨i, hi⟩ := List.mem_iff_getElem?.1 hm
        cases h i hi
      exact hn.le
    | cons b' l' =>
      have hl : l.count true ≤ l'.count true := ih fun i hi => h (i + 1) hi
      have hb : b = true → b' = true := fun hb => by simpa [hb] using h 0
      cases b <;> cases b' <;> simp_all
      omega

/-- The second block is the first with what is kept at some places cleared. -/
structure Clears (g g' : Grid α) (P : Nat → Prop) : Prop where
  frame : g'.frame = g.frame
  size : g'.cellCount = g.cellCount
  cleared : ∀ i, g'.cleared[i]? = some true ↔
    g.cleared[i]? = some true ∨ i < g.cellCount ∧ P i

namespace Clears

variable {P Q : Nat → Prop}

theorem refl (g : Grid α) : g.Clears g fun _ => False where
  frame := rfl
  size := rfl
  cleared i := by simp

theorem congr (h : g.Clears g' P) (hPQ : ∀ i < g.cellCount, P i ↔ Q i) : g.Clears g' Q where
  frame := h.frame
  size := h.size
  cleared i := (h.cleared i).trans (or_congr_right (and_congr_right (hPQ i)))

theorem trans (h : g.Clears g' P) (h' : g'.Clears g'' Q) : g.Clears g'' fun i => P i ∨ Q i where
  frame := h'.frame.trans h.frame
  size := h'.size.trans h.size
  cleared i := by rw [h'.cleared, h.cleared, h.size, or_assoc, and_or_left]

/-- What has been cleared decides what is left. -/
theorem unique (h : g.Clears g' P) (h' : g.Clears g'' P) : g' = g'' := by
  have hs : g'.cleared.size = g''.cleared.size := h.size.trans h'.size.symm
  have hc : g'.cleared = g''.cleared := by
    refine Array.ext hs fun i hi hi' => ?_
    have h := (h.cleared i).trans (h'.cleared i).symm
    simp only [Array.getElem?_eq_getElem hi, Array.getElem?_eq_getElem hi', Option.some.injEq] at h
    exact Bool.eq_iff_iff.2 h
  have hf : g'.frame = g''.frame := h.frame.trans h'.frame.symm
  cases g'
  cases g''
  simp_all [Grid.frame]

theorem mono (h : g.Clears g' P) (hi : g.cleared[i]? = some true) : g'.cleared[i]? = some true :=
  (h.cleared i).2 (.inl hi)

/-- Nothing that was cleared before is filled again. -/
theorem clearedCount_le (h : g.Clears g' P) : g.clearedCount ≤ g'.clearedCount := by
  rw [clearedCount, clearedCount, ← Array.count_toList, ← Array.count_toList]
  refine count_le_count fun i hi => ?_
  rw [Array.getElem?_toList] at hi ⊢
  exact h.mono hi

end Clears

theorem clears_set (hi : i < g.cleared.size) :
    g.Clears { g with cleared := g.cleared.set i true hi } (i = ·) where
  frame := rfl
  size := Array.size_set hi
  cleared j := by
    dsimp only
    rw [Array.getElem?_set]
    split
    case isTrue hij => exact iff_of_true rfl (.inr ⟨hij ▸ hi, hij⟩)
    case isFalse hij => exact (or_iff_left fun h => hij h.2).symm

/-! ## Places counted without a bound -/

/-- The place of a cell among all cells. -/
def index? (g : Grid α) (x y z : Nat) : Option Nat :=
  if x < g.width ∧ y < g.height ∧ z < g.depth then
    some (z * g.width * g.height + y * g.width + x)
  else none

/-- Takes the material out of a cell; outside the block nothing happens. -/
def clear (g : Grid α) (x y z : Nat) : Grid α :=
  match g.index? x y z with
  | some i => { g with cleared := g.cleared.setIfInBounds i true }
  | none => g

/-- The block has the cell and keeps its state at place `i`. -/
def IsCell (g : Grid α) (x y z i : Nat) : Prop := g.index? x y z = some i ∧ i < g.cellCount

/-- The cell holds no material any more. -/
def Cleared (g : Grid α) (x y z : Nat) : Prop :=
  ∃ i, g.IsCell x y z i ∧ g.cleared[i]? = some true

theorem index?_eq_some_iff :
    g.index? x y z = some i ↔
      (x < g.width ∧ y < g.height ∧ z < g.depth) ∧ z * g.width * g.height + y * g.width + x = i := by
  rw [index?]
  split
  case isTrue h => simp [h]
  case isFalse h => simp [h]

/-- A number below `n` added to a multiple of `n` can be told from the sum. -/
theorem eq_of_add_mul_eq {n a b q r : Nat} (ha : a < n) (hb : b < n) (h : q * n + a = r * n + b) :
    q = r ∧ a = b := by
  have hmod : (q * n + a) % n = (r * n + b) % n := congrArg (· % n) h
  rw [Nat.mul_add_mod', Nat.mul_add_mod', Nat.mod_eq_of_lt ha, Nat.mod_eq_of_lt hb] at hmod
  subst hmod
  exact ⟨Nat.eq_of_mul_eq_mul_right (by omega) (Nat.add_right_cancel h), rfl⟩

/-- Two cells do not share a place. -/
theorem index?_inj (h : g.index? x y z = some i) (h' : g.index? x' y' z' = some i) :
    x = x' ∧ y = y' ∧ z = z' := by
  obtain ⟨⟨hx, hy, -⟩, hi⟩ := index?_eq_some_iff.1 h
  obtain ⟨⟨hx', hy', -⟩, hi'⟩ := index?_eq_some_iff.1 h'
  have hrow : (z * g.height + y) * g.width + x = (z' * g.height + y') * g.width + x' := by
    calc
      (z * g.height + y) * g.width + x = z * g.width * g.height + y * g.width + x := by ring
      _ = z' * g.width * g.height + y' * g.width + x' := hi.trans hi'.symm
      _ = (z' * g.height + y') * g.width + x' := by ring
  obtain ⟨hcolumn, hx⟩ := eq_of_add_mul_eq hx hx' hrow
  obtain ⟨hz, hy⟩ := eq_of_add_mul_eq hy hy' hcolumn
  exact ⟨hx, hy, hz⟩

theorem index?_of_frame (h : g'.frame = g.frame) (x y z : Nat) : g'.index? x y z = g.index? x y z := by
  have hw : g'.width = g.width := congrArg Frame.width h
  have hh : g'.height = g.height := congrArg Frame.height h
  have hd : g'.depth = g.depth := congrArg Frame.depth h
  rw [index?, index?, hw, hh, hd]

/-! ## Carving -/

/-- The second block is the first with the material of some cells taken away. -/
def Carves (g g' : Grid α) (P : Nat → Nat → Nat → Prop) : Prop :=
  g.Clears g' fun i => ∃ x y z, g.index? x y z = some i ∧ P x y z

namespace Carves

variable {P Q : Nat → Nat → Nat → Prop}

theorem isCell (h : g.Carves g' P) : g'.IsCell x y z i ↔ g.IsCell x y z i := by
  rw [IsCell, IsCell, index?_of_frame h.frame, h.size]

theorem refl (g : Grid α) : g.Carves g fun _ _ _ => False :=
  (Clears.refl g).congr (by simp)

theorem congr (h : g.Carves g' P) (hPQ : ∀ x y z, P x y z ↔ Q x y z) : g.Carves g' Q := by
  obtain rfl : P = Q := by
    funext x y z
    exact propext (hPQ x y z)
  exact h

theorem trans (h : g.Carves g' P) (h' : g'.Carves g'' Q) :
    g.Carves g'' fun x y z => P x y z ∨ Q x y z := by
  refine (Clears.trans h h').congr fun i _ => ?_
  simp only [index?_of_frame h.frame, and_or_left, exists_or]

/-- A fold takes away what any of its steps takes away. -/
theorem foldl {β : Type} {f : Grid α → β → Grid α} {R : β → Nat → Nat → Nat → Prop} {bs : List β}
    (h : ∀ (g' : Grid α) b, g'.frame = g.frame → g'.Carves (f g' b) (R b)) :
    g.Carves (bs.foldl f g) fun x y z => ∃ b ∈ bs, R b x y z := by
  induction bs generalizing g with
  | nil => exact (refl g).congr (by simp)
  | cons b bs ih =>
    have hb := h g b rfl
    have hbs := @ih (f g b) fun g' b' hf => h g' b' (hf.trans hb.frame)
    exact (hb.trans hbs).congr (by simp)

/-- What is cleared after carving was cleared before or lies in what is carved. -/
theorem cleared_iff (h : g.Carves g' P) :
    g'.Cleared x y z ↔ g.Cleared x y z ∨ (∃ i, g.IsCell x y z i) ∧ P x y z := by
  constructor
  · rintro ⟨i, hc, hi⟩
    have hc := h.isCell.1 hc
    rcases (h.cleared i).1 hi with hi | ⟨-, x', y', z', hi', hp⟩
    · exact .inl ⟨i, hc, hi⟩
    · obtain ⟨rfl, rfl, rfl⟩ := index?_inj hc.1 hi'
      exact .inr ⟨⟨i, hc⟩, hp⟩
  · rintro (⟨i, hc, hi⟩ | ⟨⟨i, hc⟩, hp⟩)
    · exact ⟨i, h.isCell.2 hc, h.mono hi⟩
    · exact ⟨i, h.isCell.2 hc, (h.cleared i).2 (.inr ⟨hc.2, x, y, z, hc.1, hp⟩)⟩

end Carves

/-- A cell is cleared at its place, if anything is kept there. -/
theorem carves_clear (g : Grid α) (a b c : Nat) :
    g.Carves (g.clear a b c) fun x y z => x = a ∧ y = b ∧ z = c := by
  have hplace (i : Nat) : (∃ x y z, g.index? x y z = some i ∧ x = a ∧ y = b ∧ z = c) ↔
      g.index? a b c = some i := by
    constructor
    · rintro ⟨x, y, z, hi, rfl, rfl, rfl⟩
      exact hi
    · intro hi
      exact ⟨a, b, c, hi, rfl, rfl, rfl⟩
  rw [clear]
  split
  case h_1 j hj =>
    rw [Array.setIfInBounds]
    split
    case isTrue hlt =>
      refine (clears_set hlt).congr fun i _ => ?_
      rw [hplace, hj, Option.some.injEq]
    case isFalse hlt =>
      refine (Clears.refl g).congr fun i hi => iff_of_false id ?_
      rw [hplace, hj, Option.some.injEq]
      rintro rfl
      exact hlt hi
  case h_2 hn =>
    refine (Clears.refl g).congr fun i _ => iff_of_false id ?_
    rw [hplace, hn]
    exact nofun

section Cut

variable [Scalar α]

/-- Whether the cell around a point still holds material. -/
def holds (g : Grid α) (p : Point α) : Bool :=
  let l := g.measure p
  if lesser l.x (lesser l.y l.z) < 0 then false
  else
    match g.index? (Scalar.floor l.x) (Scalar.floor l.y) (Scalar.floor l.z) with
    | some i => g.cleared[i]? == some false
    | none => false

/-- Clears every cell whose centre lies in the sphere. -/
def cut (g : Grid α) (sphere : Sphere α) : Grid α :=
  (g.reached sphere).foldl (fun g c => g.clear c.x c.y c.z) g

/-- A cut takes away what its sphere covers. -/
theorem carves_cut (g : Grid α) (sphere : Sphere α) :
    g.Carves (g.cut sphere) (g.frame.Covers sphere) := by
  refine (Carves.foldl fun g' c _ => carves_clear g' c.x c.y c.z).congr fun x y z => ?_
  constructor
  · rintro ⟨c, hc, rfl, rfl, rfl⟩
    exact mem_reached_iff.1 hc
  · intro h
    exact ⟨⟨x, y, z⟩, mem_reached_iff.2 h, rfl, rfl, rfl⟩

end Cut

end Grid

end Toolpath.Stock
