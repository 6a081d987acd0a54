import Mathlib.Data.Bool.Count
import Mathlib.Data.List.Count
import Mathlib.Tactic.Ring
import Toolpath.Proofs.Stock.Union

/-!
# Blocks in memory

In memory a block is a row of bytes, one for each cell, and a cell is found in it by a number that is
counted in 64-bit words. `Voxels` is the block as it lies there, watched: a count that leaves the words,
or a number beyond the bytes, puts an end to what is being done (`none`). Nothing of this comes to pass
in a block that has as many bytes as cells (`Grid.Whole`). There every cell has a byte and every byte a
cell (`Grid.Whole.existsUnique_cell`), and walks over the bytes do to them what cuts do to the block
(`Tracks`, one lemma for each walk). Nothing is noticed there either of words that wrap around: a
program cuts and looks as if places were counted without a bound (`Grid.Whole.carve_eq`,
`Grid.Whole.holds?_eq`, `Grid.Whole.run_eq`).
-/

namespace Toolpath.Stock

/-! ## Cuts and looks of a program -/

namespace Grid

section

variable {α : Type} [Scalar α] {g : Grid α}

theorem Whole.carve_eq (hg : g.Whole) (sphere : Sphere α) : g.carve sphere = .ok (g.cut sphere) := by
  obtain ⟨g', hcarve, hclears⟩ :=
    removeAll_of_stored fun (c : Cell) (_ : c ∈ g.reached sphere) => hg.stored c.x c.y c.z
  have hcut : g.Clears (g.cut sphere) fun i => ∃ c ∈ g.reached sphere, g.slot? c.x c.y c.z = some i :=
    Clears.congr (carves_cut g sphere) fun i _ => by
      simp only [hg.slot?_eq, mem_reached_iff]
      constructor
      · rintro ⟨x, y, z, hi, hcovers⟩
        exact ⟨⟨x, y, z⟩, hcovers, hi⟩
      · rintro ⟨c, hcovers, hi⟩
        exact ⟨c.x, c.y, c.z, hi, hcovers⟩
  rw [← hclears.unique hcut]
  exact hcarve

theorem Whole.holds?_eq (hg : g.Whole) (p : Point α) : g.holds? p = some (g.holds p) := by
  rw [holds?, holds]
  split
  case isTrue => rfl
  case isFalse =>
    rw [hg.slot?_eq]
    cases h : g.index? _ _ _ with
    | none => rfl
    | some i =>
      have hlt : i < g.cleared.size := hg.lt_of_index? h
      dsimp only
      rw [Array.getElem?_eq_getElem hlt]
      cases g.cleared[i] <;> rfl

end

/-- The block after a call, with places counted without a bound. -/
def cutBy (g : Grid Float32) (cut : Cut) : Grid Float32 :=
  match cut.check with
  | .ok s => g.cut s
  | .error _ => g

/-- The block after some calls, with places counted without a bound. -/
def after (g : Grid Float32) (cuts : List Cut) : Grid Float32 := cuts.foldl cutBy g

/-- Whether the cell around a point still holds material. -/
def holdsAt (g : Grid Float32) (p : Point Float) : Bool := g.holds (narrow p)

theorem Whole.cut {α : Type} [Scalar α] {g : Grid α} (hg : g.Whole) (sphere : Sphere α) :
    (g.cut sphere).Whole := hg.of_clears (carves_cut g sphere)

theorem Whole.run_eq {g : Grid Float32} (hg : g.Whole) (cuts : List Cut) :
    g.run cuts = .ok (g.after cuts) := by
  induction cuts generalizing g with
  | nil => rfl
  | cons cut cuts ih =>
    rw [run_cons, after, List.foldl_cons, cutBy]
    cases cut.check with
    | error failure => exact ih hg
    | ok s =>
      dsimp only
      rw [hg.carve_eq]
      exact ih (hg.cut s)

end Grid

/-! ## Bytes -/

/-- The byte of a cell that holds material. -/
def material : UInt8 := 255

/-- The byte of a cell that is cleared. -/
def removed : UInt8 := 0

/-- The byte of a cell. -/
def byte (cleared : Bool) : UInt8 := if cleared then removed else material

theorem byte_injective : Function.Injective byte := by
  intro b b' h
  cases b <;> cases b' <;> first | rfl | cases h

theorem byte_beq_material (cleared? : Option Bool) :
    (cleared?.map byte == some material) = (cleared? == some false) := by
  rcases cleared? with _ | _ | _ <;> rfl

/-- A number that is counted in a word. -/
def word? (n : Nat) : Option Nat := if n < 2 ^ 64 then some n else none

theorem word?_eq {n : Nat} (h : n < 2 ^ 64) : word? n = some n := if_pos h

namespace Frame

variable {α : Type} {f : Frame α} {x y z : Nat}

/-- The place of a cell, counted in words from step to step. -/
def place? (f : Frame α) (x y z : Nat) : Option Nat := do
  let columns ← word? (z * f.width)
  let layers ← word? (columns * f.height)
  let column ← word? (y * f.width)
  let before ← word? (layers + column)
  word? (before + x)

/-- The steps of the count do not lead beyond its end. -/
theorem place?_eq (hf : f.cells < 2 ^ 64) (h : f.Has x y z) :
    f.place? x y z = some (f.place x y z) := by
  have hend : f.place x y z < 2 ^ 64 := (place_lt h).trans hf
  have hheight : z * f.width ≤ z * f.width * f.height :=
    Nat.le_mul_of_pos_right _ (Nat.zero_lt_of_lt h.2.1)
  rw [place] at hend ⊢
  rw [place?, word?_eq (by omega)]
  dsimp only [Option.bind_eq_bind, Option.bind_some]
  rw [word?_eq (by omega), Option.bind_some, word?_eq (by omega), Option.bind_some,
    word?_eq (by omega), Option.bind_some, word?_eq hend]

/-- A coordinate in cells from the least corner. -/
def measure [Scalar α] (f : Frame α) (p : Point α) : Point α :=
  Grid.measure ⟨f.origin, f.width, f.height, f.depth, f.resolution, #[]⟩ p

/-- The cells that a cut of the sphere comes to and whose centres lie in it. -/
def reached [Scalar α] (f : Frame α) (sphere : Sphere α) : List Cell :=
  Grid.reached ⟨f.origin, f.width, f.height, f.depth, f.resolution, #[]⟩ sphere

end Frame

/-- A block as it lies in memory. -/
structure Voxels (α : Type) where
  frame : Frame α
  bytes : Array UInt8

/-- The bytes of a block. -/
def Grid.voxels {α : Type} (g : Grid α) : Voxels α := ⟨g.frame, g.cleared.map byte⟩

namespace Voxels

variable {α : Type}

/-- The byte of a cell; there is none if there is no such cell. -/
def read? (v : Voxels α) (x y z : Nat) : Option (Option UInt8) :=
  if v.frame.Has x y z then do
    let i ← v.frame.place? x y z
    let b ← v.bytes[i]?
    return some b
  else some none

/-- Takes the material out of a cell, if there is such a cell. -/
def remove? (v : Voxels α) (x y z : Nat) : Option (Voxels α) :=
  if v.frame.Has x y z then do
    let i ← v.frame.place? x y z
    if h : i < v.bytes.size then
      return { v with bytes := v.bytes.set i removed h }
    else none
  else some v

variable [Scalar α]

/-- Whether the cell around a point still holds material. -/
def holds? (v : Voxels α) (p : Point α) : Option Bool :=
  let l := v.frame.measure p
  if Grid.lesser l.x (Grid.lesser l.y l.z) < 0 then some false
  else (v.read? (Scalar.floor l.x) (Scalar.floor l.y) (Scalar.floor l.z)).map (· == some material)

/-- Clears every cell whose centre lies in the sphere. -/
def cut? (v : Voxels α) (sphere : Sphere α) : Option (Voxels α) :=
  (v.frame.reached sphere).foldlM (fun v c => v.remove? c.x c.y c.z) v

/-- What a call leaves; a refused one leaves everything. -/
def perform? (v : Voxels Float32) (cut : Cut) : Option (Voxels Float32) :=
  match cut.check with
  | .ok s => v.cut? s
  | .error _ => some v

/-- What some calls leave. -/
def after? (v : Voxels Float32) (cuts : List Cut) : Option (Voxels Float32) := cuts.foldlM perform? v

end Voxels

/-- What is done in memory comes to its end, and leaves the bytes of a whole block. -/
structure Tracks {α : Type} (v? : Option (Voxels α)) (g : Grid α) : Prop where
  eq : v? = some g.voxels
  whole : g.Whole

namespace Tracks

variable {α : Type} {g : Grid α}

theorem refl (hg : g.Whole) : Tracks (some g.voxels) g := ⟨rfl, hg⟩

/-- A walk comes to its end if every step does. -/
theorem foldlM {β : Type} {f? : Voxels α → β → Option (Voxels α)} {f : Grid α → β → Grid α}
    (hf : ∀ (g' : Grid α) b, g'.Whole → Tracks (f? g'.voxels b) (f g' b)) (hg : g.Whole)
    (bs : List β) : Tracks (bs.foldlM f? g.voxels) (bs.foldl f g) := by
  induction bs generalizing g with
  | nil => exact refl hg
  | cons b bs ih =>
    have hb := hf g b hg
    rw [List.foldlM_cons, List.foldl_cons, hb.eq]
    exact ih hb.whole

end Tracks

namespace Grid

variable {α : Type} {g : Grid α}

theorem size_voxels (g : Grid α) : g.voxels.bytes.size = g.cellCount := Array.size_map

theorem voxels_getElem? (g : Grid α) (i : Nat) : g.voxels.bytes[i]? = g.cleared[i]?.map byte :=
  Array.getElem?_map

/-- The byte of a cell is read at its place. -/
theorem read?_voxels (hg : g.Whole) (x y z : Nat) :
    g.voxels.read? x y z = some ((g.index? x y z).bind (g.voxels.bytes[·]?)) := by
  rw [Voxels.read?]
  split
  case isTrue h =>
    have hlt : g.frame.place x y z < g.voxels.bytes.size :=
      (hg.lt_of_index? (index?_of_has h)).trans_eq (size_voxels g).symm
    change (g.frame.place? x y z >>= _) = _
    rw [Frame.place?_eq hg.fits h, index?_of_has h, Option.bind_eq_bind, Option.bind_some,
      Option.bind_some, Array.getElem?_eq_getElem hlt]
    rfl
  case isFalse h => rw [index?_eq_none_iff.2 h, Option.bind_none]

theorem tracks_clear (hg : g.Whole) (x y z : Nat) :
    Tracks (g.voxels.remove? x y z) (g.clear x y z) := by
  refine ⟨?_, hg.clear x y z⟩
  rw [Voxels.remove?]
  split
  case isTrue h =>
    have hindex := index?_of_has h
    have hlt : g.frame.place x y z < g.voxels.bytes.size :=
      (hg.lt_of_index? hindex).trans_eq (size_voxels g).symm
    change (g.frame.place? x y z >>= _) = _
    rw [Frame.place?_eq hg.fits h, Option.bind_eq_bind, Option.bind_some, dif_pos hlt, clear, hindex]
    have hbytes : g.voxels.bytes.set (g.frame.place x y z) removed hlt =
        (g.cleared.setIfInBounds (g.frame.place x y z) true).map byte := by
      refine Array.ext_getElem? fun j => ?_
      rw [Array.getElem?_set, Array.getElem?_map, Array.getElem?_setIfInBounds, voxels_getElem?]
      split
      case isTrue =>
        have hplace : g.frame.place x y z < g.cleared.size := hg.lt_of_index? hindex
        rw [if_pos hplace]
        rfl
      case isFalse => rfl
    rw [hbytes]
    rfl
  case isFalse h =>
    rw [clear, index?_eq_none_iff.2 h]

section Cut

variable [Scalar α]

theorem tracks_cut (hg : g.Whole) (sphere : Sphere α) :
    Tracks (g.voxels.cut? sphere) (g.cut sphere) :=
  Tracks.foldlM (fun _ c hg' => tracks_clear hg' c.x c.y c.z) hg (g.reached sphere)

theorem holds?_voxels (hg : g.Whole) (p : Point α) : g.voxels.holds? p = some (g.holds p) := by
  have hplace : g.voxels.frame.measure p = g.measure p := rfl
  rw [Voxels.holds?, holds, hplace]
  split
  case isTrue => rfl
  case isFalse =>
    rw [read?_voxels hg, Option.map_some]
    cases g.index? _ _ _ with
    | none => rfl
    | some i =>
      rw [Option.bind_some, voxels_getElem?]
      exact congrArg some (byte_beq_material g.cleared[i]?)

end Cut

/-! ## What the bytes say -/

theorem state_of_mem {b : UInt8} (h : b ∈ g.voxels.bytes) : b = material ∨ b = removed := by
  obtain ⟨cleared, -, rfl⟩ := Array.mem_map.1 h
  cases cleared with
  | false => exact .inl rfl
  | true => exact .inr rfl

theorem count_byte (g : Grid α) (b : Bool) :
    g.voxels.bytes.count (byte b) = g.cleared.count b := by
  rw [← Array.count_toList, ← Array.count_toList]
  change (g.cleared.map byte).toList.count _ = _
  rw [Array.toList_map, List.count_map_of_injective _ _ byte_injective]

theorem clearedCount_add_count (g : Grid α) :
    g.clearedCount + g.cleared.count false = g.cellCount := by
  rw [clearedCount, ← Array.count_toList, ← Array.count_toList, List.count_true_add_count_false,
    Array.length_toList, cellCount]

theorem read?_clear_self (hg : g.Whole) {x y z : Nat} (h : g.frame.Has x y z) :
    (g.clear x y z).voxels.read? x y z = some (some removed) := by
  have hlt : g.frame.place x y z < g.cleared.size := hg.lt_of_index? (index?_of_has h)
  rw [read?_voxels (hg.clear x y z), index?_of_frame (carves_clear g x y z).frame, index?_of_has h,
    Option.bind_some, voxels_getElem?, clear, index?_of_has h]
  dsimp only
  rw [Array.getElem?_setIfInBounds_self_of_lt hlt]
  rfl

/-- Clearing a cell is not seen from another one. -/
theorem getElem?_clear {x y z x' y' z' i : Nat} (h : g.index? x' y' z' = some i)
    (hne : (x', y', z') ≠ (x, y, z)) : (g.clear x y z).cleared[i]? = g.cleared[i]? := by
  rw [clear]
  split
  case h_1 j hj =>
    have hij : j ≠ i := by
      rintro rfl
      obtain ⟨rfl, rfl, rfl⟩ := index?_inj h hj
      exact hne rfl
    exact Array.getElem?_setIfInBounds_ne hij
  case h_2 => rfl

theorem read?_clear (hg : g.Whole) {x y z x' y' z' : Nat} (hne : (x', y', z') ≠ (x, y, z)) :
    (g.clear x y z).voxels.read? x' y' z' = g.voxels.read? x' y' z' := by
  rw [read?_voxels (hg.clear x y z), read?_voxels hg, index?_of_frame (carves_clear g x y z).frame]
  cases h : g.index? x' y' z' with
  | none => rfl
  | some i => rw [Option.bind_some, Option.bind_some, voxels_getElem?, voxels_getElem?,
      getElem?_clear h hne]

/-- What can be relied on in a block and its bytes. -/
structure Sound [Scalar α] (g : Grid α) : Prop where
  size : g.voxels.bytes.size = g.width * g.height * g.depth
  state : ∀ b ∈ g.voxels.bytes, b = material ∨ b = removed
  /-- The count of cleared cells is that of their bytes, and with the others they are all. -/
  counts : g.clearedCount = g.voxels.bytes.count removed ∧
    g.clearedCount + g.voxels.bytes.count material = g.cellCount
  outside : ∀ x y z, g.index? x y z = none ↔ ¬ (x < g.width ∧ y < g.height ∧ z < g.depth)
  within : ∀ x y z i, g.index? x y z = some i → i < g.voxels.bytes.size
  onto : ∀ i < g.voxels.bytes.size, ∃! c : Nat × Nat × Nat, g.index? c.1 c.2.1 c.2.2 = some i
  /-- No sphere, be it infinite or undefined, leads a cut out of the bytes. -/
  cut : ∀ s, g.voxels.cut? s = some (g.cut s).voxels
  /-- No point leads a look at it out of the bytes. -/
  holds : ∀ p, g.voxels.holds? p = some (g.holds p)
  /-- Places that wrap around are these places. -/
  slot : ∀ x y z, g.slot? x y z = g.index? x y z
  /-- A program neither ends in a cut nor at a look. -/
  program : (∀ s, g.carve s = .ok (g.cut s)) ∧ ∀ p, g.holds? p = some (g.holds p)
  /-- Clearing a cell changes that cell and no other. -/
  remove : ∀ x y z, g.voxels.remove? x y z = some (g.clear x y z).voxels ∧
    (x < g.width ∧ y < g.height ∧ z < g.depth →
      (g.clear x y z).voxels.read? x y z = some (some removed)) ∧
    ∀ x' y' z', (x', y', z') ≠ (x, y, z) →
      (g.clear x y z).voxels.read? x' y' z' = g.voxels.read? x' y' z'

theorem Whole.sound [Scalar α] (hg : g.Whole) : g.Sound where
  size := (size_voxels g).trans hg.count
  state _ := state_of_mem
  counts := ⟨(count_byte g true).symm, by
    rw [← clearedCount_add_count g]
    exact congrArg _ (count_byte g false)⟩
  outside _ _ _ := index?_eq_none_iff
  within _ _ _ _ h := (hg.lt_of_index? h).trans_eq (size_voxels g).symm
  onto _ hi := hg.existsUnique_cell (hi.trans_eq (size_voxels g))
  cut s := (tracks_cut hg s).eq
  holds p := holds?_voxels hg p
  slot := hg.slot?_eq
  program := ⟨hg.carve_eq, hg.holds?_eq⟩
  remove x y z := ⟨(tracks_clear hg x y z).eq, read?_clear_self hg, fun _ _ _ => read?_clear hg⟩

end Grid

/-! ## Calls -/

namespace Grid

variable {g : Grid Float32}

theorem tracks_perform (hg : g.Whole) (cut : Cut) :
    Tracks (g.voxels.perform? cut) (g.cutBy cut) := by
  rw [Voxels.perform?, cutBy]
  cases cut.check with
  | ok s => exact tracks_cut hg s
  | error failure => exact Tracks.refl hg

theorem tracks_after (hg : g.Whole) (cuts : List Cut) :
    Tracks (g.voxels.after? cuts) (g.after cuts) :=
  Tracks.foldlM (fun _ cut hg' => tracks_perform hg' cut) hg cuts

/-- In a new block whose cells words can count, cuts of whatever spheres come to their end, keep to the
bytes and leave their number as it is; places and cells go on to correspond, and each byte says that its
cell holds material, as all do at first, or that it is cleared. -/
theorem sound_after_block {size origin : Point Float} {resolution : Float}
    (h : block size origin resolution = .ok g) (hfit : g.width * g.height * g.depth < 2 ^ 64)
    (cuts : List Cut) :
    g.voxels.bytes = Array.replicate (g.width * g.height * g.depth) material ∧
      g.run cuts = .ok (g.after cuts) ∧
      g.voxels.after? cuts = some (g.after cuts).voxels ∧ (g.after cuts).frame = g.frame ∧
      (g.after cuts).voxels.bytes.size = g.width * g.height * g.depth ∧ (g.after cuts).Sound ∧
      ∀ p : Point Float, (g.after cuts).holdsAt? p = some ((g.after cuts).holdsAt p) ∧
        (g.after cuts).voxels.holds? (narrow p) = some ((g.after cuts).holdsAt p) := by
  have hg : g.Whole := whole_of_block h hfit
  have hrun := hg.run_eq cuts
  have hafter := tracks_after hg cuts
  have hframe : (g.after cuts).frame = g.frame := (clears_of_run hrun).frame
  have hbytes : g.voxels.bytes = Array.replicate (g.width * g.height * g.depth) material := by
    obtain ⟨-, -, rfl⟩ := block_eq_ok_iff.1 h
    exact Array.map_replicate.trans (congrArg (Array.replicate · material) (Nat.mod_eq_of_lt hfit))
  refine ⟨hbytes, hrun, hafter.eq, hframe, ?_, hafter.whole.sound, fun p =>
    ⟨hafter.whole.holds?_eq (narrow p), holds?_voxels hafter.whole (narrow p)⟩⟩
  rw [size_voxels, hafter.whole.count, hframe]
  rfl

/-- A block of two cells. -/
def pair : Grid Float32 := full (narrow ⟨0, 0, 0⟩) 2 1 1 (Binary.narrow 1)

theorem block_pair : block ⟨2, 1, 1⟩ ⟨0, 0, 0⟩ 1 = .ok pair := by
  have hx : Scalar.ceil ((2 : Float) / 1) = 2 := by decide +kernel
  have hy : Scalar.ceil ((1 : Float) / 1) = 1 := by decide +kernel
  refine block_eq_ok_iff.2 ⟨by decide +kernel, by decide +kernel, ?_⟩
  rw [hx, hy]
  rfl

/-- The cut of an infinite sphere and that of an undefined one. -/
theorem sound_after_block_pair :
    let cuts : List Cut := [.sphere ⟨⟨0, 0, 0⟩, 1 / 0⟩, .sphere ⟨⟨0 / 0, 0, 0⟩, 1⟩]
    pair.voxels.bytes = Array.replicate (pair.width * pair.height * pair.depth) material ∧
      pair.run cuts = .ok (pair.after cuts) ∧
      pair.voxels.after? cuts = some (pair.after cuts).voxels ∧
      (pair.after cuts).frame = pair.frame ∧
      (pair.after cuts).voxels.bytes.size = pair.width * pair.height * pair.depth ∧
      (pair.after cuts).Sound ∧
      ∀ p : Point Float, (pair.after cuts).holdsAt? p = some ((pair.after cuts).holdsAt p) ∧
        (pair.after cuts).voxels.holds? (narrow p) = some ((pair.after cuts).holdsAt p) :=
  sound_after_block block_pair (by decide) _

end Grid

end Toolpath.Stock
