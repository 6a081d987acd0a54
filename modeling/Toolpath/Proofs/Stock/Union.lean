import Toolpath.Proofs.Stock.Whole

/-!
# Cuts add up

Whether a call is accepted does not hang on the block, and which cells its sphere covers does not hang
on what was cut before. A run of calls is therefore one walk over the cells that the accepted spheres
cover (`Grid.run_eq`), and the walk comes to its end exactly if something is kept at the place of each
(`Grid.removeAll_of_stored`, `Grid.removeAll_of_not_stored`). What it leaves is the union of what each
sphere covers, in whatever order and however often the calls are made (`Grid.removed_after_iff`).

A place may belong to several cells if words cannot count them all; then clearing one of them clears
the others (`Grid.removed_past_words`).
-/

namespace Toolpath.Stock

/-! ## Walks over cells -/

namespace Grid

variable {α : Type} {g g' : Grid α} {x y z i : Nat} {cells : List Cell}

/-- If the block has the cell, something is kept at its place. -/
def Stored (g : Grid α) (x y z : Nat) : Prop := ∀ i, g.slot? x y z = some i → i < g.cellCount

/-- The cell holds no material any more. -/
def Removed (g : Grid α) (x y z : Nat) : Prop :=
  ∃ i, g.slot? x y z = some i ∧ g.cleared[i]? = some true

/-- Takes the material out of some cells, one after another. -/
def removeAll (g : Grid α) (cells : List Cell) : Except (Grid α) (Grid α) :=
  cells.foldlM (fun g c => g.remove c.x c.y c.z) g

theorem stored_iff_of_slot? (h : g.slot? x y z = some i) : g.Stored x y z ↔ i < g.cellCount := by
  rw [Stored, h]
  simp

theorem Whole.stored (hg : g.Whole) (x y z : Nat) : g.Stored x y z := fun _ h =>
  hg.lt_of_index? ((hg.slot?_eq x y z).symm.trans h)

namespace Clears

variable {P : Nat → Prop}

theorem stored_iff (h : g.Clears g' P) : g'.Stored x y z ↔ g.Stored x y z := by
  rw [Stored, Stored, h.size]
  simp only [slot?_of_frame h.frame]

theorem removed_iff (h : g.Clears g' P) :
    g'.Removed x y z ↔ g.Removed x y z ∨ ∃ i, g.slot? x y z = some i ∧ i < g.cellCount ∧ P i := by
  simp only [Removed, slot?_of_frame h.frame, h.cleared, and_or_left, exists_or]

end Clears

theorem remove_of_stored (h : g.Stored x y z) :
    ∃ g', g.remove x y z = .ok g' ∧ g.Clears g' (g.slot? x y z = some ·) := by
  rw [remove]
  cases hi : g.slot? x y z with
  | none => exact ⟨g, rfl, (Clears.refl g).congr (by simp)⟩
  | some i =>
    have hlt : i < g.cleared.size := (stored_iff_of_slot? hi).1 h
    exact ⟨_, dif_pos hlt, (clears_set hlt).congr (by simp)⟩

theorem remove_of_not_stored (h : ¬g.Stored x y z) : g.remove x y z = .error g := by
  obtain ⟨i, hi, hlt⟩ : ∃ i, g.slot? x y z = some i ∧ ¬i < g.cellCount := by simpa [Stored] using h
  rw [remove, hi]
  exact dif_neg hlt

theorem removeAll_cons (g : Grid α) (c : Cell) (cells : List Cell) :
    g.removeAll (c :: cells) = g.remove c.x c.y c.z >>= (·.removeAll cells) := List.foldlM_cons

theorem removeAll_append (g : Grid α) (cells cells' : List Cell) :
    g.removeAll (cells ++ cells') = g.removeAll cells >>= (·.removeAll cells') := List.foldlM_append

/-- A walk to whose cells something is kept clears their places. -/
theorem removeAll_of_stored (h : ∀ c ∈ cells, g.Stored c.x c.y c.z) :
    ∃ g', g.removeAll cells = .ok g' ∧
      g.Clears g' fun i => ∃ c ∈ cells, g.slot? c.x c.y c.z = some i := by
  induction cells generalizing g with
  | nil => exact ⟨g, rfl, (Clears.refl g).congr (by simp)⟩
  | cons c cells ih =>
    obtain ⟨hc, hcells⟩ := List.forall_mem_cons.1 h
    obtain ⟨g₁, hremove, hclears⟩ := remove_of_stored hc
    obtain ⟨g₂, hwalk, hrest⟩ := ih fun c' hc' => hclears.stored_iff.2 (hcells c' hc')
    refine ⟨g₂, ?_, (hclears.trans hrest).congr fun i _ => ?_⟩
    · rw [removeAll_cons, hremove]
      exact hwalk
    · simp only [slot?_of_frame hclears.frame, List.exists_mem_cons_iff]

/-- A walk to one of whose cells nothing is kept ends there. -/
theorem removeAll_of_not_stored (h : ∃ c ∈ cells, ¬g.Stored c.x c.y c.z) :
    ∃ g' P, g.removeAll cells = .error g' ∧ g.Clears g' P := by
  induction cells generalizing g with
  | nil => simp at h
  | cons c cells ih =>
    by_cases hc : g.Stored c.x c.y c.z
    · obtain ⟨g₁, hremove, hclears⟩ := remove_of_stored hc
      obtain ⟨c', hc', hne⟩ :=
        ((List.exists_mem_cons_iff _ _ _).1 h).resolve_left (not_not.2 hc)
      obtain ⟨g₂, P, hwalk, hrest⟩ := @ih g₁ ⟨c', hc', mt hclears.stored_iff.1 hne⟩
      refine ⟨g₂, _, ?_, hclears.trans hrest⟩
      rw [removeAll_cons, hremove]
      exact hwalk
    · refine ⟨g, _, ?_, Clears.refl g⟩
      rw [removeAll_cons, remove_of_not_stored hc]
      rfl

theorem removeAll_eq_ok_iff :
    (∃ g', g.removeAll cells = .ok g') ↔ ∀ c ∈ cells, g.Stored c.x c.y c.z := by
  constructor
  · rintro ⟨g', hok⟩ c hc
    by_contra hne
    obtain ⟨g'', -, herror, -⟩ := removeAll_of_not_stored ⟨c, hc, hne⟩
    cases hok.symm.trans herror
  · intro h
    obtain ⟨g', hok, -⟩ := removeAll_of_stored h
    exact ⟨g', hok⟩

theorem clears_of_removeAll (h : g.removeAll cells = .ok g') :
    g.Clears g' fun i => ∃ c ∈ cells, g.slot? c.x c.y c.z = some i := by
  obtain ⟨g'', hok, hclears⟩ := removeAll_of_stored (removeAll_eq_ok_iff.1 ⟨g', h⟩)
  obtain rfl : g' = g'' := Except.ok.inj (h.symm.trans hok)
  exact hclears

/-- Wherever a walk ends, nothing is filled again. -/
theorem exists_clears_of_removeAll (h : g.removeAll cells = .ok g' ∨ g.removeAll cells = .error g') :
    ∃ P, g.Clears g' P := by
  rcases h with h | h
  · exact ⟨_, clears_of_removeAll h⟩
  · have hne : ¬∀ c ∈ cells, g.Stored c.x c.y c.z := fun hstored => by
      obtain ⟨g'', hok⟩ := removeAll_eq_ok_iff.2 hstored
      cases h.symm.trans hok
    obtain ⟨g'', P, herror, hclears⟩ := removeAll_of_not_stored (by simpa using hne)
    obtain rfl : g' = g'' := Except.error.inj (h.symm.trans herror)
    exact ⟨P, hclears⟩

end Grid

/-! ## Calls -/

/-- A call that cuts. -/
inductive Cut where
  /-- A sphere, unchecked. -/
  | sphere (sphere : Sphere Float32)
  | subtract (sphere : Sphere Float32)
  /-- A ball with its tip at a point. -/
  | ball (tool : Ball) (tip : Point Float)

/-- The sphere that a call cuts out if it is accepted. -/
def Cut.solid? : Cut → Option (Sphere Float32)
  | sphere s | subtract s => some s
  | ball tool tip => (tool.sphereAt tip).toOption

/-- The sphere, unless it is not finite. -/
def Sphere.check (s : Sphere Float32) : Except (Playback.Failure Float) (Sphere Float32) :=
  if s.centre.isFinite && s.radius.isFinite then .ok s else .error (.removal "non-finite sphere")

theorem Sphere.eq_of_check {s s' : Sphere Float32} (h : s.check = .ok s') : s = s' := by
  rw [check] at h
  split at h
  · exact Except.ok.inj h
  · cases h

/-- The sphere of a call, or why the call is refused. No block is asked for it. -/
def Cut.check : Cut → Except (Playback.Failure Float) (Sphere Float32)
  | sphere s => .ok s
  | subtract s => s.check
  | ball tool tip => tool.sphereAt tip >>= Sphere.check

theorem Cut.solid?_of_check {cut : Cut} {s : Sphere Float32} (h : cut.check = .ok s) :
    cut.solid? = some s := by
  cases cut with
  | sphere s' => exact congrArg some (Except.ok.inj h)
  | subtract s' => exact congrArg some (Sphere.eq_of_check h)
  | ball tool tip =>
    rw [check] at h
    rw [solid?]
    cases hs : tool.sphereAt tip with
    | error failure =>
      rw [hs] at h
      cases h
    | ok s' =>
      rw [hs] at h
      exact congrArg some (Sphere.eq_of_check h)

/-- The spheres of the calls that are not refused. -/
def spheres (cuts : List Cut) : List (Sphere Float32) := cuts.filterMap fun cut => cut.check.toOption

namespace Grid

variable {g g' : Grid Float32} {cuts : List Cut} {x y z : Nat}

/-- The block after a call, and how the call ends. -/
def perform (g : Grid Float32) : Cut → Grid Float32 × Ending
  | .sphere s => g.removeSphere s
  | .subtract s => g.subtract s
  | .ball tool tip =>
    let (removal, ending) := Removal.cutAt { tool, stock := g } tip
    (removal.stock, ending)

/-- The block for the next call, unless there is none. -/
def carryOn : Grid Float32 × Ending → Except (Grid Float32) (Grid Float32)
  | (g, .broken) => .error g
  | (g, _) => .ok g

/-- The block after some calls, whatever becomes of each, unless one of them ends the program. -/
def run (g : Grid Float32) (cuts : List Cut) : Except (Grid Float32) (Grid Float32) :=
  cuts.foldlM (fun g cut => carryOn (g.perform cut)) g

/-- The spheres of some calls, those of refused calls left out. -/
def applied (g : Grid Float32) : List Cut → List (Sphere Float32)
  | [] => []
  | cut :: cuts =>
    let (g', ending) := g.perform cut
    let spheres := match ending with
      | .refused _ => []
      | _ => cut.solid?.toList
    spheres ++ g'.applied cuts

/-- What becomes of a block and of a call with a checked sphere. -/
def settle (g : Grid Float32) :
    Except (Playback.Failure Float) (Sphere Float32) → Grid Float32 × Ending
  | .ok s => g.removeSphere s
  | .error failure => (g, .refused failure)

theorem subtract_eq (g : Grid Float32) (s : Sphere Float32) : g.subtract s = g.settle s.check := by
  rw [subtract, Sphere.check]
  split <;> rfl

theorem perform_eq (g : Grid Float32) (cut : Cut) : g.perform cut = g.settle cut.check := by
  cases cut with
  | sphere s => rfl
  | subtract s => exact subtract_eq g s
  | ball tool tip =>
    rw [perform, Removal.cutAt, Cut.check]
    dsimp only
    cases tool.sphereAt tip with
    | error failure => rfl
    | ok s => exact subtract_eq g s

theorem carryOn_removeSphere (g : Grid Float32) (s : Sphere Float32) :
    carryOn (g.removeSphere s) = g.carve s := by
  rw [removeSphere]
  cases g.carve s <;> rfl

/-- Which calls are refused does not hang on the block or on the calls before them. -/
theorem applied_eq (g : Grid Float32) (cuts : List Cut) : g.applied cuts = spheres cuts := by
  induction cuts generalizing g with
  | nil => rfl
  | cons cut cuts ih =>
    rw [applied, perform_eq, spheres, List.filterMap_cons]
    cases hcheck : cut.check with
    | error failure => exact ih g
    | ok s =>
      have hsolid := Cut.solid?_of_check hcheck
      rw [settle, removeSphere, hsolid]
      cases g.carve s <;> exact congrArg (s :: ·) (ih _)

theorem run_cons (g : Grid Float32) (cut : Cut) (cuts : List Cut) :
    g.run (cut :: cuts) =
      match cut.check with
      | .ok s => g.carve s >>= (·.run cuts)
      | .error _ => g.run cuts := by
  rw [run, List.foldlM_cons, perform_eq]
  cases cut.check with
  | error failure => rfl
  | ok s =>
    rw [settle, carryOn_removeSphere]
    rfl

theorem run_sphere (g : Grid Float32) (s : Sphere Float32) : g.run [.sphere s] = g.carve s := by
  rw [run_cons]
  exact bind_pure (g.carve s)

/-- Calls go over the cells that their spheres come to, one sphere after another. -/
theorem run_eq (g : Grid Float32) (cuts : List Cut) :
    g.run cuts = g.removeAll ((spheres cuts).flatMap g.reached) := by
  induction cuts generalizing g with
  | nil => rfl
  | cons cut cuts ih =>
    rw [run_cons, spheres, List.filterMap_cons]
    cases cut.check with
    | error failure => exact ih g
    | ok s =>
      change g.removeAll (g.reached s) >>= _ =
        g.removeAll (g.reached s ++ (spheres cuts).flatMap g.reached)
      rw [removeAll_append]
      cases hwalk : g.removeAll (g.reached s) with
      | error g' => rfl
      | ok g' =>
        have hreached : g'.reached = g.reached :=
          funext (reached_of_frame (clears_of_removeAll hwalk).frame)
        exact (ih g').trans (by rw [hreached]; rfl)

/-- The place is that of a cell which the sphere of an accepted call covers. -/
def Struck (g : Grid Float32) (cuts : List Cut) (i : Nat) : Prop :=
  ∃ s ∈ g.applied cuts, ∃ x y z, g.frame.Covers s x y z ∧ g.slot? x y z = some i

theorem mem_reached_spheres_iff {c : Cell} :
    c ∈ (spheres cuts).flatMap g.reached ↔ ∃ s ∈ g.applied cuts, g.frame.Covers s c.x c.y c.z := by
  simp only [List.mem_flatMap, mem_reached_iff, applied_eq]

theorem run_eq_ok_iff : (∃ g', g.run cuts = .ok g') ↔
    ∀ s ∈ g.applied cuts, ∀ x y z, g.frame.Covers s x y z → g.Stored x y z := by
  rw [run_eq, removeAll_eq_ok_iff]
  constructor
  · intro h s hs x y z hc
    exact h ⟨x, y, z⟩ (mem_reached_spheres_iff.2 ⟨s, hs, hc⟩)
  · intro h c hc
    obtain ⟨s, hs, hcovers⟩ := mem_reached_spheres_iff.1 hc
    exact h s hs _ _ _ hcovers

theorem clears_of_run (h : g.run cuts = .ok g') : g.Clears g' (g.Struck cuts) := by
  rw [run_eq] at h
  refine (clears_of_removeAll h).congr fun i _ => ?_
  constructor
  · rintro ⟨c, hc, hi⟩
    obtain ⟨s, hs, hcovers⟩ := mem_reached_spheres_iff.1 hc
    exact ⟨s, hs, c.x, c.y, c.z, hcovers, hi⟩
  · rintro ⟨s, hs, x, y, z, hcovers, hi⟩
    exact ⟨⟨x, y, z⟩, mem_reached_spheres_iff.2 ⟨s, hs, hcovers⟩, hi⟩

theorem exists_clears_of_run (h : g.run cuts = .ok g' ∨ g.run cuts = .error g') :
    ∃ P, g.Clears g' P := by
  rw [run_eq] at h
  exact exists_clears_of_removeAll h

theorem removed_of_run (h : g.run cuts = .ok g') :
    g'.Removed x y z ↔ g.Removed x y z ∨ ∃ i, g.slot? x y z = some i ∧ g.Struck cuts i := by
  rw [(clears_of_run h).removed_iff]
  refine or_congr_right (exists_congr fun i => and_congr_right fun _ => and_iff_right_of_imp ?_)
  rintro ⟨s, hs, x', y', z', hcovers, hi⟩
  exact run_eq_ok_iff.1 ⟨g', h⟩ s hs x' y' z' hcovers i hi

/-- Neither the order of calls nor how often they are made matters to what they leave. -/
theorem run_of_mem_iff {others : List Cut} (ho : ∀ cut, cut ∈ others ↔ cut ∈ cuts)
    (h : g.run cuts = .ok g') : g.run others = .ok g' := by
  have hmem (s : Sphere Float32) : s ∈ g.applied others ↔ s ∈ g.applied cuts := by
    simp only [applied_eq, spheres, List.mem_filterMap, ho]
  obtain ⟨g'', hok⟩ := run_eq_ok_iff.2 fun s hs => run_eq_ok_iff.1 ⟨g', h⟩ s ((hmem s).1 hs)
  have hclears : g.Clears g'' (g.Struck cuts) := (clears_of_run hok).congr fun i _ => by
    simp only [Struck, hmem]
  rw [hok, hclears.unique (clears_of_run h)]

/-- In a whole block a place is struck only through its own cell. -/
theorem Whole.struck_iff (hg : g.Whole) :
    (∃ i, g.slot? x y z = some i ∧ g.Struck cuts i) ↔
      g.frame.Has x y z ∧ ∃ s ∈ g.applied cuts, g.frame.Covers s x y z := by
  simp only [Struck, hg.slot?_eq]
  constructor
  · rintro ⟨i, hi, s, hs, x', y', z', hcovers, hi'⟩
    obtain ⟨rfl, rfl, rfl⟩ := index?_inj hi hi'
    exact ⟨(has_of_index? hi).1, s, hs, hcovers⟩
  · rintro ⟨hhas, s, hs, hcovers⟩
    exact ⟨_, index?_of_has hhas, s, hs, x, y, z, hcovers, index?_of_has hhas⟩

/-- Calls come to their end unless a sphere of an accepted one covers a cell at whose place nothing is
kept. At their end a cell holds no material if it held none before or its place is that of a covered
cell, and it is no matter in which order and how often the calls are made. Wherever they end, the number
of cleared cells has not fallen, and no cell is filled again; a refused call changes nothing. In a block
that keeps a state for each of its cells calls always come to their end, and they clear the cells that
the spheres of the accepted ones cover. -/
theorem removed_after_iff (g : Grid Float32) (cuts : List Cut) :
    ((∃ g', g.run cuts = .ok g') ↔
      ∀ s ∈ g.applied cuts, ∀ x y z, g.frame.Covers s x y z → g.Stored x y z) ∧
    (∀ g', g.run cuts = .ok g' →
      (∀ x y z, g'.Removed x y z ↔
        g.Removed x y z ∨ ∃ i, g.slot? x y z = some i ∧ g.Struck cuts i) ∧
      ∀ others : List Cut, (∀ cut, cut ∈ others ↔ cut ∈ cuts) → g.run others = .ok g') ∧
    (∀ g', g.run cuts = .ok g' ∨ g.run cuts = .error g' →
      g'.frame = g.frame ∧ g.clearedCount ≤ g'.clearedCount ∧
      ∀ x y z, g.Removed x y z → g'.Removed x y z) ∧
    (∀ cut failure, (g.perform cut).2 = .refused failure → (g.perform cut).1 = g) ∧
    (g.Whole → ∃ g', g.run cuts = .ok g' ∧ g'.Whole ∧
      ∀ x y z, g'.Removed x y z ↔ g.Removed x y z ∨
        g.frame.Has x y z ∧ ∃ s ∈ g.applied cuts, g.frame.Covers s x y z) := by
  refine ⟨run_eq_ok_iff, fun g' h => ⟨fun x y z => removed_of_run h, fun others ho =>
    run_of_mem_iff ho h⟩, fun g' h => ?_, fun cut failure h => ?_, fun hg => ?_⟩
  · obtain ⟨P, hclears⟩ := exists_clears_of_run h
    exact ⟨hclears.frame, hclears.clearedCount_le, fun x y z hc => hclears.removed_iff.2 (.inl hc)⟩
  · rw [perform_eq] at h ⊢
    cases hcheck : cut.check with
    | error failure' => rfl
    | ok s =>
      rw [hcheck, settle, removeSphere] at h
      cases hcarve : g.carve s <;> simp [hcarve] at h
  · obtain ⟨g', h⟩ := run_eq_ok_iff.2 fun s _ x y z _ => hg.stored x y z
    exact ⟨g', h, hg.of_clears (clears_of_run h), fun x y z =>
      (removed_of_run h).trans (or_congr_right hg.struck_iff)⟩

/-- A block of 26 cells more than words can count. -/
def overfull : Grid Float32 :=
  full (narrow ⟨0, 0, 0⟩) 1380963 3528238 3785993 (Binary.narrow 1)

theorem block_overfull : block ⟨1380963, 3528238, 3785993⟩ ⟨0, 0, 0⟩ 1 = .ok overfull := by
  have hx : Scalar.ceil ((1380963 : Float) / 1) = 1380963 := by decide +kernel
  have hy : Scalar.ceil ((3528238 : Float) / 1) = 3528238 := by decide +kernel
  have hz : Scalar.ceil ((3785993 : Float) / 1) = 3785993 := by decide +kernel
  refine block_eq_ok_iff.2 ⟨by decide +kernel, by decide +kernel, ?_⟩
  rw [hx, hy, hz]
  rfl

theorem cellCount_overfull : overfull.cellCount = 26 := Array.size_replicate

/-- A sphere at the cell that is the last of all. -/
def corner : Sphere Float32 := ⟨⟨1380962.5, 3528237.5, 3785992.5⟩, 0.4⟩

/-- A sphere at the first cell at whose place nothing is kept. -/
def outlying : Sphere Float32 := ⟨⟨26.5, 0.5, 0.5⟩, 0.4⟩

theorem reached_corner : overfull.reached corner = [⟨1380962, 3528237, 3785992⟩] := by
  decide +kernel

theorem reached_outlying : overfull.reached outlying = [⟨26, 0, 0⟩] := by decide +kernel

/-- The place of the last cell of the block is that of another one, which no sphere covers and which is
cleared with it. At the place of the outlying cell nothing is kept, and a cut that comes to it ends the
program. -/
theorem removed_past_words :
    block ⟨1380963, 3528238, 3785993⟩ ⟨0, 0, 0⟩ 1 = .ok overfull ∧
    (overfull.frame.Has 25 0 0 ∧ ¬overfull.Removed 25 0 0 ∧
      (∀ s ∈ overfull.applied [.sphere corner], ¬overfull.frame.Covers s 25 0 0) ∧
      ∃ g', overfull.run [.sphere corner] = .ok g' ∧ g'.Removed 25 0 0) ∧
    (overfull.frame.Has 26 0 0 ∧ overfull.frame.Covers outlying 26 0 0 ∧
      ∃ g', overfull.run [.sphere outlying] = .error g') := by
  have hlast : overfull.slot? 1380962 3528237 3785992 = some 25 := by decide +kernel
  have hshared : overfull.slot? 25 0 0 = some 25 := by decide +kernel
  have hbeyond : overfull.slot? 26 0 0 = some 26 := by decide +kernel
  refine ⟨block_overfull, ⟨by decide, ?_, ?_, ?_⟩, by decide, ?_, ?_⟩
  · rintro ⟨i, -, hi⟩
    rw [overfull, full, Array.getElem?_replicate] at hi
    split at hi <;> cases hi
  · intro s hs hcovers
    obtain rfl : s = corner := by simpa [applied_eq, spheres, Cut.check, Except.toOption] using hs
    have hmem := mem_reached_iff (c := ⟨25, 0, 0⟩).2 hcovers
    rw [reached_corner] at hmem
    exact absurd hmem (by decide)
  · have hstored : ∀ c ∈ overfull.reached corner, overfull.Stored c.x c.y c.z := by
      rw [reached_corner]
      intro c hc
      obtain rfl := List.mem_singleton.1 hc
      rw [stored_iff_of_slot? hlast, cellCount_overfull]
      decide
    obtain ⟨g', hrun, hclears⟩ := removeAll_of_stored hstored
    refine ⟨g', (run_sphere overfull corner).trans hrun,
      hclears.removed_iff.2 (.inr ⟨25, hshared, ?_, ?_⟩)⟩
    · rw [cellCount_overfull]
      decide
    · exact ⟨_, reached_corner ▸ List.mem_singleton_self _, hlast⟩
  · exact mem_reached_iff (c := ⟨26, 0, 0⟩).1 (reached_outlying ▸ List.mem_singleton_self _)
  · have hne : ¬overfull.Stored 26 0 0 := by
      rw [stored_iff_of_slot? hbeyond, cellCount_overfull]
      decide
    obtain ⟨g', P, hrun, -⟩ : ∃ g' P, overfull.carve outlying = .error g' ∧ overfull.Clears g' P :=
      removeAll_of_not_stored ⟨⟨26, 0, 0⟩, reached_outlying ▸ List.mem_singleton_self _, hne⟩
    exact ⟨g', (run_sphere overfull outlying).trans hrun⟩

end Grid

end Toolpath.Stock
