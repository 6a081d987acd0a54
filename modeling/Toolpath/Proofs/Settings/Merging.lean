import Mathlib
import Toolpath.Proofs.Settings.Check

/-!
# One configuration over another

A section holds nothing but defaults if it is equal to the default section, as numbers are equal: the
two zeros are, and the undefined value is not equal to itself. What follows for `Config.merge` is
`Config.merge_laws`, section by section from what is known of `overlay`.
-/

namespace Toolpath

/-! ## Equality of records -/

section Records

variable {β γ : Type} [BEq β] [BEq γ]

instance partialEquivBEq_prod [PartialEquivBEq β] [PartialEquivBEq γ] :
    PartialEquivBEq (β × γ) where
  symm h := by
    obtain ⟨h₁, h₂⟩ := Bool.and_eq_true_iff.1 h
    exact Bool.and_eq_true_iff.2 ⟨BEq.symm h₁, BEq.symm h₂⟩
  trans h h' := by
    obtain ⟨h₁, h₂⟩ := Bool.and_eq_true_iff.1 h
    obtain ⟨h₁', h₂'⟩ := Bool.and_eq_true_iff.1 h'
    exact Bool.and_eq_true_iff.2 ⟨BEq.trans h₁ h₁', BEq.trans h₂ h₂'⟩

/-- Records that are compared by what is read off them are compared as that is. -/
theorem partialEquivBEq_of_map [PartialEquivBEq γ] (f : β → γ)
    (h : ∀ a b : β, (a == b) = (f a == f b)) : PartialEquivBEq β where
  symm {a b} hab := by
    rw [h] at hab ⊢
    exact BEq.symm hab
  trans {a b c} hab hbc := by
    rw [h] at hab hbc ⊢
    exact BEq.trans hab hbc

end Records

instance : PartialEquivBEq (Point Float) :=
  partialEquivBEq_of_map (fun p ↦ ((p.x, p.y), p.z)) fun _ _ ↦ rfl

namespace Settings

instance : PartialEquivBEq Interpreter :=
  partialEquivBEq_of_map (fun s ↦ (s.arcStep, s.repeatDepth)) fun _ _ ↦ rfl

instance : PartialEquivBEq Playback :=
  partialEquivBEq_of_map (fun s ↦ (s.tick, s.speed, s.removalInterval)) fun _ _ ↦ rfl

instance : PartialEquivBEq Stock :=
  partialEquivBEq_of_map
    (fun s ↦ (s.width, s.height, s.depth, s.origin, s.resolution, s.toolRadius)) fun _ _ ↦ rfl

/-! ## One section over another -/

section Overlay

variable {β : Type} [BEq β] {default old new : β}

/-- What is laid over is there, or what it is laid over. -/
theorem overlay_choice (default old new : β) :
    overlay default old new = old ∨ overlay default old new = new := ite_eq_or_eq ..

theorem overlay_keeps {P : β → Prop} (default : β) (hold : P old) (hnew : P new) :
    P (overlay default old new) := by
  rcases overlay_choice default old new with h | h <;> rwa [h]

theorem overlay_assoc (default first second third : β) :
    overlay default (overlay default first second) third =
      overlay default first (overlay default second third) := by
  cases h : third == default with
  | true => rw [overlay_of_beq _ h, overlay_of_beq _ h]
  | false => rw [overlay_of_not_beq _ h, overlay_of_not_beq _ h, overlay_of_not_beq _ h]

theorem overlay_again (default old new : β) :
    overlay default (overlay default old new) new = overlay default old new := by
  cases h : new == default with
  | true => rw [overlay_of_beq _ h]
  | false => rw [overlay_of_not_beq _ h, overlay_of_not_beq _ h]

/-- Over the default a section is equal to itself if it ever is. -/
theorem overlay_default_beq [PartialEquivBEq β] (default new : β) :
    (overlay default default new == new) = (new == new) := by
  cases h : new == default with
  | true => rw [overlay_of_beq _ h, BEq.symm h, BEq.trans h (BEq.symm h)]
  | false => rw [overlay_of_not_beq _ h]

end Overlay

/-! ## Configurations -/

namespace Config

/-- No number of the configuration is undefined. -/
def Defined (c : Config) : Prop := ∀ x ∈ c.reals, x.isNaN = false

instance (c : Config) : Decidable c.Defined := inferInstanceAs (Decidable (∀ x ∈ c.reals, _))

theorem beq_eq (a b : Config) :
    (a == b) = (a.interpreter == b.interpreter && (a.playback == b.playback && a.stock == b.stock)) :=
  rfl

/-- A configuration is equal to itself unless a number of it is undefined. -/
theorem beq_self_iff (c : Config) : (c == c) = true ↔ c.Defined := by
  have horigin (p : Point Float) : (p == p) = (p.x == p.x && p.y == p.y && p.z == p.z) := rfl
  have hinterpreter (s : Interpreter) :
      (s == s) = (s.arcStep == s.arcStep && s.repeatDepth == s.repeatDepth) := rfl
  have hplayback (s : Playback) :
      (s == s) = (s.tick == s.tick && (s.speed == s.speed && s.removalInterval == s.removalInterval)) :=
    rfl
  have hstock (s : Stock) :
      (s == s) = (s.width == s.width && (s.height == s.height && (s.depth == s.depth &&
        (s.origin == s.origin && (s.resolution == s.resolution && s.toolRadius == s.toolRadius))))) := rfl
  rw [beq_eq, hinterpreter, hplayback, hstock, horigin]
  simp [Defined, reals, and_assoc]

theorem merge_assoc (a b c : Config) : (a.merge b).merge c = a.merge (b.merge c) := by
  simp only [merge, overlay_assoc]

/-- A configuration is unchanged by the defaults. -/
theorem merge_default (a : Config) : a.merge {} = a := rfl

theorem merge_again (a b : Config) : (a.merge b).merge b = a.merge b := by
  simp only [merge, overlay_again]

theorem default_merge_beq (a : Config) : (({} : Config).merge a == a) = (a == a) := by
  simp only [beq_eq, merge, overlay_default_beq]

/-- A good configuration over a good one is good: no check looks beyond its section. -/
theorem check_merge {a b : Config} (ha : a.check = .ok ()) (hb : b.check = .ok ()) :
    (a.merge b).check = .ok () := by
  obtain ⟨hai, hap, has⟩ := check_eq_ok_iff.1 ha
  obtain ⟨hbi, hbp, hbs⟩ := check_eq_ok_iff.1 hb
  refine check_eq_ok_iff.2 ⟨?_, ?_, ?_⟩
  · exact overlay_keeps (P := fun s : Interpreter ↦ s.check = .ok ()) _ hai hbi
  · exact overlay_keeps (P := fun s : Playback ↦ s.check = .ok ()) _ hap hbp
  · exact overlay_keeps (P := fun s : Stock ↦ s.check = .ok ()) _ has hbs

/-- The defaults are neutral: over anything they leave it as it is, and anything laid over them is
equal to what comes of it, unless a number of it is undefined and it is not even equal to itself. To lay
one configuration over another is associative, and to do it again changes nothing; each section is then
that of one of the two, so that a good configuration over a good one is good. -/
theorem merge_laws (a b c : Config) :
    (a.merge b).merge c = a.merge (b.merge c) ∧ a.merge {} = a ∧
    ((({} : Config).merge a == a) = true ↔ a.Defined) ∧ ((a == a) = true ↔ a.Defined) ∧
    (a.merge b).merge b = a.merge b ∧
    (a.check = .ok () → b.check = .ok () → (a.merge b).check = .ok ()) ∧
    ((a.merge b).interpreter = a.interpreter ∨ (a.merge b).interpreter = b.interpreter) ∧
    ((a.merge b).playback = a.playback ∨ (a.merge b).playback = b.playback) ∧
    ((a.merge b).stock = a.stock ∨ (a.merge b).stock = b.stock) := by
  refine ⟨merge_assoc a b c, merge_default a, ?_, beq_self_iff a, merge_again a b, check_merge, ?_⟩
  · rw [default_merge_beq, beq_self_iff]
  · exact ⟨overlay_choice .., overlay_choice .., overlay_choice ..⟩

/-- A wider block, and a faster playback laid over it. -/
theorem merge_laws_widerFaster :
    let wider : Config := { stock := { width := 40 } }
    let faster : Config := { playback := { speed := 50 } }
    wider.check = .ok () ∧ faster.check = .ok () ∧ (wider.merge faster).check = .ok () ∧
      (({} : Config).merge wider == wider) = true ∧
      (wider.merge faster).stock.width = 40 ∧ (wider.merge faster).playback.speed = 50 := by
  intro wider faster
  have hwider : wider.check = .ok () := by decide +kernel
  have hfaster : faster.check = .ok () := by decide +kernel
  obtain ⟨-, -, hneutral, -, -, hgood, -⟩ := merge_laws wider faster {}
  refine ⟨hwider, hfaster, hgood hwider hfaster, hneutral.2 (by decide +kernel), ?_, ?_⟩
  · decide +kernel
  · decide +kernel

/-- What is laid over the defaults is equal to what comes of it, though not always the same: the other
zero counts as the default. -/
example :
    let mirrored : Config := { stock := { origin := ⟨-0, 0, -20⟩ } }
    mirrored.stock.origin.x.toBits = 0x8000000000000000 ∧
      (({} : Config).merge mirrored).stock.origin.x.toBits = 0 := by
  decide +kernel

end Config

end Settings

end Toolpath
