import Toolpath.Proofs.Storage.Growth
import Toolpath.Settings.Store

/-!
# Refused settings

Settings are refused for what they are, for the format that their file asks for, or because that format
cannot hold them. A store that refuses to save has then made the directories of its file, which its
configuration alone would not have done, and has done nothing else (`Store.save_refused`).
-/

namespace Toolpath.Settings

open Storage (Obstacle Path Source Tree)

namespace Config

variable {c : Config} {p : Path} {problem : Problem}

/-- Why a configuration is not written, whatever files there are. -/
inductive Refused (c : Config) (p : Path) (problem : Problem) : Prop where
  | invalid (h : c.check = .error problem)
  | unsupported (hc : c.check = .ok ()) (h : Format.ofPath p = .error problem)
  | unwritable (hc : c.check = .ok ()) (f : Format) (hf : Format.ofPath p = .ok f)
      (h : f.encode c = .error problem)

/-- A configuration alone is refused before anything is done to the files. -/
theorem Refused.save_eq (h : c.Refused p problem) (t : Tree) : c.save t p = .error problem := by
  cases h with
  | invalid h => simp only [save, h, bind, Except.bind]
  | unsupported hc h => simp only [save, hc, h, bind, Except.bind]
  | unwritable hc f hf h => simp only [save, hc, hf, h, bind, Except.bind]

/-- What is not written has been refused, or has met an obstacle. -/
theorem refused_or_of_save {t : Tree} (h : c.save t p = .error problem) :
    c.Refused p problem ∨ ∃ text, problem = .save text := by
  unfold save at h
  cases hc : c.check with
  | error e =>
    simp only [hc, bind, Except.bind] at h
    cases h
    exact .inl (.invalid hc)
  | ok =>
    cases hf : Format.ofPath p with
    | error e =>
      simp only [hc, hf, bind, Except.bind] at h
      cases h
      exact .inl (.unsupported hc hf)
    | ok f =>
      cases ht : f.encode c with
      | error e =>
        simp only [hc, hf, ht, bind, Except.bind] at h
        cases h
        exact .inl (.unwritable hc f hf ht)
      | ok text =>
        simp only [hc, hf, ht, bind, Except.bind] at h
        split at h
        · cases h
        · cases h
          exact .inr ⟨_, rfl⟩

end Config

namespace Store

variable {s : Store} {t : Tree} {problem : Problem}

/-- The names on the way to the directory of the file. -/
def above (s : Store) : List String := s.path.parent?.elim [] Path.way

theorem makeDirectory_fst (s : Store) (t : Tree) :
    (s.makeDirectory t).1 = s.path.parent?.elim t fun above ↦ (t.makeDirectories above).1 := by
  unfold makeDirectory
  cases s.path.parent? with
  | none => rfl
  | some above =>
    simp only [Option.elim]
    split <;> next h => rw [h]

theorem makeDirectory_snd_eq_ok_iff :
    (s.makeDirectory t).2 = .ok () ↔
      ∀ above, s.path.parent? = some above → (t.makeDirectories above).2 = .ok () := by
  unfold makeDirectory
  cases s.path.parent? with
  | none => simp
  | some above =>
    simp only [Option.some.injEq, forall_eq']
    split <;> next h => simp [h]

theorem directory_of_makeDirectory (h : (s.makeDirectory t).2 = .error problem) :
    ∃ text, problem = .directory text := by
  unfold makeDirectory at h
  cases hp : s.path.parent? with
  | none => simp [hp] at h
  | some above =>
    simp only [hp] at h
    split at h <;> cases h
    exact ⟨_, rfl⟩

theorem makeDirectory_grows (s : Store) (t : Tree) : t.Grows s.above (s.makeDirectory t).1 := by
  rw [makeDirectory_fst, above]
  cases s.path.parent? with
  | none => exact .refl _ _
  | some above => exact t.makeDirectories_grows above

/-- Once the directory of the file could be made it is there, and nothing has been done exactly if it was
there before. -/
theorem reach_above_of_makeDirectory (h : (s.makeDirectory t).2 = .ok ()) :
    (∃ here, (s.makeDirectory t).1.reach [] s.above = .ok here) ∧
      ((s.makeDirectory t).1 = t ↔ ∃ here, t.reach [] s.above = .ok here) := by
  rw [makeDirectory_snd_eq_ok_iff] at h
  rw [makeDirectory_fst, above]
  cases hp : s.path.parent? with
  | none => exact ⟨⟨[], rfl⟩, iff_of_true rfl ⟨[], rfl⟩⟩
  | some above =>
    have hok := h above hp
    exact ⟨Tree.reach_of_makeDirectories hok, Tree.makeDirectories_eq_self_iff hok⟩

/-- A store whose settings are refused has made the directory of its file and nothing else. -/
theorem save_of_refused (h : s.config.Refused s.path problem) :
    (s.save t).1 = (s.makeDirectory t).1 ∧
      ((s.makeDirectory t).2 = .ok () → (s.save t).2 = .error problem) := by
  unfold save
  rcases hm : s.makeDirectory t with ⟨u, _ | _⟩
  · exact ⟨rfl, fun h ↦ by cases h⟩
  · simp [h.save_eq u]

/-- A store that is not saved has refused its settings, or has met an obstacle. -/
theorem refused_or_of_save (h : (s.save t).2 = .error problem) :
    s.config.Refused s.path problem ∨ ∃ text, problem = .directory text ∨ problem = .save text := by
  unfold save at h
  split at h
  · next hm =>
    cases h
    obtain ⟨text, rfl⟩ := directory_of_makeDirectory (congrArg Prod.snd hm)
    exact .inr ⟨text, .inl rfl⟩
  · split at h
    · cases h
    · next hc =>
      cases h
      exact (Config.refused_or_of_save hc).imp_right fun ⟨text, h⟩ ↦ ⟨text, .inr h⟩

/-- A store takes nothing from a file that it cannot load. -/
theorem reload_of_error {source : Source} (h : (s.reload source).2 = .error problem) :
    (s.reload source).1 = s := by
  unfold reload at *
  split
  · next hc => simp [hc] at h
  · rfl

/-- Settings that are refused leave every file as it was, of a store as of a configuration alone. The
configuration alone is refused at once; the store has by then made those directories above its file
that were missing, and so keeps the files as they are exactly if none was. But for obstacles, a store is
not saved for no other reason; and it takes nothing from a file that it cannot load. -/
theorem save_refused (s : Store) (t : Tree) :
    (∀ problem, s.config.Refused s.path problem →
      (∀ u, s.config.save u s.path = .error problem) ∧
      t.Grows s.above (s.save t).1 ∧
      (∀ path bytes, (s.save t).1.find path = .ok (.file bytes) ↔ t.find path = .ok (.file bytes)) ∧
      ((s.makeDirectory t).2 = .ok () →
        (s.save t).2 = .error problem ∧
        (∃ here, (s.save t).1.reach [] s.above = .ok here) ∧
        ((s.save t).1 = t ↔ ∃ here, t.reach [] s.above = .ok here))) ∧
    (∀ problem, (s.save t).2 = .error problem →
      s.config.Refused s.path problem ∨ ∃ text, problem = .directory text ∨ problem = .save text) ∧
    ∀ source problem, (s.reload source).2 = .error problem → (s.reload source).1 = s := by
  refine ⟨fun problem h ↦ ?_, fun _ ↦ refused_or_of_save, fun _ _ ↦ reload_of_error⟩
  obtain ⟨htree, hproblem⟩ := save_of_refused (t := t) h
  have hgrows := s.makeDirectory_grows t
  rw [htree]
  refine ⟨h.save_eq, hgrows, fun path bytes ↦ hgrows.find_eq_file_iff, fun hok ↦ ?_⟩
  exact ⟨hproblem hok, reach_above_of_makeDirectory hok⟩

/-- A store whose block has no width, in a directory of its own. -/
def flat : Store := ⟨⟨"d.toml/config.toml"⟩, { stock := { width := 0 } }⟩

/-- What the check finds. -/
def flatProblem : Problem := .invalid "stock.width" "must be > 0"

theorem refused_flat : flat.config.Refused flat.path flatProblem := .invalid rfl

/-- Where the directory is there the store that is refused changes nothing, and where it is missing no
file; of a directory in the place of its file it takes nothing. -/
theorem save_refused_flat :
    let there : Tree := .directory [("d.toml", .directory [("config.toml", .directory [])])]
    (flat.save there).1 = there ∧ (flat.save there).2 = .error flatProblem ∧
      (∀ path bytes, (flat.save (.directory [])).1.find path ≠ .ok (.file bytes)) ∧
      (flat.config.Refused flat.path flatProblem ∨
        ∃ text, flatProblem = .directory text ∨ flatProblem = .save text) ∧
      (flat.reload there.read).1 = flat := by
  intro there
  obtain ⟨hrefused, hfailed, hreload⟩ := save_refused flat there
  obtain ⟨-, -, -, hthere⟩ := hrefused _ refused_flat
  obtain ⟨hproblem, -, hsame⟩ := hthere rfl
  refine ⟨hsame.2 ⟨_, rfl⟩, hproblem, fun path bytes ↦ ?_, hfailed _ hproblem, hreload _ _ rfl⟩
  obtain ⟨-, -, hfiles, -⟩ := (save_refused flat (.directory [])).1 _ refused_flat
  rw [Ne, hfiles]
  cases path <;> simp [Tree.find]

/-- The store that is refused makes the directory of its file where it is missing, and so does not leave
every tree as it was. -/
theorem ne_save_flat :
    ¬∀ (s : Store) (t : Tree) (problem : Problem), (s.makeDirectory t).2 = .ok () →
      s.config.Refused s.path problem → (s.save t).1 = t := by
  intro h
  have hmade : (flat.save (.directory [])).1 = .directory [("d.toml", .directory [])] := rfl
  have hsame := h flat (.directory []) _ rfl refused_flat
  rw [hmade] at hsame
  cases hsame

end Store

end Toolpath.Settings
