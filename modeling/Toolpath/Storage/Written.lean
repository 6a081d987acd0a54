import Toolpath.Storage.Tree

/-!
# Written files

A file that has been written is read back (`read_of_write`), and writing it leaves every directory
where it was (`find_alter_directory`), so that the same route leads to it again.
-/

namespace Toolpath.Storage.Tree

/-- A way is gone in two parts: what the one leads to is where the other begins. -/
theorem find_append (t : Tree) (path rest : List String) :
    t.find (path ++ rest) = t.find path >>= fun u => u.find rest := by
  induction path generalizing t with
  | nil => cases t <;> rfl
  | cons name path ih =>
    cases t with
    | file bytes => rfl
    | directory entries =>
      simp only [List.cons_append, find]
      cases entries.lookup name with
      | none => rfl
      | some u => exact ih u

theorem find_append_of_find {t v : Tree} {path : List String} (h : t.find path = .ok v)
    (rest : List String) : t.find (path ++ rest) = v.find rest := by
  rw [find_append, h]
  rfl

/-- What lies on the way to something is a directory. -/
theorem find_dropLast {t : Tree} {path : List String} {entries : List (String × Tree)}
    (h : t.find path = .ok (.directory entries)) :
    ∃ es, t.find path.dropLast = .ok (.directory es) := by
  cases path with
  | nil => exact ⟨entries, h⟩
  | cons name rest =>
    have hl : (name :: rest).dropLast ++ [(name :: rest).getLast (by simp)] = name :: rest :=
      List.dropLast_concat_getLast (by simp)
    rw [← hl, find_append] at h
    cases hv : t.find (name :: rest).dropLast with
    | error o => simp [hv, bind, Except.bind] at h
    | ok v =>
      cases v with
      | file bytes => simp [hv, bind, Except.bind, find] at h
      | directory es => exact ⟨es, rfl⟩

/-- A way ends in a directory. -/
theorem find_of_reach {t : Tree} {start path here : List String} {entries : List (String × Tree)}
    (hs : t.find start = .ok (.directory entries)) (h : t.reach start path = .ok here) :
    ∃ es, t.find here = .ok (.directory es) := by
  induction path generalizing start entries with
  | nil =>
    cases h
    exact ⟨entries, hs⟩
  | cons name path ih =>
    unfold reach at h
    split at h
    · obtain ⟨es, he⟩ := find_dropLast hs
      exact ih he h
    · split at h
      · next es he =>
        unfold entry at he
        split at he
        · cases he
        · exact ih he h
      · cases h
      · cases h

/-- Where a directory was altered it is found with its new entries. -/
theorem find_alter_self {f : List (String × Tree) → List (String × Tree)} {t : Tree}
    {here : List String} {entries : List (String × Tree)}
    (h : t.find here = .ok (.directory entries)) :
    (t.alter f here).find here = .ok (.directory (f entries)) := by
  induction here generalizing t with
  | nil =>
    cases t with
    | file bytes => simp [find] at h
    | directory es =>
      cases h
      rfl
  | cons name here ih =>
    cases t with
    | file bytes => simp [find] at h
    | directory es =>
      simp only [find] at h
      cases e : es.lookup name with
      | none => simp [e] at h
      | some v =>
        simp only [e] at h
        simp only [alter, e, find, lookup_put_self]
        exact ih h

/-- Below an altered directory its new entries are found. -/
theorem find_alter_append {f : List (String × Tree) → List (String × Tree)} {t : Tree}
    {here : List String} {entries : List (String × Tree)}
    (h : t.find here = .ok (.directory entries)) (path : List String) :
    (t.alter f here).find (here ++ path) = (Tree.directory (f entries)).find path :=
  find_append_of_find (find_alter_self h) path

/-- An alteration that keeps the directories of one directory keeps all. -/
theorem find_alter_directory {f : List (String × Tree) → List (String × Tree)} {t : Tree}
    {here path : List String}
    (keep : ∀ hs n ds, t.find here = .ok (.directory hs) →
      hs.lookup n = some (.directory ds) → (f hs).lookup n = some (.directory ds))
    {entries : List (String × Tree)} (h : t.find path = .ok (.directory entries)) :
    ∃ es, (t.alter f here).find path = .ok (.directory es) := by
  induction path generalizing t here with
  | nil =>
    cases t with
    | file bytes => simp [find] at h
    | directory es =>
      cases here with
      | nil => exact ⟨f es, rfl⟩
      | cons name here =>
        simp only [alter]
        split <;> exact ⟨_, rfl⟩
  | cons n path ih =>
    cases t with
    | file bytes => simp [find] at h
    | directory es =>
      simp only [find] at h
      cases e : es.lookup n with
      | none => simp [e] at h
      | some u =>
        simp only [e] at h
        cases here with
        | nil =>
          cases u with
          | file bytes => cases path <;> simp [find] at h
          | directory ds =>
            have hk := keep es n ds rfl e
            simp only [alter, find, hk]
            exact ⟨entries, h⟩
        | cons m here =>
          simp only [alter]
          cases em : es.lookup m with
          | none =>
            simp only [find, e]
            exact ⟨entries, h⟩
          | some v =>
            by_cases hn : n = m
            · subst hn
              rw [e] at em
              cases em
              simp only [find, lookup_put_self]
              refine ih ?_ h
              intro hs k ds hf
              exact keep hs k ds (by simpa [find, e] using hf)
            · simp only [find, lookup_put_of_ne _ hn, e]
              exact ⟨entries, h⟩

/-- A way that led to a directory still does if all directories are kept. -/
theorem reach_of_keep {t u : Tree}
    (keep : ∀ path es, t.find path = .ok (.directory es) →
      ∃ es', u.find path = .ok (.directory es'))
    {start path here : List String} (h : t.reach start path = .ok here) :
    u.reach start path = .ok here := by
  induction path generalizing start with
  | nil => exact h
  | cons name path ih =>
    unfold reach at h ⊢
    split at h
    · next hn =>
      rw [if_pos hn]
      exact ih h
    · next hn =>
      rw [if_neg hn]
      split at h
      · next es he =>
        unfold entry at he ⊢
        split at he
        · cases he
        · next hb =>
          obtain ⟨es', he'⟩ := keep _ _ he
          simp only [if_neg hb, he']
          exact ih h
      · cases h
      · cases h

/-- A file is written only under a name that is free or names a file. -/
theorem alter_of_write {t u : Tree} {here : List String} {name : String} {bytes : ByteArray}
    {entries : List (String × Tree)} (hd : t.find here = .ok (.directory entries))
    (h : (match t.entry here name with
      | .ok (.directory _) => .error .isDirectory
      | .ok (.file _) | .error .notFound => .ok (t.alter (put · name (.file bytes)) here)
      | .error o => .error o) = (.ok u : Except Obstacle Tree)) :
    u = t.alter (put · name (.file bytes)) here ∧ ¬ mostBytes < name.utf8ByteSize ∧
      ∀ ds, entries.lookup name ≠ some (.directory ds) := by
  by_cases hb : mostBytes < name.utf8ByteSize
  · simp [entry, hb] at h
  · simp only [entry, if_neg hb] at h
    refine ⟨?_, hb, ?_⟩
    · split at h <;> cases h <;> rfl
    · intro ds hl
      have hf : t.find (here ++ [name]) = .ok (.directory ds) := by
        simp [find_append_of_find hd, find, hl]
      simp [hf] at h

/-- What has been written is read back. -/
theorem read_of_write {entries : List (String × Tree)} {p : Path} {bytes : ByteArray} {u : Tree}
    (h : (Tree.directory entries).write p bytes = .ok u) : u.read p = .ok bytes := by
  unfold write at h
  unfold read
  cases hr : p.route with
  | error o => simp [hr, bind, Except.bind] at h
  | ok r =>
    simp only [hr, bind, Except.bind] at h ⊢
    cases hh : (Tree.directory entries).reach [] r.through with
    | error o => simp [hh] at h
    | ok here =>
      simp only [hh] at h
      cases hn : r.entry with
      | none => simp [hn] at h
      | some name =>
        simp only [hn] at h
        split at h
        · cases h
        · next hslash =>
          obtain ⟨es, he⟩ := find_of_reach (show (Tree.directory entries).find [] = _ from rfl) hh
          obtain ⟨rfl, hb, hd⟩ := alter_of_write he h
          rw [reach_of_keep (fun path ds hp => find_alter_directory ?_ hp) hh]
          · simp only [entry, if_neg hb, find_alter_append he]
            simp [find, hslash]
          · intro hs n ds hf hl
            rw [he] at hf
            cases hf
            rw [lookup_put_of_ne _ ?_]
            · exact hl
            · rintro rfl
              exact hd ds hl

end Toolpath.Storage.Tree
