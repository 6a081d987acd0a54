import Toolpath.Storage.Written

/-!
# Trees that grow

To make the directories of a path adds the missing ones to a tree, one after the other, and does nothing
else: files keep their bytes, directories keep what they hold (`Tree.makeDirectories_grows`). The tree
stays as it is exactly if all of them were there (`Tree.makeDirectories_eq_self_iff`).
-/

namespace Toolpath.Storage

/-- The names on the way to what a path names. -/
def Path.way (p : Path) : List String :=
  match p.route with
  | .ok r => r.through ++ r.entry.toList
  | .error _ => []

namespace Tree

variable {t u v : Tree} {here path way way' names through : List String} {name : String}
  {es : List (String × Tree)}

/-! ## Ways -/

theorem reach_append {start : List String} (names way : List String) :
    t.reach start (names ++ way) = (t.reach start names).bind (t.reach · way) := by
  induction names generalizing start with
  | nil => rfl
  | cons name names ih =>
    simp only [List.cons_append, reach]
    split
    · exact ih
    · split
      · exact ih
      · rfl
      · rfl

/-- Only in a directory nothing is found under a name. -/
theorem exists_of_find_eq_notFound (h : t.find (here ++ [name]) = .error .notFound)
    (hfound : t.find here = .ok u) : ∃ es, u = .directory es ∧ es.lookup name = none := by
  rw [find_append_of_find hfound] at h
  cases u with
  | file bytes => cases h
  | directory es =>
    refine ⟨es, rfl, ?_⟩
    simp only [find] at h
    cases hl : es.lookup name with
    | none => rfl
    | some v => cases v <;> simp [hl] at h

/-! ## What becomes of what is found -/

theorem names_put (es : List (String × Tree)) (name : String) (t : Tree) :
    es.map Prod.fst <+: (put es name t).map Prod.fst := by
  induction es with
  | nil => exact List.nil_prefix
  | cons e es ih =>
    obtain ⟨n, u⟩ := e
    rw [put]
    split
    · next h => simp [eq_of_beq h]
    · simpa using ih

/-- What a path leads to stays what it is: the same file, the directory with the names that it has and
perhaps more, or nothing for the same reason. -/
inductive Stays : Except Obstacle Tree → Except Obstacle Tree → Prop where
  | file (bytes : ByteArray) : Stays (.ok (.file bytes)) (.ok (.file bytes))
  | directory {es es' : List (String × Tree)} (h : es.map Prod.fst <+: es'.map Prod.fst) :
    Stays (.ok (.directory es)) (.ok (.directory es'))
  | missing (o : Obstacle) : Stays (.error o) (.error o)

namespace Stays

variable {x y z : Except Obstacle Tree}

theorem refl (x : Except Obstacle Tree) : Stays x x :=
  match x with
  | .ok (.file bytes) => .file bytes
  | .ok (.directory _) => .directory List.prefix_rfl
  | .error o => .missing o

theorem trans (h : Stays x y) (h' : Stays y z) : Stays x z := by
  cases h with
  | file | missing => exact h'
  | directory h =>
    cases h' with
    | directory h' => exact .directory (h.trans h')

theorem file_iff (h : Stays x y) {bytes : ByteArray} :
    y = .ok (.file bytes) ↔ x = .ok (.file bytes) := by
  cases h <;> simp

theorem exists_directory (h : Stays x y) (hx : x = .ok (.directory es)) :
    ∃ es', y = .ok (.directory es') := by
  cases h with
  | directory => exact ⟨_, rfl⟩
  | file | missing => cases hx

theorem error_iff (h : Stays x y) {o : Obstacle} : y = .error o ↔ x = .error o := by
  cases h <;> simp

end Stays

/-- A path leads to a directory that has been made on a way. -/
structure Made (way : List String) (t u : Tree) (path : List String) : Prop where
  free : t.find path = .error .notFound
  found : ∃ es, u.find path = .ok (.directory es)
  onWay : ∃ names, names <+: way ∧ u.reach [] names = .ok path

/-- A tree becomes another one in that directories are made on a way, and in nothing else. -/
def Grows (way : List String) (t u : Tree) : Prop :=
  ∀ path, Stays (t.find path) (u.find path) ∨ Made way t u path

namespace Grows

theorem refl (way : List String) (t : Tree) : t.Grows way t := fun _ ↦ .inl (.refl _)

theorem mono (h : t.Grows way u) (hw : way <+: way') : t.Grows way' u := fun path ↦
  (h path).imp_right fun ⟨hfree, hfound, names, hn, hr⟩ ↦ ⟨hfree, hfound, names, hn.trans hw, hr⟩

theorem exists_directory (h : t.Grows way u) (ht : t.find path = .ok (.directory es)) :
    ∃ es', u.find path = .ok (.directory es') := by
  obtain hstays | hmade := h path
  · exact hstays.exists_directory ht
  · exact hmade.found

/-- The ways through a tree stay. -/
theorem reach (h : t.Grows way u) {start : List String} (ht : t.reach start names = .ok here) :
    u.reach start names = .ok here :=
  reach_of_keep (fun _ _ hp ↦ h.exists_directory hp) ht

theorem trans (h : t.Grows way u) (h' : u.Grows way v) : t.Grows way v := by
  intro path
  obtain hstays | hmade := h path
  · obtain hstays' | hmade' := h' path
    · exact .inl (hstays.trans hstays')
    · exact .inr ⟨hstays.error_iff.1 hmade'.free, hmade'.found, hmade'.onWay⟩
  · obtain ⟨es, hes⟩ := hmade.found
    obtain ⟨names, hn, hr⟩ := hmade.onWay
    exact .inr ⟨hmade.free, h'.exists_directory hes, names, hn, h'.reach hr⟩

/-- No file is made, changed or lost. -/
theorem find_eq_file_iff (h : t.Grows way u) {bytes : ByteArray} :
    u.find path = .ok (.file bytes) ↔ t.find path = .ok (.file bytes) := by
  obtain hstays | hmade := h path
  · exact hstays.file_iff
  · obtain ⟨es, hes⟩ := hmade.found
    simp [hes, hmade.free]

end Grows

/-! ## One directory -/

/-- The tree with an empty directory in the directory `here`. -/
abbrev withDirectory (t : Tree) (here : List String) (name : String) : Tree :=
  t.alter (put · name (.directory [])) here

/-- Nothing is new but the directory. -/
theorem stays_withDirectory (hd : t.find here = .ok (.directory es)) (hn : es.lookup name = none)
    (hp : path ≠ here ++ [name]) :
    Stays (t.find path) ((t.withDirectory here name).find path) := by
  induction path generalizing t here with
  | nil =>
    cases t with
    | file bytes => simpa only [withDirectory, alter] using .refl _
    | directory entries =>
      cases here with
      | nil => exact .directory (names_put ..)
      | cons m here =>
        simp only [withDirectory, alter]
        split
        · exact .directory (names_put ..)
        · exact .refl _
  | cons n path ih =>
    cases t with
    | file bytes => simpa only [withDirectory, alter] using .refl _
    | directory entries =>
      cases here with
      | nil =>
        cases hd
        simp only [withDirectory, alter, find]
        by_cases h : n = name
        · subst h
          cases path with
          | nil => exact absurd rfl hp
          | cons =>
            simp only [hn, lookup_put_self, find]
            exact .missing .notFound
        · rw [lookup_put_of_ne _ h]
          exact .refl _
      | cons m here =>
        simp only [find] at hd
        cases hm : entries.lookup m with
        | none => simp [hm] at hd
        | some w =>
          simp only [hm] at hd
          simp only [withDirectory, alter, hm, find]
          by_cases h : n = m
          · subst h
            simp only [hm, lookup_put_self]
            exact ih hd (by simpa using hp)
          · rw [lookup_put_of_ne _ h]
            exact .refl _

/-- A directory is made in one that is reached, under a name that is free. -/
theorem of_makeDirectory (h : t.makeDirectory through name = .ok u) :
    ∃ here es, t.reach [] through = .ok here ∧ t.find here = .ok (.directory es) ∧
      es.lookup name = none ∧ name ≠ ".." ∧ ¬mostBytes < name.utf8ByteSize ∧
      u = t.withDirectory here name := by
  unfold makeDirectory at h
  cases hr : t.reach [] through with
  | error o => simp [hr, bind, Except.bind] at h
  | ok here =>
    simp only [hr, bind, Except.bind] at h
    split at h
    · cases h
    · next hn =>
      split at h
      · cases h
      · next he =>
        cases h
        unfold entry at he
        split at he
        · cases he
        · next hb =>
          cases t with
          | file bytes => cases here <;> simp [find] at he
          | directory entries =>
            obtain ⟨w, hw⟩ := find_of_reach (show (Tree.directory entries).find [] = _ from rfl) hr
            obtain ⟨es, hes, hl⟩ := exists_of_find_eq_notFound he hw
            cases hes
            exact ⟨here, _, rfl, hw, hl, hn, hb, rfl⟩
      · cases h

/-- A directory that is made is the only thing that is new, and it is reached. -/
theorem grows_of_makeDirectory (h : t.makeDirectory through name = .ok u) :
    t.Grows (through ++ [name]) u ∧ ∃ here, u.reach [] (through ++ [name]) = .ok here := by
  obtain ⟨here, es, hr, hd, hl, hn, hb, rfl⟩ := of_makeDirectory h
  have hfree : t.find (here ++ [name]) = .error .notFound := by
    simp [find_append_of_find hd, find, hl]
  have hfound : (t.withDirectory here name).find (here ++ [name]) = .ok (.directory []) := by
    simp [find_alter_append hd, find]
  have hreach : (t.withDirectory here name).reach [] (through ++ [name]) = .ok (here ++ [name]) := by
    have hthrough : (t.withDirectory here name).reach [] through = .ok here := by
      refine reach_of_keep (fun path ds hp ↦ (stays_withDirectory hd hl ?_).exists_directory hp) hr
      rintro rfl
      cases hfree.symm.trans hp
    rw [reach_append, hthrough]
    simp [Except.bind, Tree.reach, hn, entry, hb, hfound]
  refine ⟨fun path ↦ ?_, _, hreach⟩
  by_cases hp : path = here ++ [name]
  · subst hp
    exact .inr ⟨hfree, ⟨_, hfound⟩, _, List.prefix_rfl, hreach⟩
  · exact .inl (stays_withDirectory hd hl hp)

/-- A directory that is reached is not made. -/
theorem makeDirectory_of_reach (h : t.reach [] (through ++ [name]) = .ok here) :
    t.makeDirectory through name = .error .exists := by
  rw [reach_append] at h
  cases hr : t.reach [] through with
  | error o => simp [hr, Except.bind] at h
  | ok there =>
    simp only [hr, Except.bind, Tree.reach] at h
    simp only [makeDirectory, hr, bind, Except.bind]
    split
    · rfl
    · next hn =>
      rw [if_neg hn] at h
      cases he : t.entry there name with
      | ok w => rfl
      | error o => simp [he] at h

theorem ensureDirectory_of_reach (h : t.reach [] (through ++ [name]) = .ok here) :
    t.ensureDirectory through name = .ok t := by
  simp only [ensureDirectory, makeDirectory_of_reach h, h]

/-- A directory that is ensured is made, or was there. -/
theorem grows_of_ensureDirectory (h : t.ensureDirectory through name = .ok u) :
    t.Grows (through ++ [name]) u ∧ ∃ here, u.reach [] (through ++ [name]) = .ok here := by
  unfold ensureDirectory at h
  split at h
  · next hm =>
    cases h
    exact grows_of_makeDirectory hm
  · split at h
    · next hr =>
      cases h
      exact ⟨.refl _ _, _, hr⟩
    · cases h

/-! ## All directories of a path -/

/-- Directories are made on the way only, and all of them if the last one is there in the end. -/
theorem ensureAll_grows (t : Tree) (names : List String) :
    t.Grows names.reverse (t.ensureAll names).1 ∧
      ((t.ensureAll names).2 = .ok () →
        ∃ here, (t.ensureAll names).1.reach [] names.reverse = .ok here) := by
  induction names generalizing t with
  | nil => exact ⟨.refl _ _, fun _ ↦ ⟨[], rfl⟩⟩
  | cons name above ih =>
    -- The innermost name comes first, so the way to the directory above is the beginning of the way.
    rw [List.reverse_cons, ensureAll]
    split
    · next hu =>
      obtain ⟨hgrows, hreach⟩ := grows_of_ensureDirectory hu
      exact ⟨hgrows, fun _ ↦ hreach⟩
    · split
      · next u he =>
        obtain ⟨hgrows, -⟩ := he ▸ ih t
        have hgrows := hgrows.mono (List.prefix_append _ [name])
        split
        · next hu =>
          obtain ⟨hgrows', hreach⟩ := grows_of_ensureDirectory hu
          exact ⟨hgrows.trans hgrows', fun _ ↦ hreach⟩
        · exact ⟨hgrows, fun h ↦ by cases h⟩
      · next hfailed =>
        refine ⟨(ih t).1.mono (List.prefix_append _ [name]), fun h ↦ ?_⟩
        exact (hfailed _ (Prod.ext rfl h)).elim
    · exact ⟨.refl _ _, fun h ↦ by cases h⟩

theorem ensureAll_of_reach (h : t.reach [] names.reverse = .ok here) :
    t.ensureAll names = (t, .ok ()) := by
  cases names with
  | nil => rfl
  | cons name above =>
    rw [List.reverse_cons] at h
    rw [ensureAll, ensureDirectory_of_reach h]

theorem makeDirectories_grows (t : Tree) (p : Path) : t.Grows p.way (t.makeDirectories p).1 := by
  unfold makeDirectories Path.way
  cases p.route with
  | error o => exact .refl _ _
  | ok r => simpa using (t.ensureAll_grows (r.through ++ r.entry.toList).reverse).1

/-- Where the directories could be made they are there. -/
theorem reach_of_makeDirectories {p : Path} (h : (t.makeDirectories p).2 = .ok ()) :
    ∃ here, (t.makeDirectories p).1.reach [] p.way = .ok here := by
  unfold makeDirectories Path.way at *
  cases hr : p.route with
  | error o => simp [hr] at h
  | ok r =>
    simp only [hr] at h ⊢
    simpa using (t.ensureAll_grows (r.through ++ r.entry.toList).reverse).2 h

/-- Nothing is done exactly if the directories are there. -/
theorem makeDirectories_eq_self_iff {p : Path} (h : (t.makeDirectories p).2 = .ok ()) :
    (t.makeDirectories p).1 = t ↔ ∃ here, t.reach [] p.way = .ok here := by
  constructor
  · intro heq
    simpa only [heq] using reach_of_makeDirectories h
  · rintro ⟨here, hreach⟩
    unfold makeDirectories Path.way at *
    cases hr : p.route with
    | error o => rfl
    | ok r =>
      simp only [hr] at hreach ⊢
      rw [ensureAll_of_reach (by simpa using hreach)]

end Tree

end Toolpath.Storage
