import Toolpath.Proofs.Toml.Plain

/-!
# Sections of TOML read back

A text of sections is read back to the tree of its entries: `read?_document`. The lines change the
tree one after another, and `lines?` needs a step for each of them: one lemma says what a header
does, one what an entry does, and two inductions go over the entries of a section and over the
sections.
-/

namespace Toolpath.Toml

open Text (takeWhile_append dropWhile_append)

/-! ## Keys -/

/-- A key that needs no quotes. -/
structure Bare (key : String) : Prop where
  ne_nil : key.toList ≠ []
  bare : ∀ c ∈ key.toList, isBare c = true

/-- Whether a key needs no quotes. -/
def bareKey (key : String) : Bool := !key.toList.isEmpty && key.toList.all isBare

theorem bareKey_iff {key : String} : bareKey key = true ↔ Bare key := by
  rw [bareKey, Bool.and_eq_true, List.all_eq_true]
  exact ⟨fun ⟨hne, hall⟩ ↦ ⟨by simpa using hne, hall⟩, fun h ↦ ⟨by simpa using h.ne_nil, h.bare⟩⟩

theorem isBlank_of_isBare {c : Char} (h : isBare c = true) : isBlank c = false := by
  refine Bool.eq_false_iff.2 fun hblank ↦ ?_
  rcases Bool.or_eq_true_iff.1 hblank with hc | hc <;>
  · rw [beq_iff_eq.1 hc] at h
    exact absurd h (by decide)

section Key

variable {key : String} (hkey : Bare key)
include hkey

theorem Bare.exists_cons : ∃ c cs, key.toList = c :: cs ∧ isBare c = true := by
  obtain ⟨c, cs, hcs⟩ := List.exists_cons_of_ne_nil hkey.ne_nil
  exact ⟨c, cs, hcs, hkey.bare c (hcs ▸ List.mem_cons_self)⟩

/-- No other character stands where a key begins. -/
theorem Bare.ne_cons {d : Char} (hd : isBare d = false) (rest tail : List Char) :
    key.toList ++ rest ≠ d :: tail := by
  obtain ⟨c, cs, hcs, hc⟩ := hkey.exists_cons
  rw [hcs, List.cons_append]
  intro h
  obtain ⟨rfl, -⟩ := List.cons.inj h
  exact Bool.false_ne_true (hd.symm.trans hc)

theorem Bare.skip_append (rest : List Char) : skip (key.toList ++ rest) = key.toList ++ rest := by
  obtain ⟨c, cs, hcs, hc⟩ := hkey.exists_cons
  rw [hcs, List.cons_append, skip, List.dropWhile_cons_of_neg]
  rw [isBlank_of_isBare hc]
  exact Bool.false_ne_true

theorem part?_bare {rest : List Char} (hrest : ∀ c ∈ rest.head?, isBare c = false) :
    part? (key.toList ++ rest) = some (key, rest) := by
  rw [part?.eq_3 _ (hkey.ne_cons (by decide) rest) (hkey.ne_cons (by decide) rest),
    takeWhile_append hkey.bare hrest, dropWhile_append hkey.bare hrest, String.ofList_toList,
    if_neg]
  simpa using hkey.ne_nil

/-- A key of one part, up to what follows it but blanks. -/
theorem key?_bare {rest : List Char} (n : ℕ) (hrest : ∀ c ∈ rest.head?, isBare c = false)
    (hdot : ∀ c ∈ (skip rest).head?, c ≠ '.') :
    key? (n + 1) (key.toList ++ rest) = some (([], key), skip rest) := by
  rw [key?, hkey.skip_append, part?_bare hkey hrest]
  simp only [bind, Option.bind_some]
  split
  · rename_i more hmore
    exact absurd rfl (hdot '.' (by rw [hmore]; rfl))
  · rfl

end Key

/-! ## Lines -/

section Lines

variable {key name : String} {rest : List Char}

/-- A header of one part on a line of its own. -/
theorem header?_bare (hname : Bare name) (rest : List Char) :
    header? false (name.toList ++ ']' :: '\n' :: rest) = some (([], name), rest) := by
  have hkey : key? depth (name.toList ++ ']' :: '\n' :: rest) =
      some (([], name), ']' :: '\n' :: rest) := by
    refine key?_bare hname 78 ?_ ?_ <;>
    · rintro c ⟨⟩
      decide
  unfold header?
  rw [hkey]
  rfl

/-- An entry on a line of its own. -/
theorem assignment?_bare (hkey : Bare key) {p : Plain} (hp : p.Fits) (rest : List Char) :
    assignment? (key.toList ++ ' ' :: '=' :: ' ' :: (p.text.toList ++ '\n' :: rest)) =
      some (([], key), p.value, rest) := by
  have hread : key? depth (key.toList ++ ' ' :: '=' :: ' ' :: (p.text.toList ++ '\n' :: rest)) =
      some (([], key), '=' :: ' ' :: (p.text.toList ++ '\n' :: rest)) := by
    refine key?_bare hkey 78 ?_ ?_ <;>
    · rintro c ⟨⟩
      decide
  have hends : Ends ('\n' :: rest) := ⟨'\n', rest, rfl, by decide⟩
  have hskip : skip (' ' :: (p.text.toList ++ '\n' :: rest)) = p.text.toList ++ '\n' :: rest :=
    Plain.skip_text hp hends
  have hsize : p.size + 2 ≤ (' ' :: (p.text.toList ++ '\n' :: rest)).length + 1 := by
    have := p.size_le_length
    rw [List.length_cons, List.length_append, List.length_cons]
    omega
  have hvalue := Plain.value?_text hp hsize 78 hends
  unfold assignment?
  simp only [hread, hskip]
  rw [show depth = 78 + 1 from rfl, hvalue]
  rfl

end Lines

/-! ## The entries of a section -/

namespace Section

/-- The tables of the sections that have been read. -/
def tables (sections : List Section) : Entries :=
  sections.map fun s ↦ (s.name, .table .declared (s.entries.map fun e ↦ (e.1, e.2.value)))

/-- The line of an entry. -/
def entryLine (e : String × Plain) : List Char :=
  e.1.toList ++ ' ' :: '=' :: ' ' :: (e.2.text.toList ++ ['\n'])

theorem toList_text (s : Section) :
    s.text.toList = '[' :: (s.name.toList ++ ']' :: '\n' :: s.entries.flatMap entryLine) := by
  have hlines : (String.join (s.entries.map fun e ↦ s!"{e.1} = {e.2.text}\n")).toList =
      s.entries.flatMap entryLine := by
    rw [String.toList_join, List.flatMap_map]
    refine congrArg (fun f ↦ List.flatMap f s.entries) (funext fun e ↦ ?_)
    simp [entryLine, toString]
  change (s!"[{s.name}]\n" ++ String.join (s.entries.map fun e ↦ s!"{e.1} = {e.2.text}\n")).toList =
    _
  rw [String.toList_append, hlines]
  simp [toString]

/-- The names and keys of a section need no quotes, no key stands twice, and each value is in
range. -/
structure Sound (s : Section) : Prop where
  name : Bare s.name
  key : ∀ e ∈ s.entries, Bare e.1
  fits : ∀ e ∈ s.entries, e.2.Fits
  nodup : (s.entries.map Prod.fst).Nodup

/-- What makes a section sound whose name and keys are known. -/
theorem Sound.of_keys {s : Section} (name : String) (keys : List String) (hname : s.name = name)
    (hkeys : s.entries.map Prod.fst = keys) (hbare : (name :: keys).all bareKey = true)
    (hnodup : keys.Nodup) (hfits : ∀ e ∈ s.entries, e.2.Fits) : s.Sound := by
  subst hname hkeys
  obtain ⟨hname, hkeys⟩ := Bool.and_eq_true_iff.1 hbare
  exact ⟨bareKey_iff.1 hname,
    fun e he ↦ bareKey_iff.1 (List.all_eq_true.1 hkeys e.1 (List.mem_map_of_mem he)), hfits, hnodup⟩

/-! ### What a line changes -/

variable {es fs : Entries} {name key : String}

theorem lookup_append_of_none {rest : Entries} (h : es.lookup name = none) :
    (es ++ rest).lookup name = rest.lookup name := by
  induction es with
  | nil => rfl
  | cons e es ih =>
    obtain ⟨k, v⟩ := e
    rw [List.lookup_cons] at h
    rw [List.cons_append, List.lookup_cons]
    split at h
    · cases h
    · exact ih h

theorem replace_of_none {v w : Value} (h : es.lookup name = none) :
    Entries.replace (es ++ [(name, v)]) name w = es ++ [(name, w)] := by
  have hkeep : ∀ e ∈ es, (e.1 == name) = false := by
    intro e he
    rw [beq_eq_false_iff_ne]
    rintro rfl
    exact List.lookup_eq_none_iff.1 h e he |> fun hne ↦ by simp at hne
  rw [Entries.replace, List.map_append]
  congr 1
  · refine (List.map_congr_left fun e he ↦ ?_).trans (List.map_id es)
    rw [hkeep e he]
    rfl
  · simp

theorem declare_of_none (h : es.lookup name = none) :
    Change.within false [] (Change.declare name) .declared es =
      some (es ++ [(name, .table .declared [])]) := by
  simp only [Change.within, Change.declare, h]

theorem within_add (hname : es.lookup name = none) (hkey : fs.lookup key = none) (v : Value) :
    Change.within false [name] (Change.addAt [] key v) .declared
        (es ++ [(name, .table .declared fs)]) =
      some (es ++ [(name, .table .declared (fs ++ [(key, v)]))]) := by
  have hlookup : (es ++ [(name, Value.table .declared fs)]).lookup name =
      some (.table .declared fs) := by
    rw [lookup_append_of_none hname, List.lookup_cons, beq_self_eq_true]
  have hadd : Change.addAt [] key v .declared fs = some (fs ++ [(key, v)]) := by
    simp [Change.addAt, Change.add, hkey]
  simp [Change.within, hlookup, Change.passes, hadd, replace_of_none hname]

/-! ### Steps of the reader -/

open Entries (lines?)

theorem lines?_newline (n : ℕ) (current : List String) (es : Entries) (rest : List Char) :
    lines? (n + 1) current es ('\n' :: rest) = lines? n current es rest := rfl

theorem lines?_header (hname : Bare name) (hnew : es.lookup name = none) (n : ℕ)
    (current : List String) (rest : List Char) :
    lines? (n + 1) current es ('[' :: (name.toList ++ ']' :: '\n' :: rest)) =
      lines? n [name] (es ++ [(name, .table .declared [])]) rest := by
  have hskip : skip ('[' :: (name.toList ++ ']' :: '\n' :: rest)) =
      '[' :: (name.toList ++ ']' :: '\n' :: rest) := rfl
  rw [lines?, hskip]
  split
  case h_5 tail h =>
    exact absurd (List.cons.inj h).2 (hname.ne_cons (by decide) _ _)
  case h_6 tail hdouble h =>
    obtain ⟨-, rfl⟩ := List.cons.inj h
    simp only [header?_bare hname, bind, Option.bind_some, declare_of_none hnew, List.nil_append]
  case h_7 hheader =>
    exact absurd rfl (hheader _)
  all_goals
    rename_i h
    cases h

theorem lines?_entry {e : String × Plain} (hkey : Bare e.1) (hfits : e.2.Fits)
    (hnew : es.lookup name = none) (hfree : fs.lookup e.1 = none) (n : ℕ) (rest : List Char) :
    lines? (n + 1) [name] (es ++ [(name, .table .declared fs)]) (entryLine e ++ rest) =
      lines? n [name] (es ++ [(name, .table .declared (fs ++ [(e.1, e.2.value)]))]) rest := by
  have hline : entryLine e ++ rest =
      e.1.toList ++ ' ' :: '=' :: ' ' :: (e.2.text.toList ++ '\n' :: rest) := by
    simp [entryLine]
  have hne : ∀ {d : Char}, isBare d = false → ∀ tail,
      e.1.toList ++ ' ' :: '=' :: ' ' :: (e.2.text.toList ++ '\n' :: rest) ≠ d :: tail :=
    fun hd tail ↦ hkey.ne_cons hd _ tail
  rw [hline, lines?, hkey.skip_append]
  split
  case h_7 =>
    simp only [assignment?_bare hkey hfits, bind, Option.bind_some, within_add hnew hfree]
  case h_1 h =>
    obtain ⟨c, cs, hcs, -⟩ := hkey.exists_cons
    rw [hcs] at h
    cases h
  all_goals
    rename_i h
    exact absurd h (hne (by decide) _)

/-! ### All lines -/

/-- The entries of a section are added to its table in their order. -/
theorem lines?_entries {entries : List (String × Plain)} (hkey : ∀ e ∈ entries, Bare e.1)
    (hfits : ∀ e ∈ entries, e.2.Fits) (hnew : es.lookup name = none)
    (hfree : ∀ e ∈ entries, fs.lookup e.1 = none) (hnodup : (entries.map Prod.fst).Nodup) (n : ℕ)
    (rest : List Char) :
    lines? (entries.length + n) [name] (es ++ [(name, .table .declared fs)])
        (entries.flatMap entryLine ++ rest) =
      lines? n [name]
        (es ++ [(name, .table .declared (fs ++ entries.map fun e ↦ (e.1, e.2.value)))]) rest := by
  induction entries generalizing fs with
  | nil => simp
  | cons e entries ih =>
    obtain ⟨hnot, hnodup⟩ := List.nodup_cons.1 hnodup
    have hfree' : ∀ f ∈ entries, (fs ++ [(e.1, e.2.value)]).lookup f.1 = none := by
      intro f hf
      rw [lookup_append_of_none (hfree f (List.mem_cons_of_mem e hf)), List.lookup_cons,
        beq_eq_false_iff_ne.2]
      · rfl
      · rintro hef
        exact hnot (hef ▸ List.mem_map_of_mem hf)
    rw [List.flatMap_cons, List.append_assoc, List.length_cons,
      show entries.length + 1 + n = entries.length + n + 1 by omega,
      lines?_entry (hkey e List.mem_cons_self) (hfits e List.mem_cons_self) hnew
        (hfree e List.mem_cons_self),
      ih (fun f hf ↦ hkey f (List.mem_cons_of_mem e hf))
        (fun f hf ↦ hfits f (List.mem_cons_of_mem e hf)) hfree' hnodup,
      List.map_cons, List.append_assoc, List.singleton_append]

/-- As many lines as some sections take, with an empty one behind each. -/
def lineCount (sections : List Section) : ℕ := (sections.map fun s ↦ s.entries.length + 2).sum

theorem toList_document_cons (s t : Section) (sections : List Section) :
    (document (s :: t :: sections)).toList =
      s.text.toList ++ '\n' :: (document (t :: sections)).toList := by
  simp [document, String.toList_intercalate]

/-- The sections are added to the tree in their order. -/
theorem lines?_document {sections : List Section} (hsound : ∀ s ∈ sections, s.Sound)
    (hnew : ∀ s ∈ sections, es.lookup s.name = none) (hnodup : (sections.map Section.name).Nodup)
    (n : ℕ) (current : List String) :
    lines? (lineCount sections + n + 1) current es (document sections).toList =
      some (es ++ tables sections) := by
  induction sections generalizing es current with
  | nil => simp [document, tables, lines?, skip]
  | cons s sections ih =>
    obtain ⟨hnot, hnodup⟩ := List.nodup_cons.1 hnodup
    have hs := hsound s List.mem_cons_self
    have hfresh := hnew s List.mem_cons_self
    -- The header and the entries of the first section, whatever follows them.
    have hsection : ∀ (m : ℕ) (rest : List Char),
        lines? (s.entries.length + m + 1) current es (s.text.toList ++ rest) =
          lines? m [s.name] (es ++ tables [s]) rest := by
      intro m rest
      rw [toList_text, List.cons_append, List.append_assoc, List.cons_append, List.cons_append,
        lines?_header hs.name hfresh, lines?_entries hs.key hs.fits hfresh (fun _ _ ↦ rfl) hs.nodup]
      rfl
    cases sections with
    | nil =>
      have htext : (document [s]).toList = s.text.toList ++ [] := by
        simp [document]
      rw [htext, show lineCount [s] + n + 1 = s.entries.length + (n + 2) + 1 by
        simp [lineCount]; omega, hsection]
      rfl
    | cons t sections =>
      have hnew' : ∀ u ∈ t :: sections, (es ++ tables [s]).lookup u.name = none := by
        intro u hu
        rw [lookup_append_of_none (hnew u (List.mem_cons_of_mem s hu))]
        have hne : (u.name == s.name) = false :=
          beq_eq_false_iff_ne.2 fun h ↦ hnot (h ▸ List.mem_map_of_mem hu)
        simp [tables, List.lookup_cons, hne]
      rw [toList_document_cons, show lineCount (s :: t :: sections) + n + 1 =
          s.entries.length + (lineCount (t :: sections) + n + 1 + 1) + 1 by
        simp [lineCount]; omega, hsection, lines?_newline,
        ih (fun u hu ↦ hsound u (List.mem_cons_of_mem s hu)) hnew' hnodup, List.append_assoc]
      rfl

theorem lineCount_le_length (sections : List Section) :
    lineCount sections ≤ (document sections).toList.length := by
  have hsection : ∀ s : Section, s.entries.length + 2 ≤ s.text.toList.length := by
    intro s
    have hentries := length_le_length_flatMap (f := entryLine) s.entries fun e ↦ by simp [entryLine]
    rw [toList_text]
    simp only [List.length_cons, List.length_append]
    omega
  induction sections with
  | nil => exact Nat.zero_le _
  | cons s sections ih =>
    have hs := hsection s
    cases sections with
    | nil => simpa [lineCount, document] using hs
    | cons t sections =>
      rw [toList_document_cons, List.length_append, List.length_cons]
      simp only [lineCount, List.map_cons, List.sum_cons] at ih ⊢
      omega

/-- Sections with different names are read back from their text. -/
theorem read?_document {sections : List Section} (hsound : ∀ s ∈ sections, s.Sound)
    (hnodup : (sections.map Section.name).Nodup) :
    Entries.read? (document sections).toList = some (tables sections) := by
  obtain ⟨n, hn⟩ := Nat.exists_eq_add_of_le (lineCount_le_length sections)
  have hnew : ∀ s ∈ sections, ([] : Entries).lookup s.name = none := fun _ _ ↦ rfl
  have hlines := lines?_document hsound hnew hnodup n []
  rw [← hn, List.nil_append] at hlines
  have hmark : ∀ rest, (document sections).toList ≠ '\uFEFF' :: rest := by
    intro rest h
    cases sections with
    | nil => cases h
    | cons s sections =>
      cases sections with
      | nil => simp [document, toList_text] at h
      | cons t sections => simp [toList_document_cons, toList_text] at h
  rw [Entries.read?]
  · exact hlines
  · exact hmark

end Section

end Toolpath.Toml
