import Toolpath.Proofs.Json.Numeral
import Toolpath.Proofs.Json.Text

/-!
# Documents of JSON read back

A document with well-formed numerals is read back from its text: `read?_pretty`. `Reads` says so of
one document wherever its text stands; it is proved by induction on the document, and for the items
of a list and the entries of a table by induction on those that are left.
-/

namespace Toolpath.Json.Document

/-- The numerals of a document are well formed. -/
inductive WellFormed : Document → Prop where
  | null : WellFormed .null
  | boolean (b : Bool) : WellFormed (.boolean b)
  | numeral {n : Numeral} (h : n.WellFormed) : WellFormed (.numeral n)
  | text (t : Option String) : WellFormed (.text t)
  | list {items : List Document} (h : ∀ d ∈ items, WellFormed d) : WellFormed (.list items)
  | table {entries : List (Option String × Document)} (h : ∀ e ∈ entries, WellFormed e.2) :
    WellFormed (.table entries)

/-- A document is read back from its text on any level, if enough steps are left for its length. -/
def Reads (d : Document) : Prop :=
  ∀ level n rest, (prettyAt level d).length ≤ n → Stops rest →
    value? n (prettyAt level d ++ rest) = some (d, rest)

/-! ## Blanks -/

theorem skip_lineAt (level : ℕ) (cs : List Char) : skip (lineAt level ++ cs) = skip cs := by
  refine List.dropWhile_append_of_pos fun c hc ↦ ?_
  rcases List.mem_cons.1 hc with rfl | hc
  · rfl
  · rw [List.eq_of_mem_replicate hc]
    rfl

/-- Blanks in front of a value are passed over. -/
theorem value?_congr {cs cs' : List Char} (h : skip cs = skip cs') (n : ℕ) :
    value? n cs = value? n cs' := by
  cases n with
  | zero => rfl
  | succ n => rw [value?, value?, h]

/-! ## What a document begins with -/

/-- Characters that begin no document: blanks, and the marks at the end of others. -/
def closers : List Char := [' ', '\n', '\t', '\r', ']', '}']

theorem not_mem_of_sign_or_digit {c : Char} (h : c = '-' ∨ Text.isAsciiDigit c = true)
    {cs : List Char} (hcs : cs.all (fun d ↦ d != '-' && !Text.isAsciiDigit d) = true) : c ∉ cs := by
  intro hc
  have hd := List.all_eq_true.1 hcs c hc
  rcases h with rfl | h
  · cases hd
  · simp [h] at hd

theorem exists_cons_prettyAt {d : Document} (h : d.WellFormed) (level : ℕ) :
    ∃ c cs, prettyAt level d = c :: cs ∧ c ∉ closers := by
  cases h with
  | null => exact ⟨_, _, rfl, by decide⟩
  | boolean b => cases b <;> exact ⟨_, _, rfl, by decide⟩
  | @numeral n hn =>
    obtain ⟨c, cs, hcs, hc⟩ := n.exists_cons_text hn
    exact ⟨c, cs, hcs, not_mem_of_sign_or_digit hc (by decide)⟩
  | text t =>
    obtain ⟨cs, hcs, -⟩ := string?_quoted t
    exact ⟨_, cs, hcs, by decide⟩
  | @list items hitems => cases items <;> exact ⟨_, _, rfl, by decide⟩
  | @table entries hentries => cases entries <;> exact ⟨_, _, rfl, by decide⟩

section Head

variable {c : Char} (h : c ∉ closers)
include h

theorem ne_of_not_mem_closers {d : Char} (hd : d ∈ closers) : c ≠ d := by
  rintro rfl
  exact h hd

theorem skip_of_not_mem_closers (cs : List Char) : skip (c :: cs) = c :: cs := by
  refine List.dropWhile_cons_of_neg ?_
  simp [isSpace, ne_of_not_mem_closers h (d := ' ') (by decide),
    ne_of_not_mem_closers h (d := '\n') (by decide),
    ne_of_not_mem_closers h (d := '\t') (by decide),
    ne_of_not_mem_closers h (d := '\r') (by decide)]

end Head

theorem skip_prettyAt {d : Document} (h : d.WellFormed) (level : ℕ) (rest : List Char) :
    skip (prettyAt level d ++ rest) = prettyAt level d ++ rest := by
  obtain ⟨c, cs, hcs, hc⟩ := exists_cons_prettyAt h level
  rw [hcs]
  exact skip_of_not_mem_closers hc (cs ++ rest)

/-! ## One value -/

/-- A text is not empty, so a step is left for it. -/
theorem reads_of_succ {d : Document} (h : d.WellFormed)
    (hread : ∀ level n rest, (prettyAt level d).length ≤ n + 1 → Stops rest →
      value? (n + 1) (prettyAt level d ++ rest) = some (d, rest)) : Reads d := by
  intro level n rest hn hrest
  obtain ⟨c, cs, hcs, -⟩ := exists_cons_prettyAt h level
  have hpos : 1 ≤ n := by
    rw [hcs, List.length_cons] at hn
    omega
  obtain ⟨k, rfl⟩ := Nat.exists_eq_add_of_le' hpos
  exact hread level k rest hn hrest

theorem reads_null : Reads .null :=
  reads_of_succ .null fun _ _ _ _ _ ↦ rfl

theorem reads_boolean (b : Bool) : Reads (.boolean b) :=
  reads_of_succ (.boolean b) fun _ _ _ _ _ ↦ by cases b <;> rfl

/-- A numeral begins no other value. -/
theorem reads_numeral {n : Numeral} (h : n.WellFormed) : Reads (.numeral n) := by
  refine reads_of_succ (.numeral h) fun level k rest _ hrest ↦ ?_
  obtain ⟨c, cs, hcs, hc⟩ := n.exists_cons_text h
  have hread := n.numeral?_text h hrest
  have hne : ∀ d ∈ ['{', '[', '"', 'n', 't', 'f'], ∀ tail, c :: (cs ++ rest) ≠ d :: tail := by
    intro d hd tail hh
    exact not_mem_of_sign_or_digit hc (by decide) ((List.cons.inj hh).1 ▸ hd)
  have hskip : skip (prettyAt level (.numeral n) ++ rest) = c :: (cs ++ rest) := by
    rw [prettyAt, hcs, List.cons_append,
      skip_of_not_mem_closers (not_mem_of_sign_or_digit hc (by decide))]
  rw [hcs, List.cons_append] at hread
  rw [value?, hskip]
  split
  case h_7 => rw [hread]; rfl
  all_goals
    rename_i hh
    exact absurd hh (hne _ (by decide) _)

theorem reads_text (t : Option String) : Reads (.text t) := by
  refine reads_of_succ (.text t) fun level k rest _ _ ↦ ?_
  obtain ⟨cs, hcs, hread⟩ := string?_quoted t
  have hskip : skip (prettyAt level (.text t) ++ rest) = '"' :: (cs ++ rest) := by
    rw [prettyAt, hcs]
    rfl
  simp only [value?, hskip, hread, Option.map_some]

/-- Blanks may stand in front of a document. -/
theorem Reads.of_skip {d : Document} (h : Reads d) (hwf : d.WellFormed) {level n : ℕ}
    {cs rest : List Char} (hcs : skip cs = prettyAt level d ++ rest)
    (hn : (prettyAt level d).length ≤ n) (hrest : Stops rest) : value? n cs = some (d, rest) := by
  rw [← h level n rest hn hrest]
  exact value?_congr (hcs.trans (skip_prettyAt hwf level rest).symm) n

/-! ## Lists -/

theorem stops_prettyItems (level k : ℕ) (items : List Document) (rest : List Char) :
    Stops (prettyItems level items ++ (lineAt k ++ rest)) := by
  cases items <;>
  · rintro c ⟨⟩
    decide

/-- The items that are left are read one after another. -/
theorem items?_pretty {item : Document} {items : List Document}
    (hwf : ∀ d ∈ item :: items, d.WellFormed) (hreads : ∀ d ∈ item :: items, Reads d)
    {level k n : ℕ} {cs : List Char} (rest : List Char)
    (hcs : skip cs = prettyAt level item ++ (prettyItems level items ++ (lineAt k ++ ']' :: rest)))
    (hn : (prettyAt level item).length + (prettyItems level items).length < n) :
    items? n cs = some (item :: items, rest) := by
  induction items generalizing item n cs with
  | nil =>
    obtain ⟨n, rfl⟩ := Nat.exists_eq_add_of_le' (Nat.one_le_of_lt hn)
    have hvalue := (hreads item List.mem_cons_self).of_skip (hwf item List.mem_cons_self) hcs
      (show _ ≤ n by omega) (stops_prettyItems level k [] _)
    have hskip : skip (prettyItems level [] ++ (lineAt k ++ ']' :: rest)) = ']' :: rest :=
      skip_lineAt k _
    simp only [items?, hvalue, hskip]
  | cons next items ih =>
    obtain ⟨n, rfl⟩ := Nat.exists_eq_add_of_le' (Nat.one_le_of_lt hn)
    have hvalue := (hreads item List.mem_cons_self).of_skip (hwf item List.mem_cons_self) hcs
      (show _ ≤ n by omega) (stops_prettyItems level k (next :: items) _)
    have hnext := hwf next (List.mem_cons_of_mem _ List.mem_cons_self)
    have hskip : skip (prettyItems level (next :: items) ++ (lineAt k ++ ']' :: rest)) =
        ',' :: (lineAt level ++ prettyAt level next ++ prettyItems level items ++
          (lineAt k ++ ']' :: rest)) := rfl
    have hrest : items? n (lineAt level ++ prettyAt level next ++ prettyItems level items ++
        (lineAt k ++ ']' :: rest)) = some (next :: items, rest) := by
      refine ih (fun d hd ↦ hwf d (List.mem_cons_of_mem _ hd))
        (fun d hd ↦ hreads d (List.mem_cons_of_mem _ hd)) ?_ ?_
      · rw [List.append_assoc, List.append_assoc, skip_lineAt, skip_prettyAt hnext]
      · simp only [prettyItems, List.length_cons, List.length_append] at hn
        omega
    simp only [items?, hvalue, hskip, hrest, Option.map_some]

/-- Behind an opening bracket that no closing one follows stand items. -/
theorem value?_bracket {n : ℕ} {cs : List Char} (h : ∀ tail, skip cs ≠ ']' :: tail) :
    value? (n + 1) ('[' :: cs) =
      (items? n (skip cs)).map fun (items, rest) ↦ (.list items, rest) := by
  have hskip : skip ('[' :: cs) = '[' :: cs := rfl
  simp only [value?, hskip]

theorem reads_list {items : List Document} (hwf : ∀ d ∈ items, d.WellFormed)
    (hreads : ∀ d ∈ items, Reads d) : Reads (.list items) := by
  refine reads_of_succ (.list hwf) fun level n rest hn _ ↦ ?_
  cases items with
  | nil => rfl
  | cons item items =>
    have hitem := hwf item List.mem_cons_self
    let tail := prettyItems (level + 1) items ++ (lineAt level ++ ']' :: rest)
    have htext : prettyAt level (.list (item :: items)) ++ rest =
        '[' :: (lineAt (level + 1) ++ (prettyAt (level + 1) item ++ tail)) := by
      simp [prettyAt, tail]
    have hskip : skip (lineAt (level + 1) ++ (prettyAt (level + 1) item ++ tail)) =
        prettyAt (level + 1) item ++ tail :=
      (skip_lineAt _ _).trans (skip_prettyAt hitem _ _)
    have hlen :
        (prettyAt (level + 1) item).length + (prettyItems (level + 1) items).length < n := by
      simp only [prettyAt, List.length_cons, List.length_append] at hn
      omega
    obtain ⟨c, cs, hcs, hc⟩ := exists_cons_prettyAt hitem (level + 1)
    rw [htext, value?_bracket, hskip, items?_pretty hwf hreads rest (skip_prettyAt hitem _ _) hlen]
    · rfl
    · intro more hh
      rw [hskip, hcs] at hh
      exact ne_of_not_mem_closers hc (by decide) (List.cons.inj hh).1

/-! ## Tables -/

theorem stops_prettyEntries (level k : ℕ) (entries : List (Option String × Document))
    (rest : List Char) : Stops (prettyEntries level entries ++ (lineAt k ++ rest)) := by
  cases entries <;>
  · rintro c ⟨⟩
    decide

/-- Behind an opening brace that a quote follows stand entries. -/
theorem value?_brace {n : ℕ} {cs tail : List Char} (h : skip cs = '"' :: tail) :
    value? (n + 1) ('{' :: cs) =
      (entries? n (skip cs)).map fun (entries, rest) ↦ (.table entries, rest) := by
  have hskip : skip ('{' :: cs) = '{' :: cs := rfl
  simp only [value?, hskip, h]
  rfl

/-- A key, a colon and a value, whatever follows them. -/
theorem entries?_entry {value : Document} (hwf : value.WellFormed) (hreads : value.Reads)
    {level n : ℕ} {key : Option String} {cs rest : List Char}
    (hcs : skip cs = quoted key ++ ':' :: ' ' :: (prettyAt level value ++ rest))
    (hn : (prettyAt level value).length ≤ n) (hrest : Stops rest) :
    entries? (n + 1) cs =
      match skip rest with
      | ',' :: rest =>
        (entries? n rest).map fun (entries, rest) ↦ ((key, value) :: entries, rest)
      | '}' :: rest => some ([(key, value)], rest)
      | _ => none := by
  obtain ⟨ks, hks, hkey⟩ := string?_quoted key
  rw [hks] at hcs
  have hvalue : value? n (' ' :: (prettyAt level value ++ rest)) = some (value, rest) :=
    hreads.of_skip hwf (skip_prettyAt hwf level rest) hn hrest
  have hcolon : skip (':' :: ' ' :: (prettyAt level value ++ rest)) =
      ':' :: ' ' :: (prettyAt level value ++ rest) := rfl
  simp only [entries?, hcs, List.cons_append, hkey, hcolon]
  rewrite [hvalue]
  rfl

/-- The entries that are left are read one after another. -/
theorem entries?_pretty {key : Option String} {value : Document}
    {entries : List (Option String × Document)}
    (hwf : ∀ e ∈ (key, value) :: entries, e.2.WellFormed)
    (hreads : ∀ e ∈ (key, value) :: entries, Reads e.2) {level k n : ℕ} {cs : List Char}
    (rest : List Char)
    (hcs : skip cs = quoted key ++ ':' :: ' ' :: (prettyAt level value ++
      (prettyEntries level entries ++ (lineAt k ++ '}' :: rest))))
    (hn : (prettyAt level value).length + (prettyEntries level entries).length < n) :
    entries? n cs = some ((key, value) :: entries, rest) := by
  have hvalue : value.WellFormed := hwf _ List.mem_cons_self
  have hread : value.Reads := hreads _ List.mem_cons_self
  induction entries generalizing key value n cs with
  | nil =>
    obtain ⟨n, rfl⟩ := Nat.exists_eq_add_of_le' (Nat.one_le_of_lt hn)
    have hskip : skip (prettyEntries level [] ++ (lineAt k ++ '}' :: rest)) = '}' :: rest :=
      skip_lineAt k _
    rw [entries?_entry hvalue hread hcs (by omega) (stops_prettyEntries level k [] _), hskip]
    rfl
  | cons next entries ih =>
    obtain ⟨n, rfl⟩ := Nat.exists_eq_add_of_le' (Nat.one_le_of_lt hn)
    obtain ⟨key', value'⟩ := next
    let tail := quoted key' ++ ':' :: ' ' :: (prettyAt level value' ++
      (prettyEntries level entries ++ (lineAt k ++ '}' :: rest)))
    have hskip : skip (prettyEntries level ((key', value') :: entries) ++
        (lineAt k ++ '}' :: rest)) = ',' :: (lineAt level ++ tail) := by
      simp [prettyEntries, tail, skip, isSpace]
    have hquote : skip tail = tail := by
      obtain ⟨ks, hks, -⟩ := string?_quoted key'
      simp only [tail, hks]
      rfl
    have hrest : entries? n (lineAt level ++ tail) = some ((key', value') :: entries, rest) := by
      refine ih (fun e he ↦ hwf e (List.mem_cons_of_mem _ he))
        (fun e he ↦ hreads e (List.mem_cons_of_mem _ he)) ((skip_lineAt level tail).trans hquote) ?_
        (hwf _ (List.mem_cons_of_mem _ List.mem_cons_self))
        (hreads _ (List.mem_cons_of_mem _ List.mem_cons_self))
      simp only [prettyEntries, List.length_cons, List.length_append] at hn
      omega
    rw [entries?_entry hvalue hread hcs (by omega)
      (stops_prettyEntries level k ((key', value') :: entries) _), hskip]
    simp only [hrest, Option.map_some]

theorem reads_table {entries : List (Option String × Document)}
    (hwf : ∀ e ∈ entries, e.2.WellFormed) (hreads : ∀ e ∈ entries, Reads e.2) :
    Reads (.table entries) := by
  refine reads_of_succ (.table hwf) fun level n rest hn _ ↦ ?_
  cases entries with
  | nil => rfl
  | cons e entries =>
    obtain ⟨key, value⟩ := e
    let tail := quoted key ++ ':' :: ' ' :: (prettyAt (level + 1) value ++
      (prettyEntries (level + 1) entries ++ (lineAt level ++ '}' :: rest)))
    have htext : prettyAt level (.table ((key, value) :: entries)) ++ rest =
        '{' :: (lineAt (level + 1) ++ tail) := by
      simp [prettyAt, tail]
    obtain ⟨ks, hks, -⟩ := string?_quoted key
    have hquote : skip tail = tail := by
      simp only [tail, hks]
      rfl
    have hskip : skip (lineAt (level + 1) ++ tail) = tail := (skip_lineAt _ _).trans hquote
    have hlen : (prettyAt (level + 1) value).length + (prettyEntries (level + 1) entries).length <
        n := by
      simp only [prettyAt, List.length_cons, List.length_append] at hn
      omega
    rw [htext, value?_brace (hskip.trans (by simp only [tail, hks]; rfl)), hskip,
      entries?_pretty hwf hreads rest hquote hlen]
    rfl

/-! ## All documents -/

/-- Every document with well-formed numerals is read back wherever its text stands. -/
theorem reads {d : Document} (h : d.WellFormed) : Reads d := by
  induction h with
  | null => exact reads_null
  | boolean b => exact reads_boolean b
  | numeral hn => exact reads_numeral hn
  | text t => exact reads_text t
  | list hwf ih => exact reads_list hwf ih
  | table hwf ih => exact reads_table hwf ih

/-- A document with well-formed numerals is read back from its text. -/
theorem read?_pretty {d : Document} (h : d.WellFormed) : read? d.pretty.toList = some d := by
  have hvalue := reads h 0 ((prettyAt 0 d).length + 1) [] (Nat.le_succ _) (by rintro c ⟨⟩)
  rw [List.append_nil] at hvalue
  rw [pretty, String.toList_ofList, read?, hvalue]
  rfl

end Toolpath.Json.Document
