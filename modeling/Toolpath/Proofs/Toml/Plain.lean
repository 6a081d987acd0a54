import Toolpath.Proofs.Toml.Number

/-!
# Values of TOML read back

What is written behind a key is read back from its text: `value?_text`. The items of a list stand on
lines of their own, and reading them is an induction on the items.
-/

namespace Toolpath.Toml

/-! ## What a number begins with -/

/-- Characters that begin no number: blanks, breaks and marks of other values. -/
def marks : List Char := [' ', '\t', '\n', '\r', '#', ']', '"', '\'', '[', '{']

theorem head_of_scalarValue? {cs : List Char} {r : Value × List Char}
    (h : scalarValue? cs = some r) : ∃ c more, cs = c :: more ∧ c ∉ marks := by
  cases cs with
  | nil => cases h
  | cons c more =>
    refine ⟨c, more, rfl, fun hc ↦ ?_⟩
    have hnone : scalarValue? (c :: more) = none := by
      simp only [marks, List.mem_cons, List.not_mem_nil, or_false] at hc
      rcases hc with rfl | rfl | rfl | rfl | rfl | rfl | rfl | rfl | rfl | rfl <;>
      exact scalarValue?_of_moment? (by decide) (by decide) (moment?_cons (by decide) _)
    exact Option.some_ne_none r (h.symm.trans hnone)

section Marks

variable {c : Char} (h : c ∉ marks)
include h

theorem ne_of_not_mem_marks {d : Char} (hd : d ∈ marks) : c ≠ d := by
  rintro rfl
  exact h hd

theorem isBlank_of_not_mem_marks : isBlank c = false := by
  refine Bool.eq_false_iff.2 fun hblank ↦ ?_
  rcases Bool.or_eq_true_iff.1 hblank with hc | hc <;>
  exact ne_of_not_mem_marks h (by decide) (beq_iff_eq.1 hc)

theorem skipLines_of_not_mem_marks (more : List Char) :
    skipLines false (c :: more) = c :: more := by
  rw [skipLines.eq_5 _ _ (fun hc ↦ ne_of_not_mem_marks h (by decide) hc)
    (fun _ hc ↦ absurd hc (ne_of_not_mem_marks h (by decide))), isBlank_of_not_mem_marks h,
    if_neg Bool.false_ne_true, if_neg (ne_of_not_mem_marks h (by decide))]

theorem value?_of_not_mem_marks (n depth : ℕ) (more : List Char) :
    value? (n + 1) depth (c :: more) = scalarValue? (c :: more) := by
  have hne : ∀ d ∈ marks, ∀ tail, c :: more = d :: tail → False :=
    fun d hd tail hc ↦ ne_of_not_mem_marks h hd (List.cons.inj hc).1
  exact value?.eq_8 _ _ _ (hne _ (by decide)) (hne _ (by decide))
    (fun tail hc _ ↦ hne _ (by decide) tail hc) (fun tail hc _ ↦ hne _ (by decide) tail hc)
    (fun tail _ hc _ ↦ hne _ (by decide) tail hc) fun tail _ hc _ ↦ hne _ (by decide) tail hc

end Marks

theorem value?_of_scalarValue? {cs : List Char} {r : Value × List Char}
    (h : scalarValue? cs = some r) (n depth : ℕ) : value? (n + 1) depth cs = some r := by
  obtain ⟨c, more, rfl, hc⟩ := head_of_scalarValue? h
  rw [value?_of_not_mem_marks hc, h]

theorem skipLines_of_scalarValue? {cs : List Char} {r : Value × List Char}
    (h : scalarValue? cs = some r) : skipLines false cs = cs := by
  obtain ⟨c, more, rfl, hc⟩ := head_of_scalarValue? h
  exact skipLines_of_not_mem_marks hc more

/-! ## Lists of numbers -/

/-- Each of some lines takes at least a character. -/
theorem length_le_length_flatMap {α : Type} {f : α → List Char} (xs : List α)
    (h : ∀ x, f x ≠ []) : xs.length ≤ (xs.flatMap f).length := by
  rw [List.length_flatMap, ← List.length_map (f := fun x ↦ (f x).length)]
  refine List.length_le_sum_of_one_le _ fun n hn ↦ ?_
  obtain ⟨x, -, rfl⟩ := List.mem_map.1 hn
  exact List.length_pos_iff.2 (h x)

/-- An item that is no list, whatever follows it. -/
theorem items?_scalar {before cs rest : List Char} {v : Value}
    (hbefore : skipLines false before = cs) (h : scalarValue? cs = some (v, rest))
    (n depth : ℕ) :
    items? (n + 2) depth before =
      match skipLines false rest with
      | ',' :: rest => (items? (n + 1) depth rest).map fun (items, rest) ↦ (v :: items, rest)
      | ']' :: rest => some ([v], rest)
      | _ => none := by
  obtain ⟨c, more, rfl, hc⟩ := head_of_scalarValue? h
  rw [items?, hbefore]
  split
  · rename_i hh
    exact absurd (List.cons.inj hh).1 (ne_of_not_mem_marks hc (by decide))
  · rewrite [value?_of_scalarValue? h]
    rfl

namespace Plain

/-- A real number on a line of its own in a list. -/
def itemLine (x : Float) : List Char := [' ', ' ', ' ', ' '] ++ (realText x).toList ++ [',', '\n']

/-- The items of a list are read line by line. -/
theorem items?_lines (xs : List Float) (n depth : ℕ) (rest : List Char) :
    items? (xs.length + n + 1) depth ('\n' :: (xs.flatMap itemLine ++ ']' :: rest)) =
      some (xs.map Value.real, rest) := by
  induction xs with
  | nil => rfl
  | cons x xs ih =>
    have hx := @scalarValue?_real x (',' :: '\n' :: (xs.flatMap itemLine ++ ']' :: rest))
      ⟨',', _, rfl, by decide⟩
    have hskip : skipLines false ('\n' :: ((x :: xs).flatMap itemLine ++ ']' :: rest)) =
        (realText x).toList ++ ',' :: '\n' :: (xs.flatMap itemLine ++ ']' :: rest) := by
      rw [← skipLines_of_scalarValue? hx]
      simp [itemLine, skipLines, isBlank]
    rw [List.length_cons, show xs.length + 1 + n + 1 = xs.length + n + 2 by omega,
      items?_scalar hskip hx]
    change (items? _ _ ('\n' :: (xs.flatMap itemLine ++ ']' :: rest))).map _ = _
    rw [ih]
    rfl

/-- Integers are in the range of the format. -/
def Fits : Plain → Prop
  | integer i => -2 ^ 63 ≤ i ∧ i < 2 ^ 63
  | real _ | reals _ => True

/-- The number of items. -/
def size : Plain → ℕ
  | integer _ | real _ => 0
  | reals xs => xs.length

/-- Several items stand on lines of their own. -/
theorem toList_text_reals (x y : Float) (xs : List Float) :
    (reals (x :: y :: xs)).text.toList =
      '[' :: '\n' :: ((x :: y :: xs).flatMap itemLine ++ [']']) := by
  have hlines : (String.join ((x :: y :: xs).map fun z ↦ s!"    {realText z},\n")).toList =
      (x :: y :: xs).flatMap itemLine := by
    rw [String.toList_join, List.flatMap_map]
    refine congrArg (fun f ↦ List.flatMap f (x :: y :: xs)) (funext fun z ↦ ?_)
    simp [itemLine, toString]
  change ("[\n" ++ String.join ((x :: y :: xs).map fun z ↦ s!"    {realText z},\n") ++ "]").toList =
    _
  rw [String.toList_append, String.toList_append, hlines]
  rfl

/-- A value is read back from its text. -/
theorem value?_text {p : Plain} (hp : p.Fits) {n : ℕ} (hn : p.size + 2 ≤ n) (depth : ℕ)
    {rest : List Char} (hrest : Ends rest) :
    value? n (depth + 1) (p.text.toList ++ rest) = some (p.value, rest) := by
  obtain ⟨k, rfl⟩ : ∃ k, n = p.size + k + 2 := ⟨n - p.size - 2, by omega⟩
  match p with
  | integer i => exact value?_of_scalarValue? (scalarValue?_integer hp hrest) _ _
  | real x => exact value?_of_scalarValue? (scalarValue?_real x hrest) _ _
  | reals [] => rfl
  | reals [x] =>
    have hx := @scalarValue?_real x (']' :: rest) ⟨']', rest, rfl, by decide⟩
    have hlist : (reals [x]).text.toList ++ rest = '[' :: ((realText x).toList ++ ']' :: rest) := by
      simp [text, toString]
    rw [hlist, value?, show (reals [x]).size + k + 1 = k + 2 by rw [size]; simp; omega,
      items?_scalar (skipLines_of_scalarValue? hx) hx]
    rfl
  | reals (x :: y :: xs) =>
    have hlist : (reals (x :: y :: xs)).text.toList ++ rest =
        '[' :: '\n' :: ((x :: y :: xs).flatMap itemLine ++ ']' :: rest) := by
      rw [toList_text_reals]
      simp
    rw [hlist, value?, size, items?_lines]
    rfl

/-- No blank begins the text of a value. -/
theorem skip_text {p : Plain} (hp : p.Fits) {rest : List Char} (hrest : Ends rest) :
    skip (p.text.toList ++ rest) = p.text.toList ++ rest := by
  have hscalar : ∀ {cs r}, scalarValue? cs = some r → skip cs = cs := by
    intro cs r h
    obtain ⟨c, more, rfl, hc⟩ := head_of_scalarValue? h
    refine List.dropWhile_cons_of_neg ?_
    rw [isBlank_of_not_mem_marks hc]
    exact Bool.false_ne_true
  match p with
  | integer i => exact hscalar (scalarValue?_integer hp hrest)
  | real x => exact hscalar (scalarValue?_real x hrest)
  | reals [] => rfl
  | reals [x] =>
    rw [text, String.toList_append, String.toList_append]
    rfl
  | reals (x :: y :: xs) =>
    rw [toList_text_reals]
    rfl

theorem size_le_length (p : Plain) : p.size ≤ p.text.toList.length := by
  match p with
  | integer i => exact Nat.zero_le _
  | real x => exact Nat.zero_le _
  | reals [] => exact Nat.zero_le _
  | reals [x] => simp [size, text, toString]
  | reals (x :: y :: xs) =>
    have hitems := length_le_length_flatMap (f := itemLine) (x :: y :: xs) fun z ↦ by
      simp [itemLine]
    rw [toList_text_reals]
    simp only [size, List.length_cons, List.length_append] at hitems ⊢
    omega

end Plain

end Toolpath.Toml
