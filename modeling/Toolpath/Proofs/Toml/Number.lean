import Toolpath.Proofs.Number.Point
import Toolpath.Toml.Reader
import Toolpath.Toml.Writer

/-!
# Numbers of TOML read back

An integer in range and a real number are read back from their texts: `scalarValue?_integer` and
`scalarValue?_real`. A number could also begin a date or a time of day, but then a dash or a colon
would follow its digits: `moment?_eq_none`.
-/

namespace Toolpath.Toml

open Text (isAsciiDigit isAsciiDigit_iff takeWhile_append dropWhile_append)
open Decimal (Digits Pointed digits digits_digits digits_ne_nil digits_leading value
  value_digits ofScientific)

/-- What may follow a number: no character that could continue it. -/
def Ends (rest : List Char) : Prop := ∃ c more, rest = c :: more ∧ c ∈ ['\n', ',', ']']

/-! ## Runs of digits -/

section Run

variable {ds rest : List Char}

theorem run_digits (h : Digits ds) (hrest : ∀ c ∈ rest.head?, isAsciiDigit c = false ∧ c ≠ '_') :
    run isAsciiDigit (ds ++ rest) = (ds, rest) := by
  induction ds with
  | nil =>
    cases rest with
    | nil => rfl
    | cons c rest =>
      obtain ⟨hc, hline⟩ := hrest c rfl
      rw [List.nil_append, run.eq_3 _ _ _ fun _ _ hh ↦ absurd hh hline, hc]
      rfl
  | cons d ds ih =>
    have hd : isAsciiDigit d = true := h d List.mem_cons_self
    have hline : d ≠ '_' := by
      rintro rfl
      cases hd
    rw [List.cons_append, run.eq_3 _ _ _ fun _ _ hh ↦ absurd hh hline, if_pos hd,
      ih fun e he ↦ h e (List.mem_cons_of_mem d he)]

theorem run?_append (h : Digits ds) (hne : ds ≠ [])
    (hrest : ∀ c ∈ rest.head?, isAsciiDigit c = false ∧ c ≠ '_') :
    run? isAsciiDigit (ds ++ rest) = some (ds, rest) := by
  obtain ⟨d, es, rfl⟩ := List.exists_cons_of_ne_nil hne
  have hd : isAsciiDigit d = true := h d List.mem_cons_self
  rw [← run_digits h hrest, List.cons_append]
  exact if_pos hd

theorem whole?_append (h : Digits ds) (hlead : ds = ['0'] ∨ ∃ d es, ds = d :: es ∧ d ≠ '0')
    (hrest : ∀ c ∈ rest.head?, isAsciiDigit c = false ∧ c ≠ '_') :
    whole? (ds ++ rest) = some (ds, rest) := by
  rcases hlead with rfl | ⟨d, es, rfl, hd⟩
  · rfl
  · rw [List.cons_append, whole?.eq_2 _ fun _ hh ↦ absurd (List.cons.inj hh).1 hd,
      ← List.cons_append]
    exact run?_append h (List.cons_ne_nil d es) hrest

theorem exponent?_of_head (h : ∀ c ∈ rest.head?, c ≠ 'e' ∧ c ≠ 'E') :
    exponent? rest = some (none, rest) := by
  cases rest with
  | nil => rfl
  | cons c rest =>
    obtain ⟨he, hE⟩ := h c rfl
    unfold exponent?
    split
    · rename_i hh
      exact absurd (List.cons.inj hh).1 he
    · rename_i hh
      exact absurd (List.cons.inj hh).1 hE
    · rfl

end Run

/-! ## What is no date and no time of day -/

/-- Some figures are digits at the start of a text. -/
theorem figures?_eq_some {n v : ℕ} {cs rest : List Char} (h : figures? n cs = some (v, rest)) :
    ∃ ds, cs = ds ++ rest ∧ Digits ds ∧ ds.length = n := by
  simp only [figures?] at h
  split at h
  · rename_i hall
    obtain ⟨-, rfl⟩ := Prod.mk.inj (Option.some.inj h)
    exact ⟨cs.take n, (List.take_append_drop n cs).symm, List.all_eq_true.1 hall.2, hall.1⟩
  · cases h

theorem dropWhile_of_figures? {n v : ℕ} {cs rest : List Char} (h : figures? n cs = some (v, rest)) :
    cs.dropWhile isAsciiDigit = rest.dropWhile isAsciiDigit := by
  obtain ⟨ds, rfl, hds, -⟩ := figures?_eq_some h
  exact List.dropWhile_append_of_pos hds

theorem separator?_eq_some {c : Char} {cs rest : List Char} (h : separator? c cs = some rest) :
    cs = c :: rest := by
  cases cs with
  | nil => cases h
  | cons d cs =>
    rw [separator?] at h
    split at h
    · rename_i hd
      rw [hd, Option.some.inj h]
    · cases h

/-- Behind the first figures of a date stands a dash. -/
theorem date?_eq_some {cs rest : List Char} (h : date? cs = some rest) :
    ∃ more, cs.dropWhile isAsciiDigit = '-' :: more := by
  simp only [date?, bind, Option.bind_eq_some_iff] at h
  obtain ⟨⟨year, after⟩, hyear, more, hdash, -⟩ := h
  obtain rfl := separator?_eq_some hdash
  exact ⟨more, dropWhile_of_figures? hyear⟩

/-- Behind the first figures of a time of day stands a colon. -/
theorem time?_eq_some {cs rest : List Char} (h : time? cs = some rest) :
    ∃ more, cs.dropWhile isAsciiDigit = ':' :: more := by
  simp only [time?, pair?, bind, Option.bind_eq_some_iff] at h
  obtain ⟨⟨hour, after⟩, ⟨⟨hour', after'⟩, hhour, hrange⟩, more, hcolon, -⟩ := h
  obtain rfl := separator?_eq_some hcolon
  split at hrange
  · obtain ⟨rfl, rfl⟩ := Prod.mk.inj (Option.some.inj hrange)
    exact ⟨more, dropWhile_of_figures? hhour⟩
  · cases hrange

/-- Digits that neither a dash nor a colon follows begin no date and no time of day. -/
theorem moment?_eq_none {cs : List Char}
    (h : ∀ c ∈ (cs.dropWhile isAsciiDigit).head?, c ≠ '-' ∧ c ≠ ':') : moment? cs = none := by
  have hdate : date? cs = none := by
    refine Option.eq_none_iff_forall_ne_some.2 fun rest hrest ↦ ?_
    obtain ⟨more, hmore⟩ := date?_eq_some hrest
    exact (h '-' (by rw [hmore]; rfl)).1 rfl
  have htime : time? cs = none := by
    refine Option.eq_none_iff_forall_ne_some.2 fun rest hrest ↦ ?_
    obtain ⟨more, hmore⟩ := time?_eq_some hrest
    exact (h ':' (by rw [hmore]; rfl)).2 rfl
  rw [moment?, hdate]
  exact htime

/-- Neither begins with a character that is no digit. -/
theorem moment?_cons {c : Char} (h : isAsciiDigit c = false) (cs : List Char) :
    moment? (c :: cs) = none := by
  have hfigures : ∀ n, figures? (n + 1) (c :: cs) = none := by
    intro n
    refine Option.eq_none_iff_forall_ne_some.2 ?_
    rintro ⟨v, rest⟩ hsome
    obtain ⟨ds, hcs, hds, hlength⟩ := figures?_eq_some hsome
    obtain ⟨d, es, rfl⟩ := List.exists_cons_of_length_eq_add_one hlength
    obtain ⟨rfl, -⟩ := List.cons.inj hcs
    exact Bool.false_ne_true (h.symm.trans (hds c List.mem_cons_self))
  simp only [moment?, date?, time?, pair?, hfigures, bind, Option.bind_none]

/-! ## Numbers in digits -/

section Decimal

variable {negative : Bool} {rest : List Char}

theorem Ends.head (h : Ends rest) {c : Char} (hc : c ∈ rest.head?) : c ∈ ['\n', ',', ']'] := by
  obtain ⟨d, more, rfl, hd⟩ := h
  obtain rfl := Option.some.inj hc
  exact hd

/-- No digit and no other character of a number follows. -/
theorem Ends.stops (h : Ends rest) {c : Char} (hc : c ∈ rest.head?) :
    isAsciiDigit c = false ∧ c ∉ ['_', '.', 'e', 'E', 'x', 'o', 'b', '-', ':'] := by
  have hmem := h.head hc
  simp only [List.mem_cons, List.not_mem_nil, or_false] at hmem
  rcases hmem with rfl | rfl | rfl <;> decide

theorem Ends.run (h : Ends rest) {c : Char} (hc : c ∈ rest.head?) :
    isAsciiDigit c = false ∧ c ≠ '_' :=
  ⟨(h.stops hc).1, fun hline ↦ (h.stops hc).2 (by rw [hline]; decide)⟩

theorem Ends.exponent? (h : Ends rest) : Toml.exponent? rest = some (none, rest) := by
  refine exponent?_of_head fun c hc ↦ ⟨?_, ?_⟩ <;>
  · rintro rfl
    exact (h.stops hc).2 (by decide)

theorem decimal?_integer (n : ℕ) (hrest : Ends rest) :
    decimal? negative (digits n ++ rest) = bounded? (if negative then -n else n) rest := by
  rw [decimal?, whole?_append (digits_digits n) (digits_leading n) fun c ↦ hrest.run]
  simp only [bind, Option.bind_some]
  split
  · rename_i more
    exact absurd (by decide) (hrest.stops (c := '.') rfl).2
  · rw [hrest.exponent?, Option.bind_some, value_digits]

theorem decimal?_real {whole frac : List Char} (h : Pointed whole frac) (hrest : Ends rest) :
    decimal? negative (whole ++ '.' :: frac ++ rest) =
      real? negative (ofScientific whole frac 0) rest := by
  have hpoint : ∀ c ∈ ('.' :: (frac ++ rest)).head?, isAsciiDigit c = false ∧ c ≠ '_' := by
    rintro c ⟨⟩
    decide
  rw [decimal?, List.append_assoc, List.cons_append,
    whole?_append h.digits_whole h.leading hpoint]
  simp only [bind, Option.bind_some]
  rw [run?_append h.digits_frac h.frac_ne_nil fun c ↦ hrest.run, Option.bind_some,
    hrest.exponent?, Option.bind_some]
  rfl

end Decimal

/-! ## Numbers with their signs -/

section Signs

variable {d : Char} {cs : List Char}

theorem ne_of_isAsciiDigit {c : Char} (hd : isAsciiDigit d = true) (hc : isAsciiDigit c = false) :
    d ≠ c := by
  rintro rfl
  exact Bool.false_ne_true (hc.symm.trans hd)

/-- What begins with a digit is no word. -/
theorem signed?_digit (hd : isAsciiDigit d = true) (negative : Bool) (cs : List Char) :
    signed? negative (d :: cs) = decimal? negative (d :: cs) := by
  refine signed?.eq_3 _ _ (fun rest h ↦ ?_) fun rest h ↦ ?_ <;>
  · exact ne_of_isAsciiDigit hd (by decide) (List.cons.inj h).1

/-- A number without a sign; a mark of another base does not follow its first digit. -/
theorem number?_digit (hd : isAsciiDigit d = true)
    (hmark : ∀ c ∈ cs.head?, c ∉ ['x', 'o', 'b']) :
    number? (d :: cs) = decimal? false (d :: cs) := by
  have hbase : ∀ c ∈ ['x', 'o', 'b'], ∀ rest, d :: cs ≠ '0' :: c :: rest := by
    intro c hc rest h
    exact hmark c (by rw [(List.cons.inj h).2]; rfl) hc
  have hsign : ∀ c, isAsciiDigit c = false → ∀ rest, d :: cs ≠ c :: rest :=
    fun c hc rest h ↦ ne_of_isAsciiDigit hd hc (List.cons.inj h).1
  rw [number?.eq_6 _ (hbase 'x' (by decide)) (hbase 'o' (by decide)) (hbase 'b' (by decide))
    (hsign '-' (by decide)) (hsign '+' (by decide))]
  exact signed?_digit hd false cs

theorem scalarValue?_of_moment? {c : Char} (ht : c ≠ 't') (hf : c ≠ 'f')
    (h : moment? (c :: cs) = none) : scalarValue? (c :: cs) = number? (c :: cs) := by
  rw [scalarValue?.eq_3 _ (fun rest h ↦ ht (List.cons.inj h).1)
    fun rest h ↦ hf (List.cons.inj h).1, h]

theorem scalarValue?_digit (hd : isAsciiDigit d = true)
    (hmark : ∀ c ∈ cs.head?, c ∉ ['x', 'o', 'b'])
    (hmoment : ∀ c ∈ (cs.dropWhile isAsciiDigit).head?, c ≠ '-' ∧ c ≠ ':') :
    scalarValue? (d :: cs) = decimal? false (d :: cs) := by
  have hnone : moment? (d :: cs) = none := by
    refine moment?_eq_none ?_
    rwa [List.dropWhile_cons_of_pos hd]
  rw [scalarValue?_of_moment? (ne_of_isAsciiDigit hd (by decide))
    (ne_of_isAsciiDigit hd (by decide)) hnone]
  exact number?_digit hd hmark

theorem scalarValue?_neg (hd : isAsciiDigit d = true) (cs : List Char) :
    scalarValue? ('-' :: d :: cs) = decimal? true (d :: cs) := by
  rw [scalarValue?_of_moment? (by decide) (by decide) (moment?_cons (by decide) _)]
  exact signed?_digit hd true cs

/-- Digits after a sign, with what follows them. -/
theorem scalarValue?_signed {ds tail : List Char} (negative : Bool) (hds : Digits ds)
    (hne : ds ≠ [])
    (htail : ∀ c ∈ tail.head?, isAsciiDigit c = false ∧ c ∉ ['x', 'o', 'b', '-', ':']) :
    scalarValue? ((if negative then ['-'] else []) ++ (ds ++ tail)) =
      decimal? negative (ds ++ tail) := by
  obtain ⟨d, es, rfl⟩ := List.exists_cons_of_ne_nil hne
  have hd : isAsciiDigit d = true := hds d List.mem_cons_self
  have hes : ∀ e ∈ es, isAsciiDigit e = true := fun e he ↦ hds e (List.mem_cons_of_mem d he)
  cases negative with
  | true => exact scalarValue?_neg hd (es ++ tail)
  | false =>
    refine scalarValue?_digit hd (fun c hc ↦ ?_) fun c hc ↦ ?_
    · cases es with
      | nil =>
        have hmarks : ['x', 'o', 'b'] ⊆ ['x', 'o', 'b', '-', ':'] := by decide
        exact fun hmark ↦ (htail c hc).2 (hmarks hmark)
      | cons e es =>
        obtain rfl := Option.some.inj hc
        have hdigits : ['x', 'o', 'b'].all (!isAsciiDigit ·) = true := by decide
        have he := hes e List.mem_cons_self
        exact fun hmark ↦ by simpa [he] using List.all_eq_true.1 hdigits e hmark
    · have hstops := htail c ((dropWhile_append hes fun c hc ↦ (htail c hc).1) ▸ hc)
      refine ⟨?_, ?_⟩ <;>
      · rintro rfl
        exact hstops.2 (by decide)

end Signs

/-- The text of an integer is a sign and the digits of its magnitude. -/
theorem toList_toString (i : ℤ) :
    (toString i).toList = (if decide (i < 0) then ['-'] else []) ++ digits i.natAbs := by
  cases i with
  | ofNat n => simp [toString, Int.repr, digits, Nat.repr]
  | negSucc n => simp [toString, Int.repr, digits, Nat.repr, Int.negSucc_lt_zero]

/-- An integer in range is read back. -/
theorem scalarValue?_integer {i : ℤ} {rest : List Char} (hi : -2 ^ 63 ≤ i ∧ i < 2 ^ 63)
    (hrest : Ends rest) :
    scalarValue? ((toString i).toList ++ rest) = some (.integer i, rest) := by
  have hvalue : (if decide (i < 0) = true then -(i.natAbs : ℤ) else i.natAbs) = i := by
    by_cases hneg : i < 0
    · rw [if_pos (decide_eq_true hneg)]
      omega
    · rw [if_neg (by simpa using hneg)]
      omega
  have hmarks : ['x', 'o', 'b', '-', ':'] ⊆ ['_', '.', 'e', 'E', 'x', 'o', 'b', '-', ':'] := by
    decide
  have htail : ∀ c ∈ rest.head?, isAsciiDigit c = false ∧ c ∉ ['x', 'o', 'b', '-', ':'] :=
    fun c hc ↦ ⟨(hrest.stops hc).1, fun hmark ↦ (hrest.stops hc).2 (hmarks hmark)⟩
  rw [toList_toString, List.append_assoc,
    scalarValue?_signed _ (digits_digits _) (digits_ne_nil _) htail, decimal?_integer _ hrest,
    hvalue]
  exact if_pos hi

/-- A magnitude behind its sign is the value. -/
theorem real?_magnitude {x : Float} (hx : x.isFinite = true) (rest : List Char) :
    real? (decide (2 ^ 63 ≤ x.toBits.toNat)) (Binary.magnitude x) rest = some (.real x, rest) := by
  have hsigned := Binary.eq_signed_magnitude x
  by_cases hneg : 2 ^ 63 ≤ x.toBits.toNat
  · rw [if_pos hneg] at hsigned
    rw [real?, if_pos (decide_eq_true hneg), ← hsigned]
  · rw [if_neg hneg] at hsigned
    rw [real?, if_neg (by simpa using hneg), ← hsigned, Binary.isInf_eq_false hx]
    rfl

/-- A finite value is read back from its digits. -/
theorem scalarValue?_finite {x : Float} (hx : x.isFinite = true) {rest : List Char}
    (hrest : Ends rest) :
    scalarValue? ((Plain.layout.text x).toList ++ rest) = some (.real x, rest) := by
  obtain ⟨m, q, hdecode⟩ := Binary.decode_of_isFinite hx
  obtain ⟨whole, frac, htext, hpointed, hreads⟩ :=
    @Decimal.Layout.exists_pointed Plain.layout _ _ _ _ hdecode rfl rfl rfl
  have hpoint : ∀ c ∈ ('.' :: (frac ++ rest)).head?,
      isAsciiDigit c = false ∧ c ∉ ['x', 'o', 'b', '-', ':'] := by
    rintro c ⟨⟩
    decide
  have hlist : (Plain.layout.text x).toList ++ rest =
      (if decide (2 ^ 63 ≤ x.toBits.toNat) then ['-'] else []) ++
        (whole ++ '.' :: (frac ++ rest)) := by
    simp only [Decimal.Layout.text, hdecode, Decimal.signed, htext]
    split <;> simp
  rw [hlist, scalarValue?_signed _ hpointed.digits_whole hpointed.whole_ne_nil hpoint,
    ← List.cons_append, ← List.append_assoc, decimal?_real hpointed hrest, hreads,
    real?_magnitude hx]

/-- A word is read after its sign, as no date begins with a letter. -/
theorem scalarValue?_word {c : Char} {cs : List Char} (hc : c ∈ ['i', 'n', '-']) :
    scalarValue? (c :: cs) = number? (c :: cs) := by
  simp only [List.mem_cons, List.not_mem_nil, or_false] at hc
  rcases hc with rfl | rfl | rfl <;>
  exact scalarValue?_of_moment? (by decide) (by decide) (moment?_cons (by decide) _)

/-- Every real number is read back. -/
theorem scalarValue?_real (x : Float) {rest : List Char} (hrest : Ends rest) :
    scalarValue? ((Plain.realText x).toList ++ rest) = some (.real x, rest) := by
  cases hx : x.isFinite with
  | true =>
    rw [Plain.realText, Binary.isNaN_eq_false hx]
    exact scalarValue?_finite hx hrest
  | false =>
    have hbits := Binary.toBits_of_not_isFinite hx
    have hx' := Float.ofBits_toBits x
    simp only [List.mem_cons, List.not_mem_nil, or_false] at hbits
    rcases hbits with h | h | h
    all_goals
      rw [h] at hx'
      subst hx'
    · have : Plain.realText (Float.ofBits 0x7FF0000000000000) = "inf" := by decide +kernel
      rw [this]
      exact scalarValue?_word (by decide)
    · have : Plain.realText (Float.ofBits 0xFFF0000000000000) = "-inf" := by decide +kernel
      have hneg : Float.ofBits 0xFFF0000000000000 = -infinity := by decide +kernel
      rw [this, hneg]
      exact scalarValue?_word (by decide)
    · have : Plain.realText (Float.ofBits 0x7FF8000000000000) = "nan" := by decide +kernel
      rw [this]
      exact scalarValue?_word (by decide)

end Toolpath.Toml
