import Toolpath.Proofs.Run.Record

/-!
# Nesting of open blocks

At every point of a run the open blocks nest: the line in hand lies in the block on top, and the
command that opened a block lies in the block below it. Only the end of the block on top is ever
compared with the cursor, so this is what keeps a run from passing the end of a block unawares.
`Frame.Returns` is the account of an unwinding in which no end is passed; `frames_nested` gives the
inequalities, the account of every step, and what they come to when a run is completed.
-/

namespace Toolpath

namespace Frame

/-- Unwinding from a cursor that has not passed the end of the block on top. It stops before that
end, or at it: a block with passes left begins again, one in its last pass is closed. -/
inductive Returns : List Frame → Nat → Positioning → List Frame → Nat → Positioning → Prop where
  | within {fs : List Frame} {c : Nat} {q : Positioning} (h : ∀ f ∈ fs.head?, c < f.stop) :
      Returns fs c q fs c q
  | again {f : Frame} {fs : List Frame} {q : Positioning} (h : 1 < f.passes) :
      Returns (f :: fs) f.stop q ({ f with passes := f.passes - 1 } :: fs) f.start f.positioning
  | close {f : Frame} {fs fs' : List Frame} {q q' : Positioning} {c' : Nat} (h : f.passes = 1)
      (rest : Returns fs f.resume f.positioning fs' c' q') : Returns (f :: fs) f.stop q fs' c' q'

variable {n c : Nat} {q : Positioning} {f g : Frame} {fs : List Frame}

/-! ## Nested blocks -/

theorem Nested.block (h : Nested n c fs) (hf : f ∈ fs) :
    f.start < f.stop ∧ f.stop < n ∧ 1 ≤ f.passes := by
  induction fs generalizing c with
  | nil => cases hf
  | cons g fs ih =>
    obtain ⟨hg, -, hn⟩ := h
    rcases List.mem_cons.1 hf with rfl | hf
    · exact ⟨Nat.lt_of_le_of_lt hg.start_le hg.lt_stop, hg.stop_lt, hg.passes_pos⟩
    · exact ih hn hf

theorem Nested.top (h : Nested n c fs) (hf : f ∈ fs.head?) : f.start ≤ c ∧ c < f.stop := by
  cases fs with
  | nil => cases hf
  | cons g fs =>
    obtain rfl : g = f := Option.some.inj hf
    exact ⟨h.1.start_le, h.1.lt_stop⟩

/-- The command that opened a block lies in the block below. -/
theorem Nested.neighbours {i : Nat} (h : Nested n c fs) (hg : fs[i]? = some g)
    (hf : fs[i + 1]? = some f) : 1 ≤ g.resume ∧ f.start ≤ g.resume - 1 ∧ g.resume - 1 < f.stop := by
  induction i generalizing c fs with
  | zero =>
    match fs with
    | g' :: f' :: rest =>
      obtain rfl : g' = g := Option.some.inj hg
      obtain rfl : f' = f := Option.some.inj hf
      obtain ⟨-, hr, hn, -⟩ := h
      exact ⟨hr, hn.start_le, hn.lt_stop⟩
  | succ i ih =>
    cases fs with
    | nil => cases hg
    | cons g' rest => exact ih h.2.2 hg hf

/-- Nested blocks are unwound without passing an end. -/
theorem Nested.returns (h : Nested n c fs) :
    Returns fs (c + 1) q (unwind fs (c + 1) q).1 (unwind fs (c + 1) q).2.1
      (unwind fs (c + 1) q).2.2 := by
  induction fs generalizing c q with
  | nil => exact .within fun f hf ↦ by cases hf
  | cons f fs ih =>
    obtain ⟨hf, hr, hn⟩ := h
    rw [unwind]
    by_cases hc : f.stop = c + 1
    · rw [if_pos hc, ← hc]
      by_cases hp : 1 < f.passes
      · rw [if_pos hp]
        exact .again hp
      · rw [if_neg hp]
        have hone : f.passes = 1 := Nat.le_antisymm (Nat.le_of_not_lt hp) hf.passes_pos
        have hrest := ih (q := f.positioning) hn
        rw [Nat.sub_add_cancel hr] at hrest
        exact .close hone hrest
    · rw [if_neg hc]
      refine .within fun g hg ↦ ?_
      obtain rfl : f = g := Option.some.inj hg
      exact Nat.lt_of_le_of_ne hf.lt_stop (Ne.symm hc)

end Frame

/-! ## Along a run -/

namespace Machine

variable {p : Program} {o : Options} {m m' : Machine}

/-- A step opens a block at its first line, or unwinds without passing an end. -/
theorem opens_or_returns (hf : Faithful p m.read) (hn : Frame.Nested p.size m.cursor m.frames)
    (hs : step p o m = .inl m') :
    (∃ f, m'.frames = f :: m.frames ∧ f.resume = m.cursor + 1 ∧ m'.cursor = f.start) ∨
      ∃ q, Frame.Returns m.frames (m.cursor + 1) q m'.frames m'.cursor
        m'.state.modal.positioning := by
  cases (move_iff hf).2 hs with
  | @next text statement s h => exact .inr ⟨s.modal.positioning, hn.returns⟩
  | entered h room => exact .inl ⟨_, rfl, rfl, rfl⟩

/-- Past the last line no block is open. -/
theorem frames_eq_nil (hn : Frame.Nested p.size m.cursor m.frames) (hc : p.size ≤ m.cursor) :
    m.frames = [] := by
  cases hfs : m.frames with
  | nil => rfl
  | cons f fs =>
    rw [hfs] at hn
    have hlt := hn.1.lt_stop
    have hstop := hn.1.stop_lt
    omega

/-- Unwinding goes to the cursor, to the start of a block or to where one goes on. -/
theorem unwind_cursor_le {n c : Nat} {q : Positioning} {fs : List Frame} (hc : c ≤ n)
    (hfs : ∀ f ∈ fs, f.start ≤ n ∧ f.resume ≤ n) : (Frame.unwind fs c q).2.1 ≤ n := by
  induction fs generalizing c q with
  | nil => exact hc
  | cons f fs ih =>
    obtain ⟨hstart, hresume⟩ := hfs f List.mem_cons_self
    rw [Frame.unwind]
    split
    · split
      · exact hstart
      · exact ih hresume fun g hg ↦ hfs g (List.mem_cons_of_mem _ hg)
    · exact hc

/-- A run never goes further than past the last line. -/
theorem Reachable.cursor_le (h : Reachable p o m) :
    m.cursor ≤ p.size ∧ ∀ f ∈ m.frames, f.resume ≤ p.size := by
  refine h.induct (P := fun m ↦ m.cursor ≤ p.size ∧ ∀ f ∈ m.frames, f.resume ≤ p.size)
    ⟨Nat.zero_le _, fun f hf ↦ by cases hf⟩ ?_
  rintro m m' hr ⟨-, hresume⟩ hs
  have hn := hr.sound.nested
  cases (move_iff hr.faithful).2 hs with
  | @next text statement s hx =>
    refine ⟨unwind_cursor_le hx.lt_size fun f hf ↦ ?_, fun g hg ↦ ?_⟩
    · obtain ⟨hlt, hstop, -⟩ := hn.block hf
      exact ⟨Nat.le_of_lt (Nat.lt_trans hlt hstop), hresume f hf⟩
    · obtain ⟨f, hf, passes, rfl⟩ := Frame.exists_of_mem_unwind hg
      exact hresume f hf
  | entered hx room =>
    obtain ⟨hstart, -⟩ := (hr.step hs).sound.nested
    refine ⟨Nat.le_of_lt (Nat.lt_trans hstart.lt_stop hstart.stop_lt), fun g hg ↦ ?_⟩
    rcases List.mem_cons.1 hg with rfl | hg
    · exact hx.lt_size
    · exact hresume g hg

theorem fail_ne_completed (s : State) (site : Site) (cause : Cause) :
    (s.fail site cause).outcome ≠ .completed := fun h ↦ by cases h

theorem refuse_ne_completed (s : State) (site : Site) (refusal : Refusal) :
    (s.refuse site refusal).outcome ≠ .completed := by
  cases refusal with
  | fault cause => exact fail_ne_completed s site cause
  | cutCharacter => exact fun h ↦ by cases h

/-- A run is completed only past the last line, where nothing is changed any more. -/
theorem past_of_completed {finished : Finished} (hf : Faithful p m.read)
    (hs : step p o m = .inr finished) (hc : finished.outcome = .completed) :
    p.size ≤ m.cursor ∧ m.state = finished.state := by
  cases (move_iff hf).2 hs with
  | past h => exact ⟨Array.getElem?_eq_none_iff.1 h, rfl⟩
  | refused ht hr => exact absurd hc (refuse_ne_completed _ _ _)
  | halted h => cases hc
  | failed h => exact absurd hc (fail_ne_completed _ _ _)
  | tooDeep h full => exact absurd hc (fail_ne_completed _ _ _)

/-- At every point of a run no more blocks are open than allowed; each has lines, ends before the
program does and has a pass in progress; the line in hand lies in the block on top, and the command
that opened a block in the block below. So no step passes the end of an open block, and a completed
run leaves none open. -/
theorem frames_nested (p : Program) (o : Options) :
    (∀ m, Reachable p o m →
      m.frames.length ≤ o.depth ∧
      (∀ f ∈ m.frames, f.start < f.stop ∧ f.stop < p.size ∧ 1 ≤ f.passes) ∧
      (∀ f ∈ m.frames.head?, f.start ≤ m.cursor ∧ m.cursor < f.stop) ∧
      (∀ i f g, m.frames[i]? = some g → m.frames[i + 1]? = some f →
        1 ≤ g.resume ∧ f.start ≤ g.resume - 1 ∧ g.resume - 1 < f.stop) ∧
      (∀ m', step p o.usable m = .inl m' →
        (∃ f, m'.frames = f :: m.frames ∧ f.resume = m.cursor + 1 ∧ m'.cursor = f.start) ∨
        ∃ q, Frame.Returns m.frames (m.cursor + 1) q m'.frames m'.cursor
          m'.state.modal.positioning)) ∧
    ((p.run o).outcome = .completed →
      ∃ m, Reachable p o m ∧ step p o.usable m = .inr (p.run o) ∧ p.size ≤ m.cursor ∧
        m.frames = []) := by
  constructor
  · intro m h
    have hn := h.sound.nested
    exact ⟨h.sound.depth_le, fun f hf ↦ hn.block hf, fun f hf ↦ hn.top hf,
      fun i f g hg hf ↦ hn.neighbours hg hf, fun m' hs ↦ opens_or_returns h.faithful hn hs⟩
  · intro hc
    obtain ⟨m, h, hs⟩ := exists_last p o
    obtain ⟨hsize, -⟩ := past_of_completed h.faithful hs hc
    exact ⟨m, h, hs, hsize, frames_eq_nil h.sound.nested hsize⟩

/-- A block repeated inside a repeated block. -/
def blockInBlock : Program := .ofLines ["A:", "B:", "REPEAT B", "REPEAT A"]

/-- After eight lines a run of `blockInBlock` has opened the inner block in the outer one; the run
is completed. -/
theorem frames_nested_blockInBlock :
    (∃ m, Reachable blockInBlock {} m ∧ m.frames.length = 2 ∧ m.frames.length ≤ 64 ∧
      (∀ f ∈ m.frames, f.start < f.stop ∧ f.stop < 4 ∧ 1 ≤ f.passes) ∧
      (∀ f ∈ m.frames.head?, f.start ≤ m.cursor ∧ m.cursor < f.stop)) ∧
    ∃ m, Reachable blockInBlock {} m ∧ 4 ≤ m.cursor ∧ m.frames = [] := by
  constructor
  · have h : ∃ m, Reachable blockInBlock {} m ∧ m.frames.length = 2 := ⟨_, ⟨8, rfl⟩, rfl⟩
    obtain ⟨m, hm, hl⟩ := h
    obtain ⟨hd, hb, ht, -⟩ := (frames_nested blockInBlock {}).1 m hm
    exact ⟨m, hm, hl, hd, hb, ht⟩
  · have h : ∃ f, iterate blockInBlock (Options.usable {}) 10 (start blockInBlock {}) = .inr f ∧
        f.outcome = .completed := ⟨_, rfl, rfl⟩
    obtain ⟨f, hi, hf⟩ := h
    have hc : (blockInBlock.run {}).outcome = .completed := by
      rw [Program.run, run_eq_of_iterate hi, hf]
    obtain ⟨m, hm, -, hsize, hnil⟩ := (frames_nested blockInBlock {}).2 hc
    exact ⟨m, hm, hsize, hnil⟩

end Machine

end Toolpath
