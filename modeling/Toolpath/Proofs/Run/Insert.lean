import Toolpath.Proofs.Run.Blocks
import Toolpath.Proofs.Run.Renumber

/-!
# Lines that do nothing

Blank lines, comments and lines that are not recognized can stand anywhere in a program, also in a
repeated block or between its last line and the command that repeats it: the run is the same but for
the numbers of lines. `Program.Spread f p p'` says that line `i` of `p` is line `f i` of `p'` and
that the lines between do nothing. A run of `p'` then comes to everything a run of `p` comes to
(`Reachable.spread`); where the one moves on to a line, the other does so by way of the lines in
front of it that do nothing (`Reachable.arrive`). One line more is the case `run_insert`.
-/

namespace Toolpath

/-! ## Programs with more lines -/

/-- A line without labels that is blank, a comment or not recognized. -/
def IdleLine (text : String) : Prop :=
  ∃ action : Action, action.Idle ∧ (Statement.read text.toList).result = .ok { action }

namespace Program

/-- Line `i` of `p` is line `f i` of `p'`, and the lines between do nothing. -/
structure Spread (f : Nat → Nat) (p p' : Program) : Prop where
  mono : StrictMono f
  line (i : Nat) : p'.line? (f i) = p.line? i
  idle (k : Nat) (h : k ∉ Set.range f) : ∃ text, p'.line? k = some text ∧ IdleLine text

end Program

theorem lineNumber_le {f : Nat → Nat} (hf : StrictMono f) (c : Nat) : lineNumber f c ≤ f c := by
  cases c with
  | zero => exact Nat.zero_le _
  | succ c => exact hf (Nat.lt_succ_self c)

/-- Between a line and the next one there is no other. -/
theorem not_mem_range {f : Nat → Nat} {k c : Nat} (hf : StrictMono f) (hk : lineNumber f c ≤ k)
    (hc : k < f c) : k ∉ Set.range f := by
  rintro ⟨i, rfl⟩
  have hi : i < c := hf.lt_iff_lt.1 hc
  cases c with
  | zero => exact Nat.not_lt_zero i hi
  | succ c => exact absurd (hf.monotone (Nat.le_of_lt_succ hi)) (Nat.not_le.2 hk)

/-- The block as one of other lines. -/
def Frame.renumber (f : Nat → Nat) (b : Frame) : Frame :=
  { b with start := f b.start, stop := f b.stop, resume := lineNumber f b.resume }

/-- The end of a run of other lines. -/
def Outcome.renumber (n : Nat → Nat) : Outcome → Outcome
  | .completed => .completed
  | .halted line => .halted (n line)
  | .failed fault => .failed { fault with line := n fault.line }
  | .abandoned line => .abandoned (n line)

def Finished.renumber (f : Nat → Nat) (finished : Finished) : Finished :=
  ⟨finished.state.renumber f, finished.outcome.renumber (lineNumber f)⟩

/-- What it is to end alike but for line numbers. -/
theorem Finished.Alike.renumbered {f : Nat → Nat} {a b : Finished} (h : b.Alike (a.renumber f)) :
    b.state.log = a.state.log.renumber (lineNumber f) ∧ b.state.modal = a.state.modal ∧
      b.state.registers = a.state.registers ∧ b.state.labels = a.state.labels.map id f ∧
      b.outcome = a.outcome.renumber (lineNumber f) := by
  obtain ⟨hlog, hmodal, hregisters, hlabels⟩ := State.eq_of_quiet h.quiet
  exact ⟨hlog, hmodal, hregisters, hlabels, h.outcome⟩

theorem State.act_of_idle {action : Action} (h : action.Idle) (s : State) (site : Site) :
    ∃ notices, s.act site action = (s.told notices, .next) := by
  cases h with
  | blank | comment => exact ⟨s.notices, rfl⟩
  | unrecognized => exact ⟨_, rfl⟩

namespace Machine

variable {f : Nat → Nat} {p p' : Program} {o : Options} {m m₁ m' : Machine} {c : Nat}
  {text : String} {statement : Statement} {s : State} {flow : Flow} {finished : Finished}

/-- A machine has the blocks and the state of another, up to notices, with its lines renumbered. -/
structure Matches (f : Nat → Nat) (m m' : Machine) : Prop where
  frames : m'.frames = m.frames.map (Frame.renumber f)
  quiet : m'.state.quiet = (m.state.renumber f).quiet

/-- A machine stands at the same line as another. -/
structure Tracks (f : Nat → Nat) (m m' : Machine) : Prop extends Matches f m m' where
  cursor : m'.cursor = f m.cursor

theorem Matches.enter {l : Loop} (h : Matches f m m') (hc : m'.cursor = f m.cursor) :
    Tracks f (enter l m) (enter (l.renumber f) m') := by
  refine ⟨⟨?_, State.setPositioning_quiet h.quiet _⟩, rfl⟩
  rw [Machine.enter, Machine.enter, h.frames, hc]
  rfl

theorem Matches.backTo {fs : List Frame} (h : Matches f m m') (q : Positioning) :
    Matches f (m.backTo fs q) (m'.backTo (fs.map (Frame.renumber f)) q) :=
  ⟨rfl, State.setPositioning_quiet h.quiet q⟩

theorem Matches.atLine (h : Matches f m m') (c : Nat) :
    Tracks f { m with cursor := c } { m' with cursor := f c } :=
  ⟨⟨h.frames, h.quiet⟩, rfl⟩

/-! ## On to a line -/

/-- A line that does nothing is passed. -/
theorem Reachable.pass (h : Reachable p o m) (ht : p.line? m.cursor = some text)
    (hi : IdleLine text) :
    ∃ s read, Reachable p o (moveTo (m.cursor + 1) { m with state := s, read := read }) ∧
      s.quiet = m.state.quiet := by
  obtain ⟨action, hidle, hr⟩ := hi
  obtain ⟨notices, ha⟩ := State.act_of_idle hidle (m.heard o.usable text)
    (o.usable.site m.cursor text)
  have hx : Executes p o.usable m text { action } ((m.heard o.usable text).told notices, .next) :=
    .of_acted ht hr ha
  exact ⟨_, _, h.step ((move_iff h.faithful).1 (.next hx)), heard_quiet⟩

/-- On the way to a line only lines that do nothing are executed. -/
theorem Reachable.walk (hp : p.Spread f p') (hstops : ∀ b ∈ m'.frames, b.stop ∈ Set.range f)
    (h : Reachable p' o (moveTo (lineNumber f c) m')) :
    ∃ m₁', Reachable p' o (moveTo (f c) m₁') ∧ m₁'.frames = m'.frames ∧
      m₁'.state.quiet = m'.state.quiet := by
  -- Induction on the lines that are left to pass, so the line come to varies.
  suffices key : ∀ d k (m' : Machine), k + d = f c → lineNumber f c ≤ k →
      (∀ b ∈ m'.frames, b.stop ∈ Set.range f) → Reachable p' o (moveTo k m') →
      ∃ m₁', Reachable p' o (moveTo (f c) m₁') ∧ m₁'.frames = m'.frames ∧
        m₁'.state.quiet = m'.state.quiet from
    key _ _ m' (Nat.add_sub_cancel' (lineNumber_le hp.mono c)) (Nat.le_refl _) hstops h
  intro d
  induction d with
  | zero =>
    rintro k m' hk - - h
    obtain rfl : k = f c := hk
    exact ⟨m', h, rfl, rfl⟩
  | succ d ih =>
    intro k m' hk hle hstops h
    have hout : k ∉ Set.range f := not_mem_range hp.mono hle (by omega)
    have hne : ∀ b ∈ m'.frames.head?, b.stop ≠ k := fun b hb he ↦
      hout (he ▸ hstops b (List.mem_of_mem_head? hb))
    rw [moveTo_of_ne hne] at h
    obtain ⟨text, ht, hidle⟩ := hp.idle k hout
    obtain ⟨s, read, hr, hs⟩ := h.pass ht hidle
    obtain ⟨m₁', h₁, hframes, hquiet⟩ :=
      ih (k + 1) { m' with cursor := k, state := s, read := read } (by omega) (by omega) hstops hr
    exact ⟨m₁', h₁, hframes, hquiet.trans hs⟩

/-- Where the one machine moves on to a line, the other comes to it too: as the one unwinds its
blocks, the other does, each time by way of the lines that do nothing. -/
theorem Reachable.arrive (hp : p.Spread f p') (hm : Matches f m m')
    (h : Reachable p' o (moveTo (lineNumber f c) m')) :
    ∃ m₁', Reachable p' o m₁' ∧ Tracks f (moveTo c m) m₁' := by
  -- Induction on the open blocks: when one is closed, the next may end at the line gone on to.
  induction hfs : m.frames generalizing m m' c with
  | nil =>
    obtain ⟨m₁', h₁, hframes, hquiet⟩ := h.walk hp (by simp [hm.frames, hfs])
    rw [hm.frames, hfs] at hframes
    rw [moveTo_of_ne (by simp [hframes])] at h₁
    rw [moveTo_of_ne (by simp [hfs])]
    exact ⟨_, h₁, Matches.atLine ⟨by rw [hframes, hfs], hquiet.trans hm.quiet⟩ c⟩
  | cons b fs ih =>
    have hstops : ∀ b ∈ m'.frames, b.stop ∈ Set.range f := by
      rw [hm.frames]
      rintro _ hb
      obtain ⟨b, -, rfl⟩ := List.mem_map.1 hb
      exact ⟨b.stop, rfl⟩
    obtain ⟨m₁', h₁, hframes, hquiet⟩ := h.walk hp hstops
    have hm₁ : Matches f m m₁' := ⟨hframes.trans hm.frames, hquiet.trans hm.quiet⟩
    have htop : m₁'.frames = b.renumber f :: fs.map (Frame.renumber f) := by
      rw [hm₁.frames, hfs, List.map_cons]
    by_cases hc : b.stop = c
    · obtain rfl := hc
      rcases Nat.lt_or_ge 1 b.passes with hb | hb
      · refine ⟨_, h₁, ?_⟩
        rw [moveTo_stop hfs hb, show moveTo (f b.stop) m₁' = _ from moveTo_stop htop hb]
        exact (hm₁.backTo b.positioning).atLine b.start
      · rw [show moveTo (f b.stop) m₁' = _ from moveTo_stop_close htop hb] at h₁
        rw [moveTo_stop_close hfs hb]
        exact ih (hm₁.backTo b.positioning) h₁ rfl
    · have hne : ∀ g ∈ m.frames.head?, g.stop ≠ c := by
        rw [hfs]
        rintro g ⟨⟩
        exact hc
      have hne' : ∀ g ∈ m₁'.frames.head?, g.stop ≠ f c := by
        rw [htop]
        rintro g ⟨⟩
        exact fun he ↦ hc (hp.mono.injective he)
      rw [moveTo_of_ne hne'] at h₁
      rw [moveTo_of_ne hne]
      exact ⟨_, h₁, hm₁.atLine c⟩

/-! ## One line -/

theorem Matches.heard (h : Matches f m m') (o : Options) (text : String) :
    (m'.heard o text).quiet = ((m.heard o text).renumber f).quiet :=
  heard_quiet.trans (h.quiet.trans (State.renumber_quiet heard_quiet).symm)

/-- A line does the same in both programs. -/
theorem Tracks.executes (h : Tracks f m m') (hp : p.Spread f p')
    (hx : Executes p o m text statement (s, flow)) :
    ∃ s', Executes p' o m' text statement (s', flow.renumber f) ∧
      s'.quiet = (s.renumber f).quiet := by
  have hstarts : m'.frames.map Frame.start = (m.frames.map Frame.start).map f := by
    rw [h.frames, List.map_map, List.map_map]
    rfl
  obtain ⟨notices, hren⟩ := State.execute_renumber hp.mono (m.heard o text) o m.cursor text
    (m.frames.map Frame.start) statement
  obtain ⟨hstate, hflow⟩ := @State.execute_quiet _ _ (o.site (f m.cursor) text)
    ((m.frames.map Frame.start).map f) (h.heard o text) statement
  rw [hren, hx.ran] at hstate hflow
  refine ⟨_, ⟨?_, hx.reads, ?_⟩, hstate⟩
  · rw [h.cursor, hp.line, hx.line]
  · rw [h.cursor, hstarts]
    exact Prod.ext rfl hflow

/-- Where the run of the one program goes on, so does that of the other. -/
theorem Tracks.step (h : Tracks f m m') (hp : p.Spread f p') (hf : Faithful p m.read)
    (hr : Reachable p' o m') (hs : Machine.step p o.usable m = .inl m₁) :
    ∃ m₁', Reachable p' o m₁' ∧ Tracks f m₁ m₁' := by
  cases (move_iff hf).2 hs with
  | @next text statement s hx =>
    obtain ⟨s', hx', hquiet⟩ := h.executes hp hx
    have hm : Matches f { m with state := s, read := m.keep statement }
        { m' with state := s', read := m'.keep statement } := ⟨h.frames, hquiet⟩
    have hr' := hr.step ((move_iff hr.faithful).1 (.next hx'))
    rw [h.cursor] at hr'
    exact Reachable.arrive hp hm hr'
  | @entered text statement s l hx room =>
    obtain ⟨s', hx', hquiet⟩ := h.executes hp hx
    have hm : Matches f { m with state := s, read := m.keep statement }
        { m' with state := s', read := m'.keep statement } := ⟨h.frames, hquiet⟩
    have room' : m'.frames.length < o.usable.depth := by
      rw [h.frames, List.length_map]
      exact room
    exact ⟨_, hr.step ((move_iff hr.faithful).1 (.entered hx' room')), hm.enter h.cursor⟩

theorem fail_renumber {s' : State} (h : s'.quiet = (s.renumber f).quiet) (i : Nat) (cause : Cause) :
    (s'.fail (o.site (f i) text) cause).Alike ((s.fail (o.site i text) cause).renumber f) :=
  ⟨h, rfl⟩

/-- Where the run of the one program ends, so does that of the other, in the same way. -/
theorem Tracks.finish (h : Tracks f m m') (hp : p.Spread f p') (hf : Faithful p m.read)
    (hf' : Faithful p' m'.read) (hs : Machine.step p o m = .inr finished) :
    ∃ finished', Machine.step p' o m' = .inr finished' ∧
      finished'.Alike (finished.renumber f) := by
  suffices key : ∃ finished', Move p' o m' (.inr finished') ∧
      finished'.Alike (finished.renumber f) by
    obtain ⟨finished', hmove, ha⟩ := key
    exact ⟨finished', (move_iff hf').1 hmove, ha⟩
  cases (move_iff hf).2 hs with
  | past hl =>
    refine ⟨_, .past ?_, h.quiet, rfl⟩
    rw [h.cursor, hp.line, hl]
  | @refused text refusal ht hr =>
    have ht' : p'.line? m'.cursor = some text := by rw [h.cursor, hp.line, ht]
    refine ⟨_, .refused ht' hr, ?_⟩
    rw [h.cursor]
    cases refusal with
    | fault cause => exact fail_renumber (h.heard o text) m.cursor cause
    | cutCharacter => exact ⟨h.heard o text, rfl⟩
  | halted hx =>
    obtain ⟨s', hx', hquiet⟩ := h.executes hp hx
    refine ⟨_, .halted hx', hquiet, ?_⟩
    rw [h.cursor]
    rfl
  | @failed text statement s cause hx =>
    obtain ⟨s', hx', hquiet⟩ := h.executes hp hx
    refine ⟨_, .failed hx', ?_⟩
    rw [h.cursor]
    exact fail_renumber hquiet m.cursor cause
  | tooDeep hx full =>
    obtain ⟨s', hx', hquiet⟩ := h.executes hp hx
    have full' : o.depth ≤ m'.frames.length := by
      rw [h.frames, List.length_map]
      exact full
    refine ⟨_, .tooDeep hx' full', ?_⟩
    rw [h.cursor]
    exact fail_renumber hquiet m.cursor _

/-! ## Whole runs -/

theorem matches_start (f : Nat → Nat) (p p' : Program) (o : Options) :
    Matches f (Machine.start p o) (Machine.start p' o) := by
  refine ⟨rfl, ?_⟩
  obtain ⟨notices, hn⟩ := start_eq_told p o
  obtain ⟨notices', hn'⟩ := start_eq_told p' o
  rw [hn, hn', State.quiet_told, State.renumber_quiet (State.quiet_told _ notices),
    State.start_renumber]

/-- A run of the program with more lines comes to everything the other one comes to. -/
theorem Reachable.spread (hp : p.Spread f p') (h : Reachable p o m) :
    ∃ m', Reachable p' o m' ∧ Tracks f m m' := by
  refine h.simulate ?_ fun m m₁ m' hm hm' ht hs ↦ ht.step hp hm.faithful hm' hs
  have hstart : Reachable p' o (moveTo (lineNumber f 0) (Machine.start p' o)) := .start
  exact Reachable.arrive hp (matches_start f p p' o) hstart

/-- The two runs end in the same way. -/
theorem run_spread (hp : p.Spread f p') (o : Options) :
    (p'.run o).Alike ((p.run o).renumber f) := by
  obtain ⟨m, h, hs⟩ := exists_last p o
  obtain ⟨m', h', ht⟩ := h.spread hp
  obtain ⟨finished', hs', ha⟩ := ht.finish hp h.faithful h'.faithful hs
  rw [h'.run_eq hs']
  exact ha

/-! ## One more line -/

/-- Where line `i` stands once there is one more line, line `j`. -/
def makeRoom (j i : Nat) : Nat := if i < j then i else i + 1

theorem makeRoom_of_lt {j i : Nat} (h : i < j) : makeRoom j i = i := if_pos h

theorem makeRoom_of_le {j i : Nat} (h : j ≤ i) : makeRoom j i = i + 1 := if_neg (Nat.not_lt.2 h)

theorem makeRoom_strictMono (j : Nat) : StrictMono (makeRoom j) := by
  intro a b h
  rcases Nat.lt_or_ge b j with hb | hb
  · rw [makeRoom_of_lt hb, makeRoom_of_lt (Nat.lt_trans h hb)]
    exact h
  · rw [makeRoom_of_le hb, makeRoom]
    split
    · omega
    · omega

/-- Room is made at line `j` only. -/
theorem eq_of_not_mem_range {j k : Nat} (h : k ∉ Set.range (makeRoom j)) : k = j := by
  rcases Nat.lt_trichotomy k j with hk | hk | hk
  · exact absurd ⟨k, makeRoom_of_lt hk⟩ h
  · exact hk
  · refine absurd ⟨k - 1, ?_⟩ h
    rw [makeRoom_of_le (by omega)]
    omega

/-- Of the numbers of lines those after `j` go up by one. -/
theorem lineNumber_makeRoom (j n : Nat) :
    lineNumber (makeRoom j) n = if n ≤ j then n else n + 1 := by
  cases n with
  | zero => rfl
  | succ i =>
    rcases Nat.lt_or_ge i j with h | h
    · rw [lineNumber, makeRoom_of_lt h, if_pos (Nat.succ_le_of_lt h)]
    · rw [lineNumber, makeRoom_of_le h, if_neg (Nat.not_le.2 (Nat.lt_succ_of_le h))]

theorem spread_insert (xs ys : List String) (h : IdleLine text) :
    (Program.ofLines (xs ++ ys)).Spread (makeRoom xs.length)
      (Program.ofLines (xs ++ text :: ys)) := by
  refine ⟨makeRoom_strictMono xs.length, fun i ↦ ?_, fun k hk ↦ ⟨text, ?_, h⟩⟩
  · rw [Program.line?_ofLines, Program.line?_ofLines]
    rcases Nat.lt_or_ge i xs.length with hi | hi
    · rw [makeRoom_of_lt hi, List.getElem?_append_left hi, List.getElem?_append_left hi]
    · rw [makeRoom_of_le hi, List.getElem?_append_right hi,
        List.getElem?_append_right (Nat.le_succ_of_le hi), Nat.succ_sub hi, List.getElem?_cons_succ]
  · rw [eq_of_not_mem_range hk, Program.line?_ofLines, List.getElem?_append_right (Nat.le_refl _),
      Nat.sub_self, List.getElem?_cons_zero]

/-- One more line that is blank, a comment or not recognized, anywhere in a program, changes only
line numbers: the moves are the same but for the numbers of the lines they come from, the modal
state and the registers are the same, labels are on the same lines as before where those now stand,
and the run ends in the same way, at the same line if at any. -/
theorem run_insert (xs ys : List String) (text : String) (h : IdleLine text) (o : Options) :
    let run := (Program.ofLines (xs ++ ys)).run o
    let run' := (Program.ofLines (xs ++ text :: ys)).run o
    let number (n : Nat) := if n ≤ xs.length then n else n + 1
    run'.state.log = run.state.log.renumber number ∧
    run'.state.modal = run.state.modal ∧
    run'.state.registers = run.state.registers ∧
    run'.state.labels = run.state.labels.map id (makeRoom xs.length) ∧
    run'.outcome = run.outcome.renumber number := by
  intro run run' number
  have hnumber : lineNumber (makeRoom xs.length) = number :=
    funext fun n ↦ lineNumber_makeRoom xs.length n
  have halike : run'.Alike (run.renumber (makeRoom xs.length)) :=
    run_spread (spread_insert xs ys h) o
  rw [← hnumber]
  exact halike.renumbered

/-- A comment in a repeated block: the move of the block comes from line 3 instead of 2, and the run
fails at line 5 instead of 4. -/
theorem run_insert_comment :
    let run := (Program.ofLines (["A:"] ++ ["G91 G1 X1", "REPEAT A", "REPEAT Z"])).run {}
    let run' := (Program.ofLines
      (["A:"] ++ "; twice" :: ["G91 G1 X1", "REPEAT A", "REPEAT Z"])).run {}
    IdleLine "; twice" ∧
    run.state.log.toList.map (·.tag.line) = [2, 2] ∧
    run'.state.log.toList.map (·.tag.line) = [3, 3] ∧
    run.outcome = .failed ⟨4, "REPEAT Z", .unknownLabel "Z"⟩ ∧
    run'.outcome = .failed ⟨5, "REPEAT Z", .unknownLabel "Z"⟩ := by
  intro run run'
  have hidle : IdleLine "; twice" := ⟨.comment, .comment, rfl⟩
  have h : ∃ f, iterate (.ofLines (["A:"] ++ ["G91 G1 X1", "REPEAT A", "REPEAT Z"]))
      (Options.usable {}) 7
      (start (.ofLines (["A:"] ++ ["G91 G1 X1", "REPEAT A", "REPEAT Z"])) {}) = .inr f ∧
      f.state.log.toList.map (·.tag.line) = [2, 2] ∧
      f.outcome = .failed ⟨4, "REPEAT Z", .unknownLabel "Z"⟩ := ⟨_, rfl, rfl, rfl⟩
  obtain ⟨f, hi, hlines, hfailed⟩ := h
  obtain rfl : run = f := run_eq_of_iterate hi
  obtain ⟨hlog, -, -, -, houtcome⟩ :=
    run_insert ["A:"] ["G91 G1 X1", "REPEAT A", "REPEAT Z"] "; twice" hidle {}
  refine ⟨hidle, hlines, ?_, hfailed, ?_⟩
  · have hmap : run'.state.log.toList.map (·.tag.line) =
        (run.state.log.toList.map (·.tag.line)).map fun n ↦ if n ≤ 1 then n else n + 1 := by
      rw [hlog, Log.toList_renumber, List.map_map, List.map_map]
      rfl
    rw [hmap, hlines]
    rfl
  · rw [houtcome, hfailed]
    rfl

end Machine

end Toolpath
