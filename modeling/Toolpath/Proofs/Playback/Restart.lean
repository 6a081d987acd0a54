import Toolpath.Proofs.Playback.Bare

/-!
# A start forgets what was before

What a start leaves of a player is the operations, the configuration and what the loader will supply;
all else it sets itself or derives from these. Two players that agree in them are therefore the same
after a start but for what their removers have become (`Agrees.bare_started`). From there on they
stay so, and they have their removers called at the same places.
-/

namespace Toolpath.Playback

/-- What a call shows, its answer, and where it lets the remover work. -/
def Reply.outcome {α σ : Type} [Analytic α] (r : Reply α σ) :
    Snapshot α × Except (Failure α) Unit × List (Point α) :=
  (r.player.snapshot, r.result, cuts r.signals)

/-- The start of playback puts the marker to the start of the first segment, and nowhere else. -/
theorem Turn.placings_launch {α σ : Type} [Analytic α] [Remover σ α] {t : Turn α σ} {speed : α}
    {first : Segment α} (hs : t.player.segments[0]? = some first) :
    placings (events (t.launch speed).1.signals) = placings (events t.signals) ++ [first.start] := by
  have hn (c : Prop) [Decidable c] {event : Event α} (he : event.place? = none) :
      placings (if c then [] else [event]) = [] := by
    split
    · rfl
    · exact placings_cons_of_none he
  rw [launch, hs]
  dsimp only
  rw [send, events_push_notice, events_setStatus, events_place, events_enter, placings_append,
    placings_append, placings_append, hn _ rfl, hn _ rfl, List.append_nil, List.append_nil]
  rfl

theorem Loader.map_fresh {α : Type} {l m : Option (Loader α)}
    (h : l.map Loader.coming = m.map Loader.coming) :
    l.map Loader.fresh = m.map Loader.fresh := by
  have hf : (Loader.fresh : Loader α → Loader α) = (⟨·, 0⟩) ∘ Loader.coming := rfl
  rw [hf, ← Option.map_map, h, Option.map_map]

namespace Player

variable {α σ : Type} {p q : Player α σ}

/-- What a start does not overwrite is the same. -/
structure Agrees (p q : Player α σ) : Prop where
  config : p.config = q.config
  operations : p.operations = q.operations
  loader : p.loader.map Loader.coming = q.loader.map Loader.coming
  installed : p.remover.isSome = q.remover.isSome

theorem Agrees.hook (h : p.Agrees q) : p.hook = q.hook := by
  rw [Player.hook, Player.hook, h.config, h.installed]

variable [Analytic α] {first : Segment α} {speed : α}

theorem supplied_of_segments (h : p.segments.isEmpty = false) : p.supplied = p := by
  rw [supplied, h]
  rfl

theorem Agrees.bare_started {remover remover' : Option σ} (h : p.Agrees q) (hp : p.Stocked)
    (hq : q.Stocked) (hs : p.segments.isEmpty = false) (hc : p.closed = q.closed) :
    (p.started speed first remover).bare = (q.started speed first remover').bare := by
  have hseg : p.segments = q.segments := by rw [hp.segments, hq.segments, h.operations]
  have htotal : p.total = q.total := by rw [hp.total hs, hq.total (hseg ▸ hs), h.operations]
  rw [started, started, bare, bare]
  simp only [h.config, h.operations, hseg, htotal, hc, Loader.map_fresh h.loader]

variable [Remover σ α]

/-! ## From a start on -/

theorem rewinds_eq (hb : p.bare = q.bare) (call : Call α σ) : p.rewinds call = q.rewinds call := by
  cases call with
  | start speed => rw [rewinds, rewinds, result_perform hb rfl]
  | close => rw [rewinds, rewinds, closed_of_bare hb]
  | _ => rfl

/-- The places at which a call lets the remover work follow from what its observers are told. -/
theorem Tallied.cuts_perform (h : p.Tallied) (call : Call α σ) :
    cuts (p.perform call).signals =
      p.hook.spots (p.base p.updates call) (placings (events (p.perform call).signals)) :=
  cuts_of_called (h.counted call).called

/-- Two players that a start left, or any call after it. -/
structure Twins (p q : Player α σ) : Prop where
  bare : p.bare = q.bare
  hook : p.hook = q.hook
  left : p.Tallied
  right : q.Tallied

theorem Twins.perform (h : p.Twins q) (call : Call α σ) :
    (p.perform call).outcome = (q.perform call).outcome ∧
      (p.perform call).player.Twins (q.perform call).player := by
  have hbase : p.base p.updates call = q.base q.updates call := by
    have hu : p.updates = q.updates := congrArg (fun b : Player α (NoRemover α) => b.updates) h.bare
    rw [base, base, rewinds_eq h.bare, hu]
  have hcuts : cuts (p.perform call).signals = cuts (q.perform call).signals := by
    rw [h.left.cuts_perform, h.right.cuts_perform, h.hook, hbase, events_perform h.bare rfl]
  have hb : (p.perform call).player.bare = (q.perform call).player.bare :=
    bare_player_perform h.bare rfl
  refine ⟨?_, hb, ?_, ?_, ?_⟩
  · rw [Reply.outcome, Reply.outcome, snapshot_of_bare hb, result_perform h.bare rfl, hcuts]
  · rw [(h.left.counted call).hook, (h.right.counted call).hook, h.hook, closed_of_bare h.bare]
  · exact h.left.change (changes_perform p call)
  · exact h.right.change (changes_perform q call)

theorem Twins.replies {calls : List (Call α σ)} (h : p.Twins q) :
    (p.replies calls).map Reply.outcome = (q.replies calls).map Reply.outcome := by
  induction calls generalizing p q with
  | nil => rfl
  | cons call calls ih =>
    obtain ⟨ho, ht⟩ := h.perform call
    exact congrArg₂ List.cons ho (ih ht)

/-- What a start that is accepted leaves, and where it lets the remover work. -/
theorem start_loaded (hs : p.segments.isEmpty = false)
    (hok : (p.perform (.start speed)).result = .ok ()) :
    p.closed = false ∧ ∃ first remover, p.segments[0]? = some first ∧
      (p.perform (.start speed)).player = p.started speed first remover ∧
      placings (events (p.perform (.start speed)).signals) = [first.start] := by
  obtain ⟨ho, hv, first, remover, hf, hp⟩ := start_ok hok
  rw [supplied_of_segments hs] at hf hp
  refine ⟨ho, first, remover, hf, hp, ?_⟩
  have hl : Turn.loadIfEmpty { player := p } = { player := p } := if_neg (by simp [hs])
  rw [perform_start ho hv, Turn.begin_eq, hl]
  exact Turn.placings_launch hf

theorem Agrees.perform_start (h : p.Agrees q) (hp : p.Stocked ∧ p.Tallied)
    (hq : q.Stocked ∧ q.Tallied) (hs : p.segments.isEmpty = false)
    (hok : (p.perform (.start speed)).result = .ok ())
    (hok' : (q.perform (.start speed)).result = .ok ()) :
    (p.perform (.start speed)).outcome = (q.perform (.start speed)).outcome ∧
      (p.perform (.start speed)).player.Twins (q.perform (.start speed)).player := by
  obtain ⟨hsp, htp⟩ := hp
  obtain ⟨hsq, htq⟩ := hq
  have hseg : p.segments = q.segments := by rw [hsp.segments, hsq.segments, h.operations]
  obtain ⟨ho, first, remover, hf, hpp, hpl⟩ := start_loaded hs hok
  obtain ⟨ho', first', remover', hf', hpp', hpl'⟩ := start_loaded (hseg ▸ hs) hok'
  obtain rfl : first = first' := Option.some.inj (hf.symm.trans (hseg ▸ hf'))
  have ht : (p.perform (.start speed)).player.Twins (q.perform (.start speed)).player := by
    constructor
    · rw [hpp, hpp']
      exact h.bare_started hsp hsq hs (ho.trans ho'.symm)
    · rw [(htp.counted _).hook, (htq.counted _).hook]
      exact h.hook
    · exact htp.change (changes_perform p _)
    · exact htq.change (changes_perform q _)
  -- The start counts anew, and its only placing is at the first segment.
  have hcuts : cuts (p.perform (.start speed)).signals = cuts (q.perform (.start speed)).signals := by
    rw [htp.cuts_perform, htq.cuts_perform, h.hook, hpl, hpl', base, base, rewinds, rewinds, hok, hok']
    rfl
  refine ⟨?_, ht⟩
  rw [Reply.outcome, Reply.outcome, snapshot_of_bare ht.bare, hok, hok', hcuts]

/-- A start that is accepted, and all calls after it, show, answer and let the remover do the same,
whatever was before. -/
theorem start_forgets {config config' : Config α} {before before' calls : List (Call α σ)}
    (hp : (new config).after before = p) (hq : (new config').after before' = q) (h : p.Agrees q)
    (hs : p.segments.isEmpty = false) (hok : (p.perform (.start speed)).result = .ok ())
    (hok' : (q.perform (.start speed)).result = .ok ()) :
    (p.replies (.start speed :: calls)).map Reply.outcome =
      (q.replies (.start speed :: calls)).map Reply.outcome := by
  subst hp
  subst hq
  obtain ⟨ho, ht⟩ := h.perform_start
    ⟨stocked_after config before, tallied_after config before⟩
    ⟨stocked_after config' before', tallied_after config' before'⟩ hs hok hok'
  exact congrArg₂ List.cons ho ht.replies

/-- A player that comes to the same corner another way and stops to wait on it. -/
noncomputable def waiting : Player ℝ (List (Point ℝ)) :=
  (new ⟨1000000000, 1, 3⟩).after [.load [corner], .setRemover [] 1, .start 5, .pause]

theorem waiting_eq :
    waiting =
      { cutting with
        observers := [], speed := 5, status := .paused, marker := some ⟨0, 0, 0⟩, updates := 1
        remover := some [⟨0, 0, 0⟩] } := by
  have hs : { cutting with observers := [] }.perform (.start 5) = ⟨_, _, _⟩ :=
    perform_start rfl (Scalar.isPositive_iff.2 (by norm_num))
  calc
    waiting = (({ cutting with observers := [] }.perform (.start 5)).player.perform .pause).player := rfl
    _ = _ := by
      rw [hs]
      rfl

/-- One player starts at rest, the other while it waits for playback to be taken up again. -/
theorem start_forgets_waiting :
    cutting.Agrees waiting ∧ cutting.marker = none ∧ waiting.marker = some ⟨0, 0, 0⟩ ∧
      (cutting.replies [.start 2, .timer, .stop]).map Reply.outcome =
        (waiting.replies [.start 2, .timer, .stop]).map Reply.outcome := by
  have ha : cutting.Agrees waiting := by
    rw [waiting_eq]
    constructor <;> rfl
  have hok : (cutting.perform (.start 2)).result = .ok () :=
    congrArg Reply.result start_cutting
  have hok' : (waiting.perform (.start 2)).result = .ok () := by
    rw [waiting_eq, perform_start rfl (Scalar.isPositive_iff.2 two_pos)]
    rfl
  have hm : waiting.marker = some ⟨0, 0, 0⟩ := by rw [waiting_eq]
  exact ⟨ha, rfl, hm, start_forgets rfl rfl ha rfl hok hok'⟩

end Player

end Toolpath.Playback
