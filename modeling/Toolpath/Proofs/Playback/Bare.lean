import Toolpath.Proofs.Playback.Cutting
import Toolpath.Proofs.Playback.Distance
import Toolpath.Proofs.Playback.View

/-!
# Playback without its remover

Playback does not hang on the remover of a player, on how often that is called or on what it
answers. Laid bare of it (`Player.bare`), and of the observers and of how often the loader was asked
before, a player does the same: every part of a call commutes with laying bare, and so does every call
(`perform_bare`). Two runs that differ in nothing else therefore look the same from outside.
-/

namespace Toolpath.Playback

/-! ## Laying bare -/

section Bare

variable {α σ : Type}

/-- The removers of a player that has none. -/
inductive NoRemover (α : Type) : Type

instance noRemover : Remover (NoRemover α) α where
  removeAt remover _ := nomatch remover

/-- What a loader will supply, from now on. -/
def Loader.coming (l : Loader α) (n : Nat) : List (Operation α) := l.supply (l.calls + n)

/-- A loader that supplies the same and was not asked yet. -/
def Loader.fresh (l : Loader α) : Loader α := ⟨l.coming, 0⟩

/-- A loader that was asked once more. -/
def Loader.asked (l : Loader α) : Loader α := { l with calls := l.calls + 1 }

/-- The player without its remover and its observers. -/
def Player.bare (p : Player α σ) : Player α (NoRemover α) :=
  { p with
    config := { p.config with removalInterval := 0 }
    loader := p.loader.map Loader.fresh, remover := none, observers := [] }

/-- A signal that does not come from the remover, to nobody. -/
def Signal.bare? : Signal α → Option (Signal α)
  | .event m => some (.event ⟨[], m.event⟩)
  | .cut _ => none
  | .notice (.removalFailed _ _) => none
  | .notice n => some (.notice n)

def Turn.bare (t : Turn α σ) : Turn α (NoRemover α) :=
  ⟨t.player.bare, t.signals.filterMap Signal.bare?⟩

def Reply.bare (r : Reply α σ) : Reply α (NoRemover α) :=
  ⟨r.player.bare, r.signals.filterMap Signal.bare?, r.result⟩

/-- A call, but what is done about the remover is to take it away. -/
def Call.bare : Call α σ → Call α (NoRemover α)
  | .load operations => .load operations
  | .setLoader loader => .setLoader loader
  | .addObserver name => .addObserver name
  | .setRemover _ _ | .clearRemover => .clearRemover
  | .start speed => .start speed
  | .timer => .timer
  | .step => .step
  | .pause => .pause
  | .resume => .resume
  | .stop => .stop
  | .setSpeed speed => .setSpeed speed
  | .close => .close

theorem Loader.fresh_fresh (l : Loader α) : l.fresh.fresh = l.fresh := by
  have h : l.fresh.coming = l.coming := funext fun n => congrArg l.coming (Nat.zero_add n)
  rw [fresh, h]
  rfl

theorem Loader.fresh_asked (l : Loader α) : l.fresh.asked.fresh = l.asked.fresh := by
  have h : l.fresh.asked.coming = l.asked.coming := funext fun n =>
    congrArg l.supply (Nat.add_assoc l.calls 1 n).symm
  rw [fresh, h]
  rfl

theorem Player.bare_bare (p : Player α σ) : p.bare.bare = p.bare := by
  simp [bare, Function.comp_def, Loader.fresh_fresh]

theorem filterMap_bare_bare (signals : Array (Signal α)) :
    (signals.filterMap Signal.bare?).filterMap Signal.bare? = signals.filterMap Signal.bare? := by
  rw [Array.filterMap_filterMap]
  refine congrArg (fun f => signals.filterMap f) (funext fun s => ?_)
  cases s with
  | event => rfl
  | cut => rfl
  | notice notice => cases notice <;> rfl

theorem Turn.bare_bare (t : Turn α σ) : t.bare.bare = t.bare := by
  rw [bare, bare, Player.bare_bare, filterMap_bare_bare]

@[simp] theorem events_filterMap_bare (signals : Array (Signal α)) :
    events (signals.filterMap Signal.bare?) = events signals := by
  rw [events, events, Array.toList_filterMap, List.filterMap_filterMap]
  refine List.filterMap_congr fun s _ => ?_
  cases s with
  | event => rfl
  | cut => rfl
  | notice notice => cases notice <;> rfl

end Bare

namespace Turn

variable {α σ : Type} {t : Turn α σ}

theorem bare_send_of_some {signal signal' : Signal α} (h : signal.bare? = some signal') :
    (t.send signal).bare = t.bare.send signal' := by
  simp [bare, send, h]

theorem bare_send_of_none {signal : Signal α} (h : signal.bare? = none) :
    (t.send signal).bare = t.bare := by
  simp [bare, send, h]

/-! ## Parts of a call -/

theorem bare_tell (t : Turn α σ) (event : Event α) : (t.tell event).bare = t.bare.tell event :=
  bare_send_of_some rfl

theorem bare_setStatus (t : Turn α σ) (status : Status) :
    (t.setStatus status).bare = t.bare.setStatus status := by
  rw [setStatus]
  split
  case isTrue h => exact (if_pos h).symm
  case isFalse h => exact (bare_tell _ _).trans (if_neg h).symm

theorem bare_hide (t : Turn α σ) : t.hide.bare = t.bare.hide := by
  have hm : t.bare.player.marker = t.player.marker := rfl
  rw [hide, hide, hm]
  split
  case h_1 => rfl
  case h_2 => exact bare_tell _ _

theorem bare_enter (t : Turn α σ) (operation : Nat) :
    (t.enter operation).bare = t.bare.enter operation := by
  rw [enter]
  split
  case isTrue h => exact (if_pos h).symm
  case isFalse h => exact (bare_tell _ _).trans (if_neg h).symm

section Remover

variable [Remover σ α]

/-- What the remover does is not seen once it is gone. -/
theorem bare_remove (t : Turn α σ) (position : Point α) : (t.remove position).bare = t.bare :=
  remove_cases (P := fun t' => t'.bare = t.bare) (fun _ => rfl)
    (fun _ _ => bare_send_of_none rfl) fun _ _ h => (bare_send_of_none rfl).trans h

theorem bare_place (t : Turn α σ) (position : Point α) :
    (t.place position).bare = t.bare.place position := by
  have hb : t.bare.place position = t.bare.placed position :=
    (place_eq _ _).trans (if_pos (.inl rfl))
  have hp : (t.placed position).bare = t.bare.place position := (bare_tell _ _).trans hb.symm
  rw [place_eq]
  split
  · exact hp
  · exact (bare_remove _ _).trans hp

end Remover

section Cursor

variable [Analytic α]

theorem bare_stop (t : Turn α σ) : t.stop.bare = t.bare.stop := by
  rw [stop, stop, bare_setStatus, bare_hide]
  rfl

theorem bare_finish (t : Turn α σ) : t.finish.bare = t.bare.finish := by
  rw [finish, finish, bare_setStatus]
  refine congrArg (setStatus · .stopped) ?_
  dsimp only
  split
  case isTrue h => exact (if_pos h).symm
  case isFalse h => exact (bare_send_of_some rfl).trans (if_neg h).symm

theorem bare_load (t : Turn α σ) (operations : List (Operation α)) :
    (t.load operations).bare = t.bare.load operations := by
  rw [load, load, ← bare_stop]
  rfl

theorem bare_skip (t : Turn α σ) (s : Segment α) : (t.skip s).bare = t.bare.skip s := by
  rw [skip, skip, ← bare_enter]
  rfl

theorem bare_pass (t : Turn α σ) (s : Segment α) : (t.pass s).bare = t.bare.pass s := by
  rw [pass, pass, ← bare_enter]
  rfl

/-- A loader is asked for what it supplies next, however often it was asked before. -/
theorem bare_loadIfEmpty (t : Turn α σ) : t.loadIfEmpty.bare = t.bare.loadIfEmpty.bare := by
  have hl : t.bare.player.loader = t.player.loader.map Loader.fresh := rfl
  have hs : t.bare.player.segments = t.player.segments := rfl
  rw [loadIfEmpty, loadIfEmpty, hl, hs]
  split
  · cases t.player.loader with
    | none => exact (bare_bare t).symm
    | some l =>
      dsimp only [Option.map]
      rw [bare_load, bare_load]
      have hp : Player.bare { t.player with loader := some l.asked } =
          Player.bare { t.bare.player with loader := some l.fresh.asked } :=
        congrArg (fun l => { t.player.bare with loader := some l }) l.fresh_asked.symm
      exact congrArg (load · _) (congrArg₂ mk hp (filterMap_bare_bare t.signals).symm)
  · exact (bare_bare t).symm

variable [Remover σ α]

theorem bare_runOut (t : Turn α σ) (snapped : Option (Point α)) :
    (t.runOut snapped).bare = t.bare.runOut snapped := by
  cases snapped with
  | none => exact bare_finish t
  | some position => rw [runOut, runOut, bare_finish, bare_place]

theorem bare_proceed (t : Turn α σ) (s : Segment α) (distance : α) :
    (t.proceed s distance).bare = t.bare.proceed s distance := by
  rw [proceed, proceed, bare_place, ← bare_enter]
  rfl

theorem advance_zero (t : Turn α σ) (distance : α) (snapped : Option (Point α)) :
    t.advance 0 distance snapped = t.runOut snapped := by
  rw [advance.eq_def]
  cases snapped <;> rfl

theorem bare_advance (t : Turn α σ) (left : Nat) (distance : α) (snapped : Option (Point α)) :
    (t.advance left distance snapped).bare = t.bare.advance left distance snapped := by
  induction left generalizing t distance snapped with
  | zero => rw [advance_zero, advance_zero, bare_runOut]
  | succ left ih =>
    cases hs : t.player.segments[t.player.index]? with
    | none => rw [advance_runOut hs, advance_runOut (t := t.bare) hs, bare_runOut]
    | some s =>
      cases hn : s.isNegligible with
      | true => rw [advance_skip hs hn, advance_skip (t := t.bare) hs hn, ih, bare_skip]
      | false =>
        by_cases hd : distance < s.length - t.player.along
        · rw [advance_proceed hs hn hd, advance_proceed (t := t.bare) hs hn hd, bare_proceed]
        · rw [advance_pass hs hn hd, advance_pass (t := t.bare) hs hn hd, ih, bare_pass]
          rfl

theorem bare_tick (t : Turn α σ) : t.tick.bare = t.bare.tick := bare_advance t _ _ none

theorem bare_launch (t : Turn α σ) (speed : α) :
    ((t.launch speed).1.bare, (t.launch speed).2) = t.bare.launch speed := by
  have hs : t.bare.player.segments = t.player.segments := rfl
  rw [launch, launch, hs]
  split
  case h_1 => exact congrArg (·, _) (bare_send_of_some rfl)
  case h_2 first _ =>
    have hb : (((rewind { t with player := { t.player with speed } }).enter
          first.tag.operation).place first.start |>.setStatus .running).bare =
        (((rewind { t.bare with player := { t.bare.player with speed } }).enter
          first.tag.operation).place first.start).setStatus .running := by
      rw [bare_setStatus, bare_place, bare_enter]
      rfl
    dsimp only
    rw [← hb]
    exact congrArg (·, _) (bare_send_of_some rfl)

end Cursor

end Turn

/-! ## A call -/

section Calls

variable {α σ τ : Type}

theorem Player.bare_turn_bare (p : Player α σ) :
    Turn.bare { player := p.bare } = Turn.bare { player := p } := congrArg₂ Turn.mk p.bare_bare rfl

theorem Turn.bare_accept {t : Turn α σ} {u : Turn α τ} (h : t.bare = u.bare) :
    t.accept.bare = u.accept.bare := congrArg Turn.accept h

theorem Player.bare_refuse (p : Player α σ) (failure : Failure α) :
    (p.refuse failure).bare = (p.bare.refuse failure).bare :=
  congrArg (Reply.mk · #[] (.error failure)) p.bare_bare.symm

theorem Reply.bare_ite {c : Prop} [Decidable c] {r s : Reply α σ} {r' s' : Reply α τ}
    (hr : r.bare = r'.bare) (hs : s.bare = s'.bare) :
    (if c then r else s).bare = (if c then r' else s').bare := by
  split
  · exact hr
  · exact hs

end Calls

namespace Player

variable {α σ : Type} [Analytic α] [Remover σ α]

theorem bare_begin (p : Player α σ) (speed : α) :
    ((Turn.begin { player := p } speed).1.bare, (Turn.begin { player := p } speed).2) =
      ((Turn.begin { player := p.bare } speed).1.bare,
        (Turn.begin { player := p.bare } speed).2) := by
  have hl : (Turn.loadIfEmpty { player := p }).bare =
      (Turn.loadIfEmpty { player := p.bare }).bare := by
    rw [Turn.bare_loadIfEmpty, ← bare_turn_bare, ← Turn.bare_loadIfEmpty]
  rw [Turn.begin_eq, Turn.begin_eq, Turn.bare_launch, Turn.bare_launch, hl]

/-- Every call does the same to a player that is laid bare. -/
theorem perform_bare (p : Player α σ) (call : Call α σ) :
    (p.perform call).bare = (p.bare.perform call.bare).bare := by
  have ht := p.bare_turn_bare
  have hself := Turn.bare_accept ht.symm
  have htick : (Turn.tick { player := p }).accept.bare =
      (Turn.tick { player := p.bare }).accept.bare := by
    refine Turn.bare_accept ?_
    rw [Turn.bare_tick, Turn.bare_tick, ht]
  have hstatus (status : Status) : (Turn.setStatus { player := p } status).accept.bare =
      (Turn.setStatus { player := p.bare } status).accept.bare := by
    refine Turn.bare_accept ?_
    rw [Turn.bare_setStatus, Turn.bare_setStatus, ht]
  have hstop : Turn.bare (Turn.stop { player := p }) =
      Turn.bare (Turn.stop { player := p.bare }) := by
    rw [Turn.bare_stop, Turn.bare_stop, ht]
  cases call with
  | load operations =>
    refine Turn.bare_accept ?_
    rw [Turn.bare_load, Turn.bare_load, ht]
  | setLoader loader => rfl
  | addObserver name => exact hself
  | setRemover remover interval => exact hself
  | clearRemover => exact hself
  | start speed =>
    refine Reply.bare_ite (p.bare_refuse _) (Reply.bare_ite (p.bare_refuse _) ?_)
    exact congrArg (fun b => Reply.mk b.1.player b.1.signals b.2) (p.bare_begin speed)
  | timer => exact Reply.bare_ite htick hself
  | step => exact Reply.bare_ite (p.bare_refuse _) (Reply.bare_ite (p.bare_refuse _) htick)
  | pause => exact Reply.bare_ite (hstatus _) hself
  | resume => exact Reply.bare_ite (p.bare_refuse _) (Reply.bare_ite (hstatus _) hself)
  | stop => exact Turn.bare_accept hstop
  | setSpeed speed =>
    refine Reply.bare_ite (Turn.bare_accept ?_) (p.bare_refuse _)
    exact congrArg (fun q : Player α (NoRemover α) => Turn.mk { q with speed } #[]) p.bare_bare.symm
  | close =>
    refine Reply.bare_ite hself (Turn.bare_accept ?_)
    exact congrArg (fun t => { t with player := t.player.release }) hstop

end Player

/-! ## A run -/

theorem Call.attached_bare {α σ : Type} (closed : Bool) (observers : List Nat) (call : Call α σ) :
    call.bare.attached closed observers = call.attached closed observers := by
  cases call <;> rfl

theorem Player.snapshot_of_bare {α σ τ : Type} [Analytic α] {p : Player α σ} {q : Player α τ}
    (h : p.bare = q.bare) : p.snapshot = q.snapshot :=
  congrArg (fun b : Player α (NoRemover α) => b.snapshot) h

theorem Player.closed_of_bare {α σ τ : Type} {p : Player α σ} {q : Player α τ}
    (h : p.bare = q.bare) : p.closed = q.closed :=
  congrArg (fun b : Player α (NoRemover α) => b.closed) h

/-- What is seen of a call from outside, with an observer. -/
def Reply.seen {α σ : Type} [Analytic α] (observer : Nat) (r : Reply α σ) :
    Snapshot α × Except (Failure α) Unit × List (Event α) :=
  (r.player.snapshot, r.result, r.heard observer)

namespace Player

variable {α σ τ : Type} [Analytic α] [Remover σ α] [Remover τ α] {p : Player α σ} {q : Player α τ}
  {call : Call α σ} {other : Call α τ}

theorem bare_perform (hb : p.bare = q.bare) (hc : call.bare = other.bare) :
    (p.perform call).bare = (q.perform other).bare := by
  rw [perform_bare, hb, hc, ← perform_bare]

theorem bare_player_perform (hb : p.bare = q.bare) (hc : call.bare = other.bare) :
    (p.perform call).player.bare = (q.perform other).player.bare :=
  congrArg (fun r : Reply α (NoRemover α) => r.player) (bare_perform hb hc)

theorem result_perform (hb : p.bare = q.bare) (hc : call.bare = other.bare) :
    (p.perform call).result = (q.perform other).result :=
  congrArg (fun r : Reply α (NoRemover α) => r.result) (bare_perform hb hc)

theorem events_perform (hb : p.bare = q.bare) (hc : call.bare = other.bare) :
    events (p.perform call).signals = events (q.perform other).signals := by
  have h := congrArg (fun r => events r.signals) (bare_perform hb hc)
  rwa [Reply.bare, Reply.bare, events_filterMap_bare, events_filterMap_bare] at h

/-- Players that are the same but for their removers look the same through the same calls. -/
theorem seen_replies {calls : List (Call α σ)} {others : List (Call α τ)} (hb : p.bare = q.bare)
    (ho : p.observers = q.observers) (hc : calls.map Call.bare = others.map Call.bare)
    (observer : Nat) :
    (p.replies calls).map (Reply.seen observer) = (q.replies others).map (Reply.seen observer) := by
  induction calls generalizing p q others with
  | nil =>
    cases others with
    | nil => rfl
    | cons other others => cases hc
  | cons call calls ih =>
    cases others with
    | nil => cases hc
    | cons other others =>
      obtain ⟨hcall, hcalls⟩ := List.cons.inj hc
      have ho' : (p.perform call).player.observers = (q.perform other).player.observers := by
        rw [(changes_perform p call).observers_eq, (changes_perform q other).observers_eq, ho,
          closed_of_bare hb, ← Call.attached_bare, hcall, Call.attached_bare]
      have hseen : (p.perform call).seen observer = (q.perform other).seen observer := by
        rw [Reply.seen, Reply.seen, snapshot_of_bare (bare_player_perform hb hcall),
          result_perform hb hcall, heard_perform, heard_perform, events_perform hb hcall, ho]
      exact congrArg₂ List.cons hseen (ih (bare_player_perform hb hcall) ho' hcalls)

/-- The remover is called at just those placings of the marker at which that is due, and after them;
and whatever removers do and whether they are there or not, nothing else is seen from outside. -/
theorem removal_follows_marker (config : Config α) (calls : List (Call α σ)) :
    (∀ call : Call α σ,
      let p : Player α σ := (new config).after calls
      let k := p.base ((new config).ordinal 0 calls) call
      deeds (p.perform call).signals = p.hook.withCuts k (messages (p.perform call).signals)) ∧
    ∀ others : List (Call α τ), others.map Call.bare = calls.map Call.bare → ∀ observer,
      ((new config).replies others).map (Reply.seen observer) =
        ((new config).replies calls).map (Reply.seen observer) := by
  constructor
  · intro call p k
    have hk : p.updates = (new config : Player α σ).ordinal 0 calls :=
      (tallied_new config).updates_after
    have h := ((tallied_after config calls).counted call).called
    rwa [hk] at h
  · intro others hc observer
    have hb : (new config : Player α τ).bare = (new config : Player α σ).bare := rfl
    exact seen_replies hb rfl hc observer

/-- A remover that never takes anything away. -/
structure Jammed (α : Type) where

instance jammed {α : Type} : Remover (Jammed α) α where
  removeAt remover _ := (remover, .error (.removal "jammed"))

/-- A player over the corner with an observer and a remover that is called at every placing. -/
noncomputable def cutting : Player ℝ (List (Point ℝ)) :=
  (new ⟨1000000000, 1, 0⟩).after [.load [corner], .addObserver 7, .setRemover [] 1]

theorem start_cutting :
    cutting.perform (.start 2) =
      ⟨{ cutting with
          speed := 2, status := .running, marker := some ⟨0, 0, 0⟩, updates := 1
          remover := some [⟨0, 0, 0⟩] },
        #[.event ⟨[7], .moved ⟨0, 0, 0⟩ 0⟩, .cut ⟨0, 0, 0⟩, .event ⟨[7], .status .running⟩,
          .notice (.started 2 3)], .ok ()⟩ :=
  perform_start rfl (Scalar.isPositive_iff.2 two_pos)

/-- A remover that does its work and one that never does, called at every placing of the marker. -/
theorem removal_follows_marker_jammed :
    let config : Config ℝ := ⟨1000000000, 1, 0⟩
    let calls : List (Call ℝ (List (Point ℝ))) :=
      [.load [corner], .addObserver 7, .setRemover [] 1, .start 2]
    let others : List (Call ℝ (Jammed ℝ)) :=
      [.load [corner], .addObserver 7, .setRemover ⟨⟩ 1, .start 2]
    others.map Call.bare = calls.map Call.bare ∧
      ((new config).replies others).map (Reply.seen 7) =
        ((new config).replies calls).map (Reply.seen 7) ∧
      ((new config).replies calls).flatMap (fun r => deeds r.signals) =
        [.event ⟨[7], .moved ⟨0, 0, 0⟩ 0⟩, .cut ⟨0, 0, 0⟩, .event ⟨[7], .status .running⟩] := by
  intro config calls others
  have hc : others.map Call.bare = calls.map Call.bare := rfl
  refine ⟨hc, (removal_follows_marker config calls).2 others hc 7, ?_⟩
  calc
    ((new config).replies calls).flatMap (fun r => deeds r.signals)
      = deeds (cutting.perform (.start 2)).signals := List.append_nil _
    _ = [.event ⟨[7], .moved ⟨0, 0, 0⟩ 0⟩, .cut ⟨0, 0, 0⟩, .event ⟨[7], .status .running⟩] := by
      rw [start_cutting]
      rfl

end Player

end Toolpath.Playback
