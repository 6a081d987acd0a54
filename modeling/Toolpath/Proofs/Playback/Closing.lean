import Toolpath.Proofs.Playback.Current
import Toolpath.Proofs.Playback.Lifecycle
import Toolpath.Proofs.Playback.View

/-!
# After closing

A closed player can still be called, and some calls are accepted: operations, a loader, a remover
and observers may be given to it as before. Nothing comes of them. Whatever is called after closing,
in whatever order, the player stays at rest and sends nothing out, and the loader and the remover it
was given lie there as they were given (`Changes.left`, `silent_after_close`). Closing lets go of
all that the player held; what it is given afterwards it keeps, be it for nothing (`Held.change`).
-/

namespace Toolpath.Playback

namespace Call

variable {α σ : Type}

/-- The loader in place after a call that does not ask it. -/
def leaveLoader (held : Option (Loader α)) : Call α σ → Option (Loader α)
  | .setLoader loader => some loader
  | _ => held

/-- The remover in place after a call that does not let it work. -/
def leaveRemover (held : Option σ) : Call α σ → Option σ
  | .setRemover remover _ => some remover
  | .clearRemover => none
  | _ => held

/-- The operations in place after a call that does not ask the loader. -/
def leaveOperations (held : List (Operation α)) : Call α σ → List (Operation α)
  | .load operations => operations
  | _ => held

end Call

namespace Player

variable {α σ : Type} [Analytic α] {p p' : Player α σ} {call : Call α σ}

/-- A closed player neither asks its loader nor lets its remover work. The segments in it change only
when operations are loaded, and then they are those of the operations, from the first one on. -/
theorem Changes.left (hc : p.Changes call p') (hclosed : p.closed = true) :
    p'.closed = true ∧ p'.loader = call.leaveLoader p.loader ∧
      p'.remover = call.leaveRemover p.remover ∧
      p'.operations = call.leaveOperations p.operations ∧
      (p'.segments = (stamped 0 p'.operations).toArray ∧ p'.operation = 0 ∨
        p'.operations = p.operations ∧ p'.segments = p.segments ∧ p'.operation = p.operation) := by
  have hopen : p.closed ≠ false := by simp [hclosed]
  cases hc with
  | ignored hi =>
    cases call with
    | load operations => exact hi.elim
    | setLoader loader => exact hi.elim
    | setRemover remover interval => exact hi.elim
    | clearRemover => exact hi.elim
    | _ => exact ⟨hclosed, rfl, rfl, rfl, .inr ⟨rfl, rfl, rfl⟩⟩
  | load operations => exact ⟨hclosed, rfl, rfl, rfl, .inl ⟨rfl, rfl⟩⟩
  | unloaded ho => exact absurd ho hopen
  | start ho => exact absurd ho hopen
  | timer hr ho => exact absurd ho hopen
  | step ho => exact absurd ho hopen
  | resume ho => exact absurd ho hopen
  | close ho => exact absurd ho hopen
  | _ => exact ⟨hclosed, rfl, rfl, rfl, .inr ⟨rfl, rfl, rfl⟩⟩

theorem Lawful.resting (h : p.Lawful) (hs : p.Shut) : p.Resting := by
  obtain ⟨hstatus, hmarker, hindex, halong⟩ := h.shut hs.closed
  exact ⟨hindex, halong, hstatus, hmarker⟩

variable [Remover σ α]

namespace Shut

theorem perform_start (h : p.Shut) (speed : α) : p.perform (.start speed) = p.refuse .closed :=
  if_pos h.closed

theorem perform_step (h : p.Shut) : p.perform .step = p.refuse .closed := if_pos h.closed

theorem perform_resume (h : p.Shut) : p.perform .resume = p.refuse .closed := if_pos h.closed

theorem perform_close (h : p.Shut) : p.perform .close = ⟨p, #[], .ok ()⟩ := if_pos h.closed

/-- Calls to a player that is shut leave it so, and it keeps what they give to it as it is. -/
theorem after (h : p.Shut) (calls : List (Call α σ)) :
    (p.after calls).Shut ∧
      (p.after calls).loader = calls.foldl Call.leaveLoader p.loader ∧
      (p.after calls).remover = calls.foldl Call.leaveRemover p.remover := by
  induction calls generalizing p with
  | nil => exact ⟨h, rfl, rfl⟩
  | cons call calls ih =>
    obtain ⟨-, hl, hr, -⟩ := (changes_perform p call).left h.closed
    obtain ⟨hs, hl', hr'⟩ := ih (h.perform call).2
    rw [after_cons, List.foldl_cons, List.foldl_cons, ← hl, ← hr]
    exact ⟨hs, hl', hr'⟩

/-- Nobody hears anything of a player that is shut, be it that calls attach more observers. -/
theorem heard (h : p.Shut) (observer : Nat) (calls : List (Call α σ)) :
    p.heard observer calls = [] := by
  induction calls generalizing p with
  | nil => rfl
  | cons call calls ih =>
    obtain ⟨hs, h'⟩ := h.perform call
    rw [heard_cons, ih h', Reply.heard, hs]
    rfl

end Shut

/-- Whatever a player was doing, closing shuts it. -/
theorem Lawful.shut_close (h : p.Lawful) : (p.perform .close).player.Shut := by
  have hc := changes_perform p .close
  generalize (p.perform .close).player = p' at hc
  cases hc with
  | ignored hclosed =>
    obtain ⟨hs, hm, -, -⟩ := h.shut hclosed
    exact ⟨hclosed, hs, hm⟩
  | close => exact ⟨rfl, rfl, rfl⟩

/-- However a player was called until it was closed and is called since, it refuses to start, to
step and to resume, rests, sends nothing out to anybody, has neither asked its loader nor used its
remover, and is not changed by being closed once more. -/
theorem silent_after_close (config : Config α) (earlier later : List (Call α σ)) :
    let closed := (((new config).after earlier).perform .close).player
    let p := closed.after later
    (∀ speed, (p.perform (.start speed)).result = .error .closed) ∧
      (p.perform .step).result = .error .closed ∧
      (p.perform .resume).result = .error .closed ∧
      (∀ call, (p.perform call).signals = #[]) ∧
      (∀ observer, closed.heard observer later = []) ∧
      p.loader = later.foldl Call.leaveLoader closed.loader ∧
      p.remover = later.foldl Call.leaveRemover closed.remover ∧
      p.closed = true ∧ p.Resting ∧
      p.perform .close = ⟨p, #[], .ok ()⟩ := by
  intro closed p
  have hclosed : closed.Shut := (lawful_after config earlier).shut_close
  obtain ⟨hp, hl, hr⟩ := hclosed.after later
  have hlawful : p.Lawful := by
    have h := lawful_after config (earlier ++ .close :: later)
    rwa [after_append, after_cons] at h
  refine ⟨fun speed => ?_, ?_, ?_, fun call => (hp.perform call).1, fun o => hclosed.heard o later,
    hl, hr, hp.closed, hlawful.resting hp, hp.perform_close⟩
  · rw [hp.perform_start]
    rfl
  · rw [hp.perform_step]
    rfl
  · rw [hp.perform_resume]
    rfl

end Player

/-! ## What is held -/

/-- What a player was given by others and has to let go of. -/
structure Holdings (α σ : Type) where
  operations : List (Operation α) := []
  loader : Option (Loader α) := none
  remover : Option σ := none
  observers : List Nat := []

/-- What is held after a call that nothing else comes of. -/
def Call.give {α σ : Type} (held : Holdings α σ) (call : Call α σ) : Holdings α σ where
  operations := call.leaveOperations held.operations
  loader := call.leaveLoader held.loader
  remover := call.leaveRemover held.remover
  observers := call.attached true held.observers

namespace Player

variable {α σ : Type} [Analytic α] {p p' : Player α σ} {call : Call α σ} {held : Holdings α σ}

def holdings (p : Player α σ) : Holdings α σ := ⟨p.operations, p.loader, p.remover, p.observers⟩

/-- The player is closed and holds what is said, with the segments of the operations in it. -/
structure Held (held : Holdings α σ) (p : Player α σ) : Prop where
  closed : p.closed = true
  holdings : p.holdings = held
  segments : p.segments = (stamped 0 held.operations).toArray
  first : held.operations = [] ∨ p.operation = 0

/-- A closed player keeps what it is given. -/
theorem Held.change (h : p.Held held) (hc : p.Changes call p') : p'.Held (call.give held) := by
  obtain rfl := h.holdings
  obtain ⟨hclosed, hloader, hremover, hoperations, hsegments⟩ := hc.left h.closed
  have hobservers : p'.observers = call.attached true p.observers := h.closed ▸ hc.observers_eq
  have hgiven : p'.holdings = call.give p.holdings := by
    rw [Player.holdings, hloader, hremover, hobservers, hoperations]
    rfl
  have hsame : (call.give p.holdings).operations = p'.operations := hoperations.symm
  obtain ⟨hstamped, hfirst⟩ | ⟨hkept, hs, hf⟩ := hsegments
  · exact ⟨hclosed, hgiven, hsame ▸ hstamped, .inr hfirst⟩
  · refine ⟨hclosed, hgiven, ?_, ?_⟩
    · rw [hsame, hkept, hs]
      exact h.segments
    · rw [hsame, hkept, hf]
      exact h.first

variable [Remover σ α]

theorem Held.after (h : p.Held held) (calls : List (Call α σ)) :
    (p.after calls).Held (calls.foldl Call.give held) := by
  induction calls generalizing p held with
  | nil => exact h
  | cons call calls ih => exact ih (h.change (changes_perform p call))

theorem held_close (ho : p.closed = false) : (p.perform .close).player.Held {} := by
  have hc := changes_perform p .close
  generalize (p.perform .close).player = p' at hc
  cases hc with
  | ignored hclosed => exact absurd (ho.symm.trans hclosed) (by decide)
  | close => exact ⟨rfl, rfl, rfl, .inl rfl⟩

/-- Closing an open player leaves nothing in it. From then on it holds what it is given and nothing
else: the operations loaded last, with their segments, the loader and the remover set last, unless
that was cleared, and the observers. A renderer is shown as many segments, and the label of the
first operation. -/
theorem held_after_close (ho : p.closed = false) (calls : List (Call α σ)) :
    let q := (p.perform .close).player.after calls
    let held := calls.foldl Call.give {}
    q.holdings = held ∧ q.segments = (stamped 0 held.operations).toArray ∧
      q.snapshot.count = (stamped 0 held.operations).length ∧
      q.snapshot.label = held.operations.head?.map Operation.label ∧
      (q.holdings = {} ∧ q.segments = #[] ∧ q.snapshot.count = 0 ∧ q.snapshot.label = none ↔
        held = {}) := by
  intro q held
  have h : q.Held held := (held_close ho).after calls
  have hoperations : q.operations = held.operations := congrArg Holdings.operations h.holdings
  have hcount : q.snapshot.count = (stamped 0 held.operations).length := by
    rw [snapshot, h.segments]
    rfl
  have hlabel : q.snapshot.label = held.operations.head?.map Operation.label := by
    rw [snapshot, hoperations, List.head?_eq_getElem?]
    rcases h.first with hnone | hfirst
    · rw [hnone]
      rfl
    · rw [hfirst]
  refine ⟨h.holdings, h.segments, hcount, hlabel, ?_⟩
  rw [h.holdings, h.segments, hcount, hlabel]
  constructor
  · rintro ⟨hheld, -⟩
    exact hheld
  · intro hheld
    rw [hheld]
    exact ⟨rfl, rfl, rfl, rfl⟩

/-- A player that is closed takes segments in all the same. -/
theorem segments_ne_empty_closed :
    let p := ((new ⟨1000000000, 2, 0⟩ : Player Float (List (Point Float))).perform .close).player
    p.closed = true ∧ (p.after [.load stretches]).segments.size = 2 ∧
      (p.after [.load stretches]).snapshot.label = some "A" := by
  decide +kernel

/-- What was loaded before closing is gone, and what is given afterwards stays. -/
theorem held_after_close_stretches :
    let p := (new ⟨1000000000, 2, 0⟩ : Player Float (List (Point Float))).after
      [.load stretches, .addObserver 7, .setRemover [] 1, .start 2]
    let q := (p.perform .close).player.after
      [.setRemover [] 1, .load stretches, .addObserver 3, .clearRemover]
    p.closed = false ∧ p.observers = [7] ∧
      q.holdings = ⟨stretches, none, none, [3]⟩ ∧ q.snapshot.count = 2 := by
  intro p q
  have ho : p.closed = false := by decide +kernel
  obtain ⟨hheld, -, hcount, -⟩ := held_after_close ho
    [.setRemover [] 1, .load stretches, .addObserver 3, .clearRemover]
  exact ⟨ho, by decide +kernel, hheld, hcount⟩

end Player

end Toolpath.Playback
