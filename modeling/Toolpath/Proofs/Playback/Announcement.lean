import Toolpath.Proofs.Playback.Current
import Toolpath.Proofs.Playback.Itinerary

/-!
# What an observer takes for the current operation

Every change of the current operation is announced but for one: loading makes the first operation
the current one and tells nobody. So an observer that follows the announcements has the operation
right as long as nothing is loaded (`announced_heard`). A loading it is not aware of leaves it with
the operation it knew, until the next announcement.
-/

namespace Toolpath.Playback

/-- The operation that the last of some events announces, or a given one if none of them does. -/
def announced {α : Type} (known : Nat) (events : List (Event α)) : Nat :=
  ((crossings events).getLast?.map Prod.fst).getD known

section Announced

variable {α : Type} {known : Nat} {events more : List (Event α)}

theorem announced_of_nil (h : crossings events = []) : announced known events = known := by
  rw [announced, h]
  rfl

/-- What was known before an announcement does not matter after it. -/
theorem announced_of_ne_nil (h : crossings events ≠ []) (known known' : Nat) :
    announced known events = announced known' events := by
  rw [announced, announced, List.getLast?_eq_some_getLast h]
  rfl

theorem announced_append :
    announced known (events ++ more) = announced (announced known events) more := by
  by_cases h : crossings more = []
  · rw [announced_of_nil h, announced, crossings_append, h, List.append_nil]
    rfl
  · rw [announced, crossings_append, List.getLast?_append_of_ne_nil _ h]
    exact announced_of_ne_nil h _ _

end Announced

namespace Turn

variable {α σ : Type} {t : Turn α σ} {known : Nat}

/-- Who knew an operation before and was told of everything since knows the current one. -/
def Known (known : Nat) (t : Turn α σ) : Prop :=
  announced known (events t.signals) = t.player.operation

theorem crossings_hide (t : Turn α σ) :
    crossings (events t.hide.signals) = crossings (events t.signals) := by
  refine hide_cases (P := fun t' => crossings (events t'.signals) = crossings (events t.signals))
    rfl fun _ => ?_
  rw [events_tell, crossings_append]
  exact List.append_nil _

section

variable [Analytic α]

theorem crossings_stop (t : Turn α σ) :
    crossings (events t.stop.signals) = crossings (events t.signals) := by
  rw [stop, crossings_setStatus, crossings_hide]
  rfl

theorem crossings_load (t : Turn α σ) (operations : List (Operation α)) :
    crossings (events (t.load operations).signals) = crossings (events t.signals) :=
  crossings_stop t

end

namespace Known

/-- Nothing is announced and the operation stays. -/
theorem still {t' : Turn α σ} (h : t.Known known)
    (hc : crossings (events t'.signals) = crossings (events t.signals))
    (ho : t'.player.operation = t.player.operation) : t'.Known known := by
  rw [Known, announced, hc, ho]
  exact h

theorem enter {operation : Nat} (h : t.Known known) : (t.enter operation).Known known := by
  rw [Known, player_enter, announced, crossings_enter]
  split
  case isTrue ho =>
    rw [List.append_nil, ← ho]
    exact h
  case isFalse =>
    rw [List.getLast?_concat]
    rfl

theorem setStatus {status : Status} (h : t.Known known) : (t.setStatus status).Known known :=
  h.still (crossings_setStatus t status) (by rw [player_setStatus])

theorem place [Remover σ α] {position : Point α} (h : t.Known known) :
    (t.place position).Known known := by
  obtain ⟨remover, hp⟩ := player_place t position
  exact h.still (crossings_place t position) (by rw [hp])

theorem stable [Remover σ α] (known : Nat) : Stable (Known (α := α) (σ := σ) known) where
  notice _ notice h := h.still (congrArg crossings (events_push_notice notice)) rfl
  setStatus _ _ h := h.setStatus
  enter _ _ h := h.enter
  place _ _ h := h.place
  cursor _ _ _ _ h := h

variable [Analytic α]

theorem stop (h : t.Known known) : t.stop.Known known :=
  h.still (crossings_stop t) (by rw [player_stop]; rfl)

/-- Loading announces nothing, so one has to know the first operation before. -/
theorem load (h : t.Known known) (ho : t.player.operation = 0) (operations : List (Operation α)) :
    (t.load operations).Known known :=
  h.still (crossings_load t operations) (by rw [player_load, ho]; rfl)

theorem begin [Remover σ α] {speed : α} (h : t.Known known)
    (ho : t.player.segments.isEmpty = true → t.player.operation = 0) :
    (t.begin speed).1.Known known := by
  have hl : t.loadIfEmpty.Known known := by
    rw [loadIfEmpty]
    split
    case isTrue he =>
      split
      case h_1 l _ =>
        have ha : Known known { t with
            player := { t.player with loader := some { l with calls := l.calls + 1 } } } := h
        exact ha.load (ho he) _
      case h_2 => exact h
    case isFalse => exact h
  rw [begin_eq, launch]
  split
  · exact (stable known).notice _ _ hl
  · have hr : Known known
        (rewind { t.loadIfEmpty with player := { t.loadIfEmpty.player with speed } }) := hl
    exact (stable known).notice _ _ hr.enter.place.setStatus

end Known

end Turn

/-- The call loads operations, whatever is loaded already. -/
def Call.Loads {α σ : Type} : Call α σ → Prop
  | .load _ => True
  | _ => False

namespace Player

variable {α σ : Type} [Analytic α] {p p' : Player α σ} {call : Call α σ} {observer : Nat}
  {calls : List (Call α σ)}

/-- With nothing to play the first operation is the current one, as long as the player is open. -/
def Grounded (p : Player α σ) : Prop :=
  p.closed = false → p.segments.isEmpty = true → p.operation = 0

theorem Grounded.supplied (h : p.Grounded) : p.supplied.Grounded := by
  rcases p.supplied_eq with hp | ⟨loader, operations, hp⟩
  · rwa [hp]
  · rw [hp]
    intro _ _
    rfl

theorem Ticked.grounded (ht : p.Ticked p') (hs : p.segments.isEmpty = false) : p'.Grounded := by
  intro _ he
  cases ht <;> exact absurd (hs.symm.trans he) (by decide)

theorem Grounded.change (h : p.Grounded) (hp : p.Lawful) (hc : p.Changes call p') :
    p'.Grounded := by
  cases hc with
  | load operations => exact fun _ _ => rfl
  | unloaded => exact h.supplied
  | start ho hv hs remover =>
    intro _ he
    have hi := (Array.getElem?_eq_some_iff.1 hs).1
    exact absurd (of_decide_eq_true he) (Nat.ne_of_gt hi)
  | timer hr ho ht =>
    obtain ⟨-, hi, -⟩ := hp.playing (by simp [hr])
    exact ht.grounded (decide_eq_false (Nat.ne_of_gt (Nat.zero_lt_of_lt hi)))
  | step ho hs ht => exact ht.grounded hs
  | close => exact fun ho => by cases ho
  | _ => exact h

variable [Remover σ α]

/-- A call announces what it makes the current operation, unless it loads. -/
theorem known_perform (h : p.Grounded) (hl : ¬call.Loads) :
    announced p.operation (events (p.perform call).signals) =
      (p.perform call).player.operation := by
  have hp : Turn.Known p.operation { player := p } := rfl
  obtain ⟨t, result, ht, hreply⟩ := takes_perform p call
  rw [hreply]
  cases ht with
  | load => exact absurd trivial hl
  | start ho => exact hp.begin (h ho)
  | timer | step => exact (Turn.Known.stable _).tick hp
  | pause | resume => exact hp.setStatus
  | stop | close => exact hp.stop
  | _ => rfl

/-- A call that leaves an observer attached tells it of the operation, unless it loads. -/
theorem known_heard (h : p.Grounded) (ho : observer ∈ p.observers) (hl : ¬call.Loads) :
    announced p.operation ((p.perform call).heard observer) =
      (p.perform call).player.operation := by
  rw [heard_perform, if_pos ho]
  exact known_perform h hl

/-- As long as nothing is loaded, an observer that knew the operation knows it. -/
theorem announced_heard (hg : p.Grounded) (hp : p.Lawful) (ho : observer ∈ p.observers)
    (hc : ∀ call ∈ calls, call ≠ .close) (hl : ∀ call ∈ calls, ¬call.Loads) :
    announced p.operation (p.heard observer calls) = (p.after calls).operation := by
  induction calls generalizing p with
  | nil => rfl
  | cons call calls ih =>
    obtain ⟨hcall, hcalls⟩ := List.forall_mem_cons.1 hc
    obtain ⟨hload, hloads⟩ := List.forall_mem_cons.1 hl
    have hchange := changes_perform p call
    have ho' : observer ∈ (p.perform call).player.observers := by
      rw [hchange.observers_eq]
      exact Call.subset_attached hcall _ _ ho
    rw [heard_cons, announced_append, known_heard hg ho hload, after_cons]
    exact ih (hg.change hp hchange) (hp.change hchange) ho' hcalls hloads

/-- Loading tells an observer nothing of the operation. -/
theorem crossings_heard_load (p : Player α σ) (observer : Nat) (operations : List (Operation α)) :
    crossings ((p.perform (.load operations)).heard observer) = [] := by
  rw [heard_perform]
  split
  · exact Turn.crossings_load { player := p } operations
  · rfl

/-- After loading, what was known before decides until something is announced. -/
theorem announced_heard_load {known : Nat} {operations : List (Operation α)} (hp : p.Lawful)
    (ho : observer ∈ p.observers) (hc : ∀ call ∈ calls, call ≠ .close)
    (hl : ∀ call ∈ calls, ¬call.Loads) :
    announced known (p.heard observer (.load operations :: calls)) =
        (p.after (.load operations :: calls)).operation ↔
      known = 0 ∨ crossings ((p.perform (.load operations)).player.heard observer calls) ≠ [] := by
  have hchange := changes_perform p (.load operations)
  have ho' : observer ∈ (p.perform (.load operations)).player.observers := by
    rwa [hchange.observers_eq]
  have hloaded : (p.perform (.load operations)).player = p.loaded operations := Turn.player_load ..
  have hfirst : (p.perform (.load operations)).player.operation = 0 := by
    rw [hloaded]
    rfl
  have hrun := announced_heard (fun _ _ => hfirst) (hp.change hchange) ho' hc hl
  rw [hfirst] at hrun
  rw [heard_cons, announced_append, announced_of_nil (crossings_heard_load p observer operations),
    after_cons, ← hrun]
  by_cases hn : crossings ((p.perform (.load operations)).player.heard observer calls) = []
  · rw [announced_of_nil hn, announced_of_nil hn]
    simp [hn]
  · simp [hn, announced_of_ne_nil hn known 0]

theorem grounded_after (config : Config α) (calls : List (Call α σ)) :
    ((new config : Player α σ).after calls).Grounded ∧
      ((new config : Player α σ).after calls).Lawful := by
  refine after_induct (P := fun p => p.Grounded ∧ p.Lawful) (fun p call p' h hc => ?_) ?_ calls
  · exact ⟨h.1.change h.2 hc, h.2.change hc⟩
  · exact ⟨fun _ _ => rfl, (resting_new config).lawful⟩

/-- Nothing but closing detaches an observer from a player. -/
theorem mem_observers_after (ho : observer ∈ p.observers) (hc : ∀ call ∈ calls, call ≠ .close) :
    observer ∈ (p.after calls).observers := by
  induction calls generalizing p with
  | nil => exact ho
  | cons call calls ih =>
    obtain ⟨hcall, hcalls⟩ := List.forall_mem_cons.1 hc
    refine ih ?_ hcalls
    rw [(changes_perform p call).observers_eq]
    exact Call.subset_attached hcall _ _ ho

/-- As long as nothing is loaded, an observer that was attached from the first knows the current
operation from what is announced to it. After loading it does if the last operation announced to it
was the first one, or none, or if something has been announced since; otherwise it goes on taking an
operation for the current one that was so before the loading. -/
theorem operation_heard (config : Config α) (observer : Nat) (calls : List (Call α σ))
    (hc : ∀ call ∈ calls, call ≠ .close) :
    let p := ((new config : Player α σ).perform (.addObserver observer)).player
    let known := fun calls => announced 0 (p.heard observer calls)
    ((∀ call ∈ calls, ¬call.Loads) → known calls = (p.after calls).operation) ∧
      ∀ before operations later, calls = before ++ .load operations :: later →
        (∀ call ∈ later, ¬call.Loads) →
          (known calls = (p.after calls).operation ↔
            known before = 0 ∨
              crossings (((p.after before).perform (.load operations)).player.heard
                observer later) ≠ []) := by
  intro p known
  have hp : observer ∈ p.observers := List.mem_singleton_self observer
  have hafter : ∀ calls, (p.after calls).Grounded ∧ (p.after calls).Lawful := fun calls =>
    grounded_after config (.addObserver observer :: calls)
  constructor
  · intro hl
    exact announced_heard (hafter []).1 (hafter []).2 hp hc hl
  · rintro before operations later rfl hl
    obtain ⟨hbefore, hlater⟩ := List.forall_mem_append.1 hc
    dsimp only [known]
    rw [heard_append, announced_append, after_append]
    exact announced_heard_load (hafter before).2 (mem_observers_after hp hbefore)
      (List.forall_mem_cons.1 hlater).2 hl

/-- Loading while the second operation is the current one goes unnoticed. -/
theorem announced_ne_operation_reloaded :
    let p := ((new ⟨1000000000, 2, 0⟩ : Player Float (List (Point Float))).perform
      (.addObserver 7)).player
    let calls := [.load stretches, .step, .load stretches]
    announced 0 (p.heard 7 calls) ≠ (p.after calls).operation := by
  decide +kernel

/-- The observer is wrong after the second loading, and right again when the second operation has
been entered once more and announced. -/
theorem operation_heard_stretches :
    let p := ((new ⟨1000000000, 2, 0⟩ : Player Float (List (Point Float))).perform
      (.addObserver 7)).player
    let calls := [.load stretches, .step, .load stretches, .start 3, .timer]
    (∀ call ∈ calls, call ≠ .close) ∧
      announced 0 (p.heard 7 calls) = (p.after calls).operation := by
  intro p calls
  have hc : ∀ call ∈ calls, call ≠ .close := by
    intro call h
    simp only [calls, List.mem_cons, List.not_mem_nil, or_false] at h
    rcases h with rfl | rfl | rfl | rfl | rfl <;> exact fun h => by cases h
  have hl : ∀ call ∈ ([.start 3, .timer] : List (Call Float (List (Point Float)))),
      ¬call.Loads := by
    intro call h
    simp only [List.mem_cons, List.not_mem_nil, or_false] at h
    rcases h with rfl | rfl <;> exact id
  have hknown := (operation_heard ⟨1000000000, 2, 0⟩ 7 calls hc).2 [.load stretches, .step] stretches
    [.start 3, .timer] rfl hl
  exact ⟨hc, hknown.2 (.inr (by decide +kernel))⟩

end Player

end Toolpath.Playback
