import Courier.Completion
import Courier.Hub

/-!
# The customer view says no more than the journal

Whatever was submitted to the journal, a task is in one pile, it is shown as checked only if its result was
accepted, a confirmation by a human is shown as that, and so are the files of the accepted result
(`truthful_run`).
-/

namespace Courier.Hub

open Run
open Run.Accepts
open Text

section Views

variable [Platform] {events : List Event} {s : TaskState} {id : Str}

/-! ### The property -/

def Card.checked (c : Card) : Prop :=
  c.label = text "Checked by Courier" ∨ c.mark = some (text "check")

def Receipt.checked (r : Receipt) : Prop :=
  r.happened = text "Checked by Courier" ∨
    (text "Checked by Courier").isPrefixOf r.howKnown = true

def Occurs (type : EventType) (events : List Event) : Prop :=
  ∃ e ∈ events, e.type = type

def Distinct (events : List Event) : Prop :=
  ∀ e ∈ events, ∀ f ∈ events, e.type = .resultReady → f.type = .resultReady →
    e.resultId = f.resultId → e.dispatchId = f.dispatchId

def Approved (events : List Event) (e : Event) : Prop :=
  ∃ a ∈ events, a.type = .resultAccepted ∧ a.dispatchId = e.dispatchId ∧ a.resultId = e.resultId

def Continues (events : List Event) : Prop :=
  ∃ before start after, events = before ++ start :: after ∧ start.type = .taskStarted ∧
    Occurs .taskRetryScheduled before ∧ ¬ Occurs .taskRetryScheduled after ∧
    ¬ Occurs .taskBlocked after

structure Truthful (events : List Event) (s : TaskState) (c : Card) (r : Receipt) : Prop where
  card_eq : card s events = .ok c
  receipt_eq : receipt s events = .ok r
  pile : pileOf s = .ok c.pile
  /-- The card says that the result was checked when it was accepted and the task is complete. -/
  card_checked : c.checked ↔ Occurs .resultAccepted events ∧ Occurs .taskComplete events
  /-- The receipt says so when the result was accepted. -/
  receipt_checked : r.checked ↔ Occurs .resultAccepted events
  /-- What a human confirmed is shown as confirmed by the human, and not as checked. -/
  confirmed : ∀ e ∈ events, e.type = .effectConfirmed →
    c.label = text "Confirmed by " ++ displayActor (e.get (text "actor")).str? ∧
      ¬ c.checked ∧ ¬ r.checked
  /-- The files of the accepted report are marked, and no others if no two dispatches reported under one
  result id. -/
  evidence : ∃ marked : Event → Bool,
    r.evidence = ((events.filter fun e => e.type = .resultReady).flatMap fun e =>
      (artifactNames e).map fun name => ⟨name, marked e⟩) ∧
    ∀ e ∈ events, e.type = .resultReady → (Approved events e → marked e = true) ∧
      (Distinct events → marked e = true → Approved events e)
  resumed : r.resumed = true → Continues events

/-! ### Continued retries -/

theorem continued_foldl (events : List Event) :
  ((events.foldl Continued.step ⟨false, false⟩).seenRetry = true → Occurs .taskRetryScheduled events) ∧
    ((events.foldl Continued.step ⟨false, false⟩).startedAfter = true → Continues events)
  := by
  induction events using List.reverseRecOn with
  | nil => exact ⟨by simp, by simp⟩
  | append_singleton events e ih =>
    obtain ⟨hseen, hstarted⟩ := ih
    rw [List.foldl_concat]
    generalize events.foldl Continued.step ⟨false, false⟩ = c at hseen hstarted ⊢
    have hmono : Occurs .taskRetryScheduled events → Occurs .taskRetryScheduled (events ++ [e]) :=
      fun ⟨f, hf, htype⟩ => ⟨f, List.mem_append_left _ hf, htype⟩
    have hnext : e.type ≠ .taskRetryScheduled → e.type ≠ .taskBlocked → Continues events →
        Continues (events ++ [e]) := by
      rintro hretry hblocked ⟨before, start, after, rfl, hstart, hbefore, hafter, hafter'⟩
      refine ⟨before, start, after ++ [e], by simp, hstart, hbefore, ?_, ?_⟩
      · rintro ⟨f, hf, htype⟩
        rcases List.mem_append.mp hf with hf | hf
        · exact hafter ⟨f, hf, htype⟩
        · obtain rfl := List.mem_singleton.mp hf
          exact hretry htype
      · rintro ⟨f, hf, htype⟩
        rcases List.mem_append.mp hf with hf | hf
        · exact hafter' ⟨f, hf, htype⟩
        · obtain rfl := List.mem_singleton.mp hf
          exact hblocked htype
    unfold Continued.step
    split
    next hretry => exact ⟨fun _ => ⟨e, by simp, hretry⟩, by simp⟩
    next hretry =>
      split
      next hstart =>
        refine ⟨fun _ => hmono (hseen hstart.2), fun _ => ?_⟩
        exact ⟨events, e, [], rfl, hstart.1, hseen hstart.2, by simp [Occurs], by simp [Occurs]⟩
      next =>
        split
        next hblocked => exact ⟨fun h => hmono (hseen h), by simp⟩
        next hblocked => exact ⟨fun h => hmono (hseen h), fun h => hnext hretry hblocked (hstarted h)⟩

theorem continues_of_continuedAfterRetry (h : continuedAfterRetry events = true) :
  Continues events
  := by
  rw [continuedAfterRetry, Bool.and_eq_true] at h
  exact (continued_foldl events).2 h.2

/-! ### What the journal says -/

theorem occurs_iff {type : EventType} :
  Occurs type events ↔ occurrences type events ≠ 0
  := by
  rw [occurrences, ← Nat.pos_iff_ne_zero, List.countP_pos_iff]
  simp [Occurs]

theorem occurs_accepted (h : Settled events s) :
  Occurs .resultAccepted events ↔ s.status = .accepted ∨ s.verified = true
  := by
  rw [occurs_iff, h.accepted]
  split <;> simp_all

theorem occurs_complete (h : Settled events s) :
  Occurs .taskComplete events ↔ s.verified = true
  := by
  rw [occurs_iff, h.complete]
  split <;> simp_all

theorem occurs_confirmed (h : Settled events s) :
  Occurs .effectConfirmed events ↔ s.confirmed = true
  := by
  rw [occurs_iff, h.confirmed]
  split <;> simp_all

theorem holdsUntil_decidedBy (actor : Option Str) :
  HoldsUntil (fun _ => False) fun s => s.status.isTerminal = true ∧ s.decidedBy = actor
  := by
  constructor
  · exact fun _ _ h => h
  · rintro s e s' ⟨hterminal, hactor⟩ step
    left
    obtain ⟨hstatus, htype⟩ := step.of_terminal hterminal
    rw [hstatus]
    refine ⟨hterminal, ?_⟩
    cases step <;> simp_all

theorem decidedBy_of_confirmed (hrun : Accepts apply none events (some s)) {e : Event} (he : e ∈ events)
    (htype : e.type = .effectConfirmed) :
  s.decidedBy = (e.get (text "actor")).str?
  := by
  obtain ⟨before, after, rfl⟩ := List.append_of_mem he
  obtain ⟨t, t', -, step, -, hafter⟩ := step_at hrun (by simp [htype, EventType.isSystem]) (by simp [htype])
  have hactor : t'.status.isTerminal = true ∧ t'.decidedBy = (e.get (text "actor")).str? := by
    cases step <;> simp_all [TaskStatus.isTerminal]
  exact ((holdsUntil_decidedBy _).always ((holdsUntil_decidedBy _).updated t' e.seq hactor) hafter).2

theorem reported_of_accepted (hsystem : ∀ e ∈ events, e.type.isSystem = false)
    (hrun : Accepts apply none events (some s)) {a : Event} (ha : a ∈ events)
    (htype : a.type = .resultAccepted) :
  ∃ e ∈ events, e.type = .resultReady ∧ e.dispatchId = a.dispatchId ∧ e.resultId = a.resultId
  := by
  obtain ⟨before, after, rfl⟩ := List.append_of_mem ha
  obtain ⟨t, t', hbefore, step, -, -⟩ := step_at hrun (by simp [htype, EventType.isSystem]) (by simp [htype])
  have hrecorded := (recorded_of_run (fun e he => hsystem e (List.mem_append_left _ he)) hbefore t rfl).2
  cases step with
  | resultAccepted _ status fenced result =>
    obtain ⟨e, he, hready, hdispatch, hresult⟩ := hrecorded.reported status
    exact ⟨e, List.mem_append_left _ he, hready, hdispatch.trans fenced.dispatch.symm,
      hresult.trans result.symm⟩
  | _ => simp_all

/-! ### What is shown -/

def workingStatuses : List TaskStatus :=
  [.queued, .claimed, .running, .verifying, .accepted, .retryPending]

def doneStatuses : List TaskStatus :=
  [.complete, .failed, .cancelled]

section

omit [Platform]

theorem pile_cases (s : TaskState) :
  (s.status ∈ workingStatuses ∧ pileOf s = .ok .working) ∨
    (s.status = .blocked ∧ pileOf s = .ok .needsYou) ∨
    (s.status ∈ doneStatuses ∧ pileOf s = .ok .done)
  := by
  unfold pileOf
  cases s.status <;> decide

theorem workingPhase_of_working (h : s.status ∈ workingStatuses) :
  ∃ phase, workingPhase s = .ok phase ∧ phase.label ≠ text "Checked by Courier"
  := by
  unfold workingPhase
  by_cases hcancel : s.cancelRequested = true
  · exact ⟨_, if_pos hcancel, by decide⟩
  · rw [if_neg hcancel]
    simp only [workingStatuses, List.mem_cons, List.not_mem_nil, or_false] at h
    rcases h with h | h | h | h | h | h <;> rw [h] <;> exact ⟨_, rfl, by decide⟩

theorem doneOutcome_of_done (h : s.status ∈ doneStatuses) :
  ∃ outcome, doneOutcome s = .ok outcome ∧ (outcome = .verified ↔ s.verified = true) ∧
    (outcome = .humanConfirmed ↔ s.confirmed = true) ∧ (outcome = .couldNotComplete ↔ s.status = .failed)
  := by
  unfold doneOutcome TaskState.verified TaskState.confirmed
  simp only [doneStatuses, List.mem_cons, List.not_mem_nil, or_false] at h
  rcases h with h | h | h <;> rw [h]
  · rcases s.resolution with _ | _ | _ | _ <;> exact ⟨_, rfl, by decide, by decide, by decide⟩
  · exact ⟨_, rfl, by simp, by simp, by simp⟩
  · rcases s.resolution with _ | _ | _ | _ <;> exact ⟨_, rfl, by decide, by decide, by decide⟩

theorem copyOf_checked (outcome : DoneOutcome) (who : Str) :
  ((copyOf outcome who).label = text "Checked by Courier" ↔ outcome = .verified) ∧
    ((copyOf outcome who).mark = text "check" ↔ outcome = .verified)
  := by
  cases outcome <;> simp [copyOf, text]

theorem outcomeCopy_of_outcome {outcome : DoneOutcome} (h : doneOutcome s = .ok outcome) :
  ∃ copy, outcomeCopy s = .ok copy ∧
    (copy.label = text "Checked by Courier" ↔ outcome = .verified) ∧
    (copy.mark = text "check" ↔ outcome = .verified) ∧
    (outcome = .humanConfirmed → copy.label = text "Confirmed by " ++ displayActor s.decidedBy)
  := by
  obtain ⟨hlabel, hmark⟩ := copyOf_checked outcome (displayActor s.decidedBy)
  unfold outcomeCopy
  rw [h, Except.ok_bind]
  split
  next hstopped =>
    refine ⟨_, rfl, hlabel, ?_, ?_⟩
    · rw [hstopped.1]
      simp [text]
    · intro hhuman
      rw [hstopped.1] at hhuman
      cases hhuman
  next =>
    refine ⟨_, rfl, hlabel, hmark, ?_⟩
    rintro rfl
    rfl

end

theorem howKnown_of_pile (hsettled : Settled events s) {pile : Pile} (hpile : pileOf s = .ok pile) :
  ∃ how, howKnown s events pile = .ok how ∧
    ((text "Checked by Courier").isPrefixOf how = true ↔ Occurs .resultAccepted events)
  := by
  have hany : (events.any fun e => e.type = .resultAccepted) = true ↔ Occurs .resultAccepted events := by
    simp [Occurs]
  unfold howKnown
  rcases pile_cases s with ⟨-, hworking⟩ | ⟨-, hblocked⟩ | ⟨hdone, hpile'⟩
  · rw [hworking] at hpile
    cases hpile
    refine ⟨_, rfl, ?_⟩
    rw [← hany]
    split
    next h => simp [h, text]
    next h => simp [h, text]
  · rw [hblocked] at hpile
    cases hpile
    refine ⟨_, rfl, ?_⟩
    rw [← hany]
    split
    next h => simp [h, text]
    next h => simp [h, text]
  · rw [hpile'] at hpile
    cases hpile
    obtain ⟨outcome, houtcome, hverified, hhuman, hfailed⟩ := doneOutcome_of_done hdone
    dsimp only
    rw [houtcome, Except.ok_bind]
    by_cases hnot : outcome = .couldNotComplete
    · have hnone : ¬ Occurs .resultAccepted events := by
        rw [occurs_accepted hsettled, hfailed.mp hnot]
        simp [TaskState.verified, hfailed.mp hnot]
      refine ⟨_, if_pos hnot, ?_⟩
      rw [iff_false_right hnone]
      split <;> decide
    · rw [if_neg hnot]
      by_cases haccepted : (events.any fun e => e.type = .resultAccepted) = true
      · refine ⟨_, if_pos haccepted, ?_⟩
        simp [← hany, haccepted, text]
      · rw [if_neg haccepted]
        split
        · exact ⟨_, rfl, by simp [← hany, haccepted, text]⟩
        · exact ⟨_, rfl, by simp [← hany, haccepted, text]⟩

theorem card_of_pile (events : List Event) {pile : Pile} (hpile : pileOf s = .ok pile) :
  ∃ c, card s events = .ok c ∧ c.pile = pile ∧ (c.checked ↔ s.verified = true) ∧
    (s.confirmed = true → c.label = text "Confirmed by " ++ displayActor s.decidedBy) ∧
    ∃ what, happened s pile = .ok what ∧ (what = text "Checked by Courier" ↔ s.verified = true)
  := by
  unfold card
  rcases pile_cases s with ⟨hstatus, hworking⟩ | ⟨hstatus, hblocked⟩ | ⟨hdone, hpile'⟩
  · rw [hworking] at hpile ⊢
    cases hpile
    obtain ⟨phase, hphase, hlabel⟩ := workingPhase_of_working hstatus
    have hnot : s.status ≠ .complete := by
      intro h
      rw [h] at hstatus
      exact absurd hstatus (by decide)
    simp only [Except.ok_bind, hphase, happened]
    refine ⟨_, rfl, rfl, ?_, ?_, phase.label, rfl, ?_⟩
    · simp [Card.checked, hlabel, TaskState.verified, hnot]
    · simp [TaskState.confirmed, hnot]
    · simp [hlabel, TaskState.verified, hnot]
  · rw [hblocked] at hpile ⊢
    cases hpile
    refine ⟨_, rfl, rfl, ?_, ?_, _, rfl, ?_⟩
    · simp [Card.checked, TaskState.verified, hstatus, text]
    · simp [TaskState.confirmed, hstatus]
    · simp [TaskState.verified, hstatus, text]
  · rw [hpile'] at hpile ⊢
    cases hpile
    obtain ⟨outcome, houtcome, hverified, hhuman, -⟩ := doneOutcome_of_done hdone
    obtain ⟨copy, hcopy, hlabel, hmark, hconfirmed⟩ := outcomeCopy_of_outcome houtcome
    simp only [Except.ok_bind, hcopy, happened]
    refine ⟨_, rfl, rfl, ?_, fun h => hconfirmed (hhuman.mpr h), copy.label, rfl, ?_⟩
    · simp [Card.checked, hlabel, hmark, hverified]
    · rw [hlabel, hverified]

/-- The view of a task that its events lead to. -/
theorem truthful_of_run (hsystem : ∀ e ∈ events, e.type.isSystem = false)
    (hrun : Accepts apply none events (some s)) :
  ∃ c r, Truthful events s c r
  := by
  have hsettled := settled_of_run hrun s rfl
  obtain ⟨pile, hpile⟩ : ∃ pile, pileOf s = .ok pile := by
    rcases pile_cases s with ⟨-, h⟩ | ⟨-, h⟩ | ⟨-, h⟩ <;> exact ⟨_, h⟩
  obtain ⟨c, hcard, hcpile, hchecked, hlabel, what, hwhat, hwhat'⟩ :=
    card_of_pile events hpile
  obtain ⟨how, hhow, hhow'⟩ := howKnown_of_pile hsettled hpile
  have hreceipt : ∃ r, receipt s events = .ok r ∧ r.happened = what ∧ r.howKnown = how ∧
      r.evidence = evidenceLines events ∧ r.resumed = continuedAfterRetry events := by
    unfold receipt
    rw [hpile, Except.ok_bind, hhow, Except.ok_bind, hwhat, Except.ok_bind]
    exact ⟨_, rfl, rfl, rfl, rfl, rfl⟩
  obtain ⟨r, hreceipt, rfl, rfl, hevidence, hresumed⟩ := hreceipt
  have hrchecked : r.checked ↔ Occurs .resultAccepted events := by
    rw [Receipt.checked, hwhat', hhow', occurs_accepted hsettled]
    tauto
  refine ⟨c, r, hcard, hreceipt, by rw [hcpile, hpile], ?_, hrchecked, ?_, ?_, ?_⟩
  · rw [hchecked, occurs_accepted hsettled, occurs_complete hsettled]
    tauto
  · intro e he htype
    have hconfirmed : s.confirmed = true := (occurs_confirmed hsettled).mp ⟨e, he, htype⟩
    have hnot : ¬ (s.status = .accepted ∨ s.verified = true) := by
      simp only [TaskState.confirmed, Bool.and_eq_true, decide_eq_true_eq] at hconfirmed
      simp [TaskState.verified, hconfirmed.1, hconfirmed.2]
    refine ⟨?_, ?_, ?_⟩
    · rw [hlabel hconfirmed, decidedBy_of_confirmed hrun he htype]
    · rw [hchecked]
      exact fun h => hnot (.inr h)
    · rw [hrchecked, occurs_accepted hsettled]
      exact hnot
  · refine ⟨accepts events, hevidence, fun e he htype => ⟨?_, ?_⟩⟩
    · rintro ⟨a, ha, haccepted, -, hresult⟩
      exact List.any_eq_true.mpr ⟨a, ha, by simp [haccepted, hresult]⟩
    · intro hdistinct hmarked
      obtain ⟨a, ha, hboth⟩ := List.any_eq_true.mp hmarked
      simp only [Bool.decide_and, Bool.and_eq_true, decide_eq_true_eq] at hboth
      obtain ⟨f, hf, hready, hdispatch, hresult⟩ := reported_of_accepted hsystem hrun ha hboth.1
      refine ⟨a, ha, hboth.1, ?_, hboth.2⟩
      rw [← hdispatch]
      exact hdistinct f hf e he hready htype (hresult.trans hboth.2)
  · intro hr
    rw [hresumed] at hr
    exact continues_of_continuedAfterRetry hr

/-- Whatever was submitted to the journal, the view of a task is truthful. -/
theorem truthful_run (calls : List Event) (h : (Journal.run calls).task id = some s) :
  ∃ c r, Truthful (eventsOf id (Journal.run calls).events) s c r
  := by
  have hrun := (Journal.run calls).run_of_task id
  rw [h] at hrun
  exact truthful_of_run (fun e he => Journal.not_system_of_eventsOf he) hrun

end Views

section Example

local instance platformHub : Platform := Platform.plain

/-- The events of a task whose result is accepted, and not yet completed. -/
def acceptedCalls : List Event :=
  [{ type := .taskCreated, taskId := some (text "t"), eventId := text "e", tsUtc := text "Z"
     payload := [(text "adapter", .str (text "echo")), (text "effect_class", .str (text "idempotent")),
       (text "lease_ttl_s", .int 30), (text "max_attempts", .int 2), (text "params", .obj [])] },
   dispatchEvent .taskClaimed 1 [(text "ttl_s", .int 30)],
   dispatchEvent .taskStarted 1 [],
   { dispatchEvent .resultReady 1
       [(text "artifacts", .arr []), (text "outcome", .str (text "success"))] with
     resultId := some (text "r") },
   { dispatchEvent .resultAccepted 1 [] with resultId := some (text "r") }].filterMap
    fun f => (Event.build f).toOption

theorem accepted_acceptedCalls :
  ((Journal.run acceptedCalls).task (text "t")).any (fun s => s.status = .accepted) = true ∧
    ((eventsOf (text "t") (Journal.run acceptedCalls).events).any fun e => e.type = .resultAccepted) = true
  := by
  decide +kernel

theorem unchecked_accepted :
  ∃ s, (Journal.run acceptedCalls).task (text "t") = some s ∧
    Occurs .resultAccepted (eventsOf (text "t") (Journal.run acceptedCalls).events) ∧
    ∃ c, card s (eventsOf (text "t") (Journal.run acceptedCalls).events) = .ok c ∧ ¬ c.checked
  := by
  obtain ⟨hstate, hevent⟩ := accepted_acceptedCalls
  obtain ⟨s, hs, hstatus⟩ := (Option.any_eq_true _ _).mp hstate
  have hstatus' : s.status = .accepted := of_decide_eq_true hstatus
  have hpile : pileOf s = .ok .working := by
    unfold pileOf
    rw [hstatus']
    decide
  obtain ⟨c, hcard, -, hchecked, -⟩ := card_of_pile _ hpile
  refine ⟨s, hs, by simpa [Occurs] using hevent, c, hcard, ?_⟩
  rw [hchecked, TaskState.verified, hstatus']
  simp

theorem truthful_accepted :
  ∃ s, (Journal.run acceptedCalls).task (text "t") = some s ∧
    ∃ c r, Truthful (eventsOf (text "t") (Journal.run acceptedCalls).events) s c r
  := by
  obtain ⟨s, hs, -⟩ := (Option.any_eq_true _ _).mp accepted_acceptedCalls.1
  exact ⟨s, hs, truthful_run acceptedCalls hs⟩

end Example

end Courier.Hub
