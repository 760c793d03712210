import Courier.StateMachine

/-!
# The steps of a task

What the fold can do with a task, said once: `Step s e s'` lists, for every type of event, the
conditions under which the event is accepted and the state it leads to.  `transition_iff`
connects it to the fold, and every invariant of a task is proved from it.
-/

namespace Courier

open Except Text

namespace Event

variable [Platform] {e : Event}

/-! ### What a valid event carries -/

theorem has_of_required {f : Field} (h : f ∈ (REQUIRED e.type).1) :
  e.has f = true
  := (valid_iff.mp e.valid).2.2.2.1 f h

theorem hasKey_of_required {key : Str} (h : key ∈ (REQUIRED e.type).2) :
  Json.hasKey e.payload key = true
  := by
  have hmissing : missingKeys e.toEventFields = [] := (valid_iff.mp e.valid).2.2.2.2.2.2.2.1
  have hkey := List.filter_eq_nil_iff.mp hmissing key h
  simpa using hkey

theorem validPayload :
  validatePayload e.toEventFields = .ok ()
  := (valid_iff.mp e.valid).2.2.2.2.2.2.2.2

theorem taskId_of_system (h : e.type.isSystem = true) :
  e.taskId = none
  := by
  have hnone := (valid_iff.mp e.valid).2.2.2.2.1 h .taskId (by simp)
  simpa [EventFields.has] using hnone

theorem taskId_of_task (h : e.type.isSystem = false) :
  ∃ id, e.taskId = some id
  := by
  have hrequired : Field.taskId ∈ (REQUIRED e.type).1 := by
    cases ht : e.type <;> simp_all [REQUIRED, EventType.isSystem]
  have hsome := has_of_required hrequired
  exact Option.isSome_iff_exists.mp hsome

theorem attempt_of_required (h : Field.attempt ∈ (REQUIRED e.type).1) :
  ∃ n, e.attempt = some n
  := Option.isSome_iff_exists.mp (has_of_required h)

theorem dispatchId_of_required (h : Field.dispatchId ∈ (REQUIRED e.type).1) :
  ∃ d, e.dispatchId = some d
  := Option.isSome_iff_exists.mp (has_of_required h)

theorem workerId_of_required (h : Field.workerId ∈ (REQUIRED e.type).1) :
  ∃ w, e.workerId = some w
  := Option.isSome_iff_exists.mp (has_of_required h)

theorem resultId_of_required (h : Field.resultId ∈ (REQUIRED e.type).1) :
  ∃ r, e.resultId = some r
  := Option.isSome_iff_exists.mp (has_of_required h)

def HasActor (e : EventFields) : Prop :=
  ∃ actor, e.get (text "actor") = .str actor ∧ actor ≠ []

theorem hasActor_of_key (h : Json.hasKey e.payload (text "actor") = true) :
  HasActor e.toEventFields
  := by
  have hv := validPayload (e := e)
  simp only [validatePayload, bind_unit_eq_ok, checkWhen_eq_ok, checkId_eq_ok] at hv
  obtain ⟨actor, hactor, hid⟩ := hv.2.1 (by simp [h])
  exact ⟨actor, hactor, hid.1⟩

theorem hasKey_of_get {key : Str} (h : e.get key ≠ .null) :
  Json.hasKey e.payload key = true
  := by
  by_contra hkey
  apply h
  simp only [EventFields.get, Json.get, Json.hasKey] at hkey ⊢
  cases hl : e.payload.lookup key <;> simp_all

theorem hasActor_of_get (h : e.get (text "actor") ≠ .null) :
  HasActor e.toEventFields
  := hasActor_of_key (hasKey_of_get h)

theorem hasActor_of_humanDecision (h : e.type.isHumanDecision = true) :
  HasActor e.toEventFields
  := by
  apply hasActor_of_key
  apply hasKey_of_required
  cases ht : e.type <;> simp_all [EventType.isHumanDecision, REQUIRED]

theorem retryable_of_rejected (h : e.type = .resultRejected) :
  ∃ b, e.get (text "retryable") = .bool b
  := by
  have hv := validPayload (e := e)
  simp only [validatePayload, bind_unit_eq_ok, validateKind, h, check_eq_ok] at hv
  have hbool := hv.1
  cases hget : e.get (text "retryable") with
  | bool b => exact ⟨b, rfl⟩
  | _ => simp [hget, isBool] at hbool

end Event

section Steps

variable [Platform]

/-! ### Acceptance of an event -/

structure Fenced (s : TaskState) (e : Event) (checkWorker : Bool) : Prop where
  attempt : e.attempt = some s.attempt
  dispatch : e.dispatchId = s.dispatchId
  worker : checkWorker = true → e.workerId ≠ none → e.workerId = s.workerId

@[simp]
theorem fence_eq_ok {s : TaskState} {e : Event} {checkWorker : Bool} {u : Unit} :
  fence s e checkWorker = .ok u ↔ Fenced s e checkWorker
  := by
  simp only [fence, bind_unit_eq_ok, check_eq_ok]
  constructor
  · rintro ⟨ha, hd, hw⟩
    refine ⟨ha, hd, ?_⟩
    intro hc hn
    by_contra hne
    exact hw ⟨hc, hn, hne⟩
  · rintro ⟨ha, hd, hw⟩
    refine ⟨ha, hd, ?_⟩
    rintro ⟨hc, hn, hne⟩
    exact hne (hw hc hn)

theorem Fenced.worker_eq {s : TaskState} {e : Event} (h : Fenced s e true)
    (hw : Field.workerId ∈ (REQUIRED e.type).1) :
  e.workerId = s.workerId
  := by
  obtain ⟨w, hw⟩ := Event.workerId_of_required hw
  apply h.worker rfl
  simp [hw]

def Bound (s : TaskState) (e : Event) : Prop :=
  match s.dependsOn with
  | none => e.get (text "input") = .null
  | some d => e.get (text "input") ≠ .null
      ∧ Json.get (e.get (text "input")).asMembers (text "task_id") = .str d

@[simp]
theorem checkBound_eq_ok {s : TaskState} {e : Event} {u : Unit} :
  checkBound s e = .ok u ↔ Bound s e
  := by
  unfold checkBound Bound
  cases s.dependsOn <;> simp only [check_eq_ok]

/-- The steps of a task, with the conditions under which the fold takes them. -/
inductive Step (s : TaskState) (e : Event) : TaskState → Prop where
  | lateResult
      (type : e.type = .lateResultDiscarded)
      (late : ¬ (s.status.isActiveLease = true ∧ e.dispatchId = s.dispatchId)) :
      Step s e { s with lateResults := s.lateResults + 1 }
  | claimed
      (type : e.type = .taskClaimed)
      (status : s.status = .queued)
      (wanted : s.cancelRequested = false)
      (attempt : e.attempt = some (s.attempt + 1))
      (budget : s.attempt + 1 ≤ s.maxAttempts)
      (bound : Bound s e) :
      Step s e { s with
        status := .claimed, attempt := s.attempt + 1, dispatchId := e.dispatchId
        workerId := e.workerId, started := false, pendingResultId := none
        failureKind := none, retryable := none, lastReason := none
        input := e.get (text "input") }
  | started
      (type : e.type = .taskStarted)
      (status : s.status = .claimed)
      (fenced : Fenced s e true) :
      Step s e { s with status := .running, started := true }
  | progress
      (type : e.type = .taskProgress)
      (status : s.status = .running)
      (fenced : Fenced s e true) :
      Step s e s
  | resultReady
      (type : e.type = .resultReady)
      (status : s.status = .running)
      (fenced : Fenced s e true) :
      Step s e { s with status := .verifying, pendingResultId := e.resultId }
  | resultAccepted
      (type : e.type = .resultAccepted)
      (status : s.status = .verifying)
      (fenced : Fenced s e false)
      (result : e.resultId = s.pendingResultId) :
      Step s e { s with
        status := .accepted, acceptedResultId := e.resultId, pendingResultId := none
        resolution := some .verified }
  | resultRejected
      (type : e.type = .resultRejected)
      (status : s.status = .verifying)
      (fenced : Fenced s e false)
      (result : e.resultId = s.pendingResultId) :
      Step s e { s with
        status := .retryPending, pendingResultId := none, failureKind := some .rejected
        retryable := some (e.get (text "retryable")).asBool
        lastReason := some (pyStr (e.get (text "reason"))) }
  | complete
      (type : e.type = .taskComplete)
      (status : s.status = .accepted)
      (fenced : Fenced s e false)
      (result : e.resultId = s.acceptedResultId) :
      Step s e { s with status := .complete }
  | leaseExpired
      (type : e.type = .leaseExpired)
      (status : s.status.isActiveLease = true)
      (fenced : Fenced s e true) :
      Step s e { s with
        status := .retryPending, failureKind := some .leaseLost, retryable := none
        lastReason := some (text "lease_expired:" ++ pyStr (e.get (text "reason"))) }
  | retryScheduled
      (type : e.type = .taskRetryScheduled)
      (status : s.status = .retryPending)
      (attempt : e.attempt = some s.attempt)
      (decision : decideAfterFailure s = .retry) :
      Step s e { s with
        status := .queued, dispatchId := none, workerId := none, started := false }
  | failed
      (type : e.type = .taskFailed)
      (status : s.status = .retryPending ∨ s.status = .queued)
      (certain : ¬ (s.status = .retryPending ∧ decideAfterFailure s = .block)) :
      Step s e { s with status := .failed, lastReason := some (pyStr (e.get (text "reason"))) }
  | blocked
      (type : e.type = .taskBlocked)
      (status : s.status = .retryPending ∨ s.status = .queued) :
      Step s e { s with status := .blocked, lastReason := some (pyStr (e.get (text "reason"))) }
  | cancelRequested
      (type : e.type = .taskCancelRequested)
      (status : s.status.isTerminal = false)
      (wanted : s.cancelRequested = false) :
      Step s e { s with cancelRequested := true }
  | cancelledBlocked
      (type : e.type = .taskCancelled)
      (status : s.status = .blocked)
      (requested : s.cancelRequested = true)
      (actor : e.get (text "actor") ≠ .null) :
      Step s e { s with
        status := .cancelled, resolution := some .cancelledEffectUnknown
        decidedBy := (e.get (text "actor")).str? }
  | cancelled
      (type : e.type = .taskCancelled)
      (status : s.status ∈
        [TaskStatus.queued, .claimed, .running, .retryPending])
      (requested : s.cancelRequested = true)
      (certain : ¬ (s.status = .retryPending ∧ decideAfterFailure s = .block)) :
      Step s e { s with
        status := .cancelled
        decidedBy := if Json.hasKey e.payload (text "actor") then (e.get (text "actor")).str?
          else s.decidedBy }
  | effectConfirmed
      (type : e.type = .effectConfirmed)
      (status : s.status = .blocked)
      (attempt : e.attempt = some s.attempt) :
      Step s e { s with
        status := .complete, resolution := some .effectConfirmed
        decidedBy := (e.get (text "actor")).str?
        lastReason := some (pyStr (e.get (text "reason"))) }
  | retryAuthorized
      (type : e.type = .retryAuthorized)
      (status : s.status = .blocked)
      (attempt : e.attempt = some s.attempt)
      (wanted : s.cancelRequested = false)
      (limit : s.attempt < MAX_ATTEMPTS_LIMIT) :
      Step s e { s with
        status := .queued, maxAttempts := max s.maxAttempts (s.attempt + 1)
        dispatchId := none, workerId := none, started := false
        failureKind := none, retryable := none
        lastReason := some (pyStr (e.get (text "reason")))
        decidedBy := (e.get (text "actor")).str? }

/-! ### The fold takes exactly these steps -/

variable {s s' : TaskState} {e : Event}

theorem Step.type_of (step : Step s e s') :
  e.type.isSystem = false ∧ e.type ≠ .taskCreated
  := by
  cases step with
  | _ type => simp [type, EventType.isSystem]

theorem Step.not_terminal (h : Step s e s') (ht : e.type ≠ .lateResultDiscarded) :
  s.status.isTerminal = false
  := by
  cases h with
  | lateResult type => exact absurd type ht
  | cancelRequested _ status => exact status
  | leaseExpired _ status =>
    cases hs : s.status <;> simp_all [TaskStatus.isActiveLease, TaskStatus.isTerminal]
  | failed _ status => rcases status with hs | hs <;> rw [hs] <;> rfl
  | blocked _ status => rcases status with hs | hs <;> rw [hs] <;> rfl
  | cancelled _ status =>
    cases hs : s.status <;> simp_all [TaskStatus.isTerminal]
  | claimed _ status => rw [status]; rfl
  | started _ status => rw [status]; rfl
  | progress _ status => rw [status]; rfl
  | resultReady _ status => rw [status]; rfl
  | resultAccepted _ status => rw [status]; rfl
  | resultRejected _ status => rw [status]; rfl
  | complete _ status => rw [status]; rfl
  | retryScheduled _ status => rw [status]; rfl
  | cancelledBlocked _ status => rw [status]; rfl
  | effectConfirmed _ status => rw [status]; rfl
  | retryAuthorized _ status => rw [status]; rfl

theorem Step.type_of_blocked (h : Step s e s') (ht : e.type ≠ .lateResultDiscarded)
    (hs : s.status = .blocked) :
  e.type ∈ [EventType.taskCancelRequested, .taskCancelled, .effectConfirmed, .retryAuthorized]
  := by
  cases h <;> simp_all [TaskStatus.isActiveLease]

theorem transition_of_step (h : Step s e s') :
  transition s e = .ok s'
  := by
  by_cases hl : e.type = .lateResultDiscarded
  · cases h <;> simp_all [transition]
  · have hterminal := h.not_terminal hl
    have hblocked := h.type_of_blocked hl
    cases h with
    | cancelled type status =>
    cases hs : s.status <;> simp_all [transition]
    | _ => simp_all [transition, humanDecision]

theorem step_of_transition (h : transition s e = .ok s') :
  Step s e s'
  := by
  by_cases hl : e.type = .lateResultDiscarded
  · simp only [transition, hl, if_true, bind_unit_eq_ok, check_eq_ok, pure, Except.pure,
      ok.injEq] at h
    obtain ⟨hlate, rfl⟩ := h
    exact .lateResult hl hlate
  · simp only [transition, if_neg hl, bind_unit_eq_ok, check_eq_ok] at h
    obtain ⟨hterminal, hblocked, h⟩ := h
    cases ht : e.type <;> simp [ht, humanDecision, pure, Except.pure] at h
    case taskClaimed =>
      obtain ⟨hs, hc, ha, hm, hb, rfl⟩ := h
      exact .claimed ht hs hc ha hm hb
    case taskStarted =>
      obtain ⟨hs, hf, rfl⟩ := h
      exact .started ht hs hf
    case taskProgress =>
      obtain ⟨hs, hf, rfl⟩ := h
      exact .progress ht hs hf
    case resultReady =>
      obtain ⟨hs, hf, rfl⟩ := h
      exact .resultReady ht hs hf
    case resultAccepted =>
      obtain ⟨hs, hf, hr, rfl⟩ := h
      exact .resultAccepted ht hs hf hr
    case resultRejected =>
      obtain ⟨hs, hf, hr, rfl⟩ := h
      exact .resultRejected ht hs hf hr
    case taskComplete =>
      obtain ⟨hs, hf, hr, rfl⟩ := h
      exact .complete ht hs hf hr
    case leaseExpired =>
      obtain ⟨hs, hf, rfl⟩ := h
      exact .leaseExpired ht hs hf
    case taskRetryScheduled =>
      obtain ⟨hs, ha, hd, rfl⟩ := h
      exact .retryScheduled ht hs ha hd
    case taskFailed =>
      obtain ⟨hs, hd, rfl⟩ := h
      exact .failed ht hs fun hn => hd hn.1 hn.2
    case taskBlocked =>
      obtain ⟨hs, rfl⟩ := h
      exact .blocked ht hs
    case taskCancelRequested =>
      obtain ⟨hc, rfl⟩ := h
      exact .cancelRequested ht hterminal hc
    case effectConfirmed =>
      obtain ⟨hs, ha, rfl⟩ := h
      exact .effectConfirmed ht hs ha
    case retryAuthorized =>
      obtain ⟨hs, ha, hc, hm, rfl⟩ := h
      exact .retryAuthorized ht hs ha hc hm
    case taskCancelled =>
      obtain ⟨hc, ⟨hv, ha⟩, hd, h⟩ := h
      by_cases hs : s.status = .blocked
      · simp only [hs, if_true, bind_unit_eq_ok, check_eq_ok, ok.injEq] at h
        obtain ⟨hactor, rfl⟩ := h
        exact .cancelledBlocked ht hs hc hactor
      · rw [if_neg hs] at h
        cases h
        have hstatus : s.status ∈ [TaskStatus.queued, .claimed, .running, .retryPending] := by
          cases hs' : s.status <;> simp_all [TaskStatus.isTerminal]
        exact .cancelled ht hstatus hc fun hn => hd hn.1 hn.2

theorem transition_iff :
  transition s e = .ok s' ↔ Step s e s'
  := ⟨step_of_transition, transition_of_step⟩

/-! ### Steps of the whole fold -/

inductive Applied (e : Event) : Option TaskState → Option TaskState → Prop where
  | system {state : Option TaskState} (type : e.type.isSystem = true) :
      Applied e state state
  | created (type : e.type = .taskCreated) :
      Applied e none (some (created e))
  | step {s s' : TaskState}
      (system : e.type.isSystem = false)
      (type : e.type ≠ .taskCreated)
      (task : e.taskId = some s.taskId)
      (step : Step s e s') :
      Applied e (some s) (some { s' with updatedSeq := e.seq })

theorem apply_iff {state state' : Option TaskState} :
  apply state e = .ok state' ↔ Applied e state state'
  := by
  constructor
  · intro h
    unfold apply at h
    split_ifs at h with hsystem hcreated
    · cases h
      exact .system hsystem
    · cases state with
      | some s => cases h
      | none =>
      cases h
      exact .created hcreated
    · cases state with
      | none => cases h
      | some s =>
        simp only at h
        split_ifs at h with htask
        obtain ⟨s', hs', rfl⟩ := map_eq_ok.mp h
        exact .step (by simpa using hsystem) hcreated htask (transition_iff.mp hs')
  · intro h
    cases h with
    | system type => simp [apply, type]
    | created type => simp [apply, type, EventType.isSystem]
    | step system type task step =>
      have hstep := transition_iff.mpr step
      simp [apply, system, type, task, hstep, Except.map]

end Steps

end Courier
