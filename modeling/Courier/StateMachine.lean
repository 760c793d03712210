import Courier.Events

/-!
# The task state machine

The pure fold from events to the state of a task.  `apply` returns the next state or
refuses the event; the journal calls it inside the transaction of an append, so an event it
refuses is never stored.
-/

namespace Courier

open Except Text

inductive TaskStatus where
  | queued
  | claimed
  | running
  | verifying
  | accepted
  | retryPending
  | complete
  | failed
  | blocked
  | cancelled
  deriving DecidableEq

namespace TaskStatus

/-- The name of a status, as it is stored. -/
def value : TaskStatus → Str
  | queued => text "QUEUED"
  | claimed => text "CLAIMED"
  | running => text "RUNNING"
  | verifying => text "VERIFYING"
  | accepted => text "ACCEPTED"
  | retryPending => text "RETRY_PENDING"
  | complete => text "COMPLETE"
  | failed => text "FAILED"
  | blocked => text "BLOCKED"
  | cancelled => text "CANCELLED"

def ofValue (name : Str) : Option TaskStatus :=
  [queued, claimed, running, verifying, accepted, retryPending, complete, failed, blocked,
    cancelled].find? fun s => s.value = name

@[simp]
theorem ofValue_value (s : TaskStatus) :
  ofValue s.value = some s
  := by
  cases s <;> decide

/-- The statuses no event but a late result leaves. -/
def isTerminal : TaskStatus → Bool
  | complete => true
  | failed => true
  | cancelled => true
  | _ => false

/-- The statuses in which a worker holds a lease. -/
def isActiveLease : TaskStatus → Bool
  | claimed => true
  | running => true
  | _ => false

end TaskStatus

/-- How a task reached its end, as far as a human or a verifier decided it. -/
inductive Resolution where
  | verified
  | effectConfirmed
  | cancelledEffectUnknown
  deriving DecidableEq

namespace Resolution

def value : Resolution → Str
  | verified => text "verified"
  | effectConfirmed => text "effect_confirmed"
  | cancelledEffectUnknown => text "cancelled_effect_unknown"

def ofValue (name : Str) : Option Resolution :=
  [verified, effectConfirmed, cancelledEffectUnknown].find? fun r => r.value = name

@[simp]
theorem ofValue_value (r : Resolution) :
  ofValue r.value = some r
  := by
  cases r <;> decide

end Resolution

/-- Why an attempt failed. -/
inductive FailureKind where
  | rejected
  | leaseLost
  deriving DecidableEq

namespace FailureKind

def value : FailureKind → Str
  | rejected => text "rejected"
  | leaseLost => text "lease_lost"

def ofValue (name : Str) : Option FailureKind :=
  [rejected, leaseLost].find? fun k => k.value = name

@[simp]
theorem ofValue_value (k : FailureKind) :
  ofValue k.value = some k
  := by
  cases k <;> decide

end FailureKind

/-- What the controller must journal next for a failed attempt. -/
inductive Decision where
  | retry
  | fail
  | block
  | cancel
  deriving DecidableEq

def Decision.value : Decision → Str
  | retry => text "retry"
  | fail => text "fail"
  | block => text "block"
  | cancel => text "cancel"

/-- The state of a task; without an input `input` is `null`, and `retryable` is compared as Python compares it. -/
structure TaskState where
  taskId : Str
  status : TaskStatus
  adapter : Str
  params : Json
  effectClass : Str
  maxAttempts : Int
  leaseTtlS : Int
  timeoutS : Option Int
  attempt : Int := 0
  dispatchId : Option Str := none
  workerId : Option Str := none
  started : Bool := false
  pendingResultId : Option Str := none
  acceptedResultId : Option Str := none
  cancelRequested : Bool := false
  failureKind : Option FailureKind := none
  retryable : Option Bool := none
  lastReason : Option Str := none
  lateResults : Int := 0
  resolution : Option Resolution := none
  decidedBy : Option Str := none
  dependsOn : Option Str := none
  input : Json := .null
  createdSeq : Option Int := none
  updatedSeq : Option Int := none
  deriving DecidableEq

/-- A refusal of an event, with its message. -/
def fail [Platform] (e : Event) (status : Str) (why : Str) : Exc :=
  .transition (e.type.value ++ text " for task " ++ showOption e.taskId ++ text " rejected in "
    ++ status ++ text ": " ++ why)

def mayAutoRetry (effectClass : Str) : Bool :=
  effectClass = RETRY_SAFE_EFFECT_CLASS

/-- The rejection left open whether the effect happened. -/
def uncertainRejection (s : TaskState) : Bool :=
  s.failureKind = some .rejected &&
    (occurs (text "timeout") (lower (s.lastReason.getD []))
      || occurs (text "lease-lost") (lower (s.lastReason.getD []))
      || occurs (text "lease_lost") (lower (s.lastReason.getD [])))

/-- What the controller must journal next for a task in `RETRY_PENDING`. -/
def decideAfterFailure (s : TaskState) : Decision :=
  if (s.failureKind = some .leaseLost ∨ uncertainRejection s) ∧ s.started
      ∧ mayAutoRetry s.effectClass = false then .block
  else if s.cancelRequested then .cancel
  else if s.failureKind = some .rejected ∧ s.retryable ≠ some true then .fail
  else if s.attempt ≥ s.maxAttempts then .fail
  else .retry

section Fold

variable [Platform]

def fence (s : TaskState) (e : Event) (checkWorker : Bool) : Except Exc Unit := do
  check (e.attempt = some s.attempt) (fail e s.status.value
    (text "attempt " ++ showAttempt e.attempt ++ text " is not the current attempt "
      ++ decimal s.attempt))
  check (e.dispatchId = s.dispatchId)
    (fail e s.status.value (text "dispatch_id is not the current dispatch"))
  check (¬ (checkWorker = true ∧ e.workerId ≠ none ∧ e.workerId ≠ s.workerId))
    (fail e s.status.value (text "worker_id does not hold the lease"))

def humanDecision (s : TaskState) (e : Event) : Except Exc TaskState := do
  check (s.status = .blocked)
    (fail e s.status.value (text "only a blocked task takes this human decision"))
  check (e.attempt = some s.attempt) (fail e s.status.value
    (text "decision names attempt " ++ showAttempt e.attempt
      ++ text ", the blocked attempt is " ++ decimal s.attempt))
  if e.type = .effectConfirmed then
    return { s with
      status := .complete, resolution := some .effectConfirmed
      decidedBy := (e.get (text "actor")).str?
      lastReason := some (pyStr (e.get (text "reason"))) }
  check (s.cancelRequested = false) (fail e s.status.value
    (text "cancellation was requested; cancel or confirm the effect instead"))
  check (s.attempt < MAX_ATTEMPTS_LIMIT) (fail e s.status.value
    (text "attempt limit " ++ decimal MAX_ATTEMPTS_LIMIT ++ text " reached"))
  return { s with
    status := .queued, maxAttempts := max s.maxAttempts (s.attempt + 1)
    dispatchId := none, workerId := none, started := false
    failureKind := none, retryable := none
    lastReason := some (pyStr (e.get (text "reason")))
    decidedBy := (e.get (text "actor")).str? }

def checkBound (s : TaskState) (e : Event) : Except Exc Unit :=
  match s.dependsOn with
  | none => check (e.get (text "input") = .null)
      (fail e s.status.value (text "only a task with depends_on is given an input"))
  | some d => check (e.get (text "input") ≠ .null
        ∧ Json.get (e.get (text "input")).asMembers (text "task_id") = .str d)
      (fail e s.status.value
        (text "a dependent task is claimed only with the verified result of its dependency"))

def transition (s : TaskState) (e : Event) : Except Exc TaskState := do
  if e.type = .lateResultDiscarded then
    check (¬ (s.status.isActiveLease = true ∧ e.dispatchId = s.dispatchId))
      (fail e s.status.value (text "result belongs to the active dispatch; it is not late"))
    return { s with lateResults := s.lateResults + 1 }
  check (s.status.isTerminal = false) (fail e s.status.value (text "task is terminal"))
  check (s.status = .blocked → e.type ∈ [EventType.taskCancelRequested, .taskCancelled,
      .effectConfirmed, .retryAuthorized])
    (fail e s.status.value (text "a blocked task needs a human decision"))
  match e.type with
  | .effectConfirmed => humanDecision s e
  | .retryAuthorized => humanDecision s e
  | .taskClaimed =>
      check (s.status = .queued)
        (fail e s.status.value (text "only a queued task can be claimed"))
      check (s.cancelRequested = false)
        (fail e s.status.value (text "cancellation was requested"))
      check (e.attempt = some (s.attempt + 1)) (fail e s.status.value
        (text "next attempt must be " ++ decimal (s.attempt + 1)))
      check (s.attempt + 1 ≤ s.maxAttempts) (fail e s.status.value
        (text "max_attempts " ++ decimal s.maxAttempts ++ text " exhausted"))
      checkBound s e
      return { s with
        status := .claimed, attempt := s.attempt + 1, dispatchId := e.dispatchId
        workerId := e.workerId, started := false, pendingResultId := none
        failureKind := none, retryable := none, lastReason := none
        input := e.get (text "input") }
  | .taskStarted =>
      check (s.status = .claimed)
        (fail e s.status.value (text "only a claimed attempt can start"))
      fence s e true
      return { s with status := .running, started := true }
  | .taskProgress =>
      check (s.status = .running)
        (fail e s.status.value (text "progress requires a running attempt"))
      fence s e true
      return s
  | .resultReady =>
      check (s.status = .running)
        (fail e s.status.value (text "a result requires a running attempt"))
      fence s e true
      return { s with status := .verifying, pendingResultId := e.resultId }
  | .resultAccepted =>
      check (s.status = .verifying)
        (fail e s.status.value (text "no result is being verified"))
      fence s e false
      check (e.resultId = s.pendingResultId)
        (fail e s.status.value (text "verdict is for another result"))
      return { s with
        status := .accepted, acceptedResultId := e.resultId, pendingResultId := none
        resolution := some .verified }
  | .resultRejected =>
      check (s.status = .verifying)
        (fail e s.status.value (text "no result is being verified"))
      fence s e false
      check (e.resultId = s.pendingResultId)
        (fail e s.status.value (text "verdict is for another result"))
      return { s with
        status := .retryPending, pendingResultId := none, failureKind := some .rejected
        retryable := some (e.get (text "retryable")).asBool
        lastReason := some (pyStr (e.get (text "reason"))) }
  | .taskComplete =>
      check (s.status = .accepted)
        (fail e s.status.value (text "only an accepted result completes a task"))
      fence s e false
      check (e.resultId = s.acceptedResultId)
        (fail e s.status.value (text "completion names a result that was not accepted"))
      return { s with status := .complete }
  | .leaseExpired =>
      check (s.status.isActiveLease = true) (fail e s.status.value (text "no active lease"))
      fence s e true
      return { s with
        status := .retryPending, failureKind := some .leaseLost, retryable := none
        lastReason := some (text "lease_expired:" ++ pyStr (e.get (text "reason"))) }
  | .taskRetryScheduled =>
      check (s.status = .retryPending) (fail e s.status.value (text "nothing to retry"))
      check (e.attempt = some s.attempt)
        (fail e s.status.value (text "retry must name the failed attempt"))
      check (decideAfterFailure s = .retry) (fail e s.status.value
        (text "retry forbidden, required decision is " ++ (decideAfterFailure s).value))
      return { s with status := .queued, dispatchId := none, workerId := none, started := false }
  | .taskFailed =>
      check (s.status = .retryPending ∨ s.status = .queued)
        (fail e s.status.value (text "only a queued or failed attempt can fail the task"))
      check (¬ (s.status = .retryPending ∧ decideAfterFailure s = .block)) (fail e s.status.value
        (text "an uncertain non-idempotent outcome must be BLOCKED, not FAILED"))
      return { s with status := .failed, lastReason := some (pyStr (e.get (text "reason"))) }
  | .taskBlocked =>
      check (s.status = .retryPending ∨ s.status = .queued)
        (fail e s.status.value (text "only a queued or failed attempt can be blocked"))
      return { s with status := .blocked, lastReason := some (pyStr (e.get (text "reason"))) }
  | .taskCancelRequested =>
      check (s.cancelRequested = false)
        (fail e s.status.value (text "cancellation already requested"))
      return { s with cancelRequested := true }
  | .taskCancelled =>
      check (s.cancelRequested = true)
        (fail e s.status.value (text "cancellation was not requested"))
      check (¬ (s.status = .verifying ∨ s.status = .accepted))
        (fail e s.status.value (text "a result is already being verified or accepted"))
      check (¬ (s.status = .retryPending ∧ decideAfterFailure s = .block)) (fail e s.status.value
        (text "an uncertain non-idempotent outcome must be BLOCKED before it can be cancelled"))
      if s.status = .blocked then
        check (e.get (text "actor") ≠ .null) (fail e s.status.value
          (text "cancelling a blocked task is a human decision and needs an actor"))
        return { s with
          status := .cancelled, resolution := some .cancelledEffectUnknown
          decidedBy := (e.get (text "actor")).str? }
      return { s with
        status := .cancelled
        decidedBy := if Json.hasKey e.payload (text "actor") then (e.get (text "actor")).str?
          else s.decidedBy }
  | _ => .error (fail e s.status.value (text "unhandled event type"))

def created (e : Event) : TaskState where
  taskId := e.taskId.getD []
  status := .queued
  adapter := (e.get (text "adapter")).asStr
  params := e.get (text "params")
  effectClass := (e.get (text "effect_class")).asStr
  maxAttempts := (e.get (text "max_attempts")).asInt
  leaseTtlS := (e.get (text "lease_ttl_s")).asInt
  timeoutS := (e.get (text "timeout_s")).int?
  dependsOn := (e.get (text "depends_on")).str?
  createdSeq := e.seq
  updatedSeq := e.seq

/-- The state of a task after an event, which is refused if it is not a legal next step. -/
def apply (state : Option TaskState) (e : Event) : Except Exc (Option TaskState) :=
  if e.type.isSystem then .ok state
  else if e.type = .taskCreated then
    match state with
    | some s => .error (fail e s.status.value (text "task already exists"))
    | none => .ok (some (created e))
  else
    match state with
    | none => .error (fail e (text "absent") (text "unknown task"))
    | some s =>
        if e.taskId = some s.taskId then
          (transition s e).map fun new => some { new with updatedSeq := e.seq }
        else .error (fail e s.status.value (text "event belongs to another task"))

end Fold

end Courier
