import Courier.Controller

/-!
# The requests

What the controller does with a request of a worker or of a human: each is checked, then
handled under the lock.  A request takes the clock, fresh ids and whether the lock was busy as
arguments.
-/

namespace Courier

open Except Program Text
open Json (truthy)

variable [Platform]

/-! ### Answers -/

structure CreateReply where
  status : Nat
  taskId : Str
  duplicate : Bool
  deriving DecidableEq

/-- What a worker is asked to run. -/
structure Spec where
  adapter : Str
  params : Json
  effectClass : Str
  timeoutS : Option Int
  effectKey : Str
  input : Option Json
  deriving DecidableEq

structure ClaimReply where
  taskId : Str
  attempt : Int
  dispatchId : Str
  workerId : Str
  ttlS : Int
  heartbeatS : Rat
  spec : Spec
  deriving DecidableEq

inductive StartStatus where
  | started
  | alreadyStarted
  deriving DecidableEq

structure StartReply where
  status : StartStatus
  taskId : Str
  deriving DecidableEq

structure HeartbeatReply where
  stop : List Str
  cancel : List Str
  deriving DecidableEq

inductive ResultStatus where
  | ackDuplicate
  | acceptedForVerify
  deriving DecidableEq

structure ResultReply where
  status : ResultStatus
  taskId : Str
  seq : Option Int
  deriving DecidableEq

structure ResolveReply where
  status : TaskStatus
  decision : Str
  duplicate : Bool
  deriving DecidableEq

/-- The decisions a blocked task accepts. -/
inductive HumanDecision where
  | effectConfirmed
  | retryAuthorized
  | cancel
  deriving DecidableEq

namespace HumanDecision

def eventType : HumanDecision → EventType
  | effectConfirmed => .effectConfirmed
  | retryAuthorized => .retryAuthorized
  | cancel => .taskCancelled

def value : HumanDecision → Str
  | effectConfirmed => text "effect_confirmed"
  | retryAuthorized => text "retry_authorized"
  | cancel => text "cancel"

def ofValue (name : Str) : Option HumanDecision :=
  [effectConfirmed, retryAuthorized, cancel].find? fun d => d.value = name

end HumanDecision

def Lease.renewed (lease : Lease) (now : Rat) : Lease :=
  { lease with deadline := now + lease.ttlS, reason := .ttl }

def heartbeatInterval (ttlS : Int) : Rat :=
  max (1 / 2) (ttlS / 3)

namespace Controller

/-- An event the request may have spoiled: what is wrong with it is wrong with the request. -/
def requestedEvent (d : Draft) : Act Event :=
  tryCatch (newEvent d) fun
    | .eventValidation message => throw (invalidRequest message)
    | why => throw why

/-! ### Creation -/

def newTaskId (body : Members) (uuid : Uuid) : Except Exc Str :=
  if Json.get body (text "idempotency_key") = .null then .ok (text "task-" ++ uuid.hex)
  else do
    let key ← requireId body (text "idempotency_key")
    check (Encodable key) .unicodeEncode
    return text "task-" ++ (Platform.sha256 key).take 32

/-- What `create_task` journals. -/
def createdDraft (taskId : Str) (body : Members) (timeoutS : Option Int)
    (dependsOn : Option Str) : Draft where
  type := .taskCreated
  taskId := taskId
  payload := (text "adapter", Json.get body (text "adapter"))
    :: optionalMember (text "depends_on") (dependsOn.map .str)
    ++ [(text "effect_class", Json.get body (text "effect_class")),
      (text "lease_ttl_s", Json.get body (text "lease_ttl_s")),
      (text "max_attempts", Json.get body (text "max_attempts")),
      (text "params", Json.get body (text "params"))]
    ++ optionalMember (text "timeout_s") (timeoutS.map .int)

def checkCreation (body : Json) (uuid : Uuid) : Except Exc (Str × Members × Option Int × Option Str) := do
  let body ← onlyFields body TASK_FIELDS
  let adapter ← requireId body (text "adapter")
  check (isAdapterName adapter = true)
    (invalidRequest (text "adapter must match [a-z][a-z0-9_]\x7b0,63\x7d"))
  check (isObject (Json.get body (text "params")) = true)
    (invalidRequest (text "params must be a JSON object"))
  let _ ← requireMember EFFECT_CLASSES (Json.get body (text "effect_class"))
    (text "effect_class must be one of ['idempotent', 'non_idempotent']")
  let _ ← requireInt body (text "max_attempts") 1 MAX_ATTEMPTS_LIMIT
  let _ ← requireInt body (text "lease_ttl_s") 1 MAX_LEASE_TTL_S
  let timeoutS ← optionalInt body (text "timeout_s") 1 MAX_TIMEOUT_S
  let taskId ← newTaskId body uuid
  let dependsOn ← optionalId body (text "depends_on")
  return (taskId, body, timeoutS, dependsOn)

def createTask (body : Json) (uuid : Uuid) (busy : Bool) : Act CreateReply := do
  requireWritable
  let (taskId, body, timeoutS, dependsOn) ← lift (checkCreation body uuid)
  let e ← requestedEvent (createdDraft taskId body timeoutS dependsOn)
  locked busy do
    if let some d := dependsOn then
      let dependency ← readTask d
      if dependency = none then
        throw (refusal 400 "unknown_dependency" "depends_on names a task that does not exist" [])
    let result ← tryCatch (append e) fun
      | .dedupeConflict _ => throw (refusal 409 "idempotency_conflict"
          "idempotency_key was already used for a different task" [])
      | why => throw why
    return { status := if result.duplicate then 200 else 201, taskId, duplicate := result.duplicate }

/-! ### Claims -/

def resultKey (dispatchId resultId : Option Str) : Option Str :=
  defaultDedupeKey .resultReady none none dispatchId resultId

def artifactRefs (result : EventFields) : List Json :=
  (result.get (text "artifacts")).asItems.map fun a =>
    .obj [(text "path", Json.get a.asMembers (text "path")),
      (text "sha256", Json.get a.asMembers (text "sha256"))]

def boundInput (dep : TaskState) (result : EventFields) : Json :=
  .obj [(text "artifacts", .arr (artifactRefs result)),
    (text "dispatch_id", Event.optionJson dep.dispatchId),
    (text "result_id", Event.optionJson dep.acceptedResultId),
    (text "task_id", .str dep.taskId)]

def failDependent (s : TaskState) (dependsOn : Str) (why : Str) : Act (Option Json) := do
  let _ ← record {
    type := .taskFailed, taskId := s.taskId
    payload := [(text "reason", .str (text "dependency " ++ dependsOn
      ++ text " cannot provide an input: " ++ why))] }
  return none

/-- `_verified_input`: the verified result a dependent task may run on, if there is one. -/
def verifiedInput (s : TaskState) (dependsOn : Str) : Act (Option Json) := do
  match ← readTask dependsOn with
  | none => failDependent s dependsOn (text "it is missing")
  | some dep =>
      if dep.verified then
        let result ← readEventByKey (resultKey dep.dispatchId dep.acceptedResultId)
        match result with
        | some result =>
            if truthy (result.get (text "artifacts")) then
              return some (boundInput dep result.toEventFields)
            failDependent s dependsOn (text "its verified result names no artifact")
        | none => failDependent s dependsOn (text "its verified result names no artifact")
      else if dep.status.isTerminal then
        failDependent s dependsOn
          (text "it ended " ++ dep.status.value ++ text " without a verified result")
      else
        return none

def newDispatchId (uuid : Uuid) : Str :=
  text "dsp-" ++ uuid.hex

/-- What `claim` journals. -/
def claimedDraft (s : TaskState) (workerId dispatchId : Str) (bound : Option Json) : Draft where
  type := .taskClaimed
  taskId := s.taskId
  attempt := some (s.attempt + 1)
  dispatchId := dispatchId
  workerId := workerId
  payload := optionalMember (text "input") bound ++ [(text "ttl_s", .int s.leaseTtlS)]

def claimTask (s : TaskState) (workerId : Str) (uuid : Uuid) (now : Rat) (bound : Option Json) :
    Act ClaimReply := do
  let dispatchId := newDispatchId uuid
  let _ ← record (claimedDraft s workerId dispatchId bound)
  modify fun c => { c with leases := c.leases.set dispatchId {
    taskId := s.taskId, dispatchId, workerId, ttlS := s.leaseTtlS
    deadline := now + s.leaseTtlS, reason := .ttl } }
  return {
    taskId := s.taskId, attempt := s.attempt + 1, dispatchId, workerId, ttlS := s.leaseTtlS
    heartbeatS := heartbeatInterval s.leaseTtlS
    spec := {
      adapter := s.adapter, params := s.params, effectClass := s.effectClass
      timeoutS := s.timeoutS, effectKey := effectKey s.taskId, input := bound } }

def claimFirst (workerId : Str) (uuid : Uuid) (now : Rat) :
    List TaskState → Act (Option ClaimReply)
  | [] => return none
  | s :: rest => do
      if s.cancelRequested then
        claimFirst workerId uuid now rest
      else match s.dependsOn with
        | none => some <$> claimTask s workerId uuid now none
        | some dependsOn => do
            match ← verifiedInput s dependsOn with
            | none => claimFirst workerId uuid now rest
            | some bound => some <$> claimTask s workerId uuid now (some bound)

def claim (body : Json) (uuid : Uuid) (now : Rat) (busy : Bool) : Act (Option ClaimReply) := do
  requireWritable
  let body ← lift (onlyFields body [text "worker_id", text "resource_state"])
  let workerId ← lift (requireId body (text "worker_id"))
  locked busy do
    let c ← get
    claimFirst workerId uuid now (c.journal.listTasks (some .queued))

def claimOf (dispatchId : Str) : Act Event := do
  match ← readClaim dispatchId with
  | some e => return e
  | none => throw (refusal 404 "unknown_dispatch" "dispatch_id was never issued" [])

/-! ### Starts -/

def statusMember (s : TaskState) : Members :=
  [(text "task_status", .str s.status.value)]

def start (body : Json) (busy : Bool) : Act StartReply := do
  requireWritable
  let body ← lift (onlyFields body [text "dispatch_id", text "worker_id"])
  let dispatchId ← lift (requireId body (text "dispatch_id"))
  locked busy do
    let claim ← claimOf dispatchId
    if Json.get body (text "worker_id") ≠ .null
        ∧ Json.get body (text "worker_id") ≠ Event.optionJson claim.workerId then
      throw (refusal 409 "wrong_worker" "dispatch is held by another worker" [])
    let task ← readTask claim.task
    let s ← require task
    if s.dispatchId ≠ some dispatchId ∨ s.status.isActiveLease = false then
      throw (refusal 409 "stale_dispatch" "dispatch is no longer active" (statusMember s))
    if s.cancelRequested then
      throw (refusal 409 "cancel_requested" "task cancellation was requested; do not start" [])
    if s.status = .running then
      return { status := .alreadyStarted, taskId := s.taskId }
    let _ ← record {
      type := .taskStarted, taskId := s.taskId, attempt := claim.attempt
      dispatchId := dispatchId, workerId := claim.workerId }
    return { status := .started, taskId := s.taskId }

/-! ### Heartbeats -/

def reportedIds (value : Json) : Except Exc (List Str) :=
  match value with
  | .arr items =>
      if items.length ≤ MAX_HEARTBEAT_DISPATCHES ∧ ∀ d ∈ items, (d.str?.any (isId ·)) = true then
        .ok (items.filterMap Json.str?)
      else .error (invalidRequest (text "dispatch_ids must be a list of at most "
        ++ natDecimal MAX_HEARTBEAT_DISPATCHES ++ text " ids"))
  | _ => .error (invalidRequest (text "dispatch_ids must be a list of at most "
        ++ natDecimal MAX_HEARTBEAT_DISPATCHES ++ text " ids"))

def sortedSet (ids : List Str) : List Str :=
  ids.dedup.insertionSort (· ≤ ·)

def renewLeases (workerId : Str) (now : Rat) : List Str → Act (List Str × List Str)
  | [] => return ([], [])
  | dispatchId :: rest => do
      let c ← get
      match c.leases.get? dispatchId with
      | none =>
          let (stop, cancel) ← renewLeases workerId now rest
          return (dispatchId :: stop, cancel)
      | some lease =>
          if lease.workerId ≠ workerId then
            let (stop, cancel) ← renewLeases workerId now rest
            return (dispatchId :: stop, cancel)
          else
            let task ← readTask lease.taskId
            modify fun c => { c with
              leases := c.leases.set dispatchId (lease.renewed now) }
            let s ← require task
            let (stop, cancel) ← renewLeases workerId now rest
            return (stop, if s.cancelRequested then dispatchId :: cancel else cancel)

def confirmStops (reported : List Str) : List Lease → Act Unit
  | [] => return ()
  | lease :: rest => do
      if lease.dispatchId ∈ reported then
        confirmStops reported rest
      else
        let task ← readTask lease.taskId
        let s ← require task
        if s.cancelRequested ∧ s.status.isActiveLease ∧ s.dispatchId = some lease.dispatchId then
          let _ ← record {
            type := .taskCancelled, taskId := s.taskId
            payload := [(text "reason", .str (text "worker confirmed stop"))] }
          modify fun c => { c with leases := c.leases.erase lease.dispatchId }
        confirmStops reported rest

def heartbeat (body : Json) (now : Rat) (busy : Bool) : Act HeartbeatReply := do
  requireWritable
  let body ← lift (onlyFields body
    [text "worker_id", text "dispatch_ids", text "resource_state"])
  let workerId ← lift (requireId body (text "worker_id"))
  let reported ← lift (reportedIds (Json.get body (text "dispatch_ids")))
  locked busy do
    let (stop, cancel) ← renewLeases workerId now (sortedSet reported)
    let c ← get
    confirmStops reported (c.leases.values.filter fun lease => lease.workerId = workerId)
    return { stop, cancel }

/-! ### Results -/

def checkResult (body : Json) : Except Exc (Str × Str × Members) := do
  let body ← onlyFields body RESULT_FIELDS
  let dispatchId ← requireId body (text "dispatch_id")
  let resultId ← requireId body (text "result_id")
  let artifacts := Json.get body (text "artifacts")
  check (artifacts = .arr artifacts.asItems ∧ artifacts.asItems.length ≤ MAX_ARTIFACTS)
    (invalidRequest (text "artifacts must be a list of at most "
      ++ natDecimal MAX_ARTIFACTS ++ text " entries"))
  let outcome ← requireMember RESULT_OUTCOMES (Json.get body (text "outcome"))
    (text "outcome must be one of ['failure', 'success']")
  checkWhen (Json.hasKey body (text "reason")) (check
    ((Json.get body (text "reason")).str?.any (·.length ≤ MAX_REASON_CHARS) = true)
    (invalidRequest (text "reason must be a string of at most "
      ++ natDecimal MAX_REASON_CHARS ++ text " chars")))
  return (dispatchId, resultId, [(text "artifacts", artifacts), (text "outcome", .str outcome)]
    ++ optionalMember (text "reason") (body.lookup (text "reason"))
    ++ optionalMember (text "retryable") (body.lookup (text "retryable")))

/-- What `result` journals for the active dispatch. -/
def readyDraft (claim : Event) (dispatchId resultId : Str) (payload : Members) : Draft where
  type := .resultReady
  taskId := claim.taskId
  attempt := claim.attempt
  dispatchId := dispatchId
  workerId := claim.workerId
  resultId := resultId
  payload := payload

/-- What `result` journals for a dispatch that is no longer active. -/
def lateDraft (s : TaskState) (claim : Event) (dispatchId resultId : Str) (payload : Members) :
    Draft where
  type := .lateResultDiscarded
  taskId := s.taskId
  dispatchId := dispatchId
  resultId := resultId
  dedupeKey := some (text "late:" ++ dispatchId ++ text ":" ++ resultId)
  payload := [(text "artifacts", Json.get payload (text "artifacts")),
      (text "attempt", Event.optionInt claim.attempt),
      (text "outcome", Json.get payload (text "outcome")),
      (text "reason", .str (text "dispatch is not the active attempt (task "
        ++ s.status.value ++ text ")")),
      (text "reported_reason", Json.get payload (text "reason"))]
    ++ optionalMember (text "retryable") (payload.lookup (text "retryable"))

/-- Keep a late result as evidence. -/
def discardLate (d : Draft) : Act Unit := do
  let late ← noting d.type (newEvent d)
  tryCatch (do let _ ← append late) fun
    | .transition _ => return ()
    | .dedupeConflict _ => return ()
    | why => throw why

def result (body : Json) (busy : Bool) : Act ResultReply := do
  requireWritable
  let (dispatchId, resultId, payload) ← lift (checkResult body)
  locked busy do
    let claim ← claimOf dispatchId
    let candidate ← requestedEvent (readyDraft claim dispatchId resultId payload)
    match ← readEventByKey candidate.dedupeKey with
    | some existing =>
        if existing.content = candidate.content then
          return { status := .ackDuplicate, taskId := claim.task, seq := existing.seq }
        throw (refusal 409 "result_conflict" "result_id was already used with different content" [])
    | none =>
        let task ← readTask claim.task
        let s ← require task
        if s.dispatchId = some dispatchId ∧ s.status = .running then
          if s.cancelRequested then
            throw (refusal 409 "cancel_requested"
              "task cancellation was requested; result not accepted" [])
          let appended ← append candidate
          modify fun c => { c with
            leases := c.leases.erase dispatchId, verifyQueue := c.verifyQueue ++ [s.taskId] }
          return { status := .acceptedForVerify, taskId := s.taskId, seq := appended.event.seq }
        if s.dispatchId = some dispatchId ∧ s.status = .claimed then
          throw (refusal 409 "not_started" "report /v1/start before a result" [])
        discardLate (lateDraft s claim dispatchId resultId payload)
        throw (refusal 409 "stale_dispatch"
          "result belongs to a superseded or finished dispatch" (statusMember s))

/-! ### Human decisions -/

/-- What `_cancel` journals to request a cancellation or to cancel. -/
def cancelDraft (type : EventType) (s : TaskState) (actor : Option Str) (reason : Str) : Draft where
  type := type
  taskId := s.taskId
  payload := optionalMember (text "actor") (actor.map .str) ++ [(text "reason", .str reason)]

/-- `_cancel`. -/
def cancelTask (s : TaskState) (actor reason : Option Str) : Act TaskStatus := do
  if s.status.isTerminal then
    throw (refusal 409 "terminal" "task already finished" (statusMember s))
  if s.status = .blocked ∧ actor = none then
    throw (refusal 409 "actor_required"
      "cancelling a blocked task is a human decision; name the actor" (statusMember s))
  let s ← if s.cancelRequested then pure s else do
    let _ ← record (cancelDraft .taskCancelRequested s actor
      (reason.getD (text "requested via API")))
    let task ← readTask s.taskId
    require task
  if s.status = .queued ∨ s.status = .blocked then
    let _ ← record (cancelDraft .taskCancelled s actor (reason.getD (text "cancelled")))
  else if s.status = .retryPending then
    Controller.decide s
  let task ← readTask s.taskId
  let s ← require task
  return s.status

def cancelBody (body : Json) : Json :=
  if truthy body then body else .obj []

def cancel (taskId : Str) (body : Json) (busy : Bool) : Act TaskStatus := do
  requireWritable
  let body ← lift (onlyFields (cancelBody body) [text "actor", text "reason"])
  let actor ← lift (optionalId body (text "actor"))
  let reason ← lift (optionalReason body)
  locked busy do
    match ← readTask taskId with
    | none => throw (refusal 404 "unknown_task" "unknown_task" [])
    | some s => cancelTask s actor reason

def checkResolve (body : Json) : Except Exc (HumanDecision × Str × Int × Str) := do
  let body ← onlyFields body
    [text "decision", text "actor", text "attempt", text "reason"]
  let name ← requireMember (HumanDecision.value <$> [.cancel, .effectConfirmed, .retryAuthorized])
    (Json.get body (text "decision"))
    (text "decision must be one of ['cancel', 'effect_confirmed', 'retry_authorized']")
  let actor ← requireId body (text "actor")
  let attempt ← requireInt body (text "attempt") 1 MAX_ATTEMPTS_LIMIT
  let reason ← requireReason body
  return ((HumanDecision.ofValue name).getD .cancel, actor, attempt, reason)

/-- What `resolve` journals for a decision other than a cancellation. -/
def decidedDraft (decision : HumanDecision) (taskId : Str) (attempt : Int) (actor reason : Str) :
    Draft where
  type := decision.eventType
  taskId := taskId
  attempt := attempt
  payload := [(text "actor", .str actor), (text "reason", .str reason)]

def requireBlocked (s : TaskState) (attempt : Int) : Act Unit := do
  if s.status ≠ .blocked then
    throw (refusal 409 "not_blocked" "only a blocked task takes a human decision"
      (statusMember s))
  if attempt ≠ s.attempt then
    throw (refusal 409 "stale_decision" (text "the blocked attempt is " ++ decimal s.attempt)
      ((text "attempt", .int s.attempt) :: statusMember s))

/-- A decision to confirm the effect or to authorise another attempt. -/
def decideBlocked (s : TaskState) (taskId : Str) (decision : HumanDecision) (actor : Str)
    (attempt : Int) (reason : Str) : Act ResolveReply := do
  let draft := decidedDraft decision taskId attempt actor reason
  let candidate ← noting draft.type (newEvent draft)
  match ← readEventByKey candidate.dedupeKey with
  | some existing =>
      if existing.content ≠ candidate.content then
        throw (refusal 409 "decision_conflict" "this attempt was already decided differently" [])
      return { status := s.status, decision := decision.value, duplicate := true }
  | none =>
      requireBlocked s attempt
      if decision = .retryAuthorized ∧ s.cancelRequested then
        throw (refusal 409 "cancel_requested"
          "cancellation was requested; cancel or confirm the effect" [])
      if decision = .retryAuthorized ∧ s.attempt ≥ MAX_ATTEMPTS_LIMIT then
        throw (refusal 409 "attempt_limit"
          (text "attempt limit " ++ decimal MAX_ATTEMPTS_LIMIT ++ text " reached") [])
      let _ ← append candidate
      let task ← readTask taskId
      let s ← require task
      return { status := s.status, decision := decision.value, duplicate := false }

def resolve (taskId : Str) (body : Json) (busy : Bool) : Act ResolveReply := do
  requireWritable
  let (decision, actor, attempt, reason) ← lift (checkResolve body)
  locked busy do
    match ← readTask taskId with
    | none => throw (refusal 404 "unknown_task" "unknown_task" [])
    | some s =>
        if decision = .cancel then
          requireBlocked s attempt
          let status ← cancelTask s (some actor) (some reason)
          return { status, decision := decision.value, duplicate := false }
        decideBlocked s taskId decision actor attempt reason

end Controller

end Courier
