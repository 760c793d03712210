import Courier.Journal
import Courier.Verification
import Courier.Library.Program
import Mathlib.Data.List.Sort
import Mathlib.Data.Rat.Defs

/-!
# The controller

The only writer of the journal.  Beside it the controller keeps the leases of the dispatches that are under way and
the queue of the results to verify.  `draws` gives each new event its id and its time and says which appends fail;
`raised` is what they have raised so far.
-/

namespace Courier

open Except Program Text

/-! ### The state -/

def MAX_LEASE_TTL_S : Int := 3600

def MAX_TIMEOUT_S : Int := 7 * 24 * 3600

def MAX_HEARTBEAT_DISPATCHES : Nat := 256

def MAX_ARTIFACTS : Nat := 1000

def MAX_REASON_CHARS : Nat := 2000

def SUSPEND_GAP_S : Rat := 5

def TASK_FIELDS : List Str :=
  [text "adapter", text "params", text "effect_class", text "max_attempts", text "lease_ttl_s",
    text "timeout_s", text "idempotency_key", text "depends_on"]

def RESULT_FIELDS : List Str :=
  [text "dispatch_id", text "result_id", text "artifacts", text "outcome", text "retryable",
    text "reason"]

/-- `uuid.uuid4().hex`. -/
structure Uuid where
  hex : Str
  length : hex.length = 32
  digits : ∀ c ∈ hex, isHexDigit c = true

/-- What an append takes from the surroundings: the id and the time of a new event, without
the final `Z`, and whether the statements fail. -/
structure Draw where
  eventId : Uuid
  clock : Str
  fails : Bool

/-- What an expiry of a lease would be journaled as. -/
inductive ExpiryReason where
  | ttl
  | restartGrace
  deriving DecidableEq

def ExpiryReason.value : ExpiryReason → Str
  | ttl => text "ttl"
  | restartGrace => text "restart_grace"

structure Lease where
  taskId : Str
  dispatchId : Str
  workerId : Str
  ttlS : Int
  deadline : Rat
  reason : ExpiryReason
  deriving DecidableEq

/-- A verification that is under way outside the lock: the task and its result as they were
read. -/
structure Verification [Platform] where
  task : TaskState
  result : Event

inductive Mode where
  | booting
  | normal
  deriving DecidableEq

variable [Platform]

structure Controller where
  journal : Journal
  mode : Mode
  stopping : Bool
  leases : Dict Str Lease
  verifyQueue : List Str
  verifying : List Verification
  lastTick : Option Rat
  headSeq : Int
  draws : Nat → Draw
  raised : List (EventType × Exc)

def Controller.fresh (j : Journal) (draws : Nat → Draw) : Controller where
  journal := j
  mode := .booting
  stopping := false
  leases := ∅
  verifyQueue := []
  verifying := []
  lastTick := none
  headSeq := 0
  draws := draws
  raised := []

/-- A program of the controller. -/
abbrev Act := EStateM Exc Controller

/-! ### Requests -/

def invalidRequest (message : Str) : Exc :=
  .api { status := 400, code := text "invalid_request", message := message }

/-- The answer to a request the controller refuses. -/
def refusal (status : Nat) (code message : Str) (extra : Members) : Exc :=
  .api { status := status, code := code, message := message, extra := extra }

def requireId (body : Members) (name : Str) : Except Exc Str :=
  match Json.get body name with
  | .str s =>
      if isId s then .ok s
      else .error (invalidRequest (name ++ text " must be a non-empty string of at most "
        ++ natDecimal MAX_ID_LENGTH ++ text " chars"))
  | _ => .error (invalidRequest (name ++ text " must be a non-empty string of at most "
        ++ natDecimal MAX_ID_LENGTH ++ text " chars"))

/-- `_require_id` of a field that may be missing. -/
def optionalId (body : Members) (name : Str) : Except Exc (Option Str) :=
  if Json.get body name = .null then .ok none else (requireId body name).map some

def requireInt (body : Members) (name : Str) (low high : Int) : Except Exc Int :=
  match Json.get body name with
  | .int i =>
      if low ≤ i ∧ i ≤ high then .ok i
      else .error (invalidRequest (name ++ text " must be an integer between " ++ decimal low
        ++ text " and " ++ decimal high))
  | _ => .error (invalidRequest (name ++ text " must be an integer between " ++ decimal low
        ++ text " and " ++ decimal high))

/-- `_require_int` of a field that is not required. -/
def optionalInt (body : Members) (name : Str) (low high : Int) : Except Exc (Option Int) :=
  if Json.get body name = .null then .ok none else (requireInt body name low high).map some

def requireReason (body : Members) : Except Exc Str :=
  match Json.get body (text "reason") with
  | .str s =>
      if blank s = false ∧ s.length ≤ MAX_REASON_CHARS then .ok s
      else .error (invalidRequest (text "reason must be a non-empty string of at most "
        ++ natDecimal MAX_REASON_CHARS ++ text " chars"))
  | _ => .error (invalidRequest (text "reason must be a non-empty string of at most "
        ++ natDecimal MAX_REASON_CHARS ++ text " chars"))

/-- `_require_reason` where none is required. -/
def optionalReason (body : Members) : Except Exc (Option Str) :=
  if Json.get body (text "reason") = .null then .ok none else (requireReason body).map some

def onlyFields (body : Json) (allowed : List Str) : Except Exc Members :=
  match body with
  | .obj d =>
      if (d.map Prod.fst).filter (· ∉ allowed) = [] then .ok d
      else .error (invalidRequest (text "unknown field(s): "
        ++ (text ", ").intercalate ((d.map Prod.fst).filter (· ∉ allowed))))
  | _ => .error (invalidRequest (text "request body must be a JSON object"))

/-- `value in choices`, which raises for a value that cannot be hashed. -/
def requireMember (choices : List Str) (value : Json) (message : Str) : Except Exc Str :=
  match value with
  | .arr _ => .error .typeError
  | .obj _ => .error .typeError
  | .str s => if s ∈ choices then .ok s else .error (invalidRequest message)
  | _ => .error (invalidRequest message)

/-- `ADAPTER_NAME.match`, where `$` also matches before a last line feed. -/
def isAdapterName (s : Str) : Bool :=
  let name := if s.getLast? = some 10 then s.dropLast else s
  name.length ≤ 64 && name.head?.any (fun c => 97 ≤ c && c ≤ 122)
    && name.all fun c => (97 ≤ c && c ≤ 122) || isDigit c || c = 95

/-- The stable key of the external effect a task intends. -/
def effectKey (taskId : Str) : Str :=
  text "cfx-" ++ (Platform.sha256 (text "courier-effect-v1:" ++ taskId)).take 40

/-- A member of an object that may be left out. -/
def optionalMember (name : Str) (value : Option Json) : Members :=
  (value.map fun v => (name, v)).toList

/-! ### New events -/

/-- The arguments of a new event. -/
structure Draft where
  type : EventType
  taskId : Option Str := none
  attempt : Option Int := none
  dispatchId : Option Str := none
  workerId : Option Str := none
  resultId : Option Str := none
  payload : Members := []
  dedupeKey : Option Str := none

/-- The fields of a new event, with the default id and time. -/
def Draft.fields (d : Draft) (draw : Draw) : EventFields where
  type := d.type
  taskId := d.taskId
  attempt := d.attempt
  dispatchId := d.dispatchId
  workerId := d.workerId
  resultId := d.resultId
  payload := d.payload
  eventId := draw.eventId.hex
  tsUtc := draw.clock ++ text "Z"
  dedupeKey := d.dedupeKey

def lastReasonOr (s : TaskState) : Str :=
  if s.lastReason.getD [] = [] then text "attempt failed" else s.lastReason.getD []

/-- The event `_decide` journals for a decision. -/
def decisionDraft (s : TaskState) : Decision → Draft
  | .retry =>
      { type := .taskRetryScheduled, taskId := s.taskId, attempt := s.attempt
        payload := [(text "reason", .str (lastReasonOr s))] }
  | .fail =>
      { type := .taskFailed, taskId := s.taskId
        payload := [(text "reason", .str (lastReasonOr s))] }
  | .block =>
      { type := .taskBlocked, taskId := s.taskId
        payload := [(text "reason", .str (text "outcome of " ++ s.effectClass ++ text " attempt "
          ++ decimal s.attempt ++ text " is unknown (" ++ lastReasonOr s
          ++ text "); needs a human decision"))] }
  | .cancel =>
      { type := .taskCancelled, taskId := s.taskId
        payload := [(text "reason", .str (text "cancelled"))] }

/-! ### Listing the tasks -/

def listedBefore (s t : TaskState) : Prop :=
  s.createdSeq.getD 0 < t.createdSeq.getD 0 ∨
    s.createdSeq.getD 0 = t.createdSeq.getD 0 ∧ s.taskId ≤ t.taskId

instance : DecidableRel listedBefore :=
  fun _ _ => inferInstanceAs (Decidable (_ ∨ _ ∧ _))

/-- `Journal.tasks`, of one status if one is given. -/
def Journal.listTasks (j : Journal) (status : Option TaskStatus) : List TaskState :=
  (j.tasks.values.filter fun s => status.all (s.status = ·)).insertionSort listedBefore

namespace Controller

/-! ### Reading the journal -/

/-- `Journal.task`. -/
def readTask (taskId : Str) : Act (Option TaskState) := do
  lift (bindAll [.text taskId])
  let c ← get
  return c.journal.task taskId

/-- `Journal.get_event_by_dedupe_key`. -/
def readEventByKey (key : Option Str) : Act (Option Event) := do
  lift (bindAll [.ofOption key])
  let c ← get
  return key.bind c.journal.getEventByDedupeKey

/-- `Journal.claim_for_dispatch`. -/
def readClaim (dispatchId : Str) : Act (Option Event) := do
  lift (bindAll [.text dispatchId])
  let c ← get
  return c.journal.claimForDispatch dispatchId

/-! ### Writing the journal -/

/-- Take the next draw from the surroundings. -/
def nextDraw : Act Draw := do
  let c ← get
  set { c with draws := fun n => c.draws (n + 1) }
  return c.draws 0

/-- `Event(...)`. -/
def newEvent (d : Draft) : Act Event := do
  let draw ← nextDraw
  lift (Event.build (d.fields draw))

/-- Note what the attempt to journal an event raises. -/
def noting {α : Type} (type : EventType) (m : Act α) : Act α :=
  tryCatch m fun why => do
    modify fun c => { c with raised := c.raised ++ [(type, why)] }
    throw why

def append (e : Event) : Act AppendResult :=
  noting e.type do
    let draw ← nextDraw
    if draw.fails then
      throw .environment
    let c ← get
    let (result, journal) ← lift (c.journal.append e)
    set { c with
      journal := journal
      headSeq := if result.duplicate then c.headSeq else result.event.seq.getD 0 }
    return result

/-- `self._append(Event(...))`. -/
def record (d : Draft) : Act AppendResult := do
  let e ← noting d.type (newEvent d)
  append e

def complete (s : TaskState) : Act Unit := do
  let _ ← record {
    type := .taskComplete, taskId := s.taskId, attempt := s.attempt
    dispatchId := s.dispatchId, resultId := s.acceptedResultId }

/-- `_decide`: journal the only legal next step for a task in `RETRY_PENDING`. -/
protected def decide (s : TaskState) : Act Unit := do
  lift (check (s.status = .retryPending) .valueError)
  let _ ← record (decisionDraft s (decideAfterFailure s))

/-! ### Guards -/

/-- `_locked`: the lock is acquired in time unless the controller is busy. -/
def locked {α : Type} (busy : Bool) (m : Act α) : Act α := do
  if busy then
    throw (refusal 503 "busy" "controller is busy; retry" [])
  m

def requireWritable : Act Unit := do
  let c ← get
  if c.stopping then
    throw (refusal 503 "stopping" "controller is shutting down" [])
  if c.mode ≠ .normal then
    throw (refusal 503 "degraded_readonly" "controller is read-only" [])

/-- A row that must be there: an attribute of `None` is read otherwise. -/
def require {α : Type} : Option α → Act α
  | some a => pure a
  | none => throw .attributeError

end Controller

end Courier
