import Courier.Platform
import Courier.Library.Checks
import Courier.Library.RoundTrip

/-!
# Events

The only vocabulary the journal accepts: the types of events, the fields each type must
carry, the validation of payloads, the default keys of de-duplication and the encoding the
hash chain is computed over.  An `Event` is built by `Event.build` only and carries the proof
that `validate` accepted it.
-/

namespace Courier

open Except Text

/-- The canonical encoding of a value. -/
abbrev canonicalJson : Json → Str := Json.dumps

def GENESIS_HASH : Str := List.replicate 64 48

def MAX_ID_LENGTH : Nat := 200

def MAX_ATTEMPTS_LIMIT : Int := 100

def SCHEMA_VERSION : Int := 1

def RETRY_SAFE_EFFECT_CLASS : Str := text "idempotent"

def EFFECT_CLASSES : List Str := [text "idempotent", text "non_idempotent"]

def LEASE_EXPIRY_REASONS : List Str := [text "restart_grace", text "ttl"]

def RESULT_OUTCOMES : List Str := [text "failure", text "success"]

def INPUT_KEYS : List Str :=
  [text "artifacts", text "dispatch_id", text "result_id", text "task_id"]

inductive EventType where
  | taskCreated
  | taskClaimed
  | taskStarted
  | taskProgress
  | resultReady
  | resultAccepted
  | resultRejected
  | taskComplete
  | leaseExpired
  | taskRetryScheduled
  | taskBlocked
  | taskFailed
  | taskCancelRequested
  | taskCancelled
  | effectConfirmed
  | retryAuthorized
  | lateResultDiscarded
  | controllerStarted
  | controllerStopped
  deriving DecidableEq

namespace EventType

/-- The name of an event type, as it is stored. -/
def value : EventType → Str
  | taskCreated => text "TASK_CREATED"
  | taskClaimed => text "TASK_CLAIMED"
  | taskStarted => text "TASK_STARTED"
  | taskProgress => text "TASK_PROGRESS"
  | resultReady => text "RESULT_READY"
  | resultAccepted => text "RESULT_ACCEPTED"
  | resultRejected => text "RESULT_REJECTED"
  | taskComplete => text "TASK_COMPLETE"
  | leaseExpired => text "LEASE_EXPIRED"
  | taskRetryScheduled => text "TASK_RETRY_SCHEDULED"
  | taskBlocked => text "TASK_BLOCKED"
  | taskFailed => text "TASK_FAILED"
  | taskCancelRequested => text "TASK_CANCEL_REQUESTED"
  | taskCancelled => text "TASK_CANCELLED"
  | effectConfirmed => text "EFFECT_CONFIRMED"
  | retryAuthorized => text "RETRY_AUTHORIZED"
  | lateResultDiscarded => text "LATE_RESULT_DISCARDED"
  | controllerStarted => text "CONTROLLER_STARTED"
  | controllerStopped => text "CONTROLLER_STOPPED"

/-- All event types. -/
def all : List EventType :=
  [taskCreated, taskClaimed, taskStarted, taskProgress, resultReady, resultAccepted,
    resultRejected, taskComplete, leaseExpired, taskRetryScheduled, taskBlocked, taskFailed,
    taskCancelRequested, taskCancelled, effectConfirmed, retryAuthorized, lateResultDiscarded,
    controllerStarted, controllerStopped]

def ofValue (name : Str) : Option EventType :=
  all.find? fun t => t.value = name

@[simp]
theorem ofValue_value (t : EventType) :
  ofValue t.value = some t
  := by
  cases t <;> decide

/-- The lifecycle events of the controller, which belong to no task. -/
def isSystem : EventType → Bool
  | controllerStarted => true
  | controllerStopped => true
  | _ => false

/-- The human decisions on a blocked task. -/
def isHumanDecision : EventType → Bool
  | effectConfirmed => true
  | retryAuthorized => true
  | _ => false

end EventType

/-- The fields of an event's envelope that a type may require. -/
inductive Field where
  | taskId
  | attempt
  | dispatchId
  | workerId
  | resultId
  deriving DecidableEq

def Field.name : Field → Str
  | taskId => text "task_id"
  | attempt => text "attempt"
  | dispatchId => text "dispatch_id"
  | workerId => text "worker_id"
  | resultId => text "result_id"

def REQUIRED : EventType → List Field × List Str
  | .taskCreated => ([.taskId], [text "adapter", text "params", text "effect_class",
      text "max_attempts", text "lease_ttl_s"])
  | .taskClaimed => ([.taskId, .attempt, .dispatchId, .workerId], [text "ttl_s"])
  | .taskStarted => ([.taskId, .attempt, .dispatchId, .workerId], [])
  | .taskProgress => ([.taskId, .attempt, .dispatchId], [])
  | .resultReady => ([.taskId, .attempt, .dispatchId, .workerId, .resultId],
      [text "artifacts", text "outcome"])
  | .resultAccepted => ([.taskId, .attempt, .dispatchId, .resultId], [])
  | .resultRejected => ([.taskId, .attempt, .dispatchId, .resultId],
      [text "reason", text "retryable"])
  | .taskComplete => ([.taskId, .attempt, .dispatchId, .resultId], [])
  | .leaseExpired => ([.taskId, .attempt, .dispatchId, .workerId], [text "reason"])
  | .taskRetryScheduled => ([.taskId, .attempt], [text "reason"])
  | .taskBlocked => ([.taskId], [text "reason"])
  | .taskFailed => ([.taskId], [text "reason"])
  | .taskCancelRequested => ([.taskId], [])
  | .taskCancelled => ([.taskId], [])
  | .lateResultDiscarded => ([.taskId, .dispatchId, .resultId], [text "reason"])
  | .effectConfirmed => ([.taskId, .attempt], [text "actor", text "reason"])
  | .retryAuthorized => ([.taskId, .attempt], [text "actor", text "reason"])
  | .controllerStarted => ([], [])
  | .controllerStopped => ([], [])

/-- The text an optional identifier is formatted as. -/
def showOption : Option Str → Str
  | none => text "None"
  | some s => s

def showAttempt : Option Int → Str
  | none => text "None"
  | some i => decimal i

/-- The keys that make the journal itself refuse a second copy of an effect. -/
def defaultDedupeKey (type : EventType) (taskId : Option Str) (attempt : Option Int)
    (dispatchId resultId : Option Str) : Option Str :=
  match type with
  | .taskCreated => some (text "created:" ++ showOption taskId)
  | .taskClaimed => some (text "claim:" ++ showOption taskId ++ text ":" ++ showAttempt attempt)
  | .taskStarted => some (text "start:" ++ showOption dispatchId)
  | .resultReady =>
      some (text "result:" ++ showOption dispatchId ++ text ":" ++ showOption resultId)
  | .resultAccepted => some (text "accepted:" ++ showOption taskId)
  | .taskComplete => some (text "complete:" ++ showOption taskId)
  | .leaseExpired => some (text "lease_expired:" ++ showOption dispatchId)
  | .effectConfirmed => some (text "effect_confirmed:" ++ showOption taskId)
  | .retryAuthorized =>
      some (text "retry_authorized:" ++ showOption taskId ++ text ":" ++ showAttempt attempt)
  | _ => none

/-- The fields of an event.  The schema version is that of this build, so it is no field. -/
structure EventFields where
  type : EventType
  taskId : Option Str := none
  attempt : Option Int := none
  dispatchId : Option Str := none
  workerId : Option Str := none
  resultId : Option Str := none
  payload : Members := []
  eventId : Str
  tsUtc : Str
  dedupeKey : Option Str := none
  seq : Option Int := none
  prevHash : Option Str := none
  hash : Option Str := none
  deriving DecidableEq

/-- The part of an event that decides whether it is a repetition of another one. -/
structure EventContent where
  type : Str
  taskId : Option Str
  attempt : Option Int
  dispatchId : Option Str
  workerId : Option Str
  resultId : Option Str
  payload : Str
  deriving DecidableEq

namespace EventFields

/-- The field is present. -/
def has (e : EventFields) : Field → Bool
  | .taskId => e.taskId.isSome
  | .attempt => e.attempt.isSome
  | .dispatchId => e.dispatchId.isSome
  | .workerId => e.workerId.isSome
  | .resultId => e.resultId.isSome

/-- The identifiers of an event that are present, with their names. -/
def ids (e : EventFields) : List (Str × Str) :=
  [(text "task_id", e.taskId), (text "dispatch_id", e.dispatchId),
    (text "worker_id", e.workerId), (text "result_id", e.resultId)].filterMap
      fun p => p.2.map (p.1, ·)

/-- `payload.get(key)`. -/
def get (e : EventFields) (key : Str) : Json :=
  Json.get e.payload key

end EventFields

/-! ### Validation -/

/-- The text has the length of an identifier. -/
def isId (s : Str) : Prop :=
  s ≠ [] ∧ s.length ≤ MAX_ID_LENGTH

instance (s : Str) : Decidable (isId s) :=
  inferInstanceAs (Decidable (_ ∧ _))

def checkId (name : Str) (value : Json) : Except Exc Unit :=
  check (value.str?.any (isId ·) = true)
    (.eventValidation (name ++ text " must be a non-empty string of at most "
      ++ natDecimal MAX_ID_LENGTH ++ text " chars"))

theorem checkId_eq_ok {name : Str} {value : Json} :
  checkId name value = .ok () ↔ ∃ s, value = .str s ∧ isId s
  := by
  rw [checkId, check_eq_ok]
  constructor
  · intro h
    cases value with
    | str s => exact ⟨s, rfl, by simpa [Json.str?] using h⟩
    | _ => simp [Json.str?] at h
  · rintro ⟨s, rfl, hs⟩
    simpa [Json.str?] using hs

/-- The value is an integer from 1 up to a bound. -/
def isPositiveInt (upper : Option Int) : Json → Bool
  | .int i => 1 ≤ i && upper.all (i ≤ ·)
  | _ => false

def checkPositiveInt (name : Str) (value : Json) (upper : Option Int) : Except Exc Unit :=
  check (isPositiveInt upper value = true)
    (.eventValidation (name ++ text " must be an integer >= 1" ++
      match upper with
      | some u => text " and <= " ++ decimal u
      | none => []))

/-- `value in classes`, which raises for a value that cannot be hashed. -/
def checkMember (classes : List Str) (value : Json) (message : Str) : Except Exc Unit :=
  match value with
  | .arr _ => .error .typeError
  | .obj _ => .error .typeError
  | .str s => check (s ∈ classes) (.eventValidation message)
  | _ => .error (.eventValidation message)

def isHexDigit (c : Nat) : Bool :=
  (48 ≤ c && c ≤ 57) || (97 ≤ c && c ≤ 102)

/-- `re.match(r"^[0-9a-f]{64}$", s)`, where `$` also matches before a last line feed. -/
def isSha256Hex (s : Str) : Bool :=
  s.length = 64 && s.all isHexDigit
    || s.length = 65 && (s.take 64).all isHexDigit && s.getLast? = some 10

/-- An artifact reference: an object with a non-empty path and a hash. -/
def isArtifact [Platform] : Json → Bool
  | .obj d =>
      (Json.get d (text "path")).str?.any (· ≠ [])
        && isSha256Hex (match d.lookup (text "sha256") with
          | none => []
          | some v => pyStr v)
  | _ => false

def checkArtifacts [Platform] : Json → Except Exc Unit
  | .arr artifacts =>
      checkAll (fun a => check (isArtifact a = true)
        (.eventValidation (text "each artifact needs a non-empty path and a lowercase sha256")))
        artifacts
  | _ => .error (.eventValidation (text "artifacts must be a list"))

def isInputObject : Json → Bool
  | .obj d => d.map Prod.fst = INPUT_KEYS
  | _ => false

/-- The input a dependent task is given: the verified result of its dependency. -/
def validateInput [Platform] (value : Json) : Except Exc Unit := do
  check (isInputObject value = true) (.eventValidation
    (text "input must be an object with exactly ['artifacts', 'dispatch_id', 'result_id', 'task_id']"))
  checkId (text "input.task_id") (Json.get value.asMembers (text "task_id"))
  checkId (text "input.dispatch_id") (Json.get value.asMembers (text "dispatch_id"))
  checkId (text "input.result_id") (Json.get value.asMembers (text "result_id"))
  checkArtifacts (Json.get value.asMembers (text "artifacts"))
  check ((Json.get value.asMembers (text "artifacts")).asItems ≠ [])
    (.eventValidation (text "input must reference at least one artifact"))

/-- The value is a Boolean. -/
def isBool : Json → Bool
  | .bool _ => true
  | _ => false

/-- The value is an object. -/
def isObject : Json → Bool
  | .obj _ => true
  | _ => false

def unlessNull (value : Json) (c : Except Exc Unit) : Except Exc Unit :=
  checkWhen (value ≠ .null) c

def validateKind [Platform] (e : EventFields) : Except Exc Unit :=
  match e.type with
  | .taskCreated => do
      checkId (text "adapter") (e.get (text "adapter"))
      check (isObject (e.get (text "params")) = true)
        (.eventValidation (text "params must be an object"))
      checkMember EFFECT_CLASSES (e.get (text "effect_class"))
        (text "effect_class must be one of ['idempotent', 'non_idempotent']")
      checkPositiveInt (text "max_attempts") (e.get (text "max_attempts"))
        (some MAX_ATTEMPTS_LIMIT)
      checkPositiveInt (text "lease_ttl_s") (e.get (text "lease_ttl_s")) none
      unlessNull (e.get (text "timeout_s"))
        (checkPositiveInt (text "timeout_s") (e.get (text "timeout_s")) none)
      unlessNull (e.get (text "depends_on"))
        (checkId (text "depends_on") (e.get (text "depends_on")))
      unlessNull (e.get (text "depends_on"))
        (check ((e.get (text "depends_on")).str? ≠ e.taskId)
          (.eventValidation (text "a task cannot depend on itself")))
  | .taskClaimed => do
      checkPositiveInt (text "ttl_s") (e.get (text "ttl_s")) none
      unlessNull (e.get (text "input")) (validateInput (e.get (text "input")))
  | .resultReady => do
      checkMember RESULT_OUTCOMES (e.get (text "outcome"))
        (text "outcome must be one of ['failure', 'success']")
      checkArtifacts (e.get (text "artifacts"))
      checkWhen (Json.hasKey e.payload (text "retryable"))
        (check (isBool (e.get (text "retryable")) = true)
          (.eventValidation (text "retryable must be a boolean")))
  | .resultRejected =>
      check (isBool (e.get (text "retryable")) = true)
        (.eventValidation (text "retryable must be a boolean"))
  | .leaseExpired =>
      checkMember LEASE_EXPIRY_REASONS (e.get (text "reason"))
        (text "lease expiry reason must be one of ['restart_grace', 'ttl']")
  | _ => .ok ()

def validatePayload [Platform] (e : EventFields) : Except Exc Unit := do
  validateKind e
  checkWhen (e.type.isHumanDecision || Json.hasKey e.payload (text "actor"))
    (checkId (text "actor") (e.get (text "actor")))
  checkWhen e.type.isHumanDecision
    (check ((e.get (text "reason")).str?.any (fun s => !blank s) = true)
      (.eventValidation (e.type.value ++ text " needs a non-empty reason")))

def missingKeys (e : EventFields) : List Str :=
  (REQUIRED e.type).2.filter fun key => !Json.hasKey e.payload key

/-- The checks every event passes, in order. -/
def validate [Platform] (e : EventFields) : Except Exc Unit := do
  checkId (text "event_id") (.str e.eventId)
  check (endsWith e.tsUtc (text "Z") = true)
    (.eventValidation (text "ts_utc must be an ISO-8601 UTC string ending in 'Z'"))
  checkSome (fun key => checkId (text "dedupe_key") (.str key)) e.dedupeKey
  checkAll (fun f => check (e.has f = true)
      (.eventValidation (e.type.value ++ text " requires " ++ f.name)))
    (REQUIRED e.type).1
  checkWhen e.type.isSystem (checkAll (fun f => check (e.has f = false)
      (.eventValidation (e.type.value ++ text " is a system event and takes no " ++ f.name)))
    [.taskId, .attempt, .dispatchId, .workerId, .resultId])
  checkAll (fun p => checkId p.1 (.str p.2)) e.ids
  checkSome (fun n => checkPositiveInt (text "attempt") (.int n) (some MAX_ATTEMPTS_LIMIT))
    e.attempt
  check (missingKeys e = []) (.eventValidation
    (e.type.value ++ text " payload requires " ++ (text ", ").intercalate (missingKeys e)))
  validatePayload e

/-! ### What validation raises -/

/-- An exception of a check: a message, or the failure of a comparison. -/
def Exc.ofCheck (why : Exc) : Prop :=
  why = .typeError ∨ ∃ message, why = .eventValidation message

theorem throws_checkMember (classes : List Str) (value : Json) (message : Str) :
  Throws Exc.ofCheck (checkMember classes value message)
  := by
  cases value <;> simp [checkMember, Exc.ofCheck]

theorem throws_checkArtifacts [Platform] (value : Json) :
  Throws Exc.ofCheck (checkArtifacts value)
  := by
  cases value with
  | arr artifacts =>
    apply throws_checkAll
    simp [Exc.ofCheck]
  | _ => simp [checkArtifacts, Exc.ofCheck]

theorem throws_validateInput [Platform] (value : Json) :
  Throws Exc.ofCheck (validateInput value)
  := by
  unfold validateInput
  repeat' (refine throws_bind ?_ fun _ => ?_)
  all_goals first
    | apply throws_checkArtifacts
    | simp [checkId, Exc.ofCheck]

theorem throws_validateKind [Platform] (e : EventFields) :
  Throws Exc.ofCheck (validateKind e)
  := by
  unfold validateKind
  split
  all_goals
    repeat' (refine throws_bind ?_ fun _ => ?_)
    all_goals first
      | apply throws_checkMember
      | apply throws_checkArtifacts
      | apply throws_checkWhen (throws_validateInput _)
      | (apply throws_checkWhen; simp [checkId, checkPositiveInt, Exc.ofCheck])
      | simp [checkId, checkPositiveInt, Exc.ofCheck]

theorem throws_validate [Platform] (e : EventFields) :
  Throws Exc.ofCheck (validate e)
  := by
  unfold validate validatePayload
  repeat' (refine throws_bind ?_ fun _ => ?_)
  all_goals first
    | apply throws_validateKind
    | (apply throws_checkAll; simp [checkId, Exc.ofCheck])
    | (apply throws_checkSome; simp [checkId, checkPositiveInt, Exc.ofCheck])
    | (apply throws_checkWhen; apply throws_checkAll; simp [Exc.ofCheck])
    | (apply throws_checkWhen; simp [checkId, Exc.ofCheck])
    | simp [checkId, Exc.ofCheck]

/-! ### Events -/

def withDefaultKey (f : EventFields) : EventFields :=
  { f with
    dedupeKey := f.dedupeKey <|>
      defaultDedupeKey f.type f.taskId f.attempt f.dispatchId f.resultId }

@[simp]
theorem withDefaultKey_idem (f : EventFields) :
  withDefaultKey (withDefaultKey f) = withDefaultKey f
  := by
  unfold withDefaultKey
  cases f.dedupeKey with
  | some key => rfl
  | none => cases defaultDedupeKey f.type f.taskId f.attempt f.dispatchId f.resultId <;> rfl

/-- A validated event.  `seq`, `prevHash` and `hash` are assigned by the journal. -/
structure Event [Platform] extends EventFields where
  canonical : (Json.obj payload).wf = true
  shallow : Platform.tooDeep (canonicalJson (.obj payload)) = false
  keyed : withDefaultKey toEventFields = toEventFields
  valid : validate toEventFields = .ok ()

namespace Event

variable [Platform]

@[ext]
theorem ext {e f : Event} (h : e.toEventFields = f.toEventFields) :
  e = f
  := by
  cases e
  cases f
  cases h
  rfl

instance : DecidableEq Event :=
  fun _ _ => decidable_of_iff _ ⟨Event.ext, congrArg _⟩

/-- The constructor of events; the payload is copied through its encoding (`Json.loads_dumps`). -/
def build (f : EventFields) : Except Exc Event :=
  if hc : (Json.obj f.payload).wf = true then
    if hs : Platform.tooDeep (canonicalJson (.obj f.payload)) = false then
      match hv : validate (withDefaultKey f) with
      | .ok () => .ok ⟨withDefaultKey f, hc, hs, withDefaultKey_idem f, hv⟩
      | .error e => .error e
    else .error .recursion
  else .error (.eventValidation (text "payload is not canonical JSON"))

theorem build_eq_ok {f : EventFields} {e : Event} :
  build f = .ok e ↔ e.toEventFields = withDefaultKey f
  := by
  unfold build
  constructor
  · intro h
    split at h
    · split at h
      · split at h
        · cases h
          rfl
        · cases h
      · cases h
    · cases h
  · intro h
    obtain ⟨e, hc, hs, hk, hv⟩ := e
    simp only at h
    subst h
    rw [dif_pos (show (Json.obj f.payload).wf = true from hc),
      dif_pos (show Platform.tooDeep (canonicalJson (.obj f.payload)) = false from hs)]
    split
    · rfl
    · next heq =>
      rw [hv] at heq
      cases heq

theorem build_of_valid {f : EventFields} (hc : (Json.obj f.payload).wf = true)
    (hs : Platform.tooDeep (canonicalJson (.obj f.payload)) = false)
    (hv : validate (withDefaultKey f) = .ok ()) :
  build f = .ok ⟨withDefaultKey f, hc, hs, withDefaultKey_idem f, hv⟩
  := build_eq_ok.mpr rfl

theorem build_self (e : Event) :
  build e.toEventFields = .ok e
  := build_eq_ok.mpr e.keyed.symm

/-! ### What validation establishes -/

theorem valid_iff {e : EventFields} :
  validate e = .ok () ↔
    isId e.eventId ∧ endsWith e.tsUtc (text "Z") = true ∧
    (∀ key, e.dedupeKey = some key → isId key) ∧
    (∀ f ∈ (REQUIRED e.type).1, e.has f = true) ∧
    (e.type.isSystem = true →
      ∀ f ∈ [Field.taskId, .attempt, .dispatchId, .workerId, .resultId], e.has f = false) ∧
    (∀ p ∈ e.ids, isId p.2) ∧
    (∀ n, e.attempt = some n → 1 ≤ n ∧ n ≤ MAX_ATTEMPTS_LIMIT) ∧
    missingKeys e = [] ∧ validatePayload e = .ok ()
  := by
  simp only [validate, bind_unit_eq_ok, check_eq_ok, checkSome_eq_ok, checkAll_eq_ok,
    checkWhen_eq_ok, checkId, checkPositiveInt, isPositiveInt, Json.str?, Option.any_some,
    Option.all_some, decide_eq_true_eq, Bool.and_eq_true]

/-- What makes two submissions the same effect: ids and time are excluded. -/
def content (e : Event) : EventContent where
  type := e.type.value
  taskId := e.taskId
  attempt := e.attempt
  dispatchId := e.dispatchId
  workerId := e.workerId
  resultId := e.resultId
  payload := canonicalJson (.obj e.payload)

def optionJson : Option Str → Json
  | none => .null
  | some s => .str s

def optionInt : Option Int → Json
  | none => .null
  | some i => .int i

/-- Every stored column of an event but the hash. -/
def material (e : EventFields) (payloadText : Str) : Json :=
  .arr [.int SCHEMA_VERSION, optionInt e.seq, .str e.eventId, .str e.type.value,
    optionJson e.taskId, optionInt e.attempt, optionJson e.dispatchId, optionJson e.workerId,
    optionJson e.resultId, optionJson e.dedupeKey, .str e.tsUtc, .str payloadText,
    optionJson e.prevHash]

def chainHash (e : EventFields) (payloadText : Str) : Except Exc Str :=
  if Encodable (canonicalJson (material e payloadText)) then
    .ok (Platform.sha256 (canonicalJson (material e payloadText)))
  else .error .unicodeEncode

def place (e : Event) (seq : Int) (prevHash : Str) (hash : Option Str) : Event :=
  { e with seq := some seq, prevHash := some prevHash, hash := hash
           canonical := e.canonical
           shallow := e.shallow
           keyed := by
             have hkey := congrArg EventFields.dedupeKey e.keyed
             simp only [withDefaultKey] at hkey ⊢
             rw [hkey]
           valid := e.valid }

/-- The event as the journal stores it at `seq`. -/
def sealed (e : Event) (seq : Int) (prevHash : Str) : Except Exc Event :=
  (chainHash (e.place seq prevHash none).toEventFields (canonicalJson (.obj e.payload))).map
    fun hash => e.place seq prevHash (some hash)

theorem sealed_eq_ok {e p : Event} {seq : Int} {prevHash : Str} :
  e.sealed seq prevHash = .ok p ↔ ∃ hash, p = e.place seq prevHash (some hash) ∧
    chainHash (e.place seq prevHash none).toEventFields (canonicalJson (.obj e.payload))
      = .ok hash
  := by
  unfold sealed
  cases chainHash (e.place seq prevHash none).toEventFields (canonicalJson (.obj e.payload)) with
  | error why => simp [Except.map]
  | ok hash => simp [Except.map, eq_comm]

end Event

end Courier
