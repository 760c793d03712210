import Courier.Events
import Courier.Library.Sql

/-!
# Stored events

A row of the `events` table, and the way between rows and events: `eventRow` is what an
append inserts, `Event.fromRow` what every reader of the table constructs from a row.
-/

namespace Courier

open Except Text

/-- A row of the `events` table. -/
structure EventRow where
  seq : SqlValue
  eventId : SqlValue
  schemaV : SqlValue
  type : SqlValue
  taskId : SqlValue
  attempt : SqlValue
  dispatchId : SqlValue
  workerId : SqlValue
  resultId : SqlValue
  dedupeKey : SqlValue
  tsUtc : SqlValue
  payload : SqlValue
  prevHash : SqlValue
  hash : SqlValue
  deriving DecidableEq

/-- The columns of a row, in the order of the table. -/
def EventRow.values (row : EventRow) : List SqlValue :=
  [row.seq, row.eventId, row.schemaV, row.type, row.taskId, row.attempt, row.dispatchId,
    row.workerId, row.resultId, row.dedupeKey, row.tsUtc, row.payload, row.prevHash, row.hash]

/-! ### Reading columns -/

/-- A required text column. -/
def readText (name : Str) (v : SqlValue) : Except Exc Str :=
  match v with
  | .text s => .ok s
  | _ => .error (.eventValidation (name ++ text " must be a non-empty string of at most "
      ++ natDecimal MAX_ID_LENGTH ++ text " chars"))

def readOption (name : Str) (v : SqlValue) : Except Exc (Option Str) :=
  match v with
  | .null => .ok none
  | v => (readText name v).map some

def readInt (name : Str) (v : SqlValue) : Except Exc (Option Int) :=
  match v with
  | .null => .ok none
  | .integer i => .ok (some i)
  | _ => .error (.eventValidation (name ++ text " must be an integer >= 1 and <= "
      ++ decimal MAX_ATTEMPTS_LIMIT))

/-- The event type a column names. -/
def readType (v : SqlValue) : Except Exc EventType :=
  match v.text?.bind EventType.ofValue with
  | some t => .ok t
  | none => .error (.eventValidation (text "unknown event type"))

def readPayload (v : Json) : Except Exc Members :=
  match v with
  | .obj d => .ok d
  | _ => .error (.eventValidation (text "payload must be a JSON object"))

@[simp]
theorem readText_text (name s : Str) :
  readText name (.text s) = .ok s
  := rfl

@[simp]
theorem readOption_ofOption (name : Str) (o : Option Str) :
  readOption name (.ofOption o) = .ok o
  := by
  cases o <;> rfl

@[simp]
theorem readInt_ofInt (name : Str) (o : Option Int) :
  readInt name (.ofInt o) = .ok o
  := by
  cases o <;> rfl

@[simp]
theorem readType_value (t : EventType) :
  readType (.text t.value) = .ok t
  := by
  simp [readType, SqlValue.text?]

section Rows

variable [Platform]

/-- The row an append inserts for a sealed event. -/
def eventRow (e : Event) : EventRow where
  seq := .ofInt e.seq
  eventId := .text e.eventId
  schemaV := .integer SCHEMA_VERSION
  type := .text e.type.value
  taskId := .ofOption e.taskId
  attempt := .ofInt e.attempt
  dispatchId := .ofOption e.dispatchId
  workerId := .ofOption e.workerId
  resultId := .ofOption e.resultId
  dedupeKey := .ofOption e.dedupeKey
  tsUtc := .text e.tsUtc
  payload := .text (canonicalJson (.obj e.payload))
  prevHash := .ofOption e.prevHash
  hash := .ofOption e.hash

/-- `json.loads` of a text. -/
def loadsText (s : Str) : Except Exc Json :=
  if Platform.tooDeep s then .error .recursion
  else match Json.loads s with
    | some v => .ok v
    | none => .error .valueError

/-- `json.loads` of a column. -/
def loadsValue : SqlValue → Except Exc Json
  | .text s => loadsText s
  | .blob bytes =>
      match Platform.decodeBytes bytes with
      | some s => loadsText s
      | none => .error .valueError
  | _ => .error .typeError

/-- `Event.from_row`.  Of a row with several faults another one may be reported first. -/
def Event.fromRow (row : EventRow) : Except Exc Event := do
  let v ← loadsValue row.payload
  let type ← readType row.type
  let payload ← readPayload v
  check (row.schemaV = .integer SCHEMA_VERSION) (.eventValidation (text "unsupported schema_v"))
  let eventId ← readText (text "event_id") row.eventId
  let tsUtc ← readText (text "ts_utc") row.tsUtc
  let dedupeKey ← readOption (text "dedupe_key") row.dedupeKey
  let taskId ← readOption (text "task_id") row.taskId
  let dispatchId ← readOption (text "dispatch_id") row.dispatchId
  let workerId ← readOption (text "worker_id") row.workerId
  let resultId ← readOption (text "result_id") row.resultId
  let attempt ← readInt (text "attempt") row.attempt
  Event.build {
    type := type, taskId := taskId, attempt := attempt, dispatchId := dispatchId
    workerId := workerId, resultId := resultId, payload := payload, eventId := eventId
    tsUtc := tsUtc, dedupeKey := dedupeKey, seq := row.seq.integer?
    prevHash := row.prevHash.text?, hash := row.hash.text? }

theorem fromRow_eventRow (e : Event) :
  Event.fromRow (eventRow e) = .ok e
  := by
  have hloads : loadsText (canonicalJson (.obj e.payload)) = .ok (.obj e.payload) := by
    simp only [loadsText, e.shallow, Bool.false_eq_true, if_false]
    rw [Json.loads_dumps e.canonical]
  have hbuild := e.build_self
  simp [Event.fromRow, eventRow, loadsValue, hloads, readPayload, check, bind, Except.bind,
    hbuild]

end Rows

end Courier
