import Courier.Controller.Work
import Courier.Coordination
import Courier.GoalContract

/-!
# The bridge from the coordination ledger to the controller

One pass of the bridge reports on the missions it has posted (`feedback`), then claims those it is offered and posts a
task for each (`dispatch`).  A mapping is saved before its task is posted, so that a later pass repeats the request
under the same key.  At every access others write to the ledger and talk to the controller, the process may die, and
requests and replies may be lost.
-/

namespace Courier.Bridge

open Calendar Program Text
open Coordination hiding apply EventType
open Json (dumpsAscii truthy hasKey)

/-! ### State -/

/-- The exceptions that end a pass. -/
inductive BridgeError where
  | config
  | controllerDown
  | other (why : Exc)
  deriving DecidableEq

inductive MappingStatus where
  | posted
  | finalDone
  | blocked
  | error
  deriving DecidableEq

/-- What the state file says of a mission. -/
structure Mapping where
  taskId : Str
  claimEventId : Str
  idempotencyKey : Str
  posted : Bool
  acceptedResultId : Option Str
  attempt : Option Int
  specFingerprint : Str
  sourceSha : Str
  evidenceRef : Str
  goalId : Option Str
  goalFingerprint : Option Str
  status : Option MappingStatus
  reason : Option Str
  updatedAt : Option Str
  deriving DecidableEq

structure Reply where
  status : Nat
  body : Option Json

/-- A request that arrives late, or once more: its place among those that were sent, and what the controller meets. -/
structure Arrival where
  place : Nat
  uuid : Uuid
  busy : Bool

/-- What happens at an access: what others write and ask before, the requests that arrive, whether the process dies, the
clock, and what becomes of a request. -/
structure Surrounding where
  events : List CoordinationEvent
  requests : List Request
  arrivals : List Arrival
  interrupted : Bool
  now : DateTime
  delivered : Bool
  uuid : Uuid
  busy : Bool
  reply : Option Reply

/-- What was done to the ledger: an event was written, by whom and for a mission that is done or not, or was found
there. -/
inductive Entry where
  | written (log : List CoordinationEvent) (event : CoordinationEvent) (own closed : Bool)
  | found (log : List CoordinationEvent) (event : CoordinationEvent)

section Programs

variable [Platform]

/-- The ledger, the state file and its copy, the controller, the requests that were sent, and what is to come; and the
mission whose final event is not in the state file yet, the entries, and the tasks that were created. -/
structure World where
  log : List CoordinationEvent
  file : Dict Str Mapping
  memory : Dict Str Mapping
  controller : Controller
  sent : List (Str × Json)
  surroundings : Nat → Surrounding
  reporting : Option Str
  entries : List Entry
  created : List (Str × Str)

/-- A program of the bridge. -/
abbrev BridgeM := EStateM BridgeError World

/-- A computation that may raise an exception of the program. -/
def orRaise {α : Type} (x : Except Exc α) : BridgeM α :=
  match x with
  | .ok a => pure a
  | .error why => throw (.other why)

/-- The bridge takes the mission for done, or is about to. -/
def World.closed (w : World) (missionId : Str) : Bool :=
  w.reporting = some missionId || (w.file.get? missionId).any (·.status = some .finalDone)

def World.write (w : World) (own : Bool) (event : CoordinationEvent) : World :=
  { w with
    log := w.log ++ [event]
    entries := w.entries ++ [.written w.log event own (w.closed event.missionId)] }

def World.report (w : World) (event : CoordinationEvent) : World :=
  { w with reporting := if event.eventType = .final then some event.missionId else none }

/-- The bridge finds that the ledger has an event. -/
def World.find (w : World) (event : CoordinationEvent) : World :=
  { w.report event with entries := w.entries ++ [.found w.log event] }

def newTasks (before after : Controller) : List Str :=
  after.journal.tasks.keys.filter fun taskId => taskId ∉ before.journal.tasks.keys

def World.post (w : World) (uuid : Uuid) (busy : Bool) (missionId : Str) (body : Json) : World :=
  let controller := (w.controller.step (.createTask body uuid busy)).2
  { w with
    controller := controller
    created := w.created ++
      (newTasks w.controller controller).map fun taskId => (missionId, taskId) }

/-- A request of the bridge arrives. -/
def World.arrive (w : World) (arrival : Arrival) : World :=
  match w.sent[arrival.place]? with
  | some (missionId, body) => w.post arrival.uuid arrival.busy missionId body
  | none => w

/-- Others act. -/
def World.meet (w : World) (s : Surrounding) : World :=
  let w := s.events.foldl (fun w event => w.write false event) w
  let w := { w with
    controller := s.requests.foldl (fun c request => (c.step request).2) w.controller }
  s.arrivals.foldl World.arrive w

variable [Iso]

/-- Come to the next access. -/
def access : BridgeM Surrounding := do
  let w ← get
  let s := w.surroundings 0
  set ({ w with surroundings := fun n => w.surroundings (n + 1) }.meet s)
  if s.interrupted then
    throw (.other .environment)
  return s

/-- `reduce_store`. -/
def readLedger : BridgeM Reducer := do
  let _ ← access
  let w ← get
  orRaise (reduceStore w.log)

def writeEvent (event : CoordinationEvent) : BridgeM Unit := do
  let _ ← access
  modify fun w => w.write true event

/-- `_write_new`: whether the event was written, and the reducer after it. -/
def writeNew (r : Reducer) (event : CoordinationEvent) : BridgeM (Bool × Reducer) := do
  if r.processedEventIds.contains event.eventId then
    modify fun w => w.find event
    return (false, r)
  let _ ← access
  modify fun w => (w.write true event).report event
  match Coordination.apply event r with
  | .ok _ r' => return (true, r')
  | .error why _ => throw (.other why)

/-- `_save_state`, after the mapping of a mission was set. -/
def saveMapping (missionId : Str) (mapping : Mapping) : BridgeM Unit := do
  let _ ← access
  modify fun w => { w with
    memory := w.memory.set missionId mapping
    file := w.memory.set missionId mapping
    reporting := none }

/-! ### Specifications -/

def TASK_FIELDS : List Str :=
  [text "adapter", text "params", text "effect_class", text "max_attempts", text "lease_ttl_s",
    text "timeout_s"]

def GOAL_FIELDS : List Str := [text "goal_id", text "goal_fingerprint"]

def MAX_GOAL_LEN : Nat := 128

def shaOk (value : Json) : Bool :=
  match value with
  | .str s => s.length = 40 && s.all fun c => (48 ≤ c && c ≤ 57) || (97 ≤ c && c ≤ 102)
  | _ => false

def inRange (value : Json) (low high : Int) : Bool :=
  match value with
  | .int i => low ≤ i && i ≤ high
  | _ => false

def specOk (spec : Json) : Except Exc Bool :=
  match spec with
  | .obj d =>
      if (d.any fun p =>
          p.1 ∉ TASK_FIELDS ++ [text "source_sha", text "goal_task"] ++ GOAL_FIELDS)
        || ((TASK_FIELDS.dropLast).any fun name => !hasKey d name) then .ok false
      else if !((Json.get d (text "adapter")).str?.any isAdapterName) then .ok false
      else
        match Json.get d (text "params"), Json.get d (text "effect_class") with
        | .obj _, .arr _ => .error .typeError
        | .obj _, .obj _ => .error .typeError
        | .obj _, effectClass =>
            .ok (effectClass.str?.any (· ∈ EFFECT_CLASSES)
              && inRange (Json.get d (text "max_attempts")) 1 MAX_ATTEMPTS_LIMIT
              && inRange (Json.get d (text "lease_ttl_s")) 1 MAX_LEASE_TTL_S
              && (!hasKey d (text "timeout_s")
                || inRange (Json.get d (text "timeout_s")) 1 MAX_TIMEOUT_S)
              && (!hasKey d (text "source_sha") || shaOk (Json.get d (text "source_sha"))))
        | _, _ => .ok false
  | _ => .ok false

def taskPayload (spec : Members) : Members :=
  spec.filter fun p => p.1 ∈ TASK_FIELDS

def fingerprint (spec : Members) : Str :=
  Platform.sha256 (dumpsAscii (.obj (taskPayload spec)))

/-- The goal a specification is bound to. -/
inductive GoalBinding where
  | absent
  | ok (goalId goalFingerprint : Str)
  | blocked (reason : Str)

def goalToken (value : Json) : Option Str :=
  match value with
  | .str s =>
      if s ≠ [] ∧ s.length ≤ MAX_GOAL_LEN ∧
          s.all (fun c => (65 ≤ c && c ≤ 90) || (97 ≤ c && c ≤ 122) || (48 ≤ c && c ≤ 57)
            || c ∈ [46, 95, 58, 45]) = true then some s
      else none
  | _ => none

def tokenMessage (name : Str) : Str :=
  name ++ text " must be at most " ++ natDecimal MAX_GOAL_LEN ++
    text " characters matching [A-Za-z0-9._:-]+"

def pairMessage : Str := text "goal_id and goal_fingerprint must both be present"

def goalBinding (spec : Option Members) : GoalBinding :=
  match spec with
  | none => .absent
  | some d =>
      match hasKey d (text "goal_id"), hasKey d (text "goal_fingerprint") with
      | false, false => .absent
      | true, true =>
          match goalToken (Json.get d (text "goal_id")),
            goalToken (Json.get d (text "goal_fingerprint")) with
          | none, _ => .blocked (tokenMessage (text "goal_id"))
          | some _, none => .blocked (tokenMessage (text "goal_fingerprint"))
          | some goalId, some goalFingerprint => .ok goalId goalFingerprint
      | _, _ => .blocked pairMessage

/-- The authority of the bridge, the specifications of the missions, the goal contracts if they can be read, and the
commit. -/
structure Pass where
  agent : AgentID
  host : HostID
  specs : List (Str × Json)
  contracts : Option (Option (List Goals.GoalContract))
  gitHead : Str

/-- `specs.get(mission_id)`. -/
def Pass.spec (p : Pass) (missionId : Str) : Option Members :=
  match p.specs.lookup missionId with
  | some (.obj d) => some d
  | _ => none

def goalContractRefusal (p : Pass) (spec : Members) (goalId goalFingerprint : Str) : Option Str :=
  match p.contracts with
  | none => none
  | some none => some (text "goal_contract unreadable")
  | some (some contracts) =>
      match (contracts.filter fun c => c.goalId = goalId).getLast? with
      | none => some (text "goal_contract missing")
      | some contract =>
          let view := Json.insertMember (text "goal_fingerprint") (.str goalFingerprint)
            (Json.insertMember (text "goal_id") (.str goalId)
              (Json.get spec (text "goal_task")).asMembers)
          let verdict := contract.validateTask (.obj view)
          if verdict.verdict = .accepted then none
          else some ((text "goal_contract " ++ verdict.verdict.value ++ text " " ++
            (text ",").intercalate (verdict.reasons.map Goals.Reason.value)).take 200)

def recordedSource (p : Pass) (mapping : Option Mapping) (spec : Option Members) : Option Str :=
  match mapping.bind fun m => if shaOk (.str m.sourceSha) then some m.sourceSha else none with
  | some recorded => some recorded
  | none =>
      match spec with
      | some d =>
          if hasKey d (text "source_sha") then
            if shaOk (Json.get d (text "source_sha")) then
              (Json.get d (text "source_sha")).str?
            else none
          else if shaOk (.str p.gitHead) then some p.gitHead else none
      | none => if shaOk (.str p.gitHead) then some p.gitHead else none

def recordedGoal (mapping : Mapping) (spec : Option Members) : Option (Str × Str) :=
  match goalBinding spec with
  | .ok goalId goalFingerprint => some (goalId, goalFingerprint)
  | .absent =>
      match mapping.goalId.bind fun s => goalToken (.str s),
        mapping.goalFingerprint.bind fun s => goalToken (.str s) with
      | some goalId, some goalFingerprint => some (goalId, goalFingerprint)
      | _, _ => none
  | .blocked _ => none

/-! ### Parking -/

def goalReasonCode (reason : Str) : Str :=
  if (text "goal_contract").isPrefixOf reason then text "GOAL_CONTRACT"
  else if reason = pairMessage then text "GOAL_PAIR"
  else text "GOAL_TOKEN"

/-- The digest of a text, if the text has an encoding. -/
def digest (source : Str) : BridgeM Str :=
  if Encodable source then pure (Platform.sha256 source)
  else throw (.other .unicodeEncode)

def bridgeEvent (p : Pass) (mission : Mission) (eventId : Str) (eventType : Coordination.EventType)
    (status : MissionStatus) (evidence createdAt payloadHash : Str) (blocker : Option Str) :
    CoordinationEvent where
  eventId := eventId
  missionId := mission.missionId
  agentId := p.agent
  hostId := p.host
  eventType := eventType
  status := status
  dependsOn := mission.dependsOn
  head := mission.head
  evidenceRef := evidence
  createdAt := createdAt
  payloadHash := payloadHash
  branch := mission.branch
  pr := mission.pr
  blocker := blocker
  ownership := some p.agent.value

/-- `_park_goal`: the reducer after it. -/
def parkGoal (p : Pass) (r : Reducer) (mission : Mission) (reason : Str) : BridgeM Reducer := do
  let evidence := text "goal_blocked;reason=" ++ reason
  let id ← digest (mission.missionId ++ text "|" ++ reason)
  let s ← access
  let createdAt ← orRaise (claimTimestamp mission s.now)
  let payloadHash ← digest evidence
  let (_, r) ← writeNew r (bridgeEvent p mission (text "blocked-" ++ id.take 16) .blocked .blocked
    evidence createdAt payloadHash (some reason))
  return r

/-- `_stamp`: the mapping with other fields, saved if anything changed. -/
def stamp (missionId : Str) (mapping changed : Mapping) : BridgeM Unit := do
  if changed ≠ mapping then
    let s ← access
    saveMapping missionId { changed with updatedAt := some (isoformat s.now) }

/-! ### Requests -/

def taskView (taskId : Str) : BridgeM (Option Members) := do
  if taskId = [] then
    return none
  let s ← access
  match s.reply with
  | none => throw .controllerDown
  | some reply =>
      if reply.status = 404 then return none
      if reply.status ≠ 200 then throw .controllerDown
      match reply.body with
      | some (.obj d) => return some d
      | _ => throw .controllerDown

def taskBody (spec : Members) (key : Str) : Json :=
  let task := Json.insertMember (text "idempotency_key") (.str key) (taskPayload spec)
  match goalBinding (some spec) with
  | .ok goalId goalFingerprint =>
      let params := Json.insertMember (text "goal_fingerprint") (.str goalFingerprint)
        (Json.insertMember (text "goal_id") (.str goalId)
          (Json.get task (text "params")).asMembers)
      .obj (Json.insertMember (text "params") (.obj params) task)
  | _ => .obj task

/-- `_post_task`: nothing if the task is rejected. -/
def postTask (missionId : Str) (spec : Members) (key : Str) : BridgeM (Option Members) := do
  let s ← access
  modify fun w => { w with sent := w.sent ++ [(missionId, taskBody spec key)] }
  if s.delivered then
    modify fun w => w.post s.uuid s.busy missionId (taskBody spec key)
  match s.reply with
  | none => throw .controllerDown
  | some reply =>
      if 500 ≤ reply.status ∨ reply.status = 0 then throw .controllerDown
      match reply.body.getD (.obj []) with
      | .obj d =>
          if (reply.status = 200 ∨ reply.status = 201) ∧
              truthy (Json.get d (text "rejected")) = false then return some d
          else return none
      | _ => return none

/-! ### Feedback -/

def resultId (view : Members) : Option Str :=
  match Json.get view (text "accepted_result_id"), Json.get view (text "result_id") with
  | .str (c :: s), _ => some (c :: s)
  | _, .str (c :: s) => some (c :: s)
  | _, _ => none

def blocker (view : Members) : Str :=
  match Json.get view (text "last_reason") with
  | .str s => if blank s then text "BLOCKED" else (strip s).take 500
  | _ => text "BLOCKED"

def identity (taskId : Str) (resultId : Option Str) (attempt : Int) (fingerprint sourceSha : Str)
    (goal : Option (Str × Str)) : Str :=
  text "task_id=" ++ taskId ++ text ";accepted_result_id=" ++ resultId.getD (text "none") ++
    text ";attempt=" ++ decimal attempt ++ text ";spec_fingerprint=" ++ fingerprint ++
    text ";source_sha=" ++ sourceSha ++
    match goal with
    | some (goalId, goalFingerprint) =>
        text ";goal_id=" ++ goalId ++ text ";goal_fingerprint=" ++ goalFingerprint
    | none => []

/-- An attempt: an integer that is not negative. -/
def attemptOf (view : Members) : Option Int :=
  match Json.get view (text "attempt") with
  | .int i => if 0 ≤ i then some i else none
  | _ => none

structure Report where
  kind : Str
  eventType : Coordination.EventType
  status : MissionStatus
  source : Str
  blocker : Option Str

def report (view : Members) (taskId : Str) (attempt : Int) : Except Exc (Option Report) :=
  match Json.get view (text "status") with
  | .str s =>
      if s = text "COMPLETE" then
        match resultId view, Json.get view (text "resolution") with
        | some result, .null =>
            .ok (some ⟨text "final", .final, .done, taskId ++ text "|" ++ result, none⟩)
        | some result, .str resolution =>
            if resolution = text "verified" then
              .ok (some ⟨text "final", .final, .done, taskId ++ text "|" ++ result, none⟩)
            else .ok none
        | _, _ => .ok none
      else if s = text "BLOCKED" then
        .ok (some ⟨text "blocked", .blocked, .blocked,
          taskId ++ text "|" ++ blocker view ++ text "|" ++ decimal attempt, some (blocker view)⟩)
      else if s = text "FAILED" ∨ s = text "CANCELLED" then
        .ok (some ⟨text "error", .error, .error, taskId ++ text "|" ++ s, none⟩)
      else .ok none
  | .arr _ => .error .typeError
  | .obj _ => .error .typeError
  | _ => .ok none

/-- What the event of a report is made of. -/
structure Evidence where
  report : Report
  attempt : Int
  source : Str
  fingerprint : Str
  goal : Option (Str × Str)
  identity : Str

/-- `_feedback_event`, up to the event. -/
def evidenceOf (p : Pass) (mapping : Mapping) (spec : Option Members) (view : Members) :
    Except Exc (Option Evidence) :=
  match attemptOf view, recordedSource p (some mapping) spec with
  | some attempt, some source =>
      let fingerprint :=
        if mapping.specFingerprint ≠ [] then mapping.specFingerprint
        else (spec.map fingerprint).getD []
      let viewTaskId := Json.get view (text "task_id")
      if (viewTaskId ≠ .null ∧ viewTaskId ≠ .str mapping.taskId) ∨ source = [] ∨
          fingerprint = [] ∨ mapping.taskId = [] then .ok none
      else
        let goal := recordedGoal mapping spec
        let evidence := identity mapping.taskId (resultId view) attempt fingerprint source goal
        (report view mapping.taskId attempt).map fun found =>
          found.map fun report => ⟨report, attempt, source, fingerprint, goal, evidence⟩
  | _, _ => .ok none

/-- `_feedback_event`, once there is something to report. -/
def feedbackEvent (p : Pass) (mission : Mission) (evidence : Evidence) :
    BridgeM CoordinationEvent := do
  let id ← digest evidence.report.source
  let s ← access
  let createdAt ← orRaise (claimTimestamp mission s.now)
  let payloadHash ← digest evidence.identity
  return bridgeEvent p mission (evidence.report.kind ++ text "-" ++ id.take 16)
    evidence.report.eventType evidence.report.status evidence.identity createdAt payloadHash
    evidence.report.blocker

/-- `_status_for_outcome`. -/
def outcomeStatus (eventType : Coordination.EventType) (view : Members) :
    MappingStatus × Option Str :=
  match eventType with
  | .final => (.finalDone, none)
  | .blocked => (.blocked, some (text "CONTROLLER_BLOCKED"))
  | _ => (.error, some (if Json.get view (text "status") = .str (text "CANCELLED") then
      text "CANCELLED" else text "FAILED"))

def Mapping.reported (mapping : Mapping) (view : Members) (evidence : Evidence) : Mapping :=
  { mapping with
    acceptedResultId := resultId view
    attempt := some evidence.attempt
    evidenceRef := evidence.identity
    specFingerprint := evidence.fingerprint
    sourceSha := evidence.source
    goalId := (evidence.goal.map Prod.fst).or mapping.goalId
    goalFingerprint := (evidence.goal.map Prod.snd).or mapping.goalFingerprint
    status := some (outcomeStatus evidence.report.eventType view).1
    reason := (outcomeStatus evidence.report.eventType view).2 }

def Mapping.parked (mapping : Mapping) (reason : Str) : Mapping :=
  { mapping with
    status := some .blocked
    reason := some (goalReasonCode reason) }

/-- The body of the loop of `_feedback`: the reducer after it, and whether all is well. -/
def feedbackMission (p : Pass) (r : Reducer) (missionId : Str) : BridgeM (Reducer × Bool) := do
  let w ← get
  match w.memory.get? missionId, r.missions.get? missionId with
  | some mapping, some mission =>
      let spec := p.spec missionId
      if let .blocked reason := goalBinding spec then
        let r ← parkGoal p r mission reason
        stamp missionId mapping (mapping.parked reason)
        return (r, true)
      match ← taskView mapping.taskId with
      | none => return (r, !mapping.posted)
      | some view =>
          match ← orRaise (evidenceOf p mapping spec view) with
          | none =>
              return (r, Json.get view (text "status") ∉ [Json.str (text "COMPLETE"),
                .str (text "BLOCKED"), .str (text "FAILED"), .str (text "CANCELLED")])
          | some evidence =>
              let event ← feedbackEvent p mission evidence
              let (_, r) ← writeNew r event
              stamp missionId mapping (mapping.reported view evidence)
              return (r, true)
  | _, _ => return (r, false)

/-- `_feedback`, on the missions that are left. -/
def feedbackMissions (p : Pass) (r : Reducer) : List Str → BridgeM Bool
  | [] => return true
  | missionId :: rest => do
      let (r, ok) ← feedbackMission p r missionId
      let ok' ← feedbackMissions p r rest
      return ok && ok'

def feedback (p : Pass) : BridgeM Bool := do
  let r ← readLedger
  let w ← get
  feedbackMissions p r (w.memory.keys.insertionSort (· ≤ ·))

/-! ### Dispatch -/

/-- `claim_mission`: the id of the claim, if the mission is claimed. -/
def claimMission (p : Pass) (missionId : Str) : BridgeM (Option Str) := do
  let s ← access
  let w ← get
  match ← orRaise (prepareClaim w.log p.agent p.host missionId s.now) with
  | .answer result => return if result.outcome = .claimed then result.eventId else none
  | .event checkpoint event isNew =>
      if isNew then
        writeEvent event
      let _ ← access
      let w ← get
      let result ← orRaise (verifyClaim w.log p.agent checkpoint missionId event.eventId)
      return if result.outcome = .claimed then result.eventId else none

def taskKey (claimEventId : Str) : Str :=
  text "ledger:" ++ claimEventId

def Mapping.made (taskId claimEventId : Str) (spec : Members) (source : Str)
    (goal : Option (Str × Str)) : Mapping where
  taskId := taskId
  claimEventId := claimEventId
  idempotencyKey := taskKey claimEventId
  posted := false
  acceptedResultId := none
  attempt := none
  specFingerprint := fingerprint spec
  sourceSha := source
  evidenceRef := identity taskId none 0 (fingerprint spec) source goal
  goalId := goal.map Prod.fst
  goalFingerprint := goal.map Prod.snd
  status := none
  reason := none
  updatedAt := none

/-- Claim a mission and save its mapping: nothing if it cannot be posted, and then whether all is
well. -/
def makeMapping (p : Pass) (missionId : Str) (spec : Members) (source : Str)
    (goal : Option (Str × Str)) : BridgeM (Except Bool Mapping) := do
  match ← claimMission p missionId with
  | none => return .error true
  | some [] => return .error true
  | some claimEventId =>
      if (taskKey claimEventId).length > MAX_ID_LENGTH then return .error false
      let id ← digest (taskKey claimEventId)
      let mapping := Mapping.made (text "task-" ++ id.take 32) claimEventId spec source goal
      saveMapping missionId mapping
      return .ok mapping

/-- The mapping of a mission whose task is posted. -/
def Mapping.afterPost (mapping : Mapping) (view : Members) (attempt : Int)
    (goal : Option (Str × Str)) : Mapping :=
  { mapping with
    posted := true
    attempt := some attempt
    acceptedResultId := resultId view
    evidenceRef := identity mapping.taskId (resultId view) attempt mapping.specFingerprint
      mapping.sourceSha goal
    goalId := (goal.map Prod.fst).or mapping.goalId
    goalFingerprint := (goal.map Prod.snd).or mapping.goalFingerprint
    status := some .posted
    reason := none }

def postMapping (missionId : Str) (spec : Members) (mapping : Mapping) (goal : Option (Str × Str)) :
    BridgeM Bool := do
  if mapping.posted then
    return true
  match ← postTask missionId spec mapping.idempotencyKey with
  | none => return false
  | some _ =>
      match ← taskView mapping.taskId with
      | none => return false
      | some view =>
          match attemptOf view with
          | none => return false
          | some attempt =>
              stamp missionId mapping (mapping.afterPost view attempt goal)
              return true

/-- The end of the body of the loop of `_dispatch`: claim and post a mission. -/
def dispatchMapping (p : Pass) (missionId : Str) (spec : Members) (goal : Option (Str × Str)) :
    BridgeM Bool := do
  let w ← get
  let mapping := w.memory.get? missionId
  match recordedSource p mapping (some spec) with
  | none => return false
  | some source =>
      match mapping with
      | some mapping => postMapping missionId spec mapping goal
      | none =>
          match ← makeMapping p missionId spec source goal with
          | .error ok => return ok
          | .ok mapping => postMapping missionId spec mapping goal

/-- The body of the loop of `_dispatch`: the reducer after it, and whether all is well. -/
def dispatchMission (p : Pass) (r : Reducer) (missionId : Str) : BridgeM (Reducer × Bool) := do
  match p.spec missionId with
  | none => return (r, false)
  | some spec =>
      let w ← get
      let mapping := w.memory.get? missionId
      let mission := r.missions.get? missionId
      match goalBinding (some spec) with
      | .blocked reason =>
          let r ← match mission with
            | some mission => parkGoal p r mission reason
            | none => pure r
          if let some mapping := mapping then
            stamp missionId mapping (mapping.parked reason)
          return (r, true)
      | .absent => return (r, ← dispatchMapping p missionId spec none)
      | .ok goalId goalFingerprint =>
          if mapping = none then
            if let some reason := goalContractRefusal p spec goalId goalFingerprint then
              let r ← match mission with
                | some mission => parkGoal p r mission reason
                | none => pure r
              return (r, true)
          return (r, ← dispatchMapping p missionId spec (some (goalId, goalFingerprint)))

/-- `_dispatch`, on the missions that are left. -/
def dispatchMissions (p : Pass) (r : Reducer) : List Str → BridgeM Bool
  | [] => return true
  | missionId :: rest => do
      let (r, ok) ← dispatchMission p r missionId
      let ok' ← dispatchMissions p r rest
      return ok && ok'

def dispatch (p : Pass) : BridgeM Bool := do
  let r ← readLedger
  dispatchMissions p r ((discoverResumable r p.agent).map ResumeCheckpoint.missionId)

/-! ### Passes -/

/-- `_derive_mission_status`, for a mapping of the state file that has no status. -/
def Mapping.loaded (mapping : Mapping) : Mapping :=
  if mapping.status ≠ none then mapping
  else if (mapping.acceptedResultId.any (· ≠ [])) = true then
    { mapping with
      status := some .finalDone
      reason := none }
  else if mapping.posted then
    { mapping with
      status := some .posted
      reason := none }
  else mapping

/-- `_load_specs`: every specification is one. -/
def checkSpecs : List (Str × Json) → BridgeM Unit
  | [] => return ()
  | (missionId, spec) :: rest => do
      if missionId = [] then
        throw .config
      if !(← orRaise (specOk spec)) then
        throw .config
      checkSpecs rest

def runPass (p : Pass) : BridgeM Unit := do
  if p.agent = .unknown ∨ p.host = .unknown then
    throw .config
  let _ ← access
  checkSpecs p.specs
  modify fun w => { w with memory := w.file.map Mapping.loaded }
  if ← feedback p then
    let _ ← dispatch p

/-! ### Runs -/

/-- A pass of the bridge, or others alone. -/
inductive Turn where
  | pass (p : Pass)
  | wait

def World.turn (w : World) (t : Turn) : World :=
  let program : BridgeM Unit :=
    match t with
    | .pass p => runPass p
    | .wait => discard access
  match program { w with reporting := none } with
  | .ok _ w' => w'
  | .error _ w' => w'

/-- The world before the first pass. -/
def World.start (controller : Controller) (surroundings : Nat → Surrounding) : World where
  log := []
  file := ∅
  memory := ∅
  controller := controller
  sent := []
  surroundings := surroundings
  reporting := none
  entries := []
  created := []

/-- The world after a sequence of turns. -/
def World.run (controller : Controller) (surroundings : Nat → Surrounding) (turns : List Turn) :
    World :=
  turns.foldl World.turn (World.start controller surroundings)

end Programs

end Courier.Bridge
