import Courier.Library.Calendar
import Courier.Library.Dict
import Courier.Library.Program
import Courier.Platform
import Mathlib.Data.List.ReduceOption
import Mathlib.Data.Rat.Defs

/-!
# The coordination ledger

Agents write events about missions to an append-only ledger, which a reducer folds into a record of every mission.
From the records an agent learns which missions it may go on with, claims one by one more event, and reads the ledger
again to see whether the claim was accepted.
-/

namespace Courier.Coordination

open Calendar Program Text

/-! ### Events -/

inductive AgentID where
  | googleWindows
  | googleMac
  | codexMac
  | museWindows
  | museMac
  | unknown
  deriving DecidableEq

def AgentID.value : AgentID → Str
  | googleWindows => text "GOOGLE_WINDOWS"
  | googleMac => text "GOOGLE_MAC"
  | codexMac => text "CODEX_MAC"
  | museWindows => text "MUSE_WINDOWS"
  | museMac => text "MUSE_MAC"
  | unknown => text "UNKNOWN"

inductive HostID where
  | windowsRemote
  | macLocal
  | unknown
  deriving DecidableEq

inductive EventType where
  | assigned
  | started
  | partialCheckpoint
  | final
  | blocked
  | error
  | cancelled
  deriving DecidableEq

inductive MissionStatus where
  | working
  | done
  | blocked
  | error
  deriving DecidableEq

structure CoordinationEvent where
  eventId : Str
  missionId : Str
  agentId : AgentID
  hostId : HostID
  eventType : EventType
  status : MissionStatus
  dependsOn : List Str
  head : Option Str
  evidenceRef : Str
  createdAt : Str
  payloadHash : Str
  branch : Option Str := none
  pr : Option Str := none
  testEvidence : Option Str := none
  blocker : Option Str := none
  nextAction : Option Str := none
  ownership : Option Str := none
  deriving DecidableEq

/-- An event about a mission without particulars. -/
def CoordinationEvent.plain (eventId missionId : Str) (agentId : AgentID) (eventType : EventType)
    (status : MissionStatus) (createdAt : Str) : CoordinationEvent where
  eventId := eventId
  missionId := missionId
  agentId := agentId
  hostId := .macLocal
  eventType := eventType
  status := status
  dependsOn := []
  head := none
  evidenceRef := text "ref"
  createdAt := createdAt
  payloadHash := text "hash"

/-- A record of the reducer. -/
structure Mission where
  missionId : Str
  agentId : AgentID
  hostId : HostID
  status : MissionStatus
  dependsOn : List Str
  latestEventId : Str
  head : Option Str
  evidenceRef : Str
  createdAt : Str
  updatedAt : Str
  branch : Option Str
  pr : Option Str
  testEvidence : Option Str
  blocker : Option Str
  nextAction : Option Str
  ownership : Option Str
  deriving DecidableEq

/-! ### Timestamps -/

/-- What matters of a `datetime`: whether it has an offset from UTC, and the moment that it is in
UTC, if the calendar has that moment. -/
inductive IsoTime where
  | naive
  | aware (utc : Option DateTime)

/-- The reader of timestamps. -/
class Iso where
  /-- `datetime.fromisoformat`, or nothing where it raises a `ValueError`. -/
  fromisoformat : Str → Option IsoTime

/-- A reader of timestamps to evaluate examples on, of whole seconds in UTC. -/
@[reducible]
def Iso.wholeSeconds : Iso where
  fromisoformat s :=
    if s.drop 19 = text "+00:00" then (parse (s.take 19 ++ [90])).map fun t => .aware (some t)
    else none

def parseTimestamp [Iso] (value : Str) : Except Exc (Option DateTime) :=
  if value = [] then .ok none
  else
    match Iso.fromisoformat (value.flatMap fun c => if c = 90 then text "+00:00" else [c]) with
    | none => .ok none
    | some .naive => .ok none
    | some (.aware none) => .error .overflow
    | some (.aware (some utc)) => .ok (some utc)

/-- `(later - earlier).total_seconds()`. -/
def secondsBetween (earlier later : DateTime) : Rat :=
  ((later.instant : Int) - (earlier.instant : Int) : Int) / (1000000 : Rat)

/-! ### The reducer -/

structure Reducer where
  leaseTtlS : Option Rat
  events : List CoordinationEvent
  missions : Dict Str Mission
  processedEventIds : List Str

/-- `CoordinationReducer(lease_ttl_s)`. -/
def Reducer.new (leaseTtlS : Option Rat) : Reducer where
  leaseTtlS := leaseTtlS
  events := []
  missions := ∅
  processedEventIds := []

/-- `first or second`. -/
def either (first second : Option Str) : Option Str :=
  match first with
  | some (c :: s) => some (c :: s)
  | _ => second

/-- `event.ownership or event.agent_id.value`. -/
def newOwner (event : CoordinationEvent) : Str :=
  match event.ownership with
  | some (c :: s) => c :: s
  | _ => event.agentId.value

/-- The record of a mission after its first event. -/
def opened (event : CoordinationEvent) : Mission where
  missionId := event.missionId
  agentId := event.agentId
  hostId := event.hostId
  status := event.status
  dependsOn := event.dependsOn
  latestEventId := event.eventId
  head := event.head
  evidenceRef := event.evidenceRef
  createdAt := event.createdAt
  updatedAt := event.createdAt
  branch := event.branch
  pr := event.pr
  testEvidence := event.testEvidence
  blocker := event.blocker
  nextAction := event.nextAction
  ownership :=
    if event.eventType = .final ∨ event.eventType = .cancelled then none else some (newOwner event)

/-- Conflicting writer ownership fails safely: the event may change the mission. -/
def admitted (leaseTtlS : Option Rat) (mission : Mission) (event : CoordinationEvent)
    (eventTs updatedTs : DateTime) : Bool :=
  match mission.ownership with
  | some (c :: s) =>
      if c :: s = newOwner event then true
      else match event.eventType with
      | .assigned => mission.status = .error
      | .cancelled =>
          match leaseTtlS with
          | some ttl => !(secondsBetween updatedTs eventTs < ttl)
          | none => true
      | _ => false
  | _ => true

/-- The state transition rules. -/
def transition (mission : Mission) (event : CoordinationEvent) : Mission :=
  match event.eventType with
  | .assigned =>
      { mission with
        agentId := event.agentId
        hostId := event.hostId
        status := event.status
        ownership := some (newOwner event) }
  | .started | .partialCheckpoint => { mission with status := .working }
  | .final => { mission with status := .done, ownership := none }
  | .blocked => { mission with status := .blocked }
  | .error => { mission with status := .error }
  | .cancelled => { mission with status := .error, ownership := none }

/-- The record of a mission after an event that changes it. -/
def updated (mission : Mission) (event : CoordinationEvent) : Mission :=
  { transition mission event with
    head := either event.head mission.head
    evidenceRef := event.evidenceRef
    branch := either event.branch mission.branch
    pr := either event.pr mission.pr
    testEvidence := either event.testEvidence mission.testEvidence
    blocker := either event.blocker mission.blocker
    nextAction := either event.nextAction mission.nextAction
    updatedAt := event.createdAt
    latestEventId := event.eventId }

/-- The event is noted, whatever becomes of it. -/
def Reducer.noted (r : Reducer) (event : CoordinationEvent) : Reducer :=
  { r with
    events := r.events ++ [event]
    processedEventIds := event.eventId :: r.processedEventIds }

def Reducer.withMission (r : Reducer) (missionId : Str) (mission : Mission) : Reducer :=
  { r with missions := r.missions.set missionId mission }

def apply [Iso] (event : CoordinationEvent) : EStateM Exc Reducer Bool := do
  let r ← get
  if r.processedEventIds.contains event.eventId then
    return false
  set (r.noted event)
  if event.agentId = .unknown ∨ event.hostId = .unknown then
    return false
  match ← lift (parseTimestamp event.createdAt) with
  | none => return false
  | some eventTs =>
      match r.missions.get? event.missionId with
      | none =>
          set ((r.noted event).withMission event.missionId (opened event))
          return true
      | some mission =>
          match ← lift (parseTimestamp mission.updatedAt) with
          | none => throw .typeError
          | some updatedTs =>
              if eventTs.instant < updatedTs.instant then
                return false
              if !admitted r.leaseTtlS mission event eventTs updatedTs then
                return false
              set ((r.noted event).withMission event.missionId (updated mission event))
              return true

def Reducer.after [Iso] (r : Reducer) (event : CoordinationEvent) : Reducer :=
  match apply event r with
  | .ok _ r' => r'
  | .error _ r' => r'

def Reducer.given [Iso] (r : Reducer) (events : List CoordinationEvent) : Reducer :=
  events.foldl Reducer.after r

/-! ### Resuming -/

def DEFAULT_LEASE_TTL_S : Rat := 1800

def reduceStore [Iso] (log : List CoordinationEvent)
    (leaseTtlS : Option Rat := some DEFAULT_LEASE_TTL_S) : Except Exc Reducer :=
  match (log.forM fun event => discard (apply event)) (.new leaseTtlS) with
  | .ok _ r => .ok r
  | .error why _ => .error why

def depsDone (r : Reducer) (mission : Mission) : Bool :=
  mission.dependsOn.all fun dep =>
    match r.missions.get? dep with
    | some other => other.status = .done
    | none => false

inductive Mode where
  | resume
  | reassign
  deriving DecidableEq

structure ResumeCheckpoint where
  missionId : Str
  mode : Mode
  owner : Option Str
  branch : Option Str
  head : Option Str
  pr : Option Str
  evidenceRef : Str
  testEvidence : Option Str
  nextAction : Option Str
  latestEventId : Str
  updatedAt : Str
  dependsOn : List Str
  deriving DecidableEq

def checkpoint (mission : Mission) (mode : Mode) : ResumeCheckpoint where
  missionId := mission.missionId
  mode := mode
  owner := mission.ownership
  branch := mission.branch
  head := mission.head
  pr := mission.pr
  evidenceRef := mission.evidenceRef
  testEvidence := mission.testEvidence
  nextAction := mission.nextAction
  latestEventId := mission.latestEventId
  updatedAt := mission.updatedAt
  dependsOn := mission.dependsOn

def offer (r : Reducer) (agentId : AgentID) (mission : Mission) : Option ResumeCheckpoint :=
  if !depsDone r mission then none
  else if mission.status = .working ∧ mission.ownership = some agentId.value then
    some (checkpoint mission .resume)
  else if mission.status = .error then some (checkpoint mission .reassign)
  else none

/-- `(c.mode != RESUME, c.updated_at, c.mission_id)` in order. -/
def precedes (c d : ResumeCheckpoint) : Bool :=
  if c.mode ≠ d.mode then c.mode = .resume
  else if c.updatedAt ≠ d.updatedAt then c.updatedAt < d.updatedAt
  else c.missionId ≤ d.missionId

def discoverResumable (r : Reducer) (agentId : AgentID) : List ResumeCheckpoint :=
  if agentId = .unknown then []
  else (r.missions.values.filterMap (offer r agentId)).mergeSort precedes

inductive Outcome where
  | claimed
  | conflict
  | notResumable
  | unknownAuthority
  | writeFailed
  deriving DecidableEq

structure ClaimResult where
  outcome : Outcome
  missionId : Str
  eventId : Option Str
  checkpoint : Option ResumeCheckpoint
  reason : Str
  deriving DecidableEq

def claimEventId [Platform] (missionId baseEventId : Str) (agentId : AgentID) : Except Exc Str :=
  let source := missionId ++ text "|" ++ baseEventId ++ text "|" ++ agentId.value
  if Encodable source then .ok (text "claim-" ++ (Platform.sha256 source).take 24)
  else .error .unicodeEncode

/-- `moment.isoformat().replace("+00:00", "Z")`, in UTC. -/
def isoformat (moment : DateTime) : Str :=
  (format moment).dropLast ++
    (if moment.microsecond = 0 then [] else
      46 :: (digits2 (moment.microsecond / 10000) ++ digits4 (moment.microsecond % 10000))) ++ [90]

/-- The later of the current moment and a floor. -/
def notBefore (current : DateTime) (floor : Option DateTime) : DateTime :=
  match floor with
  | some floor => if current.instant < floor.instant then floor else current
  | none => current

def claimTimestamp [Iso] (mission : Mission) (now : DateTime) : Except Exc Str := do
  let floor ← parseTimestamp mission.updatedAt
  return isoformat (notBefore now floor)

def offered (r : Reducer) (agentId : AgentID) : Dict Str ResumeCheckpoint :=
  (discoverResumable r agentId).foldl (fun d c => d.set c.missionId c) ∅

/-- What a claim comes to before it writes: an answer, or an event to be written, if it is not
there yet, and verified. -/
inductive Prepared where
  | answer (result : ClaimResult)
  | event (checkpoint : ResumeCheckpoint) (event : CoordinationEvent) (isNew : Bool)

def notOffered (agentId : AgentID) (missionId : Str) (mission : Option Mission) : ClaimResult :=
  match mission.bind fun m => if m.status = .working then m.ownership else none with
  | some (c :: s) =>
      if c :: s = agentId.value then
        ⟨.notResumable, missionId, none, none,
          text "Mission not offered to this worker by shared truth."⟩
      else ⟨.conflict, missionId, none, none, text "Mission owned by " ++ (c :: s) ++ text "."⟩
  | _ =>
      ⟨.notResumable, missionId, none, none,
        text "Mission not offered to this worker by shared truth."⟩

/-- The newest event of the mission, if it is a claim of the agent itself. -/
def ownClaim (r : Reducer) (agentId : AgentID) (checkpoint : ResumeCheckpoint) :
    Option CoordinationEvent :=
  match r.events.find? fun e => e.eventId = checkpoint.latestEventId with
  | some latest =>
      if checkpoint.mode = .resume ∧ (text "claim-").isPrefixOf latest.eventId
          ∧ latest.agentId = agentId then some latest
      else none
  | none => none

def claimEvent [Platform] (agentId : AgentID) (hostId : HostID) (missionId : Str)
    (mission : Mission) (checkpoint : ResumeCheckpoint) (eventId createdAt : Str) :
    CoordinationEvent where
  eventId := eventId
  missionId := missionId
  agentId := agentId
  hostId := hostId
  eventType := if checkpoint.mode = .resume then .started else .assigned
  status := .working
  dependsOn := mission.dependsOn
  head := mission.head
  evidenceRef := mission.evidenceRef
  createdAt := createdAt
  payloadHash := Platform.sha256 eventId
  branch := mission.branch
  pr := mission.pr
  testEvidence := mission.testEvidence
  nextAction := mission.nextAction
  ownership := some agentId.value

/-- `claim_mission`, up to the write. -/
def prepareClaim [Platform] [Iso] (log : List CoordinationEvent) (agentId : AgentID)
    (hostId : HostID) (missionId : Str) (now : DateTime) : Except Exc Prepared := do
  if agentId = .unknown ∨ hostId = .unknown then
    return .answer ⟨.unknownAuthority, missionId, none, none,
      text "Unknown worker authority fails closed."⟩
  let r ← reduceStore log
  match (offered r agentId).get? missionId, r.missions.get? missionId with
  | none, mission => return .answer (notOffered agentId missionId mission)
  | some _, none => throw .attributeError
  | some checkpoint, some mission =>
      match ownClaim r agentId checkpoint with
      | some latest =>
          return .answer ⟨.claimed, missionId, some latest.eventId, some checkpoint, []⟩
      | none =>
          let eventId ← claimEventId missionId checkpoint.latestEventId agentId
          let createdAt ← claimTimestamp mission now
          return .event checkpoint
            (claimEvent agentId hostId missionId mission checkpoint eventId createdAt)
            (!r.processedEventIds.contains eventId)

def shownOwner : Option Str → Str
  | some owner => owner
  | none => text "None"

/-- `claim_mission`, after the write. -/
def verifyClaim [Iso] (log : List CoordinationEvent) (agentId : AgentID)
    (checkpoint : ResumeCheckpoint) (missionId eventId : Str) : Except Exc ClaimResult := do
  let r ← reduceStore log
  let verified := r.missions.get? missionId
  match verified with
  | some mission =>
      if mission.ownership = some agentId.value ∧ mission.status = .working
          ∧ mission.latestEventId = eventId then
        return ⟨.claimed, missionId, some eventId, some checkpoint, []⟩
  | none => pure ()
  return ⟨.conflict, missionId, some eventId, none, text "Shared truth owner after claim: "
    ++ shownOwner (verified.bind Mission.ownership) ++ text "."⟩

/-! ### Reaping -/

/-- The cancellation of a mission whose lease has expired. -/
def cancellation [Platform] (mission : Mission) (reaperAgent : AgentID) (reaperHost : HostID)
    (now lastTs : DateTime) : CoordinationEvent :=
  let eventId := text "reap-" ++ mission.missionId ++ text "-" ++ mission.latestEventId
  let elapsed := decimal ((((now.instant : Int) - lastTs.instant) : Int).tdiv 1000000)
  { eventId := eventId
    missionId := mission.missionId
    agentId := reaperAgent
    hostId := reaperHost
    eventType := .cancelled
    status := .error
    dependsOn := mission.dependsOn
    head := mission.head
    evidenceRef := text "lease_expired:" ++ elapsed ++ text "s"
    createdAt := isoformat now
    payloadHash := Platform.sha256 eventId
    branch := mission.branch
    pr := mission.pr
    testEvidence := mission.testEvidence
    nextAction := some (text "Reassigned after lease expiry (idle " ++ elapsed ++ text "s)")
    ownership := none }

/-- The body of the loop of `reap_expired_missions`, on a store that writes what it is told to. -/
def reapMission [Platform] [Iso] (r : Reducer) (reaperAgent : AgentID) (reaperHost : HostID)
    (leaseTtlS : Rat) (now : DateTime) (mission : Mission) :
    EStateM Exc (List CoordinationEvent) (Option CoordinationEvent) := do
  if mission.status ≠ .working then
    return none
  match ← lift (parseTimestamp mission.updatedAt) with
  | none => return none
  | some lastTs =>
      if secondsBetween lastTs now < leaseTtlS then
        return none
      let event := cancellation mission reaperAgent reaperHost now lastTs
      if r.processedEventIds.contains event.eventId then
        return none
      if ¬ Encodable event.eventId then
        throw .unicodeEncode
      modify fun log => log ++ [event]
      return some event

def reapExpiredMissions [Platform] [Iso] (reaperAgent : AgentID) (reaperHost : HostID)
    (leaseTtlS : Rat) (now : DateTime) :
    EStateM Exc (List CoordinationEvent) (List CoordinationEvent) := do
  if reaperAgent = .unknown ∨ reaperHost = .unknown then
    return []
  let log ← get
  let r ← lift (reduceStore log (some leaseTtlS))
  let reaped ← r.missions.values.mapM (reapMission r reaperAgent reaperHost leaseTtlS now)
  return reaped.reduceOption

end Courier.Coordination
