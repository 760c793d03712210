import Courier.Coordination
import Courier.Library.Denoted
import Courier.Library.TextLines

/-!
# The store of coordination events

Events are kept as JSON, in a file with one record on each line.  A record is appended in one write, which a crash can
cut off anywhere.  A last line without a newline may be unreadable, any other unreadable line is an error; and a
rebuilt event is checked in its names and enumerations only.
-/

namespace Courier.Coordination

open Json Text

/-! ### Enumerations -/

def HostID.value : HostID → Str
  | windowsRemote => text "WINDOWS_REMOTE"
  | macLocal => text "MAC_LOCAL"
  | unknown => text "UNKNOWN"

def EventType.value : EventType → Str
  | assigned => text "ASSIGNED"
  | started => text "STARTED"
  | partialCheckpoint => text "PARTIAL"
  | final => text "FINAL"
  | blocked => text "BLOCKED"
  | error => text "ERROR"
  | cancelled => text "CANCELLED"

def MissionStatus.value : MissionStatus → Str
  | working => text "WORKING"
  | done => text "DONE"
  | blocked => text "BLOCKED"
  | error => text "ERROR"

/-- `_coerce_authority(AgentID, value)`. -/
def AgentID.coerce (value : Json) : AgentID :=
  ([googleWindows, googleMac, codexMac, museWindows, museMac].find? fun a =>
    value = .str a.value).getD unknown

def HostID.coerce (value : Json) : HostID :=
  ([windowsRemote, macLocal].find? fun h => value = .str h.value).getD unknown

/-- `EventType(value)`, if it raises nothing. -/
def EventType.ofValue (value : Json) : Option EventType :=
  [assigned, started, partialCheckpoint, final, blocked, error, cancelled].find? fun t =>
    value = .str t.value

def MissionStatus.ofValue (value : Json) : Option MissionStatus :=
  [working, done, blocked, error].find? fun s => value = .str s.value

@[simp]
theorem AgentID.coerce_value (a : AgentID) :
  coerce (.str a.value) = a
  := by
  cases a <;> rfl

@[simp]
theorem HostID.coerce_value (h : HostID) :
  coerce (.str h.value) = h
  := by
  cases h <;> rfl

@[simp]
theorem EventType.ofValue_value (t : EventType) :
  ofValue (.str t.value) = some t
  := by
  cases t <;> rfl

@[simp]
theorem MissionStatus.ofValue_value (s : MissionStatus) :
  ofValue (.str s.value) = some s
  := by
  cases s <;> rfl

/-! ### Events as JSON -/

/-- A text that may be missing. -/
def optional : Option Str → Json
  | none => .null
  | some s => .str s

namespace CoordinationEvent

/-- `to_dict`, with the fields in their order. -/
def toDict (e : CoordinationEvent) : Members :=
  [(text "event_id", .str e.eventId), (text "mission_id", .str e.missionId),
    (text "agent_id", .str e.agentId.value), (text "host_id", .str e.hostId.value),
    (text "event_type", .str e.eventType.value), (text "status", .str e.status.value),
    (text "depends_on", .arr (e.dependsOn.map .str)), (text "head", optional e.head),
    (text "evidence_ref", .str e.evidenceRef), (text "created_at", .str e.createdAt),
    (text "payload_hash", .str e.payloadHash), (text "branch", optional e.branch),
    (text "pr", optional e.pr), (text "test_evidence", optional e.testEvidence),
    (text "blocker", optional e.blocker), (text "next_action", optional e.nextAction),
    (text "ownership", optional e.ownership)]

def fields : List Str :=
  ["event_id", "mission_id", "agent_id", "host_id", "event_type", "status", "depends_on", "head",
    "evidence_ref", "created_at", "payload_hash", "branch", "pr", "test_evidence", "blocker",
    "next_action", "ownership"].map text

def required : List Str :=
  ["event_id", "mission_id", "head", "evidence_ref", "created_at", "payload_hash"].map text

end CoordinationEvent

structure RebuiltEvent where
  eventId : Json
  missionId : Json
  agentId : AgentID
  hostId : HostID
  eventType : EventType
  status : MissionStatus
  dependsOn : List Json
  head : Json
  evidenceRef : Json
  createdAt : Json
  payloadHash : Json
  branch : Json
  pr : Json
  testEvidence : Json
  blocker : Json
  nextAction : Json
  ownership : Json
  deriving DecidableEq

/-- `list(value or [])`, if it raises nothing. -/
def listOf (value : Json) : Option (List Json) :=
  if !value.truthy then some []
  else match value with
    | .arr items => some items
    | .str s => some (s.map fun c => .str [c])
    | .obj d => some (d.map fun p => .str p.1)
    | _ => none

/-- `from_dict`, if it raises neither a `ValueError` nor a `TypeError`. -/
def fromDict (data : Members) : Option RebuiltEvent := do
  if !data.all (fun p => p.1 ∈ CoordinationEvent.fields) then none
  let eventType ← EventType.ofValue (get data (text "event_type"))
  let status ← MissionStatus.ofValue (get data (text "status"))
  let dependsOn ← listOf (get data (text "depends_on"))
  if !CoordinationEvent.required.all (hasKey data) then none
  return {
    eventId := get data (text "event_id")
    missionId := get data (text "mission_id")
    agentId := .coerce (get data (text "agent_id"))
    hostId := .coerce (get data (text "host_id"))
    eventType := eventType
    status := status
    dependsOn := dependsOn
    head := get data (text "head")
    evidenceRef := get data (text "evidence_ref")
    createdAt := get data (text "created_at")
    payloadHash := get data (text "payload_hash")
    branch := get data (text "branch")
    pr := get data (text "pr")
    testEvidence := get data (text "test_evidence")
    blocker := get data (text "blocker")
    nextAction := get data (text "next_action")
    ownership := get data (text "ownership")
  }

def CoordinationEvent.rebuilt (e : CoordinationEvent) : RebuiltEvent where
  eventId := .str e.eventId
  missionId := .str e.missionId
  agentId := e.agentId
  hostId := e.hostId
  eventType := e.eventType
  status := e.status
  dependsOn := e.dependsOn.map .str
  head := optional e.head
  evidenceRef := .str e.evidenceRef
  createdAt := .str e.createdAt
  payloadHash := .str e.payloadHash
  branch := optional e.branch
  pr := optional e.pr
  testEvidence := optional e.testEvidence
  blocker := optional e.blocker
  nextAction := optional e.nextAction
  ownership := optional e.ownership

/-! ### The file -/

/-- What reading the file raises: a `UnicodeDecodeError`, or a `RuntimeError` that names a line. -/
inductive StoreError where
  | unicodeDecodeError
  | corrupt (line : Nat)
  deriving DecidableEq

/-- `CoordinationEvent.from_dict(json.loads(line))`, if it raises neither a `ValueError` nor a
`TypeError`.  No JSON but an object is an event. -/
def readRecord (line : Str) : Option RebuiltEvent :=
  match loads line with
  | some (.obj data) => fromDict data
  | _ => none

/-- `read_events`, on the lines from an index on. -/
def readLines (tornTail : Bool) (lastIndex : Nat) : Nat → List Str → Except StoreError (List RebuiltEvent)
  | _, [] => .ok []
  | index, line :: lines =>
      if blank line then readLines tornTail lastIndex (index + 1) lines
      else match readRecord line with
        | some event => do
            let events ← readLines tornTail lastIndex (index + 1) lines
            return event :: events
        | none =>
            if tornTail && index = lastIndex then readLines tornTail lastIndex (index + 1) lines
            else .error (.corrupt (index + 1))

/-- `read_events`; a file that does not exist is like an empty one. -/
def readEvents (file : Bytes) : Except StoreError (List RebuiltEvent) :=
  match file.decode with
  | none => .error .unicodeDecodeError
  | some s =>
      let raw := newlines s
      if raw = [] then .ok []
      else readLines (!endsWith raw [10]) ((lines raw).length - 1) 0 (lines raw)

def recordLine (event : CoordinationEvent) : Bytes :=
  Bytes.ofAscii ((Json.obj (members event.toDict)).dumpsSpaced.flatMap asciiPoint ++ [10])

def writeEvent (file : Bytes) (event : CoordinationEvent) (bytes : Nat) : Bytes :=
  file ++ (recordLine event).take bytes

/-! ### What is read back -/

theorem AgentID.fuse_value (a : AgentID) :
  fuse a.value = a.value
  := by
  cases a <;> rfl

theorem HostID.fuse_value (h : HostID) :
  fuse h.value = h.value
  := by
  cases h <;> rfl

theorem EventType.fuse_value (t : EventType) :
  fuse t.value = t.value
  := by
  cases t <;> rfl

theorem MissionStatus.fuse_value (s : MissionStatus) :
  fuse s.value = s.value
  := by
  cases s <;> rfl

theorem reread_optional (s : Option Str) :
  (optional s).reread = optional (s.map fuse)
  := by
  cases s <;> rfl

theorem rereadItems_texts (l : List Str) :
  reread.rereadItems (l.map .str) = (l.map fuse).map .str
  := by
  induction l with
  | nil => rfl
  | cons s l ih => rw [List.map_cons, reread.rereadItems, ih, List.map_cons, List.map_cons, reread]

theorem optional_injective :
  Function.Injective optional
  := by
  intro s t h
  cases s <;> cases t <;> simp_all [optional]

theorem map_fuse_eq_self_iff (s : Option Str) :
  s.map fuse = s ↔ ∀ t, s = some t → hasPair t = false
  := by
  cases s <;> simp [fuse_eq_self_iff]

namespace CoordinationEvent

def texts (e : CoordinationEvent) : List Str :=
  [e.eventId, e.missionId, e.evidenceRef, e.createdAt, e.payloadHash] ++ e.dependsOn ++
    [e.head, e.branch, e.pr, e.testEvidence, e.blocker, e.nextAction, e.ownership].reduceOption

theorem forall_mem_texts (e : CoordinationEvent) {p : Str → Prop} :
  (∀ s ∈ e.texts, p s) ↔
    (p e.eventId ∧ p e.missionId ∧ p e.evidenceRef ∧ p e.createdAt ∧ p e.payloadHash) ∧
    (∀ s ∈ e.dependsOn, p s) ∧ (∀ s, e.head = some s → p s) ∧ (∀ s, e.branch = some s → p s) ∧
    (∀ s, e.pr = some s → p s) ∧ (∀ s, e.testEvidence = some s → p s) ∧
    (∀ s, e.blocker = some s → p s) ∧ (∀ s, e.nextAction = some s → p s) ∧
    ∀ s, e.ownership = some s → p s
  := by
  simp only [texts, List.mem_append, List.reduceOption_mem_iff, List.mem_cons, List.not_mem_nil,
    or_false, or_imp, forall_and, forall_eq, eq_comm, and_assoc]

def Typed (e : CoordinationEvent) : Prop :=
  ∀ s ∈ e.texts, IsText s

instance (e : CoordinationEvent) : Decidable e.Typed :=
  inferInstanceAs (Decidable (∀ s ∈ e.texts, _))

def Plain (e : CoordinationEvent) : Prop :=
  ∀ s ∈ e.texts, hasPair s = false

instance (e : CoordinationEvent) : Decidable e.Plain :=
  inferInstanceAs (Decidable (∀ s ∈ e.texts, _))

/-- The event with the surrogate pairs of its texts fused. -/
def fused (e : CoordinationEvent) : CoordinationEvent where
  eventId := fuse e.eventId
  missionId := fuse e.missionId
  agentId := e.agentId
  hostId := e.hostId
  eventType := e.eventType
  status := e.status
  dependsOn := e.dependsOn.map fuse
  head := e.head.map fuse
  evidenceRef := fuse e.evidenceRef
  createdAt := fuse e.createdAt
  payloadHash := fuse e.payloadHash
  branch := e.branch.map fuse
  pr := e.pr.map fuse
  testEvidence := e.testEvidence.map fuse
  blocker := e.blocker.map fuse
  nextAction := e.nextAction.map fuse
  ownership := e.ownership.map fuse

/-- `to_dict` with the fields in the order of their names. -/
def sorted (e : CoordinationEvent) : Members :=
  [(text "agent_id", .str e.agentId.value), (text "blocker", optional e.blocker),
    (text "branch", optional e.branch), (text "created_at", .str e.createdAt),
    (text "depends_on", .arr (e.dependsOn.map .str)), (text "event_id", .str e.eventId),
    (text "event_type", .str e.eventType.value), (text "evidence_ref", .str e.evidenceRef),
    (text "head", optional e.head), (text "host_id", .str e.hostId.value),
    (text "mission_id", .str e.missionId), (text "next_action", optional e.nextAction),
    (text "ownership", optional e.ownership), (text "payload_hash", .str e.payloadHash),
    (text "pr", optional e.pr), (text "status", .str e.status.value),
    (text "test_evidence", optional e.testEvidence)]

theorem members_toDict (e : CoordinationEvent) :
  members e.toDict = e.sorted
  := by
  simp +decide only [members, toDict, List.foldl_cons, List.foldl_nil, insertMember, if_true, if_false]
  rfl

theorem members_sorted (e : CoordinationEvent) :
  members e.sorted = e.sorted
  := members_eq_self rfl

theorem fromDict_sorted (e : CoordinationEvent) :
  fromDict e.sorted = some e.rebuilt
  := by
  have hfields : e.sorted.all (fun p => p.1 ∈ fields) = true := rfl
  have hrequired : required.all (hasKey e.sorted) = true := rfl
  have htype : get e.sorted (text "event_type") = .str e.eventType.value := rfl
  have hstatus : get e.sorted (text "status") = .str e.status.value := rfl
  have hagent : get e.sorted (text "agent_id") = .str e.agentId.value := rfl
  have hhost : get e.sorted (text "host_id") = .str e.hostId.value := rfl
  have hdepends : listOf (get e.sorted (text "depends_on")) = some (e.dependsOn.map .str) := by
    have hget : get e.sorted (text "depends_on") = .arr (e.dependsOn.map .str) := rfl
    rw [hget]
    cases e.dependsOn <;> rfl
  simp only [fromDict, hfields, hrequired, htype, hstatus, hagent, hhost, hdepends]
  simp
  rfl

theorem rereadMembers_sorted (e : CoordinationEvent) :
  reread.rereadMembers e.sorted = e.fused.sorted
  := by
  simp only [sorted, fused, reread.rereadMembers, reread, reread_optional, rereadItems_texts,
    AgentID.fuse_value, HostID.fuse_value, EventType.fuse_value, MissionStatus.fuse_value]
  rfl

theorem rereadMembers_toDict (e : CoordinationEvent) :
  reread.rereadMembers e.toDict = e.fused.toDict
  := by
  simp only [toDict, fused, reread.rereadMembers, reread, reread_optional, rereadItems_texts,
    AgentID.fuse_value, HostID.fuse_value, EventType.fuse_value, MissionStatus.fuse_value]
  rfl

theorem readRecord_of_loads (e : CoordinationEvent) {line : Str}
    (h : loads line = some (.obj e.fused.sorted)) :
  readRecord line = some e.fused.rebuilt
  := by
  rw [readRecord, h]
  exact fromDict_sorted e.fused

theorem rebuilt_injective :
  Function.Injective rebuilt
  := by
  intro d e h
  have hstr : Function.Injective Json.str := fun _ _ => Json.str.inj
  cases d
  cases e
  simpa only [rebuilt, RebuiltEvent.mk.injEq, mk.injEq, Json.str.injEq, optional_injective.eq_iff,
    hstr.list_map.eq_iff] using h

theorem fused_eq_self_iff (e : CoordinationEvent) :
  e.fused = e ↔ e.Plain
  := by
  have hlist : e.dependsOn.map fuse = e.dependsOn ↔ ∀ s ∈ e.dependsOn, hasPair s = false := by
    conv_lhs => rhs; rw [← List.map_id' e.dependsOn]
    simp only [List.map_inj_left, fuse_eq_self_iff]
  cases e
  simp only [fused, mk.injEq, true_and, map_fuse_eq_self_iff, fuse_eq_self_iff] at hlist ⊢
  rw [hlist]
  rw [Plain, forall_mem_texts]
  simp only
  tauto

theorem fit_optional {s : Option Str} (h : ∀ t, s = some t → IsText t) :
  (optional s).Fit
  := by
  cases s with
  | none => trivial
  | some t => exact h t rfl

theorem fit_texts {l : List Str} (h : ∀ s ∈ l, IsText s) :
  Fit.fitItems (l.map .str)
  := by
  induction l with
  | nil => trivial
  | cons s l ih =>
    exact ⟨h s (List.mem_cons_self ..), ih fun t ht => h t (List.mem_cons_of_mem _ ht)⟩

theorem fit_sorted {e : CoordinationEvent} (h : e.Typed) :
  Fit.fitMembers e.sorted
  := by
  have hagent : IsText e.agentId.value := by cases e.agentId <;> decide
  have hhost : IsText e.hostId.value := by cases e.hostId <;> decide
  have htype : IsText e.eventType.value := by cases e.eventType <;> decide
  have hstatus : IsText e.status.value := by cases e.status <;> decide
  obtain ⟨⟨hevent, hmission, hevidence, hcreated, hpayload⟩, hdepends, hhead, hbranch, hpr, htest,
    hblocker, hnext, hownership⟩ := e.forall_mem_texts.mp h
  refine ⟨by decide, hagent, by decide, fit_optional hblocker, by decide, fit_optional hbranch,
    by decide, hcreated, by decide, fit_texts hdepends, by decide, hevent, by decide, htype, by decide,
    hevidence, by decide, fit_optional hhead, by decide, hhost, by decide, hmission, by decide,
    fit_optional hnext, by decide, fit_optional hownership, by decide, hpayload, by decide,
    fit_optional hpr, by decide, hstatus, by decide, fit_optional htest, trivial⟩

end CoordinationEvent

end Courier.Coordination
