import Courier.WorkQueue

/-!
# The audit of a ledger

The auditor reads a ledger on its own.  It goes through the events once, keeps for every item what
the events so far make of it, and notes a violation for every event that should not be there.  A
ledger is valid if there are none.
-/

namespace Courier.WorkQueue

open Calendar Json Text

/-! ### Violations -/

/-- The types of events. -/
inductive Kind where
  | claim
  | renew
  | release
  deriving DecidableEq

/-- The type that an event names. -/
def Kind.name : Kind → Str
  | claim => text "CLAIM"
  | renew => text "RENEW"
  | release => text "RELEASE"

/-- The stamps of an event. -/
inductive StampKey where
  | createdAt
  | expiresAt
  deriving DecidableEq

/-- The codes of violations, with the values that their messages show. -/
inductive Fault where
  | ledgerTooLarge (size : Nat)
  | utf8DecodeError
  | jsonSyntaxError
  | malformedEvent
  | unknownEventType (kind : Json)
  | invalidItemId (itemId : Json)
  | invalidHolder (holder : Json)
  | invalidHost (host : Json)
  | invalidTimestamp (key : StampKey) (value : Json)
  | invalidResult
  | timeTravel (createdAt : Json) (previous : Str)
  | expiresInPast (expiresAt createdAt : Json)
  | ttlOutOfBounds (seconds : Int)
  | alreadyDone (kind : Kind) (itemId : Str)
  | duplicateClaim (itemId holder expiresAt : Str)
  | concurrentScopeConflict (itemId otherId : Str)
  | notClaimed (kind : Kind) (itemId : Str)
  | notHolder (kind : Kind) (holder leaseHolder : Str)
  | leaseExpired (itemId expiredAt createdAt : Str)
  | conflictingRelease (itemId : Str) (result : Option Str)
  deriving DecidableEq

structure AuditViolation where
  lineNumber : Option Nat
  fault : Fault
  event : Option Members
  deriving DecidableEq

/-! ### What is tracked of an item -/

/-- The status of a tracked item; it has a lease exactly if it is claimed. -/
inductive Standing where
  | unclaimed
  | claimed (lease : Lease)
  | done
  | blocked
  deriving DecidableEq

/-- What the events so far make of an item. -/
structure Tracked where
  itemId : Str
  standing : Standing
  result : Option Str
  releasedBy : Option Str
  history : List Members
  deriving DecidableEq

/-- An item without events. -/
def Tracked.fresh (itemId : Str) : Tracked where
  itemId := itemId
  standing := .unclaimed
  result := none
  releasedBy := none
  history := []

/-- The values of the variables of an audit. -/
structure Log where
  violations : List AuditViolation := []
  items : Dict Str Tracked := ∅
  prevCreatedAt : Option DateTime := none
  lastCreatedAt : Option DateTime := none
  totalLines : Nat := 0
  eventsCount : Nat := 0

/-- Note violations of the current line. -/
def Log.flag (log : Log) (faults : List Fault) (event : Option Members) : Log :=
  { log with violations := log.violations ++ faults.map fun fault =>
      ⟨some log.totalLines, fault, event⟩ }

/-! ### Events -/

/-- What every event has. -/
structure Envelope where
  kind : Kind
  itemId : Str
  holder : Str
  createdAt : DateTime

/-- `event.get("created_at") or event.get("at")`. -/
def createdAtRaw (event : Members) : Json :=
  if truthy (get event (text "created_at")) then get event (text "created_at")
  else get event (text "at")

/-- The type of an event, if it is known. -/
def kind? (value : Json) : Option Kind :=
  [.claim, .renew, .release].find? fun kind : Kind => value = .str kind.name

def token? : Json → Option Str
  | .str value => if isToken value then some value else none
  | _ => none

/-- The checks of what every event has. -/
def envelope (event : Members) : Except Fault Envelope :=
  match kind? (get event (text "type")) with
  | none => .error (.unknownEventType (get event (text "type")))
  | some kind =>
      match token? (get event (text "item_id")) with
      | none => .error (.invalidItemId (get event (text "item_id")))
      | some itemId =>
          match token? (get event (text "holder")) with
          | none => .error (.invalidHolder (get event (text "holder")))
          | some holder =>
              match parseTime (createdAtRaw event) with
              | none => .error (.invalidTimestamp .createdAt (createdAtRaw event))
              | some createdAt => .ok ⟨kind, itemId, holder, createdAt⟩

/-- `expires_at <= created_at`. -/
def expiryFaults (event : Members) (createdAt expiresAt : DateTime) : List Fault :=
  if expiresAt.instant ≤ createdAt.instant then
    [.expiresInPast (get event (text "expires_at")) (createdAtRaw event)]
  else []

/-- `ttl > MAX_TTL_SECONDS`, of stamps, which are whole seconds. -/
def ttlFaults (createdAt expiresAt : DateTime) : List Fault :=
  if createdAt.seconds + MAX_TTL_SECONDS < expiresAt.seconds then
    [.ttlOutOfBounds ((expiresAt.seconds : Int) - createdAt.seconds)]
  else []

/-- The lease was not over before a moment, as the auditor sees it. -/
def activeAt (lease : Lease) (createdAt : DateTime) : Bool :=
  (parse lease.expiresAt).any fun expires => createdAt.instant ≤ expires.instant

def claimStep (env : Envelope) (host expiresAt : Str) (state : Tracked) : Tracked × List Fault :=
  let taken := { state with standing := .claimed ⟨env.holder, host, expiresAt⟩ }
  match state.standing with
  | .done => (state, [.alreadyDone .claim env.itemId])
  | .claimed lease =>
      if activeAt lease env.createdAt then
        if lease.holder = env.holder ∧ lease.expiresAt = expiresAt then (state, [])
        else (state, [.duplicateClaim env.itemId lease.holder lease.expiresAt])
      else (taken, [])
  | .unclaimed | .blocked => (taken, [])

def conflicts (scopes : Dict Str (List Str)) (items : Dict Str Tracked) (env : Envelope) :
    List Fault :=
  match scopes.get? env.itemId with
  | none => []
  | some scope =>
      (items.entries.filter fun entry =>
        entry.1 ≠ env.itemId && match entry.2.standing with
          | .claimed lease => activeAt lease env.createdAt
              && (scopes.get? entry.1).any fun other => scopesOverlap scope other
          | _ => false).map fun entry => .concurrentScopeConflict env.itemId entry.1

/-- The branch of claims. -/
def auditClaim (scopes : Dict Str (List Str)) (items : Dict Str Tracked) (event : Members)
    (env : Envelope) (state : Tracked) : Tracked × List Fault :=
  match token? (get event (text "host")) with
  | none => (state, [.invalidHost (get event (text "host"))])
  | some host =>
      match parseTime (get event (text "expires_at")) with
      | none => (state, [.invalidTimestamp .expiresAt (get event (text "expires_at"))])
      | some expires =>
          let (state, faults) := claimStep env host (get event (text "expires_at")).asStr state
          (state, expiryFaults event env.createdAt expires ++ ttlFaults env.createdAt expires ++ faults
            ++ conflicts scopes items env)

def renewStep (env : Envelope) (expiresAt : Str) (state : Tracked) : Tracked × List Fault :=
  match state.standing with
  | .done => (state, [.alreadyDone .renew env.itemId])
  | .claimed lease =>
      if lease.holder ≠ env.holder then (state, [.notHolder .renew env.holder lease.holder])
      else
        match parse lease.expiresAt with
        | some expires =>
            if expires.instant < env.createdAt.instant then
              (state, [.leaseExpired env.itemId (stamp expires) (stamp env.createdAt)])
            else ({ state with standing := .claimed { lease with expiresAt := expiresAt } }, [])
        | none => ({ state with standing := .claimed { lease with expiresAt := expiresAt } }, [])
  | .unclaimed | .blocked => (state, [.notClaimed .renew env.itemId])

/-- The branch of renewals. -/
def auditRenew (event : Members) (env : Envelope) (state : Tracked) : Tracked × List Fault :=
  match parseTime (get event (text "expires_at")) with
  | none => (state, [.invalidTimestamp .expiresAt (get event (text "expires_at"))])
  | some expires =>
      let (state, faults) := renewStep env (get event (text "expires_at")).asStr state
      (state, expiryFaults event env.createdAt expires ++ faults)

def releaseStep (env : Envelope) (result : Str) (state : Tracked) : Tracked × List Fault :=
  match state.standing with
  | .done | .blocked =>
      if state.releasedBy = some env.holder ∧ state.result = some (strip result) then (state, [])
      else (state, [.conflictingRelease env.itemId state.result])
  | .claimed lease =>
      if lease.holder ≠ env.holder then (state, [.notHolder .release env.holder lease.holder])
      else
        ({ state with
            standing := if isFailedResult result then .blocked else .done
            result := some (strip result)
            releasedBy := some env.holder }, [])
  | .unclaimed => (state, [.notClaimed .release env.itemId])

/-- The branch of releases. -/
def auditRelease (event : Members) (env : Envelope) (state : Tracked) : Tracked × List Fault :=
  match get event (text "result") with
  | .str result =>
      if isResult result then releaseStep env result state else (state, [.invalidResult])
  | _ => (state, [.invalidResult])

def transition (scopes : Dict Str (List Str)) (items : Dict Str Tracked) (event : Members)
    (env : Envelope) (state : Tracked) : Tracked × List Fault :=
  match env.kind with
  | .claim => auditClaim scopes items event env state
  | .renew => auditRenew event env state
  | .release => auditRelease event env state

/-- The chronology check. -/
def chronologyFaults (log : Log) (event : Members) (createdAt : DateTime) : List Fault :=
  match log.prevCreatedAt with
  | some previous =>
      if createdAt.instant < previous.instant then [.timeTravel (createdAtRaw event) (stamp previous)]
      else []
  | none => []

/-- What is tracked of an item, whether or not there were events for it. -/
def Log.state (log : Log) (itemId : Str) : Tracked :=
  (log.items.get? itemId).getD (.fresh itemId)

def auditEvent (scopes : Dict Str (List Str)) (log : Log) (event : Members) : Log :=
  match envelope event with
  | .error fault => log.flag [fault] (some event)
  | .ok env =>
      let state := log.state env.itemId
      let (state, faults) := transition scopes log.items event env
        { state with history := state.history ++ [event] }
      { log.flag (chronologyFaults log event env.createdAt ++ faults) (some event) with
        items := log.items.set env.itemId state
        prevCreatedAt := some env.createdAt
        lastCreatedAt := some env.createdAt }

/-! ### The ledger -/

def auditLine (reader : Reader) (scopes : Dict Str (List Str)) (log : Log) (line : Bytes) :
    Except LoadsError Log :=
  let log := { log with totalLines := log.totalLines + 1 }
  if line.blank then .ok log
  else
    match line.decode with
    | none => .ok (log.flag [.utf8DecodeError] none)
    | some s =>
        match reader s with
        | .error .decode => .ok (log.flag [.jsonSyntaxError] none)
        | .error why => .error why
        | .ok (.obj event) =>
            .ok (auditEvent scopes { log with eventsCount := log.eventsCount + 1 } event)
        | .ok _ => .ok (log.flag [.malformedEvent] none)

structure AuditReport where
  valid : Bool
  totalLines : Nat
  eventsCount : Nat
  itemsCount : Nat
  activeLeasesCount : Nat
  completedCount : Nat
  violations : List AuditViolation
  items : Dict Str Tracked

def countsActive (lastCreatedAt : Option DateTime) (state : Tracked) : Bool :=
  match state.standing, lastCreatedAt with
  | .claimed lease, some last => !(parse lease.expiresAt).any fun expires => expires.instant ≤ last.instant
  | .claimed _, none => true
  | _, _ => false

/-- The report on what was found. -/
def Log.report (log : Log) : AuditReport where
  valid := log.violations.length = 0
  totalLines := log.totalLines
  eventsCount := log.eventsCount
  itemsCount := log.items.entries.length
  activeLeasesCount := (log.items.values.filter (countsActive log.lastCreatedAt)).length
  completedCount := (log.items.values.filter fun state => state.standing = .done).length
  violations := log.violations
  items := log.items

/-- `audit`; a file that does not exist is like an empty one. -/
def audit (reader : Reader) (scopes : Dict Str (List Str)) (raw : Bytes) :
    Except LoadsError AuditReport :=
  if raw.length > MAX_LEDGER_BYTES then
    .ok ⟨false, 0, 0, 0, 0, 0, [⟨none, .ledgerTooLarge raw.length, none⟩], ∅⟩
  else do
    let log ← raw.splitLines.foldlM (auditLine reader scopes) {}
    return log.report

/-! ### Clean events -/

def Log.pending (log : Log) (event : Members) (itemId : Str) : Tracked :=
  { log.state itemId with history := (log.state itemId).history ++ [event] }

theorem clean_auditEvent {scopes : Dict Str (List Str)} {log : Log} {event : Members} :
  (auditEvent scopes log event).violations = [] ↔ log.violations = [] ∧ ∃ env,
    envelope event = .ok env ∧ chronologyFaults log event env.createdAt = [] ∧
      (transition scopes log.items event env (log.pending event env.itemId)).2 = []
  := by
  unfold auditEvent
  split
  · next fault heq => simp [heq, Log.flag]
  · next env heq => simp [heq, Log.flag, Log.pending]

theorem items_auditEvent (scopes : Dict Str (List Str)) (log : Log) {event : Members} {env : Envelope}
    (h : envelope event = .ok env) :
  (auditEvent scopes log event).items = log.items.set env.itemId
      (transition scopes log.items event env (log.pending event env.itemId)).1 ∧
    (auditEvent scopes log event).prevCreatedAt = some env.createdAt
  := by
  unfold auditEvent
  rw [h]
  exact ⟨rfl, rfl⟩

end Courier.WorkQueue
