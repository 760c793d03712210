import Courier.Library.Calendar
import Courier.Library.Checks
import Courier.Library.Dict
import Courier.Library.Escaped
import Courier.Library.Program
import Courier.WorkQueue.Scopes

/-!
# The work queue

Claims, renewals and releases of the items of a fixed catalog are events that are appended to a ledger, one line of
JSON each.  Every operation replays the whole ledger and drops the leases that have expired, under a file lock.
-/

namespace Courier.WorkQueue

open Calendar Json Program Text

/-! ### Items -/

inductive Status where
  | ready
  | claimed
  | done
  | blocked
  deriving DecidableEq

structure Lease where
  holder : Str
  host : Str
  expiresAt : Str
  deriving DecidableEq

structure Item where
  id : Str
  title : Str
  lane : Str
  branch : Str
  filesScope : List Str
  dependsOn : List Str
  acceptance : List Str
  providerHints : List Str
  status : Status
  lease : Option Lease
  result : Option Str
  releasedBy : Option Str
  deriving DecidableEq

abbrev Items := Dict Str Item

/-- The tokens a refused or unreadable operation is raised with. -/
inductive Code where
  | item
  | holder
  | host
  | ttl
  | result
  | unknownItem
  | duplicateClaim
  | notClaimable
  | scopeOverlap
  | notHolder
  | alreadyDone
  | unreadable
  | ledgerTooLarge
  deriving DecidableEq

/-- What an operation raises: a `WorkQueueError`, or an error of the language. -/
inductive Exc where
  | refused (code : Code)
  | overflowError
  | typeError
  | recursionError
  deriving DecidableEq

def MAX_LEDGER_BYTES : Nat := 1048576

def MAX_TTL_SECONDS : Nat := 604800

/-! ### Checks -/

/-- `_TOKEN.fullmatch(value) is not None and len(value) <= 64`. -/
def isToken (value : Str) : Bool :=
  value ≠ [] && (value.all fun c => (65 ≤ c && c ≤ 90) || (97 ≤ c && c ≤ 122) || isDigit c
    || c = 46 || c = 95 || c = 58 || c = 45) && value.length ≤ 64

def eventToken : Json → Bool
  | .str value => isToken value
  | _ => false

def requireToken (code : Code) : Json → Except Exc Str
  | .str value => if isToken value then .ok value else .error (.refused code)
  | _ => .error (.refused code)

def requireTtl : Json → Except Exc Nat
  | .int value =>
      if 1 ≤ value ∧ value ≤ MAX_TTL_SECONDS then .ok value.toNat else .error (.refused .ttl)
  | _ => .error (.refused .ttl)

/-- A result is one line of at most 200 characters that is not blank. -/
def isResult (value : Str) : Bool :=
  !blank value && value.length ≤ 200 && !value.any fun c => c = 10 || c = 13

def requireResult : Json → Except Exc Str
  | .str value => if isResult value then .ok (strip value) else .error (.refused .result)
  | _ => .error (.refused .result)

def isFailedResult (result : Str) : Bool :=
  let norm := upper (strip result)
  startsWith norm (text "FAIL") || startsWith norm (text "ABORT")
    || startsWith norm (text "BLOCK") || startsWith norm (text "ERROR")

/-- The status a release leads to. -/
def targetStatus (result : Str) : Status :=
  if isFailedResult result then .blocked else .done

def stamp (moment : DateTime) : Str :=
  format moment

def parseTime : Json → Option DateTime
  | .str value => parse value
  | _ => none

/-- `_TIME.fullmatch(str(value or "")) is not None`, which holds of texts only. -/
def timeMatches : Json → Bool
  | .str value => isStamp value
  | _ => false

/-! ### Items at a moment -/

def held (item : Item) (moment : DateTime) : Bool :=
  match item.status, item.lease with
  | .claimed, some lease => (parse lease.expiresAt).any fun expires => moment.instant < expires.instant
  | _, _ => false

def claimableStatus (item : Item) (moment : DateTime) : Bool :=
  item.status = .ready || (item.status = .claimed && !held item moment)

def depsMet (item : Item) (items : Items) (donePrs draftPrs : List Str) : Bool :=
  item.dependsOn.all fun dep =>
    !draftPrs.contains dep &&
      match items.get? dep with
      | some other => other.status = .done
      | none => donePrs.contains dep

def blockedByScope (item : Item) (occupied : List Item) (prFiles : List Str) : Bool :=
  (occupied.any fun other => other.id ≠ item.id && scopesOverlap item.filesScope other.filesScope)
    || prFiles.any fun path => item.filesScope.any fun scope => directoryCovers scope path

/-! ### The ledger -/

/-- What `json.loads` raises: a `JSONDecodeError`, another `ValueError`, or a `RecursionError`. -/
inductive LoadsError where
  | decode
  | value
  | recursion
  deriving DecidableEq

abbrev Reader := Str → Except LoadsError Json

/-- `json.loads`, on texts without the constants that are no JSON. -/
def jsonLoads : Reader
  | s => match loads s with
    | some value => .ok value
    | none => .error .decode

/-- `_read_ledger`, on one line that is not blank. -/
def readLine (reader : Reader) (line : Bytes) : Except Exc Members :=
  match line.decode with
  | none => .error (.refused .unreadable)
  | some s =>
      match reader s with
      | .error .recursion => .error .recursionError
      | .error _ => .error (.refused .unreadable)
      | .ok (.obj event) =>
          if get event (text "type") = .str (text "CLAIM")
              ∨ get event (text "type") = .str (text "RENEW")
              ∨ get event (text "type") = .str (text "RELEASE") then .ok event
          else .error (.refused .unreadable)
      | .ok _ => .error (.refused .unreadable)

/-- `_read_ledger`, on the lines. -/
def readLines (reader : Reader) : List Bytes → Except Exc (List Members)
  | [] => .ok []
  | line :: lines =>
      if line.blank then readLines reader lines
      else do
        let event ← readLine reader line
        let events ← readLines reader lines
        return event :: events

/-- `_read_ledger`; a file that does not exist is like an empty one. -/
def readLedger (reader : Reader) (raw : Bytes) : Except Exc (List Members) :=
  if raw.length > MAX_LEDGER_BYTES then .error (.refused .ledgerTooLarge)
  else readLines reader raw.splitLines

/-- `items.get(event.get("item_id"))`. -/
def eventItem (items : Items) : Json → Except Exc (Option Item)
  | .str itemId => .ok (items.get? itemId)
  | .arr _ | .obj _ => .error .typeError
  | _ => .ok none

/-- `_apply`, to an item that is neither done nor blocked. -/
def applyTo (item : Item) (event : Members) : Except Exc Item :=
  let holder := get event (text "holder")
  let expiresAt := get event (text "expires_at")
  if get event (text "type") = .str (text "CLAIM") then
    if eventToken holder ∧ eventToken (get event (text "host")) ∧ timeMatches expiresAt then
      .ok { item with
        status := .claimed
        lease := some ⟨holder.asStr, (get event (text "host")).asStr, expiresAt.asStr⟩ }
    else .error (.refused .unreadable)
  else
    match item.status, item.lease with
    | .claimed, some lease =>
        if get event (text "type") = .str (text "RENEW") then
          if holder ≠ .str lease.holder then .ok item
          else if timeMatches expiresAt then
            .ok { item with lease := some { lease with expiresAt := expiresAt.asStr } }
          else .error (.refused .unreadable)
        else
          match get event (text "result") with
          | .str result =>
              if !isResult result then .error (.refused .unreadable)
              else if !eventToken holder ∨ holder ≠ .str lease.holder then .ok item
              else
                .ok { item with
                  status := targetStatus result
                  lease := none
                  result := some (strip result)
                  releasedBy := some lease.holder }
          | _ => .error (.refused .unreadable)
    | _, _ => .ok item

/-- `_apply`. -/
def applyEvent (items : Items) (event : Members) : Except Exc Items := do
  match ← eventItem items (get event (text "item_id")) with
  | none => return items
  | some item =>
      if item.status = .done ∨ item.status = .blocked then
        return items
      let item ← applyTo item event
      return items.set item.id item

def expire (moment : DateTime) (item : Item) : Item :=
  if item.status = .claimed ∧ ¬ held item moment then { item with status := .ready, lease := none }
  else item

/-! ### The queue -/

/-- What `_load_seeds` admits as an item. -/
structure Item.IsSeed (item : Item) : Prop where
  token : isToken item.id = true
  leased : item.status = .claimed ↔ item.lease.isSome
  lease : ∀ lease, item.lease = some lease →
    isToken lease.holder = true ∧ isToken lease.host = true ∧ isStamp lease.expiresAt = true
  result : item.result = none
  releasedBy : item.releasedBy = none

structure Catalog where
  items : Items
  seeds : ∀ id item, items.get? id = some item → item.id = id ∧ item.IsSeed
  nonempty : items.entries ≠ []

/-- An item that nobody has worked on. -/
def Item.unclaimed (id : Str) (filesScope : List Str) : Item where
  id := id
  title := id
  lane := id
  branch := id
  filesScope := filesScope
  dependsOn := []
  acceptance := []
  providerHints := []
  status := .ready
  lease := none
  result := none
  releasedBy := none

/-- A catalog of items that nobody has worked on. -/
def Catalog.unclaimed (rows : List (Str × List Str)) (tokens : ∀ row ∈ rows, isToken row.1 = true)
    (nodup : (rows.map Prod.fst).Nodup) (nonempty : rows ≠ []) : Catalog where
  items := ⟨rows.map fun row => (row.1, .unclaimed row.1 row.2), by
    rw [List.map_map]
    exact nodup⟩
  seeds := by
    intro id item hitem
    obtain ⟨row, hrow, heq⟩ := List.mem_map.mp (Dict.get?_eq_some.mp hitem)
    cases heq
    exact ⟨rfl, ⟨tokens row hrow, by simp [Item.unclaimed], by simp [Item.unclaimed], rfl, rfl⟩⟩
  nonempty := by simpa using nonempty

/-- A catalog of one item. -/
def lone : Catalog :=
  .unclaimed [(text "alpha", [text "core/queue.py"])] (by decide) (by decide) (by decide)

/-- A work queue with its files. -/
structure Queue where
  catalog : Catalog
  ledger : Bytes

abbrev Action := EStateM Exc Queue

/-- Refuse an operation under a condition. -/
def refuseIf (condition : Bool) (code : Code) : Action Unit :=
  if condition then throw (.refused code) else pure ()

@[simp]
theorem wp_refuseIf {condition : Bool} {code : Code} {normal : Unit → Queue → Prop}
    {raised : Exc → Queue → Prop} {q : Queue} :
  wp (refuseIf condition code) normal raised q ↔
    if condition then raised (.refused code) q else normal () q
  := by
  cases condition <;> rfl

def Queue.replay (q : Queue) : Except Exc Items := do
  let events ← readLedger jsonLoads q.ledger
  events.foldlM applyEvent q.catalog.items

def effective (moment : DateTime) : Action Items := do
  let q ← get
  let items ← lift q.replay
  return items.map (expire moment)

def ledgerLine (event : List (Str × Str)) : Bytes :=
  Bytes.ofAscii (dumpsAscii (.obj (texts event))) ++ [10]

/-- `_append`, under the lock. -/
def append (event : List (Str × Str)) : Action Unit := do
  let q ← get
  if q.ledger.length + (ledgerLine event).length > MAX_LEDGER_BYTES then
    throw (.refused .ledgerTooLarge)
  set { q with ledger := q.ledger ++ ledgerLine event }

/-- The event of a claim or a renewal, with its keys in order. -/
def leaseEvent (type itemId holder host expiresAt at_ : Str) : List (Str × Str) :=
  [(text "at", at_), (text "expires_at", expiresAt), (text "holder", holder), (text "host", host),
    (text "item_id", itemId), (text "type", type)]

/-- The event of a release, with its keys in order. -/
def releaseEvent (itemId holder result at_ : Str) : List (Str × Str) :=
  [(text "at", at_), (text "holder", holder), (text "item_id", itemId), (text "result", result),
    (text "type", text "RELEASE")]

/-! ### Operations -/

/-- `_claim_view`; the status is always `CLAIMED`. -/
structure ClaimView where
  itemId : Str
  status : Status
  holder : Str
  host : Str
  expiresAt : Str
  idempotent : Bool
  deriving DecidableEq

structure ReleaseView where
  itemId : Str
  status : Status
  result : Str
  idempotent : Bool
  deriving DecidableEq

/-- `_public`. -/
structure PublicView where
  id : Str
  title : Str
  lane : Str
  branch : Str
  filesScope : List Str
  dependsOn : List Str
  acceptance : List Str
  providerHints : List Str
  status : Status
  lease : Option Lease
  deriving DecidableEq

def publicView (item : Item) : PublicView where
  id := item.id
  title := item.title
  lane := item.lane
  branch := item.branch
  filesScope := item.filesScope
  dependsOn := item.dependsOn
  acceptance := item.acceptance
  providerHints := item.providerHints
  status := item.status
  lease := item.lease

/-- `item["lease"]`, of which a member is about to be read. -/
def leaseOf (item : Item) : Except Exc Lease :=
  match item.lease with
  | some lease => .ok lease
  | none => .error .typeError

def claimView (item : Item) (idempotent : Bool) : Except Exc ClaimView := do
  let lease ← leaseOf item
  return ⟨item.id, .claimed, lease.holder, lease.host, lease.expiresAt, idempotent⟩

/-- `_stamp(moment + timedelta(seconds=ttl))`. -/
def stampAfter (moment : DateTime) (ttl : Nat) : Except Exc Str :=
  match moment.addSeconds ttl with
  | some expires => .ok (stamp expires)
  | none => .error .overflowError

/-- What the surroundings say of pull requests. -/
structure Prs where
  openFiles : List Str := []
  done : List Str := []
  drafts : List Str := []

def admissible (prs : Prs) (moment : DateTime) (items : Items) (item : Item) : Bool :=
  claimableStatus item moment && depsMet item items prs.done prs.drafts
    && !blockedByScope item (items.values.filter fun other => held other moment)
      (prs.openFiles.map norm)

def listReady (prs : Prs) (moment : DateTime) : Action (List PublicView) := do
  let items ← effective moment
  let ready := items.values.filter (admissible prs moment items)
  return (ready.map publicView).mergeSort fun a b => a.id ≤ b.id

def items (moment : DateTime) : Action (List PublicView) := do
  let rows ← effective moment
  return (rows.values.mergeSort fun a b => a.id ≤ b.id).map publicView

def claim (item holder ttl host : Json) (prs : Prs) (moment : DateTime) : Action ClaimView := do
  let itemId ← lift (requireToken .item item)
  let holder ← lift (requireToken .holder holder)
  let host ← lift (requireToken .host host)
  let ttl ← lift (requireTtl ttl)
  let items ← effective moment
  match items.get? itemId with
  | none => throw (.refused .unknownItem)
  | some current =>
      if held current moment then
        let lease ← lift (leaseOf current)
        refuseIf (lease.holder ≠ holder) .duplicateClaim
        lift (claimView current true)
      else
        refuseIf (!claimableStatus current moment || !depsMet current items prs.done prs.drafts)
          .notClaimable
        refuseIf (blockedByScope current (items.values.filter fun other => held other moment)
          (prs.openFiles.map norm)) .scopeOverlap
        let expires ← lift (stampAfter moment ttl)
        append (leaseEvent (text "CLAIM") itemId holder host expires (stamp moment))
        lift (claimView { current with status := .claimed, lease := some ⟨holder, host, expires⟩ }
          false)

def renew (item holder ttl : Json) (moment : DateTime) : Action ClaimView := do
  let itemId ← lift (requireToken .item item)
  let holder ← lift (requireToken .holder holder)
  let ttl ← lift (requireTtl ttl)
  let items ← effective moment
  match items.get? itemId with
  | none => throw (.refused .unknownItem)
  | some current =>
      refuseIf (!held current moment) .notHolder
      let lease ← lift (leaseOf current)
      refuseIf (lease.holder ≠ holder) .notHolder
      let expires ← lift (stampAfter moment ttl)
      append (leaseEvent (text "RENEW") itemId holder lease.host expires (stamp moment))
      lift (claimView { current with lease := some { lease with expiresAt := expires } } false)

def release (item holder result : Json) (moment : DateTime) : Action ReleaseView := do
  let itemId ← lift (requireToken .item item)
  let holder ← lift (requireToken .holder holder)
  let result ← lift (requireResult result)
  let items ← effective moment
  match items.get? itemId with
  | none => throw (.refused .unknownItem)
  | some current =>
      if (current.status = .done ∨ current.status = .blocked) ∧ current.result = some result
          ∧ current.releasedBy = some holder then
        return ⟨itemId, current.status, result, true⟩
      else
        refuseIf (current.status = .done) .alreadyDone
        refuseIf (current.status = .blocked) .notClaimable
        refuseIf (!held current moment) .notHolder
        let lease ← lift (leaseOf current)
        refuseIf (lease.holder ≠ holder) .notHolder
        append (releaseEvent itemId holder result (stamp moment))
        return ⟨itemId, targetStatus result, result, false⟩

end Courier.WorkQueue
