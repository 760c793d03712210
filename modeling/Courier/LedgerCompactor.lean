import Courier.Platform
import Courier.WorkQueue.Recomputed

/-!
# The ledger compactor

The compactor folds the lines of a work queue ledger into one record for every item.  It looks the kind of an event up
under a key that the queue does not write, so that its records differ from the replay as soon as the ledger has an
event.
-/

namespace Courier.LedgerCompactor

open Json Text
open WorkQueue (Entry Item Items Queue Reader Serving Status Usage claimAlpha jsonLoads lastDay lone
  readLedger serving_of_reached)

/-! ### Records -/

structure CompactStateRecord where
  itemId : Str
  status : Json
  lastHolder : Json
  expiresAt : Json
  eventCount : Int
  lastUpdated : Json
  deriving DecidableEq

/-- `to_dict`, with its keys in order. -/
def CompactStateRecord.toDict (record : CompactStateRecord) : Json :=
  .obj [(text "event_count", .int record.eventCount), (text "expires_at", record.expiresAt),
    (text "item_id", .str record.itemId), (text "last_holder", record.lastHolder),
    (text "last_updated", record.lastUpdated), (text "status", record.status)]

/-- The records, under the ids of their items. -/
abbrev Records := Dict Json CompactStateRecord

/-- The key that `json.dumps` writes for an id; two numbers are sorted as these texts. -/
def keyText : Json → Str
  | .str s => s
  | v => v.dumps

/-- The id is a text. -/
def isText : Json → Bool
  | .str _ => true
  | _ => false

/-- `_canonical_records_hash`.  Texts and numbers are not sorted together. -/
def canonicalRecordsHash [Platform] (records : Records) (totalEvents : Int) : Except Exc Str :=
  if records.keys.all isText || !records.keys.any isText then
    .ok (Platform.sha256 (dumpsAscii (.obj
      [(text "records", .obj (members (records.entries.map fun p => (keyText p.1, p.2.toDict)))),
        (text "total_events", .int totalEvents)])))
  else .error .typeError

/-! ### Replay -/

/-- `event.get("event_type", "").upper()`. -/
def eventTypeOf (event : Members) : Except Exc Str :=
  match event.lookup (text "event_type") with
  | none => .ok []
  | some (.str s) => .ok (upper s)
  | some _ => .error .attributeError

/-- `apply_event_to_record`, at a time in ISO form. -/
def applyEventToRecord [Platform] (current : Option CompactStateRecord) (event : Members)
    (now : Str) : Except Exc CompactStateRecord := do
  let eventType ← eventTypeOf event
  let itemId := pyStr ((event.lookup (text "item_id")).getD (.str []))
  let holder := get event (text "holder")
  let timestamp :=
    if truthy (get event (text "timestamp")) then get event (text "timestamp") else .str now
  let prevCount := current.elim 0 CompactStateRecord.eventCount
  if eventType = text "CLAIM" then
    return ⟨itemId, .str (text "CLAIMED"), holder, get event (text "expires_at"), prevCount + 1,
      timestamp⟩
  else if eventType = text "RENEW" then
    return ⟨itemId, .str (text "CLAIMED"), holder, get event (text "expires_at"), prevCount + 1,
      timestamp⟩
  else if eventType = text "RELEASE" then
    return ⟨itemId, (event.lookup (text "result")).getD (.str (text "DONE")), holder, .null,
      prevCount + 1, timestamp⟩
  else
    return ⟨itemId, current.elim (.str (text "UNKNOWN")) CompactStateRecord.status,
      if truthy holder then holder else current.elim .null CompactStateRecord.lastHolder,
      current.elim .null CompactStateRecord.expiresAt, prevCount + 1, timestamp⟩

/-- A value that a dictionary has no place for. -/
def unhashable : Json → Bool
  | .arr _ | .obj _ => true
  | _ => false

/-- The body of the loop of `rebuild_ledger_state`, with the lines so far counted. -/
def rebuildLine [Platform] (reader : Reader) (clock : Nat → Str) (startLine : Int)
    (acc : Records × Nat) (line : Bytes) : Except Exc (Records × Nat) :=
  match line.decode with
  | none => .error .valueError
  | some s =>
      if acc.2 < startLine ∨ blank s then .ok (acc.1, acc.2 + 1)
      else match reader (strip s) with
      | .error _ => .ok (acc.1, acc.2 + 1)
      | .ok (.obj event) =>
          let itemId := get event (text "item_id")
          if !truthy itemId then .ok (acc.1, acc.2 + 1)
          else if unhashable itemId then .error .typeError
          else do
            let record ← applyEventToRecord (acc.1.get? itemId) event (clock acc.2)
            return (acc.1.set itemId record, acc.2 + 1)
      | .ok _ => .error .attributeError

/-- `rebuild_ledger_state`; the clock says the time at which a line is applied. -/
def rebuildLedgerState [Platform] (reader : Reader) (clock : Nat → Str) (ledger : Option Bytes)
    (startLine : Int := 0) (initialState : Records := ∅) : Except Exc (Records × Nat) :=
  match ledger with
  | none => .ok (initialState, 0)
  | some raw => raw.splitLines.foldlM (rebuildLine reader clock startLine) (initialState, 0)

structure LedgerSnapshot where
  snapshotId : Str
  createdAt : Str
  totalEventsCompacted : Int
  records : Records
  checksumSha256 : Str

/-- `create_snapshot`, at a time in seconds and in ISO form. -/
def createSnapshot [Platform] (reader : Reader) (clock : Nat → Str) (seconds : Int) (nowIso : Str)
    (ledger : Option Bytes) : Except Exc LedgerSnapshot := do
  let (state, totalEvents) ← rebuildLedgerState reader clock ledger
  let checksum ← canonicalRecordsHash state totalEvents
  return ⟨text "snap_" ++ decimal seconds, nowIso, totalEvents, state, checksum⟩

/-! ### Agreement with the queue -/

def statusName : Status → Str
  | .ready => text "READY"
  | .claimed => text "CLAIMED"
  | .done => text "DONE"
  | .blocked => text "BLOCKED"

def holderOf (item : Item) : Json :=
  match item.lease, item.releasedBy with
  | some lease, _ => .str lease.holder
  | none, some name => .str name
  | none, none => .null

def expiryOf (item : Item) : Json :=
  match item.lease with
  | some lease => .str lease.expiresAt
  | none => .null

/-- The record says of the item what the queue replays. -/
structure Agrees (record : CompactStateRecord) (item : Item) : Prop where
  status : record.status = .str (statusName item.status)
  holder : record.lastHolder = holderOf item
  expiresAt : record.expiresAt = expiryOf item

def Named (ledger : Bytes) (id : Str) : Prop :=
  ∃ events, readLedger jsonLoads ledger = .ok events ∧
    ∃ event ∈ events, get event (text "item_id") = .str id

def Agreement (ledger : Bytes) (records : Records) (items : Items) : Prop :=
  ∀ id, Named ledger id → ∃ record item, records.get? (.str id) = some record ∧
    items.get? id = some item ∧ Agrees record item

/-! ### Events of the queue -/

def holderName : Entry → Str
  | .claim _ holder .. | .renew _ holder .. | .release _ holder .. => holder

theorem lookup_reread {e : Entry} (h : e.Lawful) :
  e.reread.lookup (text "event_type") = none ∧ get e.reread (text "timestamp") = .null ∧
    get e.reread (text "holder") = .str (holderName e) ∧
    e.reread.lookup (text "item_id") = some (.str e.itemId)
  := by
  rw [Entry.reread_eq h]
  cases e <;> exact ⟨rfl, rfl, rfl, rfl⟩

theorem names_of_lawful {e : Entry} (h : e.Lawful) :
  holderName e ≠ [] ∧ e.itemId ≠ []
  := by
  have hne : ∀ {s : Str}, WorkQueue.isToken s = true → s ≠ [] := by
    rintro _ htoken rfl
    simp [WorkQueue.isToken] at htoken
  cases e with
  | claim | renew | release => exact ⟨hne h.2.1, hne h.1⟩

/-- The record of an item after one more entry about it, applied at a time. -/
def passOn (current : Option CompactStateRecord) (e : Entry) (now : Str) : CompactStateRecord :=
  ⟨e.itemId, current.elim (.str (text "UNKNOWN")) CompactStateRecord.status, .str (holderName e),
    current.elim .null CompactStateRecord.expiresAt,
    current.elim 0 CompactStateRecord.eventCount + 1, .str now⟩

theorem applyEventToRecord_reread [Platform] {e : Entry} (h : e.Lawful)
    (current : Option CompactStateRecord) (now : Str) :
  applyEventToRecord current e.reread now = .ok (passOn current e now)
  := by
  obtain ⟨htype, htimestamp, hholder, hitem⟩ := lookup_reread h
  obtain ⟨hname, -⟩ := names_of_lawful h
  have htruthy : truthy (.str (holderName e)) = true := by simpa [truthy] using hname
  have hfalsy : truthy .null = false := rfl
  simp only [applyEventToRecord, eventTypeOf, htype, htimestamp, hholder, hitem, htruthy, hfalsy,
    if_true, Except.ok_bind, Option.getD_some, pyStr_str, Bool.false_eq_true, if_false]
  rw [if_neg (by decide), if_neg (by decide), if_neg (by decide)]
  rfl

/-- What the records say after some entries of the queue. -/
structure Passed (entries : List Entry) (records : Records) : Prop where
  recorded : ∀ e ∈ entries, (records.get? (.str e.itemId)).isSome
  texts : ∀ key ∈ records.keys, isText key = true
  unknown : ∀ key record, records.get? key = some record →
    record.status = .str (text "UNKNOWN") ∧ record.expiresAt = .null

theorem passed_nil :
  Passed [] ∅
  := by
  refine ⟨by simp, ?_, ?_⟩
  · intro key hkey
    cases hkey
  · intro key record hrecord
    cases hrecord

/-- One more entry gives its item a record that says nothing of its status. -/
theorem Passed.concat {entries : List Entry} {records : Records} (h : Passed entries records)
    (e : Entry) (now : Str) :
  Passed (entries ++ [e])
    (records.set (.str e.itemId) (passOn (records.get? (.str e.itemId)) e now))
  := by
  constructor
  · intro f hf
    rw [Dict.get?_set]
    split_ifs with hkey
    · rfl
    · rcases List.mem_append.mp hf with hf | hf
      · exact h.recorded f hf
      · rw [List.mem_singleton.mp hf] at hkey
        exact absurd rfl hkey
  · intro key hkey
    rw [Dict.keys_set] at hkey
    split_ifs at hkey
    · exact h.texts key hkey
    · rcases List.mem_append.mp hkey with hkey | hkey
      · exact h.texts key hkey
      · rw [List.mem_singleton.mp hkey]
        rfl
  · intro key record hrecord
    rw [Dict.get?_set] at hrecord
    split_ifs at hrecord with hkey
    · cases hrecord
      cases hold : records.get? (.str e.itemId) with
      | none => exact ⟨rfl, rfl⟩
      | some old =>
      have hunknown := h.unknown (.str e.itemId) old hold
      exact hunknown
    · exact h.unknown key record hrecord

theorem rebuildLine_entry [Platform] {e : Entry} (h : e.Lawful) (clock : Nat → Str)
    (records : Records) (n : Nat) :
  rebuildLine jsonLoads clock 0 (records, n) (Bytes.ofAscii (dumpsAscii (.obj (texts e.event)))) =
    .ok (records.set (.str e.itemId) (passOn (records.get? (.str e.itemId)) e (clock n)), n + 1)
  := by
  have hblank : blank (dumpsAscii (.obj (texts e.event))) = false := by
    obtain ⟨s, hs⟩ := dumpsAscii_obj (texts e.event)
    rw [hs]
    rfl
  have hitem : get e.reread (text "item_id") = .str e.itemId := by
    rw [Json.get, (lookup_reread h).2.2.2]
    rfl
  have htruthy : truthy (.str e.itemId) = true := by
    simpa [truthy] using (names_of_lawful h).2
  simp only [rebuildLine, Entry.decode_line h, hblank, strip_dumpsAscii_obj, Entry.loads_line h,
    hitem, htruthy, applyEventToRecord_reread h]
  rfl

theorem rebuild_entries [Platform] {entries : List Entry} (h : ∀ e ∈ entries, e.Lawful)
    (clock : Nat → Str) :
  ∃ records, (entries.map fun e => Bytes.ofAscii (dumpsAscii (.obj (texts e.event)))).foldlM
      (rebuildLine jsonLoads clock 0) (∅, 0) = .ok (records, entries.length) ∧
    Passed entries records
  := by
  induction entries using List.reverseRecOn with
  | nil => exact ⟨∅, rfl, passed_nil⟩
  | append_singleton entries e ih =>
    obtain ⟨records, hrecords, hpassed⟩ := ih fun f hf => h f (List.mem_append_left _ hf)
    refine ⟨_, ?_, hpassed.concat e (clock entries.length)⟩
    rw [List.map_append, List.foldlM_append, hrecords, List.map_singleton, Except.ok_bind,
      List.foldlM_cons, rebuildLine_entry (h e (by simp)), Except.ok_bind, List.length_append]
    rfl

theorem passed_of_reached [Platform] {usage : Usage} (h : usage.Reached) (clock : Nat → Str)
    (seconds : Int) (nowIso : Str) :
  ∃ entries snapshot, Serving usage.queue entries ∧
    rebuildLedgerState jsonLoads clock (some usage.queue.ledger) =
      .ok (snapshot.records, entries.length) ∧
    createSnapshot jsonLoads clock seconds nowIso (some usage.queue.ledger) = .ok snapshot ∧
    Passed entries snapshot.records
  := by
  obtain ⟨entries, hserving⟩ := serving_of_reached h
  obtain ⟨records, hrecords, hpassed⟩ := rebuild_entries hserving.lawful clock
  have hstate : rebuildLedgerState jsonLoads clock (some usage.queue.ledger) =
      .ok (records, entries.length) := by
    rw [rebuildLedgerState, WorkQueue.splitLines_of_serving hserving, hrecords]
  have htexts : (records.keys.all isText || !records.keys.any isText) = true := by
    rw [List.all_eq_true.mpr hpassed.texts]
    rfl
  have hsnapshot : ∃ snapshot, createSnapshot jsonLoads clock seconds nowIso
      (some usage.queue.ledger) = .ok snapshot ∧ snapshot.records = records := by
    simp only [createSnapshot, hstate, Except.ok_bind, canonicalRecordsHash, htexts, if_true]
    exact ⟨_, rfl, rfl⟩
  obtain ⟨snapshot, hsnapshot, rfl⟩ := hsnapshot
  exact ⟨entries, snapshot, hserving, hstate, hsnapshot, hpassed⟩

theorem named_iff {q : Queue} {entries : List Entry} (h : Serving q entries) {id : Str} :
  Named q.ledger id ↔ ∃ e ∈ entries, e.itemId = id
  := by
  have hitem : ∀ e ∈ entries, Json.get e.reread (text "item_id") = .str e.itemId := by
    intro e he
    rw [Json.get, (lookup_reread (h.lawful e he)).2.2.2]
    rfl
  constructor
  · rintro ⟨events, hevents, event, hmem, hid⟩
    cases hevents.symm.trans (WorkQueue.readLedger_of_serving h)
    obtain ⟨e, he, rfl⟩ := List.mem_map.mp hmem
    rw [hitem e he] at hid
    exact ⟨e, he, Json.str.inj hid⟩
  · rintro ⟨e, he, rfl⟩
    exact ⟨_, WorkQueue.readLedger_of_serving h, _, List.mem_map_of_mem he, hitem e he⟩

theorem agreement_iff_empty [Platform] {usage : Usage} (h : usage.Reached) (clock : Nat → Str)
    (seconds : Int) (nowIso : Str) :
  ∃ records totalEvents snapshot items,
    rebuildLedgerState jsonLoads clock (some usage.queue.ledger) = .ok (records, totalEvents) ∧
    createSnapshot jsonLoads clock seconds nowIso (some usage.queue.ledger) = .ok snapshot ∧
    snapshot.records = records ∧ usage.queue.replay = .ok items ∧
    (Agreement usage.queue.ledger records items ↔ usage.queue.ledger = [])
  := by
  obtain ⟨entries, snapshot, hserving, hstate, hsnapshot, hpassed⟩ :=
    passed_of_reached h clock seconds nowIso
  refine ⟨_, _, snapshot, _, hstate, hsnapshot, rfl, WorkQueue.replay_of_serving hserving, ?_⟩
  constructor
  · intro hagree
    cases entries with
    | nil => exact hserving.ledger
    | cons e entries =>
      obtain ⟨record, item, hrecord, -, hsame⟩ :=
        hagree e.itemId ((named_iff hserving).mpr ⟨e, by simp, rfl⟩)
      have hstatus := (hpassed.unknown _ record hrecord).1.symm.trans hsame.status
      have hnot : ∀ status : Status, text "UNKNOWN" ≠ statusName status := by
        rintro (_ | _ | _ | _) <;> decide
      exact absurd (Json.str.inj hstatus) (hnot item.status)
  · rintro hempty id ⟨events, hevents, event, hmem, -⟩
    rw [hempty] at hevents
    cases hevents
    cases hmem

section Example

/-- The only item was claimed for a minute. -/
def afterClaim : Usage :=
  ⟨(Queue.call ⟨lone, []⟩ claimAlpha lastDay).2, lastDay⟩

theorem agreement_iff_empty_of_claim :
  ∃ records totalEvents snapshot items,
    @rebuildLedgerState Platform.plain jsonLoads (fun _ => []) (some afterClaim.queue.ledger) 0 ∅ =
      .ok (records, totalEvents) ∧
    @createSnapshot Platform.plain jsonLoads (fun _ => []) 0 [] (some afterClaim.queue.ledger) =
      .ok snapshot ∧
    snapshot.records = records ∧ afterClaim.queue.replay = .ok items ∧
    (Agreement afterClaim.queue.ledger records items ↔ afterClaim.queue.ledger = [])
  := by
  apply @agreement_iff_empty Platform.plain
  apply Run.Reachable.move (s := Usage.mk ⟨lone, []⟩ lastDay)
  · exact Run.Reachable.start rfl
  · exact ⟨claimAlpha, lastDay, le_refl _, trivial, rfl⟩

theorem not_agreement_of_claim :
  (@rebuildLedgerState Platform.plain jsonLoads (fun _ => []) (some afterClaim.queue.ledger)
      0 ∅).toOption.any (fun rebuilt => (rebuilt.1.get? (.str (text "alpha"))).any fun record =>
        record.status = .str (text "UNKNOWN") && record.expiresAt = .null) = true ∧
    afterClaim.queue.replay.toOption.any (fun items => (items.get? (text "alpha")).any fun item =>
        item.status = .claimed
          && item.lease = some ⟨text "ann", text "local", text "9999-12-31T00:01:00Z"⟩) = true
  := by
  constructor <;> decide +kernel

end Example

end Courier.LedgerCompactor
