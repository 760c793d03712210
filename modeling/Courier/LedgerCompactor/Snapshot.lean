import Courier.LedgerCompactor
import Courier.Library.Indented

/-!
# Snapshots

A snapshot of a ledger is written to a file, read back and checked, and carried on over the lines that
were added to the ledger since.  What comes out is what a whole rebuild gives, apart from the times that
are generated for lines that name none (`replay_eq_rebuild`).
-/

namespace Courier.LedgerCompactor

open Calendar Json Text
open WorkQueue (Reader jsonLoads)

/-! ### Files -/

/-- `int(value)` of a text or a float. -/
class Conversion where
  toInt : Json → Except Exc Int

/-- `int(value)`. -/
def pyInt [Conversion] : Json → Except Exc Int
  | .int i => .ok i
  | .bool b => .ok (if b then 1 else 0)
  | .str s => Conversion.toInt (.str s)
  | .float literal => Conversion.toInt (.float literal)
  | _ => .error .typeError

/-- `from_dict` of a record. -/
def CompactStateRecord.fromDict [Platform] [Conversion] (data : Members) :
    Except Exc CompactStateRecord := do
  let eventCount ← pyInt ((data.lookup (text "event_count")).getD (.int 0))
  return ⟨pyStr ((data.lookup (text "item_id")).getD (.str [])),
    .str (pyStr ((data.lookup (text "status")).getD (.str []))), get data (text "last_holder"),
    get data (text "expires_at"), eventCount, get data (text "last_updated")⟩

/-- `{k: CompactStateRecord.from_dict(v) for k, v in raw_records.items()}`. -/
def recordsFromDict [Platform] [Conversion] (rawRecords : Members) : Except Exc Records :=
  rawRecords.foldlM (fun records p =>
    match p.2 with
    | .obj data => do
        let record ← CompactStateRecord.fromDict data
        return records.set (.str p.1) record
    | _ => .error .attributeError) ∅

namespace LedgerSnapshot

/-- `to_dict`, with its keys in order. -/
def toDict (snapshot : LedgerSnapshot) : Json :=
  .obj [(text "checksum_sha256", .str snapshot.checksumSha256),
    (text "created_at", .str snapshot.createdAt),
    (text "records", .obj (members (snapshot.records.entries.map fun p => (keyText p.1, p.2.toDict)))),
    (text "snapshot_id", .str snapshot.snapshotId),
    (text "total_events_compacted", .int snapshot.totalEventsCompacted)]

def fromDict [Platform] [Conversion] (data : Members) : Except Exc LedgerSnapshot := do
  match (data.lookup (text "records")).getD (.obj []) with
  | .obj rawRecords =>
      let records ← recordsFromDict rawRecords
      let totalEvents ← pyInt ((data.lookup (text "total_events_compacted")).getD (.int 0))
      return ⟨pyStr ((data.lookup (text "snapshot_id")).getD (.str [])),
        pyStr ((data.lookup (text "created_at")).getD (.str [])), totalEvents, records,
        pyStr ((data.lookup (text "checksum_sha256")).getD (.str []))⟩
  | _ => .error .attributeError

def file (snapshot : LedgerSnapshot) : Str :=
  snapshot.toDict.dumpsIndented

end LedgerSnapshot

/-- `load_snapshot`, of a file with a text. -/
def loadSnapshot [Platform] [Conversion] (reader : Reader) (file : Option Str) :
    Except Exc LedgerSnapshot :=
  match file with
  | none => .error .environment
  | some s =>
      match reader s with
      | .error .recursion => .error .recursion
      | .error _ => .error .valueError
      | .ok (.obj data) => do
          let snapshot ← LedgerSnapshot.fromDict data
          let expected ← canonicalRecordsHash snapshot.records snapshot.totalEventsCompacted
          if snapshot.checksumSha256 ≠ expected then
            .error .valueError
          else
            return snapshot
      | .ok _ => .error .attributeError

def replayWithDelta [Platform] [Conversion] (reader : Reader) (clock : Nat → Str)
    (file : Option Str) (ledger : Option Bytes) : Except Exc Records := do
  let snapshot ← loadSnapshot reader file
  let (state, _) ← rebuildLedgerState reader clock ledger snapshot.totalEventsCompacted snapshot.records
  return state

/-- `datetime.now(timezone.utc).isoformat()`. -/
def isoNow (moment : DateTime) : Str :=
  (format moment).dropLast ++
    (if moment.microsecond = 0 then [] else
      46 :: (digits2 (moment.microsecond / 10000) ++ digits4 (moment.microsecond % 10000))) ++
    text "+00:00"

/-! ### Ledgers -/

def Admissible (line : Bytes) : Prop :=
  ∃ s, line.decode = some s ∧ (blank s = true ∨ loads (strip s) = none ∨
    ∃ event, loads (strip s) = some (.obj event) ∧
      ∀ key ∈ [text "item_id", text "event_type", text "holder", text "result"],
        ∀ v, event.lookup key = some v → ∃ t, v = .str t)

/-- The ledger is made of admissible lines, with a newline behind each of them. -/
structure Sound (ledger : Bytes) : Prop where
  ended : ledger = [] ∨ ledger.getLast? = some 10
  admissible : ∀ line ∈ ledger.splitLines, Admissible line

/-- The record can be written: its texts are those that a reader of JSON gives. -/
structure Writable (record : CompactStateRecord) : Prop where
  itemId : PlainText record.itemId
  status : ∃ s, record.status = .str s ∧ PlainText s
  lastHolder : Good record.lastHolder
  expiresAt : Good record.expiresAt
  lastUpdated : Good record.lastUpdated

def AllWritable (records : Records) : Prop :=
  ∀ key record, records.get? key = some record →
    (∃ id, key = .str id ∧ PlainText id) ∧ Writable record

/-- The records say the same, apart from two times that were generated for one line. -/
structure Alike (generated : Str → Str → Prop) (record record' : CompactStateRecord) : Prop where
  itemId : record.itemId = record'.itemId
  status : record.status = record'.status
  lastHolder : record.lastHolder = record'.lastHolder
  expiresAt : record.expiresAt = record'.expiresAt
  eventCount : record.eventCount = record'.eventCount
  lastUpdated : record.lastUpdated = record'.lastUpdated ∨
    ∃ stamp stamp', generated stamp stamp' ∧ record.lastUpdated = .str stamp ∧
      record'.lastUpdated = .str stamp'

def AllAlike (generated : Str → Str → Prop) (records records' : Records) : Prop :=
  ∀ key, Option.Rel (Alike generated) (records.get? key) (records'.get? key)

/-! ### Events -/

section

variable [Platform] {event : Members} {generated : Str → Str → Prop} {clock clock' : Nat → Str}
  {records records' : Records} {line : Bytes} {n : Nat} {startLine startLine' : Int}

def HasTexts (event : Members) : Prop :=
  ∀ key ∈ [text "item_id", text "event_type", text "holder", text "result"],
    ∀ v, event.lookup key = some v → ∃ t, v = .str t

omit [Platform] in
theorem eventTypeOf_of_texts (h : HasTexts event) :
  ∃ eventType, eventTypeOf event = .ok eventType
  := by
  unfold eventTypeOf
  cases hkind : event.lookup (text "event_type") with
  | none => exact ⟨_, rfl⟩
  | some v =>
    obtain ⟨t, rfl⟩ := h _ (by simp) v hkind
    exact ⟨_, rfl⟩

theorem apply_alike (h : HasTexts event) {now now' : Str} (hnow : generated now now')
    {current current' : Option CompactStateRecord}
    (hcurrent : Option.Rel (Alike generated) current current') :
  ∃ record record', applyEventToRecord current event now = .ok record ∧
    applyEventToRecord current' event now' = .ok record' ∧ Alike generated record record'
  := by
  obtain ⟨eventType, htype⟩ := eventTypeOf_of_texts h
  have hstamp : (if truthy (get event (text "timestamp")) then get event (text "timestamp")
        else Json.str now) =
      (if truthy (get event (text "timestamp")) then get event (text "timestamp") else .str now') ∨
      ∃ stamp stamp', generated stamp stamp' ∧
        (if truthy (get event (text "timestamp")) then get event (text "timestamp")
          else Json.str now) = .str stamp ∧
        (if truthy (get event (text "timestamp")) then get event (text "timestamp")
          else Json.str now') = .str stamp' := by
    split_ifs
    · exact .inl rfl
    · exact .inr ⟨now, now', hnow, rfl, rfl⟩
  have hsame : current.elim 0 CompactStateRecord.eventCount =
        current'.elim 0 CompactStateRecord.eventCount ∧
      current.elim (.str (text "UNKNOWN")) CompactStateRecord.status =
        current'.elim (.str (text "UNKNOWN")) CompactStateRecord.status ∧
      current.elim .null CompactStateRecord.lastHolder =
        current'.elim .null CompactStateRecord.lastHolder ∧
      current.elim .null CompactStateRecord.expiresAt =
        current'.elim .null CompactStateRecord.expiresAt := by
    cases hcurrent with
    | none => exact ⟨rfl, rfl, rfl, rfl⟩
    | some halike =>
      exact ⟨halike.eventCount, halike.status, halike.lastHolder, halike.expiresAt⟩
  obtain ⟨hcount, hstatus, hholder, hexpires⟩ := hsame
  simp only [applyEventToRecord, htype, Except.ok_bind, hcount, hstatus, hholder, hexpires]
  generalize (if truthy (get event (text "timestamp")) then get event (text "timestamp")
    else Json.str now) = stamp at hstamp ⊢
  generalize (if truthy (get event (text "timestamp")) then get event (text "timestamp")
    else Json.str now') = stamp' at hstamp ⊢
  split_ifs
  all_goals exact ⟨_, _, rfl, rfl, rfl, rfl, rfl, rfl, rfl, hstamp⟩

section

omit [Platform]

theorem good_get (h : Good (.obj event)) (key : Str) :
  Good (get event key)
  := by
  refine ⟨wf_get h.1 key, ?_⟩
  unfold Json.get
  cases hkey : event.lookup key with
  | none => trivial
  | some v => exact everyText_of_lookup h.2 hkey

theorem plainText_of_lookup (h : Good (.obj event)) {key t : Str} (hkey : event.lookup key = some (.str t)) :
  PlainText t
  := by
  have hplain := everyText_of_lookup h.2 hkey
  exact hplain

end

/-- An event that is read gives a record that can be written. -/
theorem writable_apply (hgood : Good (.obj event)) (htexts : HasTexts event) {now : Str}
    (hnow : PlainText now) {current : Option CompactStateRecord}
    (hcurrent : ∀ record, current = some record → Writable record) {record : CompactStateRecord}
    (h : applyEventToRecord current event now = .ok record) :
  Writable record
  := by
  obtain ⟨eventType, htype⟩ := eventTypeOf_of_texts htexts
  have hitem : PlainText (pyStr ((event.lookup (text "item_id")).getD (.str []))) := by
    cases hkey : event.lookup (text "item_id") with
    | none => exact ⟨by simp, rfl⟩
    | some v =>
      obtain ⟨t, rfl⟩ := htexts _ (by simp) v hkey
      exact plainText_of_lookup hgood hkey
  have hresult : ∃ s, (event.lookup (text "result")).getD (.str (text "DONE")) = .str s ∧ PlainText s := by
    cases hkey : event.lookup (text "result") with
    | none => exact ⟨_, rfl, by decide⟩
    | some v =>
      obtain ⟨t, rfl⟩ := htexts _ (by simp) v hkey
      exact ⟨t, rfl, plainText_of_lookup hgood hkey⟩
  have hstamp : Good (if truthy (get event (text "timestamp")) then get event (text "timestamp")
      else Json.str now) := by
    split_ifs
    · exact good_get hgood _
    · exact ⟨rfl, hnow⟩
  have hold : (∃ s, current.elim (.str (text "UNKNOWN")) CompactStateRecord.status = .str s ∧ PlainText s) ∧
      Good (current.elim .null CompactStateRecord.lastHolder) ∧
      Good (current.elim .null CompactStateRecord.expiresAt) := by
    cases current with
    | none => exact ⟨⟨_, rfl, by decide⟩, ⟨rfl, trivial⟩, ⟨rfl, trivial⟩⟩
    | some old =>
      have hwritable := hcurrent old rfl
      exact ⟨hwritable.status, hwritable.lastHolder, hwritable.expiresAt⟩
  have hclaimed : ∃ s, Json.str (text "CLAIMED") = .str s ∧ PlainText s := ⟨_, rfl, by decide⟩
  obtain ⟨hstatus, hholder, hexpires⟩ := hold
  simp only [applyEventToRecord, htype, Except.ok_bind] at h
  generalize (if truthy (get event (text "timestamp")) then get event (text "timestamp")
    else Json.str now) = stamp at hstamp h
  split_ifs at h
  · cases h
    exact ⟨hitem, hclaimed, good_get hgood _, good_get hgood _, hstamp⟩
  · cases h
    exact ⟨hitem, hclaimed, good_get hgood _, good_get hgood _, hstamp⟩
  · cases h
    exact ⟨hitem, hresult, good_get hgood _, ⟨rfl, trivial⟩, hstamp⟩
  · cases h
    exact ⟨hitem, hstatus, good_get hgood _, hexpires, hstamp⟩
  · cases h
    exact ⟨hitem, hstatus, hholder, hexpires, hstamp⟩

/-! ### Lines -/

/-- What an admissible line is to the compactor: nothing, or an event about an item. -/
theorem line_cases (h : Admissible line) :
  (∀ clock startLine acc, rebuildLine jsonLoads clock startLine acc line = .ok (acc.1, acc.2 + 1)) ∨
    ∃ id event, PlainText id ∧ Good (.obj event) ∧ HasTexts event ∧
      ∀ clock startLine acc, rebuildLine jsonLoads clock startLine acc line =
        if (acc.2 : Int) < startLine then .ok (acc.1, acc.2 + 1)
        else (applyEventToRecord (acc.1.get? (.str id)) event (clock acc.2)).bind fun record =>
          .ok (acc.1.set (.str id) record, acc.2 + 1)
  := by
  obtain ⟨s, hdecode, hcase⟩ := h
  have hdecoded := decoded_of_decode hdecode
  by_cases hblank : blank s = true
  · left
    intro clock startLine acc
    simp only [rebuildLine, hdecode]
    rw [if_pos (.inr hblank)]
  · rcases hcase with hblank' | hnone | ⟨event, hevent, htexts⟩
    · exact absurd hblank' hblank
    · left
      intro clock startLine acc
      simp only [rebuildLine, hdecode, jsonLoads, hnone]
      split_ifs <;> rfl
    · have hgood : Good (.obj event) :=
        good_of_loads (fun c hc => hdecoded c (mem_of_mem_strip hc)) hevent
      cases htruthy : truthy (get event (text "item_id")) with
      | false =>
        left
        intro clock startLine acc
        simp only [rebuildLine, hdecode, jsonLoads, hevent, htruthy, Bool.not_false, if_true, ite_self]
      | true =>
        obtain ⟨id, hitem⟩ : ∃ id, event.lookup (text "item_id") = some (.str id) := by
          cases hitem : event.lookup (text "item_id") with
          | none =>
            rw [Json.get, hitem] at htruthy
            cases htruthy
          | some v =>
            obtain ⟨id, rfl⟩ := htexts _ (by simp) v hitem
            exact ⟨id, rfl⟩
        have hget : get event (text "item_id") = .str id := by
          rw [Json.get, hitem]
          rfl
        rw [hget] at htruthy
        right
        refine ⟨id, event, plainText_of_lookup hgood hitem, hgood, htexts, ?_⟩
        intro clock startLine acc
        simp only [rebuildLine, hdecode, jsonLoads, hevent, htruthy, hget, hblank, Bool.not_true,
          Bool.false_eq_true, or_false, if_false, unhashable]
        rfl

theorem rebuildLine_skipped (h : Admissible line) (hskip : (n : Int) < startLine) :
  rebuildLine jsonLoads clock startLine (records, n) line = .ok (records, n + 1)
  := by
  rcases line_cases h with hnothing | ⟨id, event, -, -, -, hevent⟩
  · exact hnothing clock startLine (records, n)
  · rw [hevent, if_pos hskip]

theorem rebuildLine_alike (h : Admissible line) (hstart : startLine ≤ n) (hstart' : startLine' ≤ n)
    (hclock : generated (clock n) (clock' n)) (halike : AllAlike generated records records') :
  ∃ next next', rebuildLine jsonLoads clock startLine (records, n) line = .ok (next, n + 1) ∧
    rebuildLine jsonLoads clock' startLine' (records', n) line = .ok (next', n + 1) ∧
    AllAlike generated next next'
  := by
  rcases line_cases h with hnothing | ⟨id, event, -, -, htexts, hevent⟩
  · exact ⟨records, records', hnothing _ _ _, hnothing _ _ _, halike⟩
  · obtain ⟨record, record', hrecord, hrecord', hsame⟩ :=
      apply_alike htexts hclock (halike (.str id))
    refine ⟨records.set (.str id) record, records'.set (.str id) record', ?_, ?_, ?_⟩
    · rw [hevent, if_neg (not_lt.mpr hstart), hrecord]
      rfl
    · rw [hevent, if_neg (not_lt.mpr hstart'), hrecord']
      rfl
    · intro key
      rw [Dict.get?_set, Dict.get?_set]
      split_ifs
      · exact .some hsame
      · exact halike key

theorem rebuildLine_writable (h : Admissible line) (hstart : startLine ≤ n) (hclock : PlainText (clock n))
    (hwritable : AllWritable records) :
  ∃ next, rebuildLine jsonLoads clock startLine (records, n) line = .ok (next, n + 1) ∧
    AllWritable next
  := by
  rcases line_cases h with hnothing | ⟨id, event, hid, hgood, htexts, hevent⟩
  · exact ⟨records, hnothing _ _ _, hwritable⟩
  · have hself : Option.Rel (Alike (· = ·)) (records.get? (.str id)) (records.get? (.str id)) := by
      cases records.get? (.str id) with
      | none => exact .none
      | some record => exact .some ⟨rfl, rfl, rfl, rfl, rfl, .inl rfl⟩
    obtain ⟨record, -, hrecord, -⟩ := apply_alike htexts (rfl : clock n = clock n) hself
    refine ⟨records.set (.str id) record, ?_, ?_⟩
    · rw [hevent, if_neg (not_lt.mpr hstart), hrecord]
      rfl
    · intro key record' hkey
      rw [Dict.get?_set] at hkey
      split_ifs at hkey with heq
      · cases hkey
        refine ⟨⟨id, heq, hid⟩, writable_apply hgood htexts hclock ?_ hrecord⟩
        exact fun old hold => (hwritable _ old hold).2
      · exact hwritable key record' hkey

/-! ### Runs of lines -/

variable {lines : List Bytes}

variable (clock records n startLine) in
theorem foldlM_skipped (h : ∀ line ∈ lines, Admissible line) (hskip : (n + lines.length : Int) ≤ startLine) :
  lines.foldlM (rebuildLine jsonLoads clock startLine) (records, n) = .ok (records, n + lines.length)
  := by
  induction lines generalizing n with
  | nil => rfl
  | cons line lines ih =>
    simp only [List.length_cons, Nat.cast_add, Nat.cast_one] at hskip
    rw [List.foldlM_cons, rebuildLine_skipped (h line (by simp)) (by omega), Except.ok_bind,
      ih _ (fun l hl => h l (List.mem_cons_of_mem _ hl)) (by push_cast; omega), List.length_cons]
    congr 2
    omega

variable (generated clock clock' n startLine startLine') in
theorem foldlM_alike (h : ∀ line ∈ lines, Admissible line) (hstart : startLine ≤ n)
    (hstart' : startLine' ≤ n)
    (hclock : ∀ m, n ≤ m → m < n + lines.length → generated (clock m) (clock' m))
    (halike : AllAlike generated records records') :
  ∃ next next', lines.foldlM (rebuildLine jsonLoads clock startLine) (records, n) =
      .ok (next, n + lines.length) ∧
    lines.foldlM (rebuildLine jsonLoads clock' startLine') (records', n) =
      .ok (next', n + lines.length) ∧ AllAlike generated next next'
  := by
  induction lines generalizing n records records' with
  | nil => exact ⟨records, records', rfl, rfl, halike⟩
  | cons line lines ih =>
    rw [List.length_cons] at hclock
    obtain ⟨first, first', hfirst, hfirst', halike⟩ :=
      rebuildLine_alike (h line (by simp)) hstart hstart' (hclock n le_rfl (by omega)) halike
    obtain ⟨next, next', hnext, hnext', halike⟩ :=
      ih (n + 1) (fun l hl => h l (List.mem_cons_of_mem _ hl)) (by push_cast; omega)
        (by push_cast; omega) (fun m hm hlt => hclock m (by omega) (by omega)) halike
    have hcount : n + 1 + lines.length = n + (lines.length + 1) := by omega
    refine ⟨next, next', ?_, ?_, halike⟩
    · rw [List.foldlM_cons, hfirst, Except.ok_bind, hnext, hcount, List.length_cons]
    · rw [List.foldlM_cons, hfirst', Except.ok_bind, hnext', hcount, List.length_cons]

variable (n startLine) in
theorem foldlM_writable (h : ∀ line ∈ lines, Admissible line) (hstart : startLine ≤ n)
    (hclock : ∀ m, PlainText (clock m)) (hwritable : AllWritable records) :
  ∃ next, lines.foldlM (rebuildLine jsonLoads clock startLine) (records, n) =
      .ok (next, n + lines.length) ∧ AllWritable next
  := by
  induction lines generalizing n records with
  | nil => exact ⟨records, rfl, hwritable⟩
  | cons line lines ih =>
    obtain ⟨first, hfirst, hwritable⟩ :=
      rebuildLine_writable (h line (by simp)) hstart (hclock n) hwritable
    obtain ⟨next, hnext, hwritable⟩ :=
      ih (n + 1) (fun l hl => h l (List.mem_cons_of_mem _ hl)) (by push_cast; omega) hwritable
    have hcount : n + 1 + lines.length = n + (lines.length + 1) := by omega
    refine ⟨next, ?_, hwritable⟩
    rw [List.foldlM_cons, hfirst, Except.ok_bind, hnext, hcount, List.length_cons]

/-! ### Written and read back -/

variable [Conversion] {record record' : CompactStateRecord}

def memberOf (p : Json × CompactStateRecord) : Str × Json :=
  (keyText p.1, p.2.toDict)

section

omit [Platform] [Conversion]

theorem toDict_injective (h : record.toDict = record'.toDict) :
  record = record'
  := by
  obtain ⟨itemId, status, lastHolder, expiresAt, eventCount, lastUpdated⟩ := record
  obtain ⟨itemId', status', lastHolder', expiresAt', eventCount', lastUpdated'⟩ := record'
  simp only [CompactStateRecord.toDict, Json.obj.injEq, List.cons.injEq, Prod.mk.injEq, Json.int.injEq,
    Json.str.injEq, true_and, and_true] at h
  obtain ⟨hcount, hexpires, hitem, hholder, hupdated, hstatus⟩ := h
  rw [hcount, hexpires, hitem, hholder, hupdated, hstatus]

theorem good_toDict (h : Writable record) :
  Good record.toDict
  := by
  obtain ⟨s, hstatus, hs⟩ := h.status
  refine good_obj rfl ?_
  rw [hstatus]
  simp only [List.forall_mem_cons]
  exact ⟨⟨by decide, rfl, trivial⟩, ⟨by decide, h.expiresAt⟩, ⟨by decide, rfl, h.itemId⟩,
    ⟨by decide, h.lastHolder⟩, ⟨by decide, h.lastUpdated⟩, ⟨by decide, rfl, hs⟩, by simp⟩

end

theorem fromDict_toDict (h : Writable record) :
  ∃ data, record.toDict = .obj data ∧ CompactStateRecord.fromDict data = .ok record
  := by
  obtain ⟨itemId, status, lastHolder, expiresAt, eventCount, lastUpdated⟩ := record
  obtain ⟨s, hstatus, -⟩ := h.status
  obtain rfl : status = .str s := hstatus
  exact ⟨_, rfl, rfl⟩

theorem recordsFromDict_eq {d : Members} (hnodup : (d.map Prod.fst).Nodup)
    (hwritten : ∀ q ∈ d, ∃ record, Writable record ∧ q.2 = record.toDict) :
  ∃ loaded, recordsFromDict d = .ok loaded ∧ loaded.entries.map memberOf = d ∧
    ∀ key ∈ loaded.keys, ∃ id, key = .str id
  := by
  induction d using List.reverseRecOn with
  | nil => exact ⟨∅, rfl, rfl, by rintro _ ⟨⟩⟩
  | append_singleton d q ih =>
    rw [List.map_append, List.nodup_append] at hnodup
    obtain ⟨hnodup, -, hnew⟩ := hnodup
    obtain ⟨loaded, hloaded, hentries, htexts⟩ := ih hnodup fun r hr => hwritten r (by simp [hr])
    obtain ⟨record, hwritable, hrecord⟩ := hwritten q (by simp)
    obtain ⟨data, hdata, hread⟩ := fromDict_toDict hwritable
    have hfresh : Json.str q.1 ∉ loaded.keys := by
      intro hmem
      obtain ⟨p, hp, hkey⟩ := List.mem_map.mp hmem
      have hmember : memberOf p ∈ d := hentries ▸ List.mem_map_of_mem hp
      refine hnew _ (List.mem_map_of_mem hmember) q.1 (by simp) ?_
      rw [memberOf, hkey]
      rfl
    have hset : (loaded.set (.str q.1) record).entries = loaded.entries ++ [(.str q.1, record)] := by
      rw [Dict.set]
      exact congrArg Dict.entries (dif_neg hfresh)
    refine ⟨loaded.set (.str q.1) record, ?_, ?_, ?_⟩
    · rw [recordsFromDict, List.foldlM_append, ← recordsFromDict, hloaded, Except.ok_bind, List.foldlM_cons]
      simp only [hrecord, hdata, hread, Except.ok_bind]
      rfl
    · rw [hset, List.map_append, hentries, List.map_singleton, memberOf, ← hrecord]
      rfl
    · intro key hkey
      rw [Dict.keys, hset, List.map_append] at hkey
      rcases List.mem_append.mp hkey with hold | hlast
      · exact htexts key hold
      · exact ⟨q.1, List.mem_singleton.mp hlast⟩

section

omit [Platform] [Conversion]

theorem lookup_memberOf {entries : List (Json × CompactStateRecord)}
    (h : ∀ p ∈ entries, ∃ id, p.1 = .str id) (id : Str) :
  (entries.map memberOf).lookup id = (entries.lookup (.str id)).map CompactStateRecord.toDict
  := by
  induction entries with
  | nil => rfl
  | cons p entries ih =>
    obtain ⟨key, record⟩ := p
    obtain ⟨l, rfl⟩ : ∃ l, key = .str l := h (key, record) (by simp)
    rw [List.map_cons, memberOf, List.lookup_cons, List.lookup_cons,
      ih fun p hp => h p (List.mem_cons_of_mem _ hp)]
    by_cases hid : id = l
    · simp [hid, keyText]
    · have hkey : (id == keyText (.str l)) = false := by simpa [keyText] using hid
      have hkey' : (Json.str id == Json.str l) = false := by simpa using hid
      rw [hkey, hkey']

theorem keys_of_writable (h : AllWritable records) :
  ∀ p ∈ records.entries, (∃ id, p.1 = .str id ∧ PlainText id) ∧ Writable p.2
  := fun p hp => h p.1 p.2 (Dict.get?_eq_some.mpr hp)

theorem nodup_memberOf (h : AllWritable records) :
  ((records.entries.map memberOf).map Prod.fst).Nodup
  := by
  have hmap : (records.entries.map memberOf).map Prod.fst = (records.entries.map Prod.fst).map keyText := by
    rw [List.map_map, List.map_map]
    rfl
  rw [hmap]
  apply records.nodup.map_on
  intro key hkey key' hkey' heq
  obtain ⟨p, hp, rfl⟩ := List.mem_map.mp hkey
  obtain ⟨p', hp', rfl⟩ := List.mem_map.mp hkey'
  obtain ⟨⟨id, hid, -⟩, -⟩ := keys_of_writable h p hp
  obtain ⟨⟨id', hid', -⟩, -⟩ := keys_of_writable h p' hp'
  rw [hid, hid'] at heq ⊢
  exact congrArg Json.str heq

end

omit [Conversion] in
theorem canonicalRecordsHash_eq (h : ∀ key ∈ records.keys, ∃ id, key = .str id) (total : Int) :
  canonicalRecordsHash records total = .ok (Platform.sha256 (dumpsAscii (.obj
    [(text "records", .obj (members (records.entries.map memberOf))),
      (text "total_events", .int total)])))
  := by
  have htexts : records.keys.all isText = true := by
    rw [List.all_eq_true]
    intro key hkey
    obtain ⟨id, rfl⟩ := h key hkey
    rfl
  rw [canonicalRecordsHash, htexts, Bool.true_or, if_pos rfl]
  rfl

theorem load_file (hdigest : ∀ s, PlainText (Platform.sha256 s)) {snapshot : LedgerSnapshot}
    (hwritable : AllWritable snapshot.records) (hid : PlainText snapshot.snapshotId)
    (hcreated : PlainText snapshot.createdAt)
    (hchecksum : canonicalRecordsHash snapshot.records snapshot.totalEventsCompacted =
      .ok snapshot.checksumSha256) :
  ∃ loaded, loadSnapshot jsonLoads (some snapshot.file) = .ok loaded ∧
    loaded.totalEventsCompacted = snapshot.totalEventsCompacted ∧
    ∀ key, loaded.records.get? key = snapshot.records.get? key
  := by
  have hentries := keys_of_writable hwritable
  have hkeys : ∀ key ∈ snapshot.records.keys, ∃ id, key = .str id := by
    intro key hkey
    obtain ⟨p, hp, rfl⟩ := List.mem_map.mp hkey
    obtain ⟨⟨id, hid, -⟩, -⟩ := hentries p hp
    exact ⟨id, hid⟩
  rw [canonicalRecordsHash_eq hkeys] at hchecksum
  have hhash := Except.ok.inj hchecksum
  have hgood : Good snapshot.toDict := by
    refine good_obj rfl ?_
    have hrecords : Good (.obj (members (snapshot.records.entries.map memberOf))) := by
      apply good_members
      intro q hq
      obtain ⟨p, hp, rfl⟩ := List.mem_map.mp hq
      obtain ⟨⟨id, hid, hplain⟩, hrecord⟩ := hentries p hp
      refine ⟨?_, good_toDict hrecord⟩
      rw [memberOf, hid]
      exact hplain
    simp only [List.forall_mem_cons]
    refine ⟨⟨by decide, rfl, ?_⟩, ⟨by decide, rfl, hcreated⟩, ⟨by decide, hrecords⟩,
      ⟨by decide, rfl, hid⟩, ⟨by decide, rfl, trivial⟩, by simp⟩
    rw [← hhash]
    exact hdigest _
  have hwritten : ∀ q ∈ members (snapshot.records.entries.map memberOf),
      ∃ record, Writable record ∧ q.2 = record.toDict := by
    intro q hq
    obtain ⟨p, hp, rfl⟩ := List.mem_map.mp (mem_of_mem_members hq)
    exact ⟨p.2, (hentries p hp).2, rfl⟩
  obtain ⟨loaded, hloaded, hmembers, htexts⟩ :=
    recordsFromDict_eq (nodup_of_sortedKeys (sortedKeys_members _)) hwritten
  have hsame : canonicalRecordsHash loaded snapshot.totalEventsCompacted = .ok snapshot.checksumSha256 := by
    rw [canonicalRecordsHash_eq htexts, hmembers, members_eq_self (sortedKeys_members _), hhash]
  let data : Members := [(text "checksum_sha256", .str snapshot.checksumSha256),
    (text "created_at", .str snapshot.createdAt),
    (text "records", .obj (members (snapshot.records.entries.map memberOf))),
    (text "snapshot_id", .str snapshot.snapshotId),
    (text "total_events_compacted", .int snapshot.totalEventsCompacted)]
  have hfile : loads snapshot.file = some (.obj data) := loads_dumpsIndented hgood
  have hread : LedgerSnapshot.fromDict data = .ok ⟨snapshot.snapshotId, snapshot.createdAt,
      snapshot.totalEventsCompacted, loaded, snapshot.checksumSha256⟩ := by
    show (recordsFromDict (members (snapshot.records.entries.map memberOf)) >>= _) = _
    rw [hloaded]
    rfl
  refine ⟨⟨snapshot.snapshotId, snapshot.createdAt, snapshot.totalEventsCompacted, loaded,
    snapshot.checksumSha256⟩, ?_, rfl, ?_⟩
  · simp only [loadSnapshot, jsonLoads, hfile, hread, Except.ok_bind, hsame]
    rw [if_neg (by simp)]
    rfl
  · intro key
    have hlookup : ∀ id, loaded.get? (.str id) = snapshot.records.get? (.str id) := by
      intro id
      have hboth : (loaded.entries.map memberOf).lookup id =
          (snapshot.records.entries.map memberOf).lookup id := by
        rw [hmembers, lookup_members (nodup_memberOf hwritable)]
      rw [lookup_memberOf fun p hp => htexts p.1 (List.mem_map_of_mem hp),
        lookup_memberOf fun p hp => hkeys p.1 (List.mem_map_of_mem hp)] at hboth
      exact Option.map_injective (fun _ _ => toDict_injective) hboth
    by_cases hkey : ∃ id, key = .str id
    · obtain ⟨id, rfl⟩ := hkey
      exact hlookup id
    · have hnone : ∀ records : Records, (∀ key ∈ records.keys, ∃ id, key = .str id) →
          records.get? key = none := by
        intro records htexts
        rw [Dict.get?_eq_none]
        exact fun hmem => hkey (htexts key hmem)
      rw [hnone loaded htexts, hnone _ hkeys]

section

omit [Platform] [Conversion]

theorem plainText_isoNow (moment : DateTime) :
  PlainText (isoNow moment)
  := by
  obtain ⟨-, hyear, -, hmonth, -, hday⟩ := moment.date
  obtain ⟨hhour, hminute, hsecond, hmicro⟩ := moment.time
  have hday := hday.trans (daysInMonth_le _ _)
  apply plainText_of_ascii
  intro c hc
  rcases List.mem_append.mp hc with hc | hc
  · rcases List.mem_append.mp hc with hc | hc
    · have hc := List.dropLast_subset _ hc
      unfold format at hc
      simp only [digits4, digits2, List.cons_append, List.nil_append, List.mem_cons, List.not_mem_nil,
        or_false] at hc
      omega
    · split_ifs at hc
      · cases hc
      · simp only [digits4, digits2, List.cons_append, List.nil_append, List.mem_cons, List.not_mem_nil,
          or_false] at hc
        omega
  · exact (by decide : ∀ c ∈ text "+00:00", c < 128) c hc

theorem allAlike_refl (generated : Str → Str → Prop) (records : Records) :
  AllAlike generated records records
  := by
  intro key
  cases records.get? key with
  | none => exact .none
  | some record => exact .some ⟨rfl, rfl, rfl, rfl, rfl, .inl rfl⟩

end

end

section Example

def claimedLedger : Bytes :=
  Bytes.ofAscii (text "\x7b\"event_type\": \"CLAIM\", \"item_id\": \"alpha\", \"expires_at\": 1.50\x7d\nnone\n")

def releasedLedger : Bytes :=
  Bytes.ofAscii (text "\n\x7b\"event_type\": \"RELEASE\", \"item_id\": \"alpha\", \"timestamp\": \"t\"\x7d\n")

/-- The line is blank, or no JSON, or an object whose texts are texts, as far as it can be computed. -/
def isAdmissible (line : Bytes) : Bool :=
  match line.decode with
  | none => false
  | some s =>
      blank s || match loads (strip s) with
      | none => true
      | some (.obj event) =>
          [text "item_id", text "event_type", text "holder", text "result"].all fun key =>
            match event.lookup key with
            | none | some (.str _) => true
            | some _ => false
      | some _ => false

theorem admissible_of_computed {line : Bytes} (h : isAdmissible line = true) :
  Admissible line
  := by
  unfold isAdmissible at h
  split at h
  · cases h
  · next s hs =>
    refine ⟨s, hs, ?_⟩
    rcases Bool.or_eq_true_iff.mp h with hblank | hread
    · exact .inl hblank
    · split at hread
      · next hnone => exact .inr (.inl hnone)
      · next event hevent =>
        refine .inr (.inr ⟨event, hevent, ?_⟩)
        intro key hkey v hv
        have htext := List.all_eq_true.mp hread key hkey
        rw [hv] at htext
        cases v with
        | str t => exact ⟨t, rfl⟩
        | _ => cases htext
      · cases hread

local instance plainSnapshot : Platform := .plain

local instance conversionSnapshot : Conversion where
  toInt _ := .error .valueError

theorem isDate_minute : IsDate 2026 10 7 := by
  decide

theorem time_minute (n : Nat) (h : n < 60) : 12 < 24 ∧ n < 60 ∧ 0 < 60 ∧ 0 < 1000000 := by
  simpa using h

def minute (n : Nat) (h : n < 60) : DateTime :=
  ⟨2026, 10, 7, 12, n, 0, 0, isDate_minute, time_minute n h⟩

end Example

end Courier.LedgerCompactor
