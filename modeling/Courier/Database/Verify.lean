import Courier.Database.Rebuild

/-!
# The chain verified

`verify_chain` recomputes the hash of every stored row and reports the first row that breaks the chain.
It accepts whatever calls of `append` leave, its report determines what the table reads as, and a row
that is edited under its hash is reported where it stands.
-/

namespace Courier

open Except Text

structure ChainReport where
  ok : Bool
  count : Nat
  headSeq : Int
  headHash : Str
  firstBadSeq : Option SqlValue := none
  reason : Option Str := none

/-- The driver can read the value. -/
def decodes : SqlValue → Bool
  | .badText _ => false
  | _ => true

/-- The exception is an `EventValidationError`, a `ValueError` or a `TypeError`. -/
def Exc.isInvalid : Exc → Bool
  | .eventValidation _ => true
  | .valueError => true
  | .typeError => true
  | .unicodeEncode => true
  | _ => false

theorem wf_material (e : EventFields) (payloadText : Str) :
  (Event.material e payloadText).wf = true
  := by
  have hoption : ∀ o : Option Str, (Event.optionJson o).wf = true := by
    intro o
    cases o <;> rfl
  have hint : ∀ o : Option Int, (Event.optionInt o).wf = true := by
    intro o
    cases o <;> rfl
  simp [Event.material, Json.wf, Json.wf.wfItems, hoption, hint]

section Verify

variable [Platform] (describe : Exc → Str)

/-- `chain_hash` of an event and its payload as stored; bytes have no encoding as JSON. -/
def storedHash (e : Event) : SqlValue → Except Exc Str
  | .text payloadText => Event.chainHash e.toEventFields payloadText
  | _ => .error .typeError

/-- `_row_defect`: the hash of the row, unless something is raised or there is a defect. -/
def rowDefect (row : EventRow) (expectedSeq : Int) (prevHash : Str) : Except (Exc ⊕ Str) Str := do
  check (row.values.all decodes = true) (.inl .operational)
  check (row.seq = .integer expectedSeq) (.inr (text "sequence gap: expected " ++ decimal expectedSeq
    ++ text ", found " ++ showAttempt row.seq.integer?))
  check (row.prevHash = .text prevHash) (.inr (text "prev_hash does not link to the previous event"))
  let e ← (Event.fromRow row).mapError fun why =>
    if why.isInvalid then .inr (text "stored event is invalid: " ++ describe why) else .inl why
  let digest ← (storedHash e row.payload).mapError .inl
  check (row.hash = .text digest) (.inr (text "hash mismatch: stored event was modified"))
  return digest

/-- The loop of `verify_chain`. -/
def verifyRows (expectedSeq : Int) (prevHash : Str) (count : Nat) : List EventRow → Except Exc ChainReport
  | [] => .ok { ok := true, count := count, headSeq := expectedSeq - 1, headHash := prevHash }
  | row :: rows =>
      match rowDefect describe row expectedSeq prevHash with
      | .error (.inl why) => .error why
      | .error (.inr reason) =>
          .ok ⟨false, count, expectedSeq - 1, prevHash, some row.seq, some reason⟩
      | .ok hash => verifyRows (expectedSeq + 1) hash (count + 1) rows

def Tables.verifyChain (tables : Tables) : Except Exc ChainReport :=
  verifyRows describe 1 GENESIS_HASH 0 tables.events

/-- What is read of a row: its event and its payload as stored. -/
def EventRow.read (row : EventRow) : Except Exc Event × SqlValue :=
  (Event.fromRow row, row.payload)

/-- The row after the first ones is reported, or reading it raises. -/
def StopsAt (tables : Tables) (n : Nat) (row : EventRow) : Prop :=
  ∃ prevHash, (∃ reason, tables.verifyChain describe
      = .ok ⟨false, n, n, prevHash, some row.seq, some reason⟩) ∨
    ∃ why, rowDefect describe row (1 + n) prevHash = .error (.inl why) ∧ tables.verifyChain describe = .error why

variable {describe} {row : EventRow} {rows : List EventRow} {seq : Int} {prevHash hash : Str} {count : Nat}
  {report : ChainReport}

/-! ### Rows without a defect -/

omit [Platform] in
theorem mapError_eq_ok {α ε ε' : Type} {x : Except ε α} {f : ε → ε'} {a : α} :
  x.mapError f = .ok a ↔ x = .ok a
  := by
  cases x <;> simp [Except.mapError]

theorem of_rowDefect (h : rowDefect describe row seq prevHash = .ok hash) :
  row.prevHash = .text prevHash ∧ row.hash = .text hash ∧ ∃ e payloadText, Event.fromRow row = .ok e ∧
    row.payload = .text payloadText ∧ Event.chainHash e.toEventFields payloadText = .ok hash
  := by
  simp only [rowDefect, bind_eq_ok, check_eq_ok, mapError_eq_ok] at h
  obtain ⟨_, -, _, -, _, hprev, e, hevent, digest, hdigest, _, hhash, ⟨⟩⟩ := h
  refine ⟨hprev, hhash, e, ?_⟩
  cases hpayload : row.payload with
  | text payloadText =>
    rw [hpayload] at hdigest
    exact ⟨payloadText, hevent, rfl, hdigest⟩
  | _ =>
    rw [hpayload] at hdigest
    cases hdigest

theorem of_fromRow {e : Event} (h : Event.fromRow row = .ok e) :
  loadsValue row.payload = .ok (.obj e.payload) ∧ e.prevHash = row.prevHash.text? ∧ e.hash = row.hash.text?
  := by
  simp only [Event.fromRow, bind_eq_ok] at h
  obtain ⟨v, hv, _, -, payload, hpayload, _, -, _, -, _, -, _, -, _, -, _, -, _, -, _, -, _, -, hbuild⟩ := h
  rw [Event.build_eq_ok.mp hbuild]
  cases v with
  | obj d =>
    cases hpayload
    exact ⟨hv, rfl, rfl⟩
  | _ => cases hpayload

theorem read_of_hash (hinj : Function.Injective Platform.sha256) {row' : EventRow} {seq' : Int}
    {prevHash' : Str} (h : rowDefect describe row seq prevHash = .ok hash)
    (h' : rowDefect describe row' seq' prevHash' = .ok hash) :
  prevHash = prevHash' ∧ row.read = row'.read
  := by
  obtain ⟨hprev, hhash, e, payloadText, hevent, hpayload, hdigest⟩ := of_rowDefect h
  obtain ⟨hprev', hhash', e', payloadText', hevent', hpayload', hdigest'⟩ := of_rowDefect h'
  obtain ⟨hloads, hlink, hown⟩ := of_fromRow hevent
  obtain ⟨hloads', hlink', hown'⟩ := of_fromRow hevent'
  unfold Event.chainHash at hdigest hdigest'
  split_ifs at hdigest hdigest'
  have htexts := hinj ((ok.inj hdigest).trans (ok.inj hdigest').symm)
  have hmaterial := Json.loads_dumps (wf_material e.toEventFields payloadText)
  rw [show Json.dumps _ = _ from htexts, Json.loads_dumps (wf_material _ _)] at hmaterial
  have hoption : Function.Injective Event.optionJson := by
    intro a b h
    cases a <;> cases b <;> simp_all [Event.optionJson]
  have hint : Function.Injective Event.optionInt := by
    intro a b h
    cases a <;> cases b <;> simp_all [Event.optionInt]
  simp only [Option.some.injEq, Event.material, Json.arr.injEq, List.cons.injEq, Json.str.injEq, and_true,
    hint.eq_iff, hoption.eq_iff] at hmaterial
  obtain ⟨-, hseq, hid, htype, htask, hattempt, hdispatch, hworker, hresult, hkey, hts, rfl, hlinks⟩ :=
    hmaterial
  rw [hpayload] at hloads
  rw [hpayload', hloads] at hloads'
  rw [hprev] at hlink
  rw [hprev', hlinks, hlink] at hlink'
  have htypes : e.type = e'.type := by
    rw [← Option.some_inj, ← EventType.ofValue_value, ← htype, EventType.ofValue_value]
  have hevents : e = e' := by
    apply Event.ext
    show EventFields.mk e.type e.taskId e.attempt e.dispatchId e.workerId e.resultId e.payload e.eventId
      e.tsUtc e.dedupeKey e.seq e.prevHash e.hash = e'.toEventFields
    rw [htypes, ← htask, ← hattempt, ← hdispatch, ← hworker, ← hresult, Json.obj.inj (ok.inj hloads'), ← hid,
      ← hts, ← hkey, ← hseq, ← hlinks, hown, hhash, ← hhash', ← hown']
  exact ⟨Option.some.inj hlink', by rw [EventRow.read, EventRow.read, hevent, hevent', hevents, hpayload, hpayload']⟩

/-! ### The loop -/

theorem rowDefect_of_ok (h : verifyRows describe seq prevHash count (row :: rows) = .ok report)
    (hok : report.ok = true) :
  ∃ hash, rowDefect describe row seq prevHash = .ok hash ∧ ∀ rest,
    verifyRows describe seq prevHash count (row :: rest) = verifyRows describe (seq + 1) hash (count + 1) rest
  := by
  simp only [verifyRows] at h ⊢
  cases hrow : rowDefect describe row seq prevHash with
  | ok hash => exact ⟨hash, rfl, fun _ => rfl⟩
  | error stop =>
    rw [hrow] at h
    cases stop with
    | inl why => cases h
    | inr reason =>
      cases h
      cases hok

theorem verifyRows_append {before : List EventRow}
    (h : verifyRows describe seq prevHash count (before ++ rows) = .ok report) (hok : report.ok = true) :
  ∃ hash, ∀ rest, verifyRows describe seq prevHash count (before ++ rest)
    = verifyRows describe (seq + before.length) hash (count + before.length) rest
  := by
  induction before generalizing seq prevHash count with
  | nil => exact ⟨prevHash, fun rest => by simp⟩
  | cons row before ih =>
    obtain ⟨hash, -, hrest⟩ := rowDefect_of_ok h hok
    rw [List.cons_append, hrest] at h
    obtain ⟨last, hlast⟩ := ih h
    refine ⟨last, fun rest => ?_⟩
    rw [List.cons_append, hrest, hlast, List.length_cons]
    push_cast
    rw [add_assoc, add_assoc, add_comm (1 : Int), add_comm 1]

theorem count_of_ok (h : verifyRows describe seq prevHash count rows = .ok report) (hok : report.ok = true) :
  report.count = count + rows.length
  := by
  rw [← List.append_nil rows] at h
  obtain ⟨last, hlast⟩ := verifyRows_append h hok
  rw [hlast] at h
  cases h
  rfl

/-! ### What is accepted -/

theorem rowDefect_eventRow {e : Event} (h : e.Sealed seq prevHash hash) :
  rowDefect describe (eventRow e) seq prevHash = .ok hash
  := by
  have hoption : ∀ o : Option Str, decodes (.ofOption o) = true := by
    intro o
    cases o <;> rfl
  have hint : ∀ o : Option Int, decodes (.ofInt o) = true := by
    intro o
    cases o <;> rfl
  have hreads : (eventRow e).values.all decodes = true := by
    simp only [eventRow, EventRow.values, List.all_cons, hoption, hint]
    rfl
  have hhash : storedHash e (eventRow e).payload = .ok hash := h.digest
  rw [rowDefect, check_of hreads, check_of (by rw [eventRow, h.seq_eq]; rfl),
    check_of (by rw [eventRow, h.prevHash_eq]; rfl), fromRow_eventRow]
  simp only [Except.mapError, ok_bind, hhash]
  rw [check_of (by rw [eventRow, h.hash_eq]; rfl)]
  rfl

theorem verifyRows_of_chained {events : List Event} (h : Chained seq prevHash events) :
  verifyRows describe seq prevHash count (events.map eventRow) = .ok
    ⟨true, count + events.length, seq + events.length - 1, lastHash prevHash events, none, none⟩
  := by
  induction events generalizing seq prevHash count with
  | nil => simp [verifyRows]
  | cons e events ih =>
    obtain ⟨hash, he, hrest⟩ := h
    simp only [List.map_cons, verifyRows, rowDefect_eventRow he, ih hrest, lastHash_cons he.hash_eq,
      List.length_cons]
    push_cast
    rw [add_assoc, add_assoc, add_comm (1 : Int), add_comm 1]

variable (describe)

/-- Whatever calls of `append` leave is accepted, whichever of their statements raised. -/
theorem verifyChain_runCalls (calls : List Call) :
  ∃ events hash, (runCalls calls).readEvents = .ok events ∧ (runCalls calls).head = .ok (events.length, hash) ∧
    (runCalls calls).verifyChain describe = .ok ⟨true, events.length, events.length, hash, none, none⟩
  := by
  obtain ⟨j, hj⟩ := runCalls_encode calls
  refine ⟨j.events, lastHash GENESIS_HASH j.events, ?_, ?_, ?_⟩
  · rw [hj, readEvents_encode]
  · rw [hj, head_encode, j.head_eq]
  · rw [hj, Tables.verifyChain, Journal.encode, verifyRows_of_chained j.chained]
    simp

variable {describe}

/-! ### What is determined -/

theorem rows_of_verifyRows (hinj : Function.Injective Platform.sha256) {rows' : List EventRow}
    {prevHash' : Str} (h : verifyRows describe seq prevHash count rows = .ok report)
    (h' : verifyRows describe seq prevHash' count rows' = .ok report) (hok : report.ok = true) :
  prevHash = prevHash' ∧ rows.map EventRow.read = rows'.map EventRow.read
  := by
  have hlength : rows.length = rows'.length :=
    Nat.add_left_cancel ((count_of_ok h hok).symm.trans (count_of_ok h' hok))
  induction rows generalizing seq prevHash prevHash' count rows' with
  | nil =>
    obtain rfl := List.eq_nil_of_length_eq_zero hlength.symm
    cases h
    cases h'
    exact ⟨rfl, rfl⟩
  | cons row rows ih =>
    cases rows' with
    | nil => simp at hlength
    | cons row' rows' =>
      obtain ⟨hash, hrow, hrest⟩ := rowDefect_of_ok h hok
      obtain ⟨hash', hrow', hrest'⟩ := rowDefect_of_ok h' hok
      rw [hrest] at h
      rw [hrest'] at h'
      obtain ⟨rfl, hmap⟩ := ih h h' (Nat.succ.inj hlength)
      obtain ⟨hprev, hread⟩ := read_of_hash hinj hrow hrow'
      exact ⟨hprev, by rw [List.map_cons, List.map_cons, hmap, hread]⟩

/-- Two tables with one report read as the same events, from the same payload texts. -/
theorem rows_of_verifyChain (hinj : Function.Injective Platform.sha256) {tables tables' : Tables}
    (h : tables.verifyChain describe = .ok report) (h' : tables'.verifyChain describe = .ok report)
    (hok : report.ok = true) :
  tables.events.map EventRow.read = tables'.events.map EventRow.read
  := (rows_of_verifyRows hinj h h' hok).2

/-- A row that is edited under its hash so that something else is read is reported where it stands. -/
theorem verifyChain_edited (hinj : Function.Injective Platform.sha256) {tables : Tables}
    {before after : List EventRow} {edited : EventRow} (h : tables.verifyChain describe = .ok report)
    (hok : report.ok = true) (hsplit : tables.events = before ++ row :: after)
    (hhash : edited.hash = row.hash) (hedited : edited.read ≠ row.read) :
  StopsAt describe { tables with events := before ++ edited :: after } before.length edited
  := by
  rw [Tables.verifyChain, hsplit] at h
  obtain ⟨prevHash, hbefore⟩ := verifyRows_append h hok
  rw [hbefore] at h
  obtain ⟨hash, hrow, -⟩ := rowDefect_of_ok h hok
  refine ⟨prevHash, ?_⟩
  simp only [Tables.verifyChain, hbefore, verifyRows]
  cases hdefect : rowDefect describe edited (1 + before.length) prevHash with
  | error stop =>
    cases stop with
    | inl why => exact .inr ⟨why, rfl, rfl⟩
    | inr reason => exact .inl ⟨reason, by simp⟩
  | ok hash' =>
    have hsame : hash' = hash := by
      simpa [(of_rowDefect hrow).2.1, (of_rowDefect hdefect).2.1] using hhash
    exact absurd (read_of_hash hinj hdefect (hsame ▸ hrow)).2 hedited

end Verify

section Example

def started : EventFields where
  type := .taskStarted
  taskId := some (text "t")
  attempt := some 1
  dispatchId := some (text "d")
  workerId := some (text "w")
  eventId := text "e"
  tsUtc := text "Z"
  seq := some 1
  prevHash := some GENESIS_HASH

def startedText (payload : Str) : Str :=
  canonicalJson (Event.material (withDefaultKey started) payload)

def startedDigest : Str :=
  text "64ea9d672747b313f1bd515bb8f457539d072c3cf35f128e1214aaf1984c2b6d"

/-- The digests of the two texts that are read. -/
@[reducible]
local instance startedDigests : Platform :=
  { Platform.plain with
    sha256 := (Equiv.swap (startedText (text "{}")) startedDigest).trans
      (Equiv.swap (startedText (text "{ }"))
        (text "9c07b533a8023688d024d1eed9ad96a8b6abcd4b43ae19531f3726be360e4794")) }

/-- The row of an event with a key; without one the event has its default key. -/
def startedRow (dedupeKey : SqlValue) : EventRow where
  seq := .integer 1
  eventId := .text started.eventId
  schemaV := .integer SCHEMA_VERSION
  type := .text started.type.value
  taskId := .ofOption started.taskId
  attempt := .ofInt started.attempt
  dispatchId := .ofOption started.dispatchId
  workerId := .ofOption started.workerId
  resultId := .null
  dedupeKey := dedupeKey
  tsUtc := .text started.tsUtc
  payload := .text (text "{}")
  prevHash := .text GENESIS_HASH
  hash := .text startedDigest

theorem verifyChain_startedRow {key : SqlValue} (h : key = .null ∨ key = .text (text "start:d")) :
  Tables.verifyChain (fun _ => []) ⟨[startedRow key], ∅, []⟩ = .ok
    ⟨true, 1, 1, startedDigest, none, none⟩
  := by
  rcases h with rfl | rfl <;> rfl

theorem rows_of_verifyChain_startedRow :
  [startedRow .null].map EventRow.read = [startedRow (.text (text "start:d"))].map EventRow.read
  := rows_of_verifyChain (Equiv.injective _) (verifyChain_startedRow (.inl rfl))
    (verifyChain_startedRow (.inr rfl)) rfl

theorem verifyChain_edited_startedRow :
  StopsAt (fun _ => []) ⟨[{ startedRow .null with payload := .text (text "{ }") }], ∅, []⟩ 0
    { startedRow .null with payload := .text (text "{ }") }
  := verifyChain_edited (Equiv.injective _) (verifyChain_startedRow (.inl rfl)) rfl
    (show _ = [] ++ startedRow .null :: [] from rfl) rfl fun h => by
      have hpayload := congrArg Prod.snd h
      revert hpayload
      decide

end Example

end Courier
