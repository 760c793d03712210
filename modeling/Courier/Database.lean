import Courier.Journal
import Courier.Library.Transaction

/-!
# The journal in its database

`Journal.append` as it runs: statements on the `events` and `tasks` tables in one transaction,
any of which may raise.  The database of a journal is its encoding; an append takes it to the
encoding of the journal one append later, or leaves it as it is.
-/

namespace Courier

open Except Program Session

/-- A table of tasks has one row for each `task_id`; the rows of events are in the order of `seq`. -/
structure Tables where
  events : List EventRow
  tasks : Dict Str TaskRow
  lastSeq : Str

/-- The tables a journal is created with. -/
def Tables.empty : Tables where
  events := []
  tasks := ∅
  lastSeq := text "0"

/-! ### Binding -/

theorem ofOption_eq_text {o : Option Str} {s : Str} :
  SqlValue.ofOption o = .text s ↔ o = some s
  := by
  cases o <;> simp [SqlValue.ofOption]

section Database

variable [Platform]

/-- A program on the connection of a journal. -/
abbrev Sql (α : Type) := EStateM Exc (Session Tables Exc) α

/-! ### Reads -/

def firstEvent (rows : List EventRow) : Except Exc (Option Event) :=
  match rows with
  | [] => .ok none
  | row :: _ => (Event.fromRow row).map some

/-- The event with a de-duplication key. -/
def Tables.eventByKey (tables : Tables) (key : Str) : Except Exc (Option Event) :=
  firstEvent (tables.events.filter fun row => row.dedupeKey = .text key)

/-- The number and the hash of the last row. -/
def headRow (row : EventRow) : Except Exc (Int × Str) :=
  match row.seq.integer?, row.hash.text? with
  | some seq, some hash => .ok (seq, hash)
  | _, _ => .error .typeError

/-- The head of the chain. -/
def Tables.head (tables : Tables) : Except Exc (Int × Str) :=
  match tables.events.getLast? with
  | some row => headRow row
  | none => .ok (0, GENESIS_HASH)

def readRow (row : TaskRow) : Except Exc TaskState :=
  match fromRow row with
  | some s => .ok s
  | none => .error .valueError

def Tables.task (tables : Tables) (taskId : Str) : Except Exc (Option TaskState) :=
  match tables.tasks.get? taskId with
  | none => .ok none
  | some row => (readRow row).map some

def getEventByDedupeKey (key : Str) : Sql (Option Event) :=
  query fun tables => bindAll [.text key] >>= fun _ => tables.eventByKey key

def head : Sql (Int × Str) :=
  query Tables.head

def loadTask : Option Str → Sql (Option TaskState)
  | none => pure none
  | some taskId => query fun tables => bindAll [.text taskId] >>= fun _ => tables.task taskId

/-! ### Writes -/

/-- `INSERT OR REPLACE INTO tasks`. -/
def replaceTask (s : TaskState) : Sql Unit :=
  write fun tables => do
    bindAll (toRow s).values
    return { tables with tasks := tables.tasks.set s.taskId (toRow s) }

/-- `UPDATE projection_meta`. -/
def setLastSeq (seq : Int) : Sql Unit :=
  write fun tables => .ok { tables with lastSeq := Text.decimal seq }

/-- The row meets the constraints of the table. -/
def Insertable (events : List EventRow) (row : EventRow) : Prop :=
  (∀ r ∈ events, r.seq ≠ row.seq ∧ r.eventId ≠ row.eventId) ∧
    (row.dedupeKey ≠ .null → ∀ r ∈ events, r.dedupeKey ≠ row.dedupeKey) ∧
    row.prevHash ≠ .null ∧ row.hash ≠ .null

instance (events : List EventRow) (row : EventRow) : Decidable (Insertable events row) :=
  inferInstanceAs (Decidable (_ ∧ _))

/-- `INSERT INTO events`. -/
def insertEvent (row : EventRow) : Sql Unit :=
  write fun tables => do
    bindAll row.values
    check (Insertable tables.events row) .integrity
    return { tables with events := tables.events ++ [row] }

/-! ### The append -/

/-- `store`. -/
def storeState (s : Option TaskState) (seq : Int) : Sql Unit := do
  match s with
  | none => pure ()
  | some s => replaceTask s
  setLastSeq seq

/-- `apply_event`. -/
def projectEvent (e : Event) : Sql (Option TaskState) := do
  match e.seq with
  | none => throw (.projection (text "only sealed events (with seq) can be projected"))
  | some seq =>
      if e.type.isSystem then
        storeState none seq
        return none
      else
        let old ← loadTask e.taskId
        let new ← lift (apply old e)
        storeState new seq
        return new

/-- The answer to a repeated submission. -/
def answerDuplicate (e existing : Event) : Sql AppendResult := do
  if existing.content = e.content then
    rollback
    let state ← loadTask existing.taskId
    return ⟨existing, true, state⟩
  else
    throw (.dedupeConflict (text "dedupe_key " ++ Platform.repr (.str (e.dedupeKey.getD []))
      ++ text " already used by seq " ++ showAttempt existing.seq
      ++ text " with different content"))

def appendNew (e : Event) : Sql AppendResult := do
  let (seq, prevHash) ← head
  let placed ← lift (e.sealed (seq + 1) prevHash)
  let state ← projectEvent placed
  insertEvent (eventRow placed)
  commit
  return ⟨placed, false, state⟩

/-- The event stored for the key of a submission. -/
def findExisting (e : Event) : Sql (Option Event) :=
  match e.dedupeKey with
  | none => pure none
  | some key => getEventByDedupeKey key

/-- The body of the transaction. -/
def appendBody (e : Event) : Sql AppendResult := do
  match ← findExisting e with
  | some existing => answerDuplicate e existing
  | none => appendNew e

/-- `Journal.append` on the database. -/
def appendTables (e : Event) : Sql AppendResult := do
  if e.seq = none ∧ e.hash = none then
    transaction (appendBody e)
  else
    throw (.journal (text "event is already sealed; append unsealed events only"))

/-! ### The database of a journal -/

def Journal.encode (j : Journal) : Tables where
  events := j.events.map eventRow
  tasks := j.tasks.map toRow
  lastSeq := Text.decimal j.events.length

variable {j : Journal}

theorem firstEvent_filter (key : Str) :
  ∀ events : List Event,
    firstEvent ((events.map eventRow).filter fun row => row.dedupeKey = .text key)
      = .ok (events.find? fun e => e.dedupeKey = some key)
  | [] => rfl
  | e :: events => by
    have hkey : (eventRow e).dedupeKey = .text key ↔ e.dedupeKey = some key :=
      ofOption_eq_text
    by_cases h : e.dedupeKey = some key
    · simp [hkey, h, firstEvent, fromRow_eventRow, Except.map]
    · have hrest := firstEvent_filter key events
      simpa [hkey, h] using hrest

theorem eventByKey_encode (key : Str) :
  j.encode.eventByKey key = .ok (j.getEventByDedupeKey key)
  := firstEvent_filter key j.events

theorem head_encode :
  j.encode.head = .ok j.head
  := by
  obtain ⟨events, tasks, chained, -, -, -, -⟩ := j
  unfold Journal.encode Journal.head Tables.head
  obtain rfl | ⟨before, e, rfl⟩ := List.eq_nil_or_concat' events
  · rfl
  · obtain ⟨-, hash, he⟩ := chained_concat.mp chained
    simp [eventRow, headRow, he.seq_eq, he.hash_eq]

structure Tables.Holds (tables : Tables) (tasks : Tasks) : Prop where
  rows : tables.tasks = tasks.map toRow
  wellFormed : tasks.WellFormed

variable {tables : Tables} {tasks : Tasks}

omit [Platform] in
theorem Tables.Holds.task (h : tables.Holds tasks) (id : Str) :
  tables.task id = .ok (tasks.get? id)
  := by
  unfold Tables.task
  rw [h.rows, Dict.get?_map]
  cases hs : tasks.get? id with
  | none => rfl
  | some s =>
    have hcanonical := (h.wellFormed id s hs).2
    simp [readRow, fromRow_toRow hcanonical, Except.map]

theorem holds_encode :
  j.encode.Holds j.tasks
  := ⟨rfl, wellFormed_fold j.replayed⟩

theorem task_encode (id : Str) :
  j.encode.task id = .ok (j.task id)
  := holds_encode.task id

/-! ### Statements on the database of a journal -/

variable {faults : List (Option (Fault Exc))} {s : Session Tables Exc} {e : Event}

/-- Nothing is stored by a step that raises, and it raises for a fault or because the journal
refuses the submission. -/
def Refused (faults : List (Option (Fault Exc))) (j : Journal) (e : Event) (why : Exc)
    (s : Session Tables Exc) : Prop :=
  RaisedAt faults j.encode s ∧ (Blamed faults why ∨ j.append e = .error why)

theorem append_eq_answer (hsealed : e.seq = none ∧ e.hash = none)
    (hbind : bindAll [.ofOption e.dedupeKey] = .ok ()) :
  j.append e = j.answer e
  := by
  simp [Journal.append, check_of hsealed, hbind, bind, Except.bind]

theorem wp_findExisting {normal : Option Event → Session Tables Exc → Prop}
    (h : At faults j.encode (some j.encode) s) (hsealed : e.seq = none ∧ e.hash = none)
    (hnormal : ∀ s', At faults j.encode (some j.encode) s' →
      bindAll [.ofOption e.dedupeKey] = .ok () → normal (j.existing e) s') :
  wp (findExisting e) normal (Refused faults j e) s
  := by
  unfold findExisting
  cases hkey : e.dedupeKey with
  | none =>
    have hnone : j.existing e = none := by simp [Journal.existing, hkey]
    rw [wp_pure, ← hnone]
    apply hnormal s h
    rw [hkey]
    rfl
  | some key =>
    have hread : (bindAll [.text key] >>= fun _ => s.current.eventByKey key)
        = bindAll [.text key] >>= fun _ => .ok (j.existing e) := by
      rw [h.current_eq, eventByKey_encode, Journal.existing, hkey]
      rfl
    unfold getEventByDedupeKey
    apply wp_query h
    · intro a s' h' ha
      rw [hread, bind_unit_eq_ok, ok.injEq] at ha
      obtain ⟨hbind, rfl⟩ := ha
      apply hnormal s' h'
      rw [hkey]
      exact hbind
    · intro why s' h' hwhy
      refine ⟨h', ?_⟩
      obtain hblamed | hwhy := hwhy
      · exact .inl hblamed
      · right
        rw [hread] at hwhy
        have hbind : bindAll [.ofOption e.dedupeKey] = .error why := by
          rw [hkey]
          cases hb : bindAll [.text key] with
          | error w =>
            rw [hb] at hwhy
            cases hwhy
            exact hb
          | ok u =>
            rw [hb] at hwhy
            cases hwhy
        simp [Journal.append, check_of hsealed, hbind, bind, Except.bind]

def Accepted (faults : List (Option (Fault Exc))) (j : Journal) (e : Event) (r : AppendResult)
    (s : Session Tables Exc) : Prop :=
  ∃ j', j.append e = .ok (r, j') ∧ At faults j'.encode none s

/-- A repeated submission is answered and nothing is stored, or it is a conflict. -/
theorem wp_answerDuplicate {x : Event} (h : At faults j.encode (some j.encode) s)
    (happend : j.append e = j.answer e) (hx : j.existing e = some x) :
  wp (answerDuplicate e x) (Accepted faults j e) (Refused faults j e) s
  := by
  have hanswer := Journal.answer_of_existing hx
  unfold answerDuplicate
  split
  · next hsame =>
    rw [if_pos hsame] at hanswer
    simp only [wp_bind, wp_pure]
    apply wp_rollback h.raisedAt
    intro s' h'
    cases htask : x.taskId with
    | none =>
      rw [htask] at hanswer
      simp only [loadTask, wp_pure]
      exact ⟨j, happend.trans hanswer, h'⟩
    | some id =>
      rw [htask] at hanswer
      have hmem : SqlValue.text id ∈ (eventRow x).values := by
        simp [eventRow, EventRow.values, htask, SqlValue.ofOption]
      have hbind : bindAll [.text id] = .ok () :=
        bindAll_of_mem (j.bound x (Journal.mem_of_existing hx).1) hmem
      have hcurrent : s'.current = j.encode := by
        simp [current, h'.working_eq, h'.stored_eq]
      have hread : (bindAll [.text id] >>= fun _ => s'.current.task id)
          = .ok (j.task id) := by
        rw [hcurrent, hbind, task_encode]
        rfl
      unfold loadTask
      apply wp_query h'
      · intro state t ht hstate
        cases hread.symm.trans hstate
        exact ⟨j, happend.trans hanswer, ht⟩
      · intro why t ht hwhy
        refine ⟨ht, ?_⟩
        obtain hblamed | hwhy := hwhy
        · exact .inl hblamed
        · rw [hread] at hwhy
          cases hwhy
  · next hsame =>
    rw [if_neg hsame] at hanswer
    rw [wp_throw]
    exact ⟨h.raisedAt, .inr (happend.trans hanswer)⟩

/-- The tables after the state of a task was written. -/
def Tables.withTasks (tables : Tables) (tasks : Tasks) (seq : Int) : Tables where
  events := tables.events
  tasks := tasks.map toRow
  lastSeq := Text.decimal seq

omit [Platform] in
theorem wp_storeState {stored : Tables} {state : Option TaskState}
    {seq : Int} {normal : Unit → Session Tables Exc → Prop}
    {raised : Exc → Session Tables Exc → Prop} (h : At faults stored (some tables) s)
    (htasks : tables.tasks = tasks.map toRow)
    (hnormal : ∀ tasks' s', store tasks state = .ok tasks' →
      At faults stored (some (tables.withTasks tasks' seq)) s' → normal () s')
    (hraised : ∀ why s', RaisedAt faults stored s' →
      Blamed faults why ∨ store tasks state = .error why → raised why s') :
  wp (storeState state seq) normal raised s
  := by
  have hlast : ∀ {d : Tables} {tasks' : Tasks} {s' : Session Tables Exc},
      At faults stored (some d) s' → d.events = tables.events → d.tasks = tasks'.map toRow →
      store tasks state = .ok tasks' → wp (setLastSeq seq) normal raised s' := by
    intro d tasks' s' h' hevents hrows hstore
    apply wp_write h'
    · intro d' t ht hd'
      cases hd'
      apply hnormal tasks' t hstore
      rwa [Tables.withTasks, ← hevents, ← hrows]
    · intro why t ht hwhy
      obtain hblamed | hwhy := hwhy
      · exact hraised why t ht (.inl hblamed)
      · cases hwhy
  unfold storeState
  cases state with
  | none =>
    exact hlast h rfl htasks rfl
  | some new =>
    simp only [wp_bind]
    apply wp_write h
    · intro d' s' h' hd'
      simp only [bind_unit_eq_ok, pure, Except.pure, ok.injEq] at hd'
      obtain ⟨hbind, rfl⟩ := hd'
      have hstore : store tasks (some new) = .ok (tasks.set new.taskId new) := by
        simp [store, hbind, bind, Except.bind]
      apply hlast h' rfl _ hstore
      rw [Dict.map_set, htasks]
    · intro why s' h' hwhy
      apply hraised why s' h'
      obtain hblamed | hwhy := hwhy
      · exact .inl hblamed
      · right
        cases hb : bindAll (toRow new).values with
        | error w =>
          rw [hb] at hwhy
          cases hwhy
          simp [store, hb, bind, Except.bind]
        | ok u =>
          rw [hb] at hwhy
          cases hwhy

variable {placed : Event}

/-- Projecting an event writes what `applyEvent` computes, and raises when it does. -/
theorem wp_projectEvent {stored : Tables} {seq : Int}
    {normal : Option TaskState → Session Tables Exc → Prop}
    {raised : Exc → Session Tables Exc → Prop}
    (h : At faults stored (some tables) s) (hholds : tables.Holds tasks)
    (hseq : placed.seq = some seq)
    (hnormal : ∀ state tasks' s', applyEvent tasks placed = .ok (state, tasks') →
      At faults stored (some (tables.withTasks tasks' seq)) s' → normal state s')
    (hraised : ∀ why s', RaisedAt faults stored s' →
      Blamed faults why ∨ applyEvent tasks placed = .error why → raised why s') :
  wp (projectEvent placed) normal raised s
  := by
  have hsealed : check (placed.seq ≠ none)
      (Exc.projection (text "only sealed events (with seq) can be projected")) = .ok () :=
    check_of (by simp [hseq])
  unfold projectEvent
  simp only [hseq]
  split
  · next hs =>
    have happly : applyEvent tasks placed = .ok (none, tasks) := by
      simp [applyEvent, hsealed, hs, pure, Except.pure]
    simp only [wp_bind, wp_pure]
    apply wp_storeState h hholds.rows
    · intro tasks' s' hstore h'
      cases hstore
      exact hnormal none tasks s' happly h'
    · intro why s' h' hwhy
      obtain hblamed | hwhy := hwhy
      · exact hraised why s' h' (.inl hblamed)
      · cases hwhy
  · next hs =>
    obtain ⟨id, hid⟩ := Event.taskId_of_task (by simpa using hs)
    have htask : placed.task = id := by simp [Event.task, hid]
    have happly : applyEvent tasks placed = bindAll [.text id] >>= fun _ =>
        apply (tasks.get? id) placed >>= fun new => store tasks new >>= fun tasks' =>
          .ok (new, tasks') := by
      simp only [applyEvent, hsealed, hs, htask, hid, SqlValue.ofOption, ok_bind]
      rfl
    have hread : (bindAll [.text id] >>= fun _ => s.current.task id)
        = bindAll [.text id] >>= fun _ => .ok (tasks.get? id) := by
      rw [h.current_eq, hholds.task]
    simp only [hid, loadTask, wp_bind, wp_pure, wp_lift]
    apply wp_query h
    · intro old s' h' hold
      rw [hread, bind_unit_eq_ok, ok.injEq] at hold
      obtain ⟨hbind, rfl⟩ := hold
      rw [hbind, ok_bind] at happly
      constructor
      · intro new hnew
        rw [hnew, ok_bind] at happly
        apply wp_storeState h' hholds.rows
        · intro tasks' t hstore ht
          rw [hstore, ok_bind] at happly
          exact hnormal new tasks' t happly ht
        · intro why t ht hwhy
          apply hraised why t ht
          obtain hblamed | hwhy := hwhy
          · exact .inl hblamed
          · rw [hwhy, error_bind] at happly
            exact .inr happly
      · intro why hwhy
        rw [hwhy, error_bind] at happly
        exact hraised why s' h'.raisedAt (.inr happly)
    · intro why s' h' hwhy
      apply hraised why s' h'
      obtain hblamed | hwhy := hwhy
      · exact .inl hblamed
      · right
        rw [hread] at hwhy
        cases hb : bindAll [.text id] with
        | error w =>
          rw [hb] at hwhy happly
          cases hwhy
          exact happly
        | ok u =>
          rw [hb] at hwhy
          cases hwhy

theorem seq_lt {x : Event} (hx : x ∈ j.events) :
  ∃ seq, x.seq = some seq ∧ seq < 1 + j.events.length
  := by
  have hmem : x.seq ∈ j.events.map fun e => e.seq := List.mem_map_of_mem hx
  rw [j.chained.seqs] at hmem
  obtain ⟨n, hn, hseq⟩ := List.mem_map.mp hmem
  refine ⟨1 + n, hseq.symm, ?_⟩
  have hlt : n < j.events.length := List.mem_range.mp hn
  omega

theorem insertable_iff {prevHash hash : Str}
    (hnew : j.existing e = none) (hkey : placed.dedupeKey = e.dedupeKey)
    (hsealed : placed.Sealed (1 + j.events.length) prevHash hash) :
  Insertable j.encode.events (eventRow placed) ↔
    placed.eventId ∉ j.events.map fun e => e.eventId
  := by
  constructor
  · rintro ⟨hrows, -⟩ hmem
    obtain ⟨x, hx, hid⟩ := List.mem_map.mp hmem
    apply (hrows (eventRow x) (List.mem_map_of_mem hx)).2
    simp [eventRow, hid]
  · intro hfresh
    refine ⟨?_, ?_, by simp [eventRow, hsealed.prevHash_eq, SqlValue.ofOption],
      by simp [eventRow, hsealed.hash_eq, SqlValue.ofOption]⟩
    · intro r hr
      obtain ⟨x, hx, rfl⟩ := List.mem_map.mp hr
      obtain ⟨seq, hseq, hlt⟩ := seq_lt hx
      constructor
      · simp only [eventRow, hseq, hsealed.seq_eq, SqlValue.ofInt, ne_eq,
          SqlValue.integer.injEq]
        omega
      · intro hid
        apply hfresh
        simp only [eventRow, SqlValue.text.injEq] at hid
        exact List.mem_map.mpr ⟨x, hx, hid⟩
    · intro hnull r hr
      obtain ⟨x, hx, rfl⟩ := List.mem_map.mp hr
      cases hk : placed.dedupeKey with
      | none => simp [eventRow, hk, SqlValue.ofOption] at hnull
      | some key =>
        have hxkey := Journal.existing_eq_none.mp hnew key (hkey ▸ hk) x hx
        intro heq
        simp only [eventRow, hk] at heq
        exact hxkey (ofOption_eq_text.mp heq)

theorem encode_extend {state : Option TaskState}
    (hnew : j.existing e = none) (h : j.Admits e placed state tasks) :
  (j.extend hnew h).encode =
    { j.encode.withTasks tasks (1 + j.events.length) with
      events := j.encode.events ++ [eventRow placed] }
  := by
  have hlength : ((j.events ++ [placed]).length : Int) = 1 + j.events.length := by
    simp only [List.length_append, List.length_singleton]
    push_cast
    omega
  simp only [Journal.encode, Journal.extend, Tables.withTasks, hlength, List.map_append,
    List.map_singleton]

/-- A new submission is stored as the journal stores it, or is refused. -/
theorem wp_appendNew (h : At faults j.encode (some j.encode) s)
    (happend : j.append e = j.answer e) (hnew : j.existing e = none) :
  wp (appendNew e) (Accepted faults j e) (Refused faults j e) s
  := by
  have hrefused : ∀ {why : Exc} {t : Session Tables Exc}, RaisedAt faults j.encode t →
      Blamed faults why ∨ j.candidate e = .error why → Refused faults j e why t := by
    intro why t ht hwhy
    refine ⟨ht, ?_⟩
    obtain hblamed | hwhy := hwhy
    · exact .inl hblamed
    · exact .inr (happend.trans (Journal.answer_of_refused hnew hwhy))
  unfold appendNew head
  simp only [wp_bind, wp_pure, wp_lift]
  apply wp_query h
  · intro headed s₁ h₁ hhead
    rw [h.current_eq, head_encode, ok.injEq] at hhead
    subst hhead
    constructor
    · intro placed hplaced
      obtain ⟨hash, hplace, hsealed⟩ := sealed_of_sealed hplaced
      apply wp_projectEvent h₁ holds_encode hsealed.seq_eq
      · intro state tasks s₂ hstate h₂
        have hkey : placed.dedupeKey = e.dedupeKey := by rw [hplace]; rfl
        have hnumber : j.head.1 + 1 = 1 + j.events.length := by
          rw [Journal.head_eq, add_comm]
        rw [hnumber] at hsealed h₂
        have hinsertable : Insertable (j.encode.withTasks tasks (1 + j.events.length)).events
            (eventRow placed) ↔ placed.eventId ∉ j.events.map fun e => e.eventId :=
          insertable_iff hnew hkey hsealed
        apply wp_write h₂
        · intro d s₃ h₃ hd
          simp only [bind_unit_eq_ok, check_eq_ok, pure, Except.pure, ok.injEq] at hd
          obtain ⟨hbind, hrow, rfl⟩ := hd
          have hcand : j.candidate e = .ok (placed, state, tasks) := by
            simp only [Journal.candidate, hplaced, hstate, hbind, check_of (hinsertable.mp hrow),
              ok_bind]
            rfl
          have hadmits := Journal.candidate_eq_ok.mp hcand
          apply wp_commit h₃
          · intro s₄ h₄
            refine ⟨j.extend hnew hadmits, ?_, ?_⟩
            · rw [happend, Journal.answer_eq_ok]
              exact .stored hnew hadmits
            · rwa [encode_extend]
          · intro why t ht hwhy
            exact hrefused ht (.inl hwhy)
        · intro why t ht hwhy
          apply hrefused ht
          obtain hblamed | hwhy := hwhy
          · exact .inl hblamed
          · right
            simp only [Journal.candidate, hplaced, hstate, ok_bind]
            cases hb : bindAll (eventRow placed).values with
            | error w =>
              rw [hb, error_bind] at hwhy
              cases hwhy
              rw [error_bind]
            | ok u =>
              rw [hb, ok_bind] at hwhy
              by_cases hfresh : placed.eventId ∉ j.events.map fun x => x.eventId
              · rw [check_of (hinsertable.mpr hfresh)] at hwhy
                cases hwhy
              · rw [check, if_neg (fun hrow => hfresh (hinsertable.mp hrow))] at hwhy
                cases hwhy
                rw [ok_bind, check, if_neg hfresh, error_bind]
      · intro why t ht hwhy
        apply hrefused ht
        obtain hblamed | hwhy := hwhy
        · exact .inl hblamed
        · right
          simp [Journal.candidate, hplaced, hwhy, bind, Except.bind]
    · intro why hwhy
      apply hrefused h₁.raisedAt
      right
      simp [Journal.candidate, hwhy, bind, Except.bind]
  · intro why t ht hwhy
    apply hrefused ht
    obtain hblamed | hwhy := hwhy
    · exact .inl hblamed
    · rw [h.current_eq, head_encode] at hwhy
      cases hwhy

theorem wp_appendTables (h : At faults j.encode none s) :
  wp (appendTables e) (Accepted faults j e) (fun why s' => At faults j.encode none s' ∧
    (Blamed faults why ∨ j.append e = .error why)) s
  := by
  unfold appendTables
  split
  · next hsealed =>
    apply wp_transaction h
    · intro s₁ h₁
      have hbody : wp (appendBody e) (Accepted faults j e) (Refused faults j e) s₁ := by
        unfold appendBody
        rw [wp_bind]
        apply wp_findExisting h₁ hsealed
        intro s₂ h₂ hbind
        have happend : j.append e = j.answer e := append_eq_answer hsealed hbind
        cases hx : j.existing e with
        | none => exact wp_appendNew h₂ happend hx
        | some x => exact wp_answerDuplicate h₂ happend hx
      apply wp_mono hbody
      · intro r t hr
        exact hr
      · rintro why t ⟨ht, hwhy⟩
        exact ⟨ht, fun t' ht' => ⟨ht', hwhy⟩⟩
    · intro why t ht hwhy
      exact ⟨ht, .inl hwhy⟩
  · next hsealed =>
    rw [wp_throw]
    refine ⟨h, .inr ?_⟩
    rw [Journal.append, check, if_neg hsealed, error_bind]

end Database

end Courier
