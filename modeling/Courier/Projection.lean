import Courier.StateMachine.Records
import Courier.Library.Sql
import Courier.Library.Dict

/-!
# Projections of the journal

The `tasks` table holds, for each task, the state in which the fold leaves it.  A row has one
column for each field of the state; `fromRow` reads back what `toRow` wrote.  `fold` is the
replay in memory that the table must agree with, and `applyEvent` what an append does to it.
-/

namespace Courier

open Except Run

/-! ### Rows -/

/-- A row of the `tasks` table. -/
structure TaskRow where
  taskId : SqlValue
  status : SqlValue
  adapter : SqlValue
  params : SqlValue
  effectClass : SqlValue
  maxAttempts : SqlValue
  leaseTtlS : SqlValue
  timeoutS : SqlValue
  attempt : SqlValue
  dispatchId : SqlValue
  workerId : SqlValue
  started : SqlValue
  pendingResultId : SqlValue
  acceptedResultId : SqlValue
  cancelRequested : SqlValue
  failureKind : SqlValue
  retryable : SqlValue
  lastReason : SqlValue
  lateResults : SqlValue
  resolution : SqlValue
  decidedBy : SqlValue
  dependsOn : SqlValue
  input : SqlValue
  createdSeq : SqlValue
  updatedSeq : SqlValue
  deriving DecidableEq

namespace TaskRow

/-- The parameters of the statement that writes a row, in the order of the columns. -/
def values (row : TaskRow) : List SqlValue :=
  [row.taskId, row.status, row.adapter, row.params, row.effectClass, row.maxAttempts,
    row.leaseTtlS, row.timeoutS, row.attempt, row.dispatchId, row.workerId, row.started,
    row.pendingResultId, row.acceptedResultId, row.cancelRequested, row.failureKind,
    row.retryable, row.lastReason, row.lateResults, row.resolution, row.decidedBy,
    row.dependsOn, row.input, row.createdSeq, row.updatedSeq]

end TaskRow

/-- `_to_row`.  The columns `params` and `input` are JSON, `started` and `cancel_requested`
are stored as integers. -/
def toRow (s : TaskState) : TaskRow where
  taskId := .text s.taskId
  status := .text s.status.value
  adapter := .text s.adapter
  params := .text (canonicalJson s.params)
  effectClass := .text s.effectClass
  maxAttempts := .integer s.maxAttempts
  leaseTtlS := .integer s.leaseTtlS
  timeoutS := .ofInt s.timeoutS
  attempt := .integer s.attempt
  dispatchId := .ofOption s.dispatchId
  workerId := .ofOption s.workerId
  started := .ofBool s.started
  pendingResultId := .ofOption s.pendingResultId
  acceptedResultId := .ofOption s.acceptedResultId
  cancelRequested := .ofBool s.cancelRequested
  failureKind := .ofOption (s.failureKind.map FailureKind.value)
  retryable := .ofInt (s.retryable.map fun b => if b then 1 else 0)
  lastReason := .ofOption s.lastReason
  lateResults := .integer s.lateResults
  resolution := .ofOption (s.resolution.map Resolution.value)
  decidedBy := .ofOption s.decidedBy
  dependsOn := .ofOption s.dependsOn
  input := .text (canonicalJson s.input)
  createdSeq := .ofInt s.createdSeq
  updatedSeq := .ofInt s.updatedSeq

def readEnum {α : Type} (ofValue : Str → Option α) (v : SqlValue) : Option (Option α) :=
  (SqlValue.nullable SqlValue.text? v).bind fun
    | none => some none
    | some name => (ofValue name).map some

/-- `_from_row`.  A column of another type than `toRow` writes is not read. -/
def fromRow (row : TaskRow) : Option TaskState := do
  return {
    taskId := ← row.taskId.text?
    status := ← row.status.text? >>= TaskStatus.ofValue
    adapter := ← row.adapter.text?
    params := ← row.params.text? >>= Json.loads
    effectClass := ← row.effectClass.text?
    maxAttempts := ← row.maxAttempts.integer?
    leaseTtlS := ← row.leaseTtlS.integer?
    timeoutS := ← SqlValue.nullable SqlValue.integer? row.timeoutS
    attempt := ← row.attempt.integer?
    dispatchId := ← SqlValue.nullable SqlValue.text? row.dispatchId
    workerId := ← SqlValue.nullable SqlValue.text? row.workerId
    started := ← row.started.flag?
    pendingResultId := ← SqlValue.nullable SqlValue.text? row.pendingResultId
    acceptedResultId := ← SqlValue.nullable SqlValue.text? row.acceptedResultId
    cancelRequested := ← row.cancelRequested.flag?
    failureKind := ← readEnum FailureKind.ofValue row.failureKind
    retryable := ← SqlValue.nullable SqlValue.flag? row.retryable
    lastReason := ← SqlValue.nullable SqlValue.text? row.lastReason
    lateResults := ← row.lateResults.integer?
    resolution := ← readEnum Resolution.ofValue row.resolution
    decidedBy := ← SqlValue.nullable SqlValue.text? row.decidedBy
    dependsOn := ← SqlValue.nullable SqlValue.text? row.dependsOn
    input := ← row.input.text? >>= Json.loads
    createdSeq := ← SqlValue.nullable SqlValue.integer? row.createdSeq
    updatedSeq := ← SqlValue.nullable SqlValue.integer? row.updatedSeq }

/-- The JSON a state holds has an encoding. -/
structure TaskState.Canonical (s : TaskState) : Prop where
  params : s.params.wf = true
  input : s.input.wf = true

theorem readEnum_map {α : Type} {value : α → Str} {ofValue : Str → Option α}
    (h : ∀ a, ofValue (value a) = some a) (o : Option α) :
  readEnum ofValue (.ofOption (o.map value)) = some o
  := by
  cases o with
  | none => rfl
  | some a => simp [readEnum, h]

theorem nullable_flag (o : Option Bool) :
  SqlValue.nullable SqlValue.flag? (.ofInt (o.map fun b => if b then 1 else 0)) = some o
  := by
  rcases o with _ | _ | _ <;> rfl

variable {s : TaskState}

theorem fromRow_toRow (h : s.Canonical) :
  fromRow (toRow s) = some s
  := by
  simp [fromRow, toRow, SqlValue.text?, SqlValue.integer?, nullable_flag,
    readEnum_map FailureKind.ofValue_value, readEnum_map Resolution.ofValue_value,
    Json.loads_dumps h.params, Json.loads_dumps h.input]

section Fold

variable [Platform]

/-! ### The JSON of a state comes from payloads -/

theorem Event.wf_get (e : Event) (key : Str) :
  (e.get key).wf = true
  := Json.wf_get e.canonical key

theorem canonical_created (e : Event) :
  (created e).Canonical
  := ⟨e.wf_get _, rfl⟩

variable {e : Event}

theorem Step.canonical {s' : TaskState} (step : Step s e s') (h : s.Canonical) :
  s'.Canonical
  := by
  cases step with
  | claimed => exact ⟨h.params, e.wf_get _⟩
  | _ => exact ⟨h.params, h.input⟩

theorem Applied.canonical {state state' : Option TaskState}
    (h : Applied e state state') (hstate : ∀ s, state = some s → s.Canonical) :
  ∀ s, state' = some s → s.Canonical
  := by
  cases h with
  | system => exact hstate
  | created =>
    rintro s ⟨⟩
    apply canonical_created
  | step _ _ _ step =>
    rintro s ⟨⟩
    obtain ⟨hparams, hinput⟩ := step.canonical (hstate _ rfl)
    exact ⟨hparams, hinput⟩

/-! ### The table and the replay -/

def bindAll (parameters : List SqlValue) : Except Exc Unit :=
  match SqlValue.refusals parameters with
  | none => .ok ()
  | some .overflow => .error .overflow
  | some .unicode => .error .unicodeEncode

omit [Platform] in
theorem bindAll_of_mem {v : SqlValue} {values : List SqlValue}
    (h : bindAll values = .ok ()) (hv : v ∈ values) :
  bindAll [v] = .ok ()
  := by
  unfold bindAll at h ⊢
  have hnone : SqlValue.refusals values = none := by
    cases hr : SqlValue.refusals values with
    | none => rfl
    | some r => cases r <;> simp [hr] at h
  have hrefusal : v.refusal = none := by
    simp only [SqlValue.refusals, List.findSome?_eq_none_iff] at hnone
    exact hnone v hv
  simp [SqlValue.refusals, hrefusal]

def Event.task (e : Event) : Str :=
  e.taskId.getD []

abbrev Tasks := Dict Str TaskState

/-- `store`, as far as the tasks are concerned. -/
def store (tasks : Tasks) : Option TaskState → Except Exc Tasks
  | none => .ok tasks
  | some s => bindAll (toRow s).values >>= fun _ => .ok (tasks.set s.taskId s)

def applyEvent (tasks : Tasks) (e : Event) : Except Exc (Option TaskState × Tasks) := do
  check (e.seq ≠ none)
    (.projection (text "only sealed events (with seq) can be projected"))
  if e.type.isSystem then
    return (none, tasks)
  bindAll [.ofOption e.taskId]
  let new ← apply (tasks.get? e.task) e
  let tasks ← store tasks new
  return (new, tasks)

/-- A `ValueError` raised by an event of a replay. -/
def replayError (e : Event) : Exc → Exc
  | .transition why => .projection (text "seq " ++ showAttempt e.seq ++ text ": " ++ why)
  | .eventValidation why => .projection (text "seq " ++ showAttempt e.seq ++ text ": " ++ why)
  | .unicodeEncode => .projection (text "seq " ++ showAttempt e.seq ++ text ": ")
  | other => other

def foldEvent (tasks : Tasks) (e : Event) : Except Exc Tasks :=
  if e.type.isSystem then .ok tasks
  else match apply (tasks.get? e.task) e with
    | .error why => .error (replayError e why)
    | .ok none => .ok tasks
    | .ok (some s) => .ok (tasks.set e.task s)

/-- Replay in memory, the reference the table must match. -/
def fold (events : List Event) : Except Exc Tasks :=
  events.foldlM foldEvent ∅

/-- One event of `rebuild_in_place`. -/
def rebuildEvent (tasks : Tasks) (e : Event) : Except Exc Tasks :=
  match applyEvent tasks e with
  | .error why => .error (replayError e why)
  | .ok (_, tasks) => .ok tasks

/-- Replace the table by a fresh fold. -/
def rebuild (events : List Event) : Except Exc Tasks :=
  events.foldlM rebuildEvent ∅

/-! ### The replay folds each task by itself -/

variable {tasks : Tasks}

theorem Applied.taskId
    (h : Applied e (tasks.get? e.task) (some s)) (hs : e.type.isSystem = false) :
  s.taskId = e.task ∧ e.taskId = some e.task
  := by
  obtain ⟨id, hid⟩ := Event.taskId_of_task hs
  have htask : e.task = id := by simp [Event.task, hid]
  generalize tasks.get? e.task = state at h
  cases h with
  | system type => simp [hs] at type
  | created => exact ⟨by simp [Courier.created, hid, htask], by rw [hid, htask]⟩
  | step _ _ task step =>
    rw [hid] at task
    refine ⟨?_, by rw [hid, htask]⟩
    rw [htask, Option.some.inj task]
    cases step <;> rfl

variable {tasks' : Tasks}

theorem foldEvent_eq_ok (hs : e.type.isSystem = false) :
  foldEvent tasks e = .ok tasks' ↔
    ∃ s, apply (tasks.get? e.task) e = .ok (some s) ∧ tasks' = tasks.set e.task s
  := by
  simp only [foldEvent, hs, Bool.false_eq_true, if_false]
  cases happly : apply (tasks.get? e.task) e with
  | error why => simp
  | ok state =>
    cases state with
    | some s =>
      simp only [ok.injEq, Option.some.injEq, exists_eq_left']
      exact eq_comm
    | none =>
      generalize tasks.get? e.task = old at happly
      cases apply_iff.mp happly with
      | system type => simp [hs] at type

theorem foldEvent_system (hs : e.type.isSystem = true) :
  foldEvent tasks e = .ok tasks
  := by
  simp [foldEvent, hs]

variable {new : Option TaskState}

theorem applyEvent_system
    (hs : e.type.isSystem = true) (h : applyEvent tasks e = .ok (new, tasks')) :
  new = none ∧ tasks' = tasks
  := by
  simp only [applyEvent, bind_unit_eq_ok, check_eq_ok, hs, if_true, pure, Except.pure, ok.injEq,
    Prod.mk.injEq] at h
  exact ⟨h.2.1.symm, h.2.2.symm⟩

theorem applyEvent_task
    (hs : e.type.isSystem = false) (h : applyEvent tasks e = .ok (new, tasks')) :
  ∃ s, new = some s ∧ apply (tasks.get? e.task) e = .ok (some s) ∧ tasks' = tasks.set e.task s
  := by
  simp only [applyEvent, hs, Bool.false_eq_true, if_false, bind_unit_eq_ok] at h
  simp only [bind_eq_ok, pure, Except.pure, ok.injEq, Prod.mk.injEq] at h
  obtain ⟨-, -, state, happly, stored, hstore, rfl, rfl⟩ := h
  cases state with
  | none =>
    generalize tasks.get? e.task = old at happly
    cases apply_iff.mp happly with
    | system type => simp [hs] at type
  | some s =>
    simp only [store, bind_unit_eq_ok, ok.injEq] at hstore
    obtain ⟨-, rfl⟩ := hstore
    refine ⟨s, rfl, happly, ?_⟩
    rw [(Applied.taskId (apply_iff.mp happly) hs).1]

theorem foldEvent_of_applyEvent
    (h : applyEvent tasks e = .ok (new, tasks')) :
  foldEvent tasks e = .ok tasks'
  := by
  by_cases hs : e.type.isSystem = true
  · rw [foldEvent_system hs, (applyEvent_system hs h).2]
  · have hs' : e.type.isSystem = false := by simpa using hs
    obtain ⟨s, -, happly, rfl⟩ := applyEvent_task hs' h
    exact (foldEvent_eq_ok hs').mpr ⟨s, happly, rfl⟩

theorem rebuildEvent_eq_ok :
  rebuildEvent tasks e = .ok tasks' ↔ ∃ new, applyEvent tasks e = .ok (new, tasks')
  := by
  unfold rebuildEvent
  cases applyEvent tasks e with
  | error why => simp
  | ok p => simp [Prod.ext_iff]

variable {events : List Event}

theorem fold_of_rebuild
    (h : rebuild events = .ok tasks) :
  fold events = .ok tasks
  := by
  have key : ∀ {events : List Event} {tasks tasks' : Tasks},
      Accepts rebuildEvent tasks events tasks' → Accepts foldEvent tasks events tasks' := by
    intro events
    induction events with
    | nil =>
      intro tasks tasks' h
      exact h
    | cons e events ih =>
      intro tasks tasks' h
      obtain ⟨t, ht, hrest⟩ := accepts_cons.mp h
      obtain ⟨new, hnew⟩ := rebuildEvent_eq_ok.mp ht
      exact accepts_cons.mpr ⟨t, foldEvent_of_applyEvent hnew, ih hrest⟩
  apply key h

def eventsOf (id : Str) (events : List Event) : List Event :=
  events.filter fun e => e.taskId = some id

theorem run_of_fold :
  ∀ {tasks tasks' : Tasks}, Accepts foldEvent tasks events tasks' → ∀ id : Str,
    Accepts apply (tasks.get? id) (eventsOf id events) (tasks'.get? id)
  := by
  induction events with
  | nil =>
    intro tasks tasks' h id
    obtain rfl := accepts_nil.mp h
    apply accepts_nil.mpr rfl
  | cons e events ih =>
    intro tasks tasks' h id
    obtain ⟨t, ht, hrest⟩ := accepts_cons.mp h
    have hrun := ih hrest id
    by_cases hs : e.type.isSystem = true
    · rw [foldEvent_system hs, ok.injEq] at ht
      have hne : ¬ e.taskId = some id := by simp [Event.taskId_of_system hs]
      simpa [eventsOf, hne, ht] using hrun
    · have hs' : e.type.isSystem = false := by simpa using hs
      obtain ⟨s, happly, rfl⟩ := (foldEvent_eq_ok hs').mp ht
      obtain ⟨-, htask⟩ := Applied.taskId (apply_iff.mp happly) hs'
      rw [Dict.get?_set] at hrun
      by_cases hid : id = e.task
      · subst hid
        rw [if_pos rfl] at hrun
        have hfilter : eventsOf e.task (e :: events) = e :: eventsOf e.task events := by
          simp [eventsOf, htask]
        rw [hfilter]
        exact accepts_cons.mpr ⟨_, happly, hrun⟩
      · rw [if_neg hid] at hrun
        have hne : ¬ e.taskId = some id := by
          rw [htask]
          intro heq
          exact hid (Option.some.inj heq).symm
        simpa [eventsOf, hne] using hrun

theorem run_of_fold_empty
    (h : fold events = .ok tasks) (id : Str) :
  Accepts apply none (eventsOf id events) (tasks.get? id)
  := by
  have hrun := run_of_fold h id
  rwa [Dict.get?_empty] at hrun

/-- What the table says of a task is about that task, and can be written down. -/
def Tasks.WellFormed (tasks : Tasks) : Prop :=
  ∀ id s, tasks.get? id = some s → s.taskId = id ∧ s.Canonical

theorem wellFormed_foldEvent (h : tasks.WellFormed)
    (hfold : foldEvent tasks e = .ok tasks') :
  tasks'.WellFormed
  := by
  by_cases hs : e.type.isSystem = true
  · rw [foldEvent_system hs, ok.injEq] at hfold
    rwa [← hfold]
  · have hs' : e.type.isSystem = false := by simpa using hs
    obtain ⟨s, happly, rfl⟩ := (foldEvent_eq_ok hs').mp hfold
    have happlied := apply_iff.mp happly
    intro id t ht
    rw [Dict.get?_set] at ht
    split_ifs at ht with hid
    · cases ht
      refine ⟨by rw [hid, (Applied.taskId happlied hs').1], ?_⟩
      apply happlied.canonical _ _ rfl
      intro old hold
      exact (h _ _ hold).2
    · exact h id t ht

theorem wellFormed_fold (h : fold events = .ok tasks) :
  tasks.WellFormed
  := by
  have hempty : Tasks.WellFormed ∅ := by
    intro id s hs
    simp at hs
  apply Accepts.invariant (fun _ _ _ hs _ hstep => wellFormed_foldEvent hs hstep) hempty
    (fun _ _ => trivial) h

end Fold

end Courier
