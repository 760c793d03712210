import Courier.Journal

/-!
# Exactly-once, fenced completion

A task is completed once, by the result of one attempt.  `Evidence` is the chain of events that a completion rests on;
the journal holds it exactly for the tasks that are `COMPLETE` as verified.
-/

namespace Courier

open Run

/-- The events a verified completion rests on, in their order. -/
def completionTypes : List EventType :=
  [.taskClaimed, .taskStarted, .resultReady, .resultAccepted, .taskComplete]

structure BelongsTo (id : Str) (attempt : Int) (dispatch worker result : Option Str)
    (e : EventFields) : Prop where
  task : e.taskId = some id
  attempt_eq : e.attempt = some attempt
  dispatch_eq : e.dispatchId = dispatch
  worker_eq : e.type ∈ [EventType.taskClaimed, .taskStarted, .resultReady] →
    e.workerId = worker
  result_eq : e.type ∈ [EventType.resultReady, .resultAccepted, .taskComplete] →
    e.resultId = result

section Histories

variable [Platform]

def Evidence (id : Str) (attempt : Int) (dispatch worker result : Option Str)
    (types : List EventType) (events : List Event) : Prop :=
  ∃ chain : List Event, chain.Sublist events ∧ chain.map (fun e => e.type) = types ∧
    ∀ e ∈ chain, BelongsTo id attempt dispatch worker result e.toEventFields

def VerifiedChain (id : Str) (events : List Event) : Prop :=
  ∃ attempt dispatch worker result,
    Evidence id attempt dispatch worker result completionTypes events

namespace Evidence

variable {id : Str} {attempt : Int} {dispatch worker result : Option Str}
  {types : List EventType} {events : List Event}

theorem nil :
  Evidence id attempt dispatch worker result [] events
  := ⟨[], List.nil_sublist _, rfl, by simp⟩

theorem mono (h : Evidence id attempt dispatch worker result types events) (e : Event) :
  Evidence id attempt dispatch worker result types (events ++ [e])
  := by
  obtain ⟨chain, hsub, htypes, hchain⟩ := h
  exact ⟨chain, hsub.trans (List.sublist_append_left _ _), htypes, hchain⟩

theorem concat {e : Event} (h : Evidence id attempt dispatch worker result types events)
    (he : BelongsTo id attempt dispatch worker result e.toEventFields) :
  Evidence id attempt dispatch worker result (types ++ [e.type]) (events ++ [e])
  := by
  obtain ⟨chain, hsub, htypes, hchain⟩ := h
  refine ⟨chain ++ [e], hsub.append (List.Sublist.refl _), by simp [htypes], ?_⟩
  intro f hf
  rcases List.mem_append.mp hf with hf | hf
  · exact hchain f hf
  · obtain rfl := List.mem_singleton.mp hf
    exact he

theorem exists_of_mem (h : Evidence id attempt dispatch worker result types events)
    (type : EventType) (htype : type ∈ types) :
  ∃ e ∈ events, e.type = type ∧ BelongsTo id attempt dispatch worker result e.toEventFields
  := by
  obtain ⟨chain, hsub, rfl, hchain⟩ := h
  obtain ⟨e, he, rfl⟩ := List.mem_map.mp htype
  exact ⟨e, hsub.subset he, rfl, hchain e he⟩

theorem withResult (h : Evidence id attempt dispatch worker result types events)
    (htypes : ∀ t ∈ types, t ∈ [EventType.taskClaimed, .taskStarted]) (result' : Option Str) :
  Evidence id attempt dispatch worker result' types events
  := by
  obtain ⟨chain, hsub, rfl, hchain⟩ := h
  refine ⟨chain, hsub, rfl, ?_⟩
  intro e he
  obtain ⟨htask, hattempt, hdispatch, hworker, -⟩ := hchain e he
  refine ⟨htask, hattempt, hdispatch, hworker, ?_⟩
  intro ht
  have htype := htypes e.type (List.mem_map_of_mem he)
  simp only [List.mem_cons, List.not_mem_nil, or_false] at ht htype
  rcases htype with h | h <;> simp [h] at ht

end Evidence

/-! ### The evidence for the state of a task -/

/-- The events the current dispatch rests on. -/
def TaskState.stage (s : TaskState) : List EventType :=
  match s.status with
  | .claimed => [.taskClaimed]
  | .running => [.taskClaimed, .taskStarted]
  | .verifying => [.taskClaimed, .taskStarted, .resultReady]
  | .accepted => [.taskClaimed, .taskStarted, .resultReady, .resultAccepted]
  | .complete => if s.resolution = some .verified then completionTypes else []
  | _ => []

def TaskState.namedResult (s : TaskState) : Option Str :=
  if s.status = .verifying then s.pendingResultId else s.acceptedResultId

def Backed (events : List Event) (s : TaskState) : Prop :=
  Evidence s.taskId s.attempt s.dispatchId s.workerId s.namedResult s.stage events

variable {s : TaskState} {e : Event}

theorem Fenced.belongsTo {checkWorker : Bool} {result : Option Str}
    (h : Fenced s e checkWorker) (htask : e.taskId = some s.taskId)
    (hworker : e.type ∈ [EventType.taskClaimed, .taskStarted, .resultReady] →
      checkWorker = true ∧ Field.workerId ∈ (REQUIRED e.type).1)
    (hresult : e.type ∈ [EventType.resultReady, .resultAccepted, .taskComplete] →
      e.resultId = result) :
  BelongsTo s.taskId s.attempt s.dispatchId s.workerId result e.toEventFields
  := by
  refine ⟨htask, h.attempt, h.dispatch, ?_, hresult⟩
  intro ht
  obtain ⟨rfl, hrequired⟩ := hworker ht
  exact h.worker_eq hrequired

theorem Backed.step {events : List Event} {s s' : TaskState} {e : Event} (h : Backed events s)
    (htask : e.taskId = some s.taskId) (step : Step s e s') :
  Backed (events ++ [e]) s'
  := by
  unfold Backed at h ⊢
  cases step with
  | lateResult => exact h.mono e
  | progress => exact h.mono e
  | cancelRequested => exact h.mono e
  | claimed type _ _ attempt =>
    have he : BelongsTo s.taskId (s.attempt + 1) e.dispatchId e.workerId s.acceptedResultId
        e.toEventFields :=
      ⟨htask, attempt, rfl, fun _ => rfl, by simp [type]⟩
    have hnone : Evidence s.taskId (s.attempt + 1) e.dispatchId e.workerId s.acceptedResultId
        [] events := Evidence.nil
    have hchain := hnone.concat he
    rw [type] at hchain
    exact hchain
  | started type status fenced =>
    simp only [TaskState.stage, TaskState.namedResult, status, reduceCtorEq, if_false] at h
    have hchain := h.concat (fenced.belongsTo htask (by simp [type, REQUIRED]) (by simp [type]))
    rw [type] at hchain
    exact hchain
  | resultReady type status fenced =>
    simp only [TaskState.stage, TaskState.namedResult, status, reduceCtorEq, if_false] at h
    have hchain := (h.withResult (by simp) e.resultId).concat
      (fenced.belongsTo htask (by simp [type, REQUIRED]) (fun _ => rfl))
    rw [type] at hchain
    exact hchain
  | resultAccepted type status fenced result =>
    simp only [TaskState.stage, TaskState.namedResult, status, if_true] at h
    have hchain := h.concat (fenced.belongsTo htask (by simp [type]) (fun _ => result))
    rw [type, ← result] at hchain
    exact hchain
  | complete type status fenced result =>
    simp only [TaskState.stage, TaskState.namedResult, status, reduceCtorEq, if_false] at h
    have hchain := h.concat (fenced.belongsTo htask (by simp [type]) (fun _ => result))
    rw [type] at hchain
    simp only [TaskState.stage, TaskState.namedResult, reduceCtorEq, if_false]
    split_ifs
    · exact hchain
    · exact Evidence.nil
  | _ => exact Evidence.nil

theorem backed_of_run {events : List Event} {state : Option TaskState}
    (hrun : Accepts apply none events state) :
  ∀ s, state = some s → Backed events s
  := by
  refine Accepts.history (I := fun events state => ∀ s, state = some s → Backed events s)
    ?_ ?_ hrun
  · intro before t e t' h ht s hs
    cases apply_iff.mp ht with
    | system => exact (h s hs).mono e
    | created =>
      cases hs
      exact Evidence.nil
    | step _ _ task step =>
      cases hs
      have hs' := (h _ rfl).step task step
      exact hs'
  · rintro s ⟨⟩

/-! ### How often a verdict and a completion are in the history -/

def TaskState.confirmed (s : TaskState) : Bool :=
  s.status = .complete && s.resolution = some .effectConfirmed

def occurrences (type : EventType) (events : List Event) : Nat :=
  events.countP fun e => e.type = type

theorem occurrences_concat (type : EventType) (events : List Event) (e : Event) :
  occurrences type (events ++ [e]) = occurrences type events + if e.type = type then 1 else 0
  := by
  by_cases h : e.type = type <;> simp [occurrences, h]

/-- What the history says of verdicts and completions, and what the state says. -/
structure Settled (events : List Event) (s : TaskState) : Prop where
  accepted : occurrences .resultAccepted events
    = if s.status = .accepted ∨ s.verified = true then 1 else 0
  complete : occurrences .taskComplete events = if s.verified = true then 1 else 0
  confirmed : occurrences .effectConfirmed events = if s.confirmed = true then 1 else 0
  resolution : s.status = .accepted → s.resolution = some .verified
  result : ¬ (s.status = .accepted ∨ s.verified = true) → s.acceptedResultId = none
  resolved : s.status = .complete → s.verified = true ∨ s.confirmed = true

theorem Settled.step {events : List Event} {s s' : TaskState} {e : Event}
    (h : Settled events s) (step : Step s e s') :
  Settled (events ++ [e]) s'
  := by
  obtain ⟨haccepted, hcomplete, hconfirmed, hresolution, hresult, hresolved⟩ := h
  simp only [TaskState.verified, TaskState.confirmed] at *
  cases step with
  | leaseExpired _ status =>
    cases hs : s.status <;> simp only [hs, TaskStatus.isActiveLease, reduceCtorEq] at status <;>
      constructor <;> simp_all [occurrences_concat, TaskState.verified, TaskState.confirmed]
  | failed _ status =>
    rcases status with hs | hs <;> constructor <;>
      simp_all [occurrences_concat, TaskState.verified, TaskState.confirmed]
  | blocked _ status =>
    rcases status with hs | hs <;> constructor <;>
      simp_all [occurrences_concat, TaskState.verified, TaskState.confirmed]
  | cancelled _ status =>
    simp only [List.mem_cons, List.not_mem_nil, or_false] at status
    rcases status with hs | hs | hs | hs <;> constructor <;>
      simp_all [occurrences_concat, TaskState.verified, TaskState.confirmed]
  | _ =>
    constructor <;>
      simp_all [occurrences_concat, TaskState.verified, TaskState.confirmed]

variable {type : EventType}

theorem occurrences_of_ne {events : List Event}
    (h : e.type ≠ type) :
  occurrences type (events ++ [e]) = occurrences type events
  := by
  simp [occurrences_concat, h]

theorem settled_created {events : List Event}
    (h : ∀ type : EventType, type.isSystem = false → occurrences type events = 0)
    (type : e.type = .taskCreated) :
  Settled (events ++ [e]) (created e)
  := by
  have haccepted := h .resultAccepted rfl
  have hcomplete := h .taskComplete rfl
  have hconfirmed := h .effectConfirmed rfl
  constructor <;>
    simp [occurrences_concat, type, haccepted, hcomplete, hconfirmed, created,
      TaskState.verified, TaskState.confirmed]

theorem Settled.system {events : List Event} (h : Settled events s)
    (type : e.type.isSystem = true) :
  Settled (events ++ [e]) s
  := by
  have hne : ∀ t : EventType, t.isSystem = false → e.type ≠ t := by
    rintro t ht rfl
    simp [type] at ht
  obtain ⟨haccepted, hcomplete, hconfirmed, hresolution, hresult, hresolved⟩ := h
  constructor
  · rw [occurrences_of_ne (hne _ rfl), haccepted]
  · rw [occurrences_of_ne (hne _ rfl), hcomplete]
  · rw [occurrences_of_ne (hne _ rfl), hconfirmed]
  · exact hresolution
  · exact hresult
  · exact hresolved

/-- Every task is settled with its own history. -/
theorem settled_of_run {events : List Event} {state : Option TaskState}
    (hrun : Accepts apply none events state) :
  ∀ s, state = some s → Settled events s
  := by
  have h : (∀ s, state = some s → Settled events s) ∧ (state = none →
      ∀ type : EventType, type.isSystem = false → occurrences type events = 0) := by
    refine Accepts.history (I := fun events state => (∀ s, state = some s → Settled events s) ∧
      (state = none → ∀ type : EventType, type.isSystem = false → occurrences type events = 0))
      ?_ ?_ hrun
    · rintro before t e t' ⟨hsome, hnone⟩ ht
      cases apply_iff.mp ht with
      | system type =>
        constructor
        · intro s hs
          exact (hsome s hs).system type
        · intro hs t ht
          have hne : e.type ≠ t := by
            rintro rfl
            simp [type] at ht
          rw [occurrences_of_ne hne, hnone hs t ht]
      | created type =>
        constructor
        · rintro s ⟨⟩
          exact settled_created (hnone rfl) type
        · simp
      | step _ _ task step =>
        constructor
        · rintro s ⟨⟩
          have hs := (hsome _ rfl).step step
          exact ⟨hs.accepted, hs.complete, hs.confirmed, hs.resolution, hs.result,
            hs.resolved⟩
        · simp
    · simp [occurrences]
  exact h.1

/-! ### Journals -/

theorem VerifiedChain.complete {id : Str} {events : List Event} (h : VerifiedChain id events) :
  ∃ e ∈ events, e.taskId = some id ∧ e.type = .taskComplete
  := by
  obtain ⟨attempt, dispatch, worker, result, chain, hsub, htypes, hchain⟩ := h
  have hmem : EventType.taskComplete ∈ chain.map fun e => e.type := by
    rw [htypes]
    simp [completionTypes]
  obtain ⟨e, he, htype⟩ := List.mem_map.mp hmem
  exact ⟨e, hsub.subset he, (hchain e he).task, htype⟩

namespace Journal

variable {j : Journal} {id : Str}

theorem settled_of_task (h : j.task id = some s) :
  Settled (eventsOf id j.events) s
  := settled_of_run (j.run_of_task id) s h

theorem occurrences_le_one
    (h : ∀ s, j.task id = some s → occurrences type (eventsOf id j.events) ≤ 1) :
  occurrences type (eventsOf id j.events) ≤ 1
  := by
  cases hs : j.task id with
  | none => simp [eventsOf_of_unknown hs, occurrences]
  | some s => exact h s hs

theorem known_of_mem (he : e ∈ j.events)
    (htask : e.taskId = some id) (htype : e.type = type) :
  ∃ s, j.task id = some s ∧ Settled (eventsOf id j.events) s ∧
    occurrences type (eventsOf id j.events) ≠ 0
  := by
  have hmem : e ∈ eventsOf id j.events := List.mem_filter.mpr ⟨he, by simp [htask]⟩
  have hpos : 0 < occurrences type (eventsOf id j.events) :=
    List.countP_pos_iff.mpr ⟨e, hmem, by simp [htype]⟩
  cases hs : j.task id with
  | none => simp [eventsOf_of_unknown hs] at hmem
  | some s => exact ⟨s, rfl, settled_of_task hs, by omega⟩

theorem verified_iff :
  (∃ s, j.task id = some s ∧ s.status = .complete ∧ s.resolution = some .verified) ↔
    VerifiedChain id j.events
  := by
  constructor
  · rintro ⟨s, hs, hstatus, hresolution⟩
    obtain ⟨chain, hsub, htypes, hchain⟩ := backed_of_run (j.run_of_task id) s hs
    refine ⟨s.attempt, s.dispatchId, s.workerId, s.namedResult, chain,
      hsub.trans List.filter_sublist, ?_, ?_⟩
    · simpa [TaskState.stage, hstatus, hresolution] using htypes
    · rwa [taskId_of_task hs] at hchain
  · intro h
    obtain ⟨e, he, htask, htype⟩ := h.complete
    obtain ⟨s, hs, hsettled, hcount⟩ := known_of_mem he htask htype
    rw [hsettled.complete] at hcount
    have hverified : s.verified = true := by
      by_contra hnot
      exact hcount (if_neg hnot)
    exact ⟨s, hs, by simpa [TaskState.verified] using hverified⟩

theorem confirmed_iff :
  (∃ s, j.task id = some s ∧ s.status = .complete ∧ s.resolution = some .effectConfirmed) ↔
    ∃ e ∈ j.events, e.taskId = some id ∧ e.type = .effectConfirmed
  := by
  constructor
  · rintro ⟨s, hs, hstatus, hresolution⟩
    have hcount := (settled_of_task hs).confirmed
    rw [if_pos (by simp [TaskState.confirmed, hstatus, hresolution])] at hcount
    obtain ⟨e, he, htype⟩ := List.countP_pos_iff.mp
      (show 0 < occurrences .effectConfirmed (eventsOf id j.events) by omega)
    obtain ⟨hmem, htask⟩ := List.mem_filter.mp he
    exact ⟨e, hmem, by simpa using htask, by simpa using htype⟩
  · rintro ⟨e, he, htask, htype⟩
    obtain ⟨s, hs, hsettled, hcount⟩ := known_of_mem he htask htype
    rw [hsettled.confirmed] at hcount
    have hconfirmed : s.confirmed = true := by
      by_contra hnot
      exact hcount (if_neg hnot)
    exact ⟨s, hs, by simpa [TaskState.confirmed] using hconfirmed⟩

theorem step_of_split {before after : List Event} {tasks : Tasks}
    (hsplit : j.events = before ++ e :: after) (hfold : fold before = .ok tasks)
    (hs : tasks.get? e.task = some s) (hsystem : e.type.isSystem = false) :
  ∃ s', Step s e s'
  := by
  have hrun := j.replayed
  rw [hsplit] at hrun
  obtain ⟨t, u, ht, hu, -⟩ := accepts_split.mp hrun
  cases Accepts.unique hfold ht
  obtain ⟨new, happly, -⟩ := (foldEvent_eq_ok hsystem).mp hu
  rw [hs] at happly
  generalize hold : some s = old at happly
  generalize hnew : some new = state at happly
  cases apply_iff.mp happly with
  | system type => simp [hsystem] at type
  | created => cases hold
  | step _ _ _ step =>
    cases hold
    exact ⟨_, step⟩

structure ExactlyOnce (j : Journal) : Prop where
  /-- A result is accepted at most once for each task. -/
  accepted_once : ∀ id, occurrences .resultAccepted (eventsOf id j.events) ≤ 1
  /-- Each task is completed at most once. -/
  complete_once : ∀ id, occurrences .taskComplete (eventsOf id j.events) ≤ 1
  /-- Verified completion is the chain of events of one dispatch. -/
  verified_iff : ∀ id, (∃ s, j.task id = some s ∧ s.status = .complete ∧
    s.resolution = some .verified) ↔ VerifiedChain id j.events
  /-- Confirmed completion is the word of a human. -/
  confirmed_iff : ∀ id, (∃ s, j.task id = some s ∧ s.status = .complete ∧
    s.resolution = some .effectConfirmed) ↔
      ∃ e ∈ j.events, e.taskId = some id ∧ e.type = .effectConfirmed
  /-- No result was accepted for a task whose effect was confirmed. -/
  confirmed_unaccepted : ∀ id s, j.task id = some s → s.status = .complete →
    s.resolution = some .effectConfirmed → s.acceptedResultId = none
  /-- What leads to a completion names the attempt and the dispatch of the task at that
  point. -/
  fenced : ∀ {before e after tasks s}, j.events = before ++ e :: after →
    fold before = .ok tasks → tasks.get? e.task = some s → e.type ∈ completionTypes.tail →
    e.attempt = some s.attempt ∧ e.dispatchId = s.dispatchId
  /-- The start and the result come from the worker that holds the lease. -/
  fenced_worker : ∀ {before e after tasks s}, j.events = before ++ e :: after →
    fold before = .ok tasks → tasks.get? e.task = some s →
    e.type ∈ [EventType.taskStarted, .resultReady] → e.workerId = s.workerId
  /-- A claim names the next attempt. -/
  fenced_claim : ∀ {before e after tasks s}, j.events = before ++ e :: after →
    fold before = .ok tasks → tasks.get? e.task = some s → e.type = .taskClaimed →
    e.attempt = some (s.attempt + 1)
  /-- A confirmation names the attempt that is blocked. -/
  fenced_confirmation : ∀ {before e after tasks s}, j.events = before ++ e :: after →
    fold before = .ok tasks → tasks.get? e.task = some s → e.type = .effectConfirmed →
    e.attempt = some s.attempt

/-- Completion is exactly once and fenced, whatever was submitted to the journal. -/
theorem exactlyOnce_run (calls : List Event) :
  ExactlyOnce (run calls)
  := by
  generalize run calls = j
  constructor
  · intro id
    apply occurrences_le_one
    intro s hs
    rw [(settled_of_task hs).accepted]
    split_ifs <;> simp
  · intro id
    apply occurrences_le_one
    intro s hs
    rw [(settled_of_task hs).complete]
    split_ifs <;> simp
  · intro id
    apply Journal.verified_iff
  · intro id
    apply Journal.confirmed_iff
  · intro id s hs hstatus hresolution
    apply (settled_of_task hs).result
    simp [TaskState.verified, hstatus, hresolution]
  · intro before e after tasks s hsplit hfold hs htype
    have hsystem : e.type.isSystem = false := by
      cases ht : e.type <;> simp [ht, completionTypes] at htype <;> rfl
    obtain ⟨s', step⟩ := step_of_split hsplit hfold hs hsystem
    cases step with
    | started _ _ fenced => exact ⟨fenced.attempt, fenced.dispatch⟩
    | resultReady _ _ fenced => exact ⟨fenced.attempt, fenced.dispatch⟩
    | resultAccepted _ _ fenced => exact ⟨fenced.attempt, fenced.dispatch⟩
    | complete _ _ fenced => exact ⟨fenced.attempt, fenced.dispatch⟩
    | _ => simp_all [completionTypes]
  · intro before e after tasks s hsplit hfold hs htype
    have hsystem : e.type.isSystem = false := by
      cases ht : e.type <;> simp [ht] at htype <;> rfl
    obtain ⟨s', step⟩ := step_of_split hsplit hfold hs hsystem
    cases step with
    | started type _ fenced => exact fenced.worker_eq (by simp [type, REQUIRED])
    | resultReady type _ fenced => exact fenced.worker_eq (by simp [type, REQUIRED])
    | _ => simp_all
  · intro before e after tasks s hsplit hfold hs htype
    obtain ⟨s', step⟩ := step_of_split hsplit hfold hs (by rw [htype]; rfl)
    cases step with
    | claimed _ _ _ attempt => exact attempt
    | _ => simp_all
  · intro before e after tasks s hsplit hfold hs htype
    obtain ⟨s', step⟩ := step_of_split hsplit hfold hs (by rw [htype]; rfl)
    cases step with
    | effectConfirmed _ _ attempt => exact attempt
    | _ => simp_all

/-- The state with results that came too late counted. -/
def countLate (s : TaskState) (late : List Event) : TaskState :=
  late.foldl (fun s e => { s with lateResults := s.lateResults + 1, updatedSeq := e.seq }) s

theorem run_of_ended {late : List Event} (hlate : ∀ e ∈ late, e.type.isSystem = false) {state : Option TaskState} :
  ∀ {s : TaskState}, s.status.isTerminal = true → Accepts apply (some s) late state →
    (∀ e ∈ late, e.type = .lateResultDiscarded) ∧ state = some (countLate s late)
  := by
  induction late with
  | nil =>
    intro s _ h
    obtain rfl := accepts_nil.mp h
    exact ⟨by simp, rfl⟩
  | cons e late ih =>
    intro s hended h
    obtain ⟨hsystem, hrest⟩ := List.forall_mem_cons.mp hlate
    obtain ⟨t, ht, hrun⟩ := accepts_cons.mp h
    cases apply_iff.mp ht with
    | system type => simp [hsystem] at type
    | @step _ s' _ _ _ step =>
      obtain ⟨-, htype⟩ := step.of_terminal hended
      obtain rfl : s' = { s with lateResults := s.lateResults + 1 } := by
        cases step <;> simp_all
      obtain ⟨htypes, rfl⟩ := ih hrest (by exact hended) hrun
      exact ⟨List.forall_mem_cons.mpr ⟨htype, htypes⟩, rfl⟩

/-- A task that ended takes nothing but results that came too late, and only counts them. -/
def EndedForGood (j : Journal) : Prop :=
  ∀ {first more tasks id s}, j.events = first ++ more → fold first = .ok tasks →
    tasks.get? id = some s → s.status.isTerminal = true →
    (∀ e ∈ eventsOf id more, e.type = .lateResultDiscarded) ∧
      j.task id = some (countLate s (eventsOf id more))

theorem endedForGood_run (calls : List Event) :
  EndedForGood (run calls)
  := by
  intro first more tasks id s h hfold hs hended
  have hrun := (run calls).run_of_task id
  rw [h, eventsOf, List.filter_append] at hrun
  obtain ⟨state, hfirst, hmore⟩ := accepts_append.mp hrun
  obtain rfl := hfirst.unique (run_of_fold_empty hfold id)
  rw [hs] at hmore
  exact run_of_ended (fun _ => not_system_of_eventsOf) hended hmore

def NothingSuperseded (j : Journal) : Prop :=
  ∀ {before e after tasks s}, j.events = before ++ e :: after → fold before = .ok tasks →
    tasks.get? e.task = some s → e.type ∈ EventType.effectConfirmed :: completionTypes.tail →
    e.attempt = some s.attempt ∧ (e.dispatchId = none ∨ e.dispatchId = s.dispatchId) ∧
      (e.workerId = none ∨ e.workerId = s.workerId)

end Journal

end Histories

section Example

local instance completionPlatform : Platform := Platform.plain

def dispatchEvent (type : EventType) (n : Int) (payload : Members) : EventFields where
  type := type
  taskId := some (text "t")
  attempt := some n
  dispatchId := some (text "d" ++ Text.decimal n)
  workerId := some (text "w" ++ Text.decimal n)
  payload := payload
  eventId := type.value ++ Text.decimal n
  tsUtc := text "Z"

/-- The verdict on a result of the second attempt names the worker of the first one. -/
def strayVerdict : EventFields :=
  { dispatchEvent .resultAccepted 2 [] with
    workerId := some (text "w1"), resultId := some (text "r") }

def secondAttemptCalls : List Event :=
  [{ type := .taskCreated, taskId := some (text "t"), eventId := text "e", tsUtc := text "Z"
     payload := [(text "adapter", .str (text "echo")), (text "effect_class", .str (text "idempotent")),
       (text "lease_ttl_s", .int 30), (text "max_attempts", .int 2), (text "params", .obj [])] },
   dispatchEvent .taskClaimed 1 [(text "ttl_s", .int 30)],
   dispatchEvent .taskStarted 1 [],
   dispatchEvent .leaseExpired 1 [(text "reason", .str (text "ttl"))],
   { type := .taskRetryScheduled, taskId := some (text "t"), attempt := some 1
     eventId := text "retry", tsUtc := text "Z"
     payload := [(text "reason", .str (text "lease lost"))] },
   dispatchEvent .taskClaimed 2 [(text "ttl_s", .int 30)],
   dispatchEvent .taskStarted 2 [],
   { dispatchEvent .resultReady 2
       [(text "artifacts", .arr []), (text "outcome", .str (text "success"))] with
     resultId := some (text "r") },
   strayVerdict,
   { dispatchEvent .taskComplete 2 [] with resultId := some (text "r") }].filterMap
    fun f => (Event.build f).toOption

def secondAttemptJournal : Journal :=
  Journal.run secondAttemptCalls

theorem secondAttempt_outcome :
  (secondAttemptJournal.task (text "t")).any (·.verified) = true ∧
  (secondAttemptJournal.events[8]?).any (fun e => decide (
    e.type = .resultAccepted ∧ e.task = text "t" ∧ e.workerId = some (text "w1"))) = true ∧
  ((fold (secondAttemptJournal.events.take 8)).toOption.bind fun tasks =>
    (tasks.get? (text "t")).map fun s => s.workerId) = some (some (text "w2"))
  := by
  decide +kernel

/-- The task is complete as verified, by a verdict that names the worker whose lease was
lost. -/
theorem not_nothingSuperseded :
  (∃ s, secondAttemptJournal.task (text "t") = some s ∧ s.verified = true) ∧
    ¬ secondAttemptJournal.NothingSuperseded
  := by
  obtain ⟨hverified, hverdict, hholder⟩ := secondAttempt_outcome
  constructor
  · exact (Option.any_eq_true _ _).mp hverified
  · intro h
    obtain ⟨e, he, hstray⟩ := (Option.any_eq_true _ _).mp hverdict
    obtain ⟨htype, htask, hnamed⟩ := of_decide_eq_true hstray
    obtain ⟨tasks, htasks, hs⟩ := Option.bind_eq_some_iff.mp hholder
    obtain ⟨s, hs, hworker⟩ := Option.map_eq_some_iff.mp hs
    have hfold : fold (secondAttemptJournal.events.take 8) = .ok tasks := by
      cases hf : fold (secondAttemptJournal.events.take 8) with
      | error why => simp [hf, Except.toOption] at htasks
      | ok t =>
        rw [hf] at htasks
        rw [Option.some.inj htasks]
    have hsplit : secondAttemptJournal.events
        = secondAttemptJournal.events.take 8 ++ e :: secondAttemptJournal.events.drop 9 := by
      obtain ⟨hlength, rfl⟩ := List.getElem?_eq_some_iff.mp he
      rw [← List.drop_eq_getElem_cons hlength, List.take_append_drop]
    obtain ⟨-, -, hnone | hsame⟩ := h hsplit hfold (by rw [htask]; exact hs)
      (by simp [htype, completionTypes])
    · simp [hnamed] at hnone
    · rw [hnamed, hworker] at hsame
      revert hsame
      decide

end Example

end Courier
