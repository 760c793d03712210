import Courier.StateMachine.Replay

/-!
# What the state of a task records

Bounds on the fields of a state, and what the state says of the history it was reached by:
attempts count the claims, a claimed attempt has not started, and an active one has not lost
its lease.
-/

namespace Courier

open Run

namespace Event

variable [Platform] {e : Event}

/-! ### The identifiers and the payload of a valid event -/

theorem isId_taskId {id : Str} (h : e.taskId = some id) :
  isId id
  := (valid_iff.mp e.valid).2.2.2.2.2.1 (text "task_id", id) (by simp [EventFields.ids, h])

theorem isId_dispatchId {id : Str} (h : e.dispatchId = some id) :
  isId id
  := (valid_iff.mp e.valid).2.2.2.2.2.1 (text "dispatch_id", id) (by simp [EventFields.ids, h])

theorem isId_workerId {id : Str} (h : e.workerId = some id) :
  isId id
  := (valid_iff.mp e.valid).2.2.2.2.2.1 (text "worker_id", id) (by simp [EventFields.ids, h])

theorem isId_resultId {id : Str} (h : e.resultId = some id) :
  isId id
  := (valid_iff.mp e.valid).2.2.2.2.2.1 (text "result_id", id) (by simp [EventFields.ids, h])

theorem created_bounds (h : e.type = .taskCreated) :
  1 ≤ (created e).maxAttempts ∧ (created e).maxAttempts ≤ MAX_ATTEMPTS_LIMIT ∧
    1 ≤ (created e).leaseTtlS ∧ ∀ d, (created e).dependsOn = some d → isId d
  := by
  have hv := validPayload (e := e)
  simp only [validatePayload, validateKind, h, Except.bind_unit_eq_ok, checkPositiveInt,
    Except.check_eq_ok, unlessNull, Except.checkWhen_eq_ok, checkId_eq_ok] at hv
  obtain ⟨⟨-, -, -, hmax, httl, -, hdepends, -⟩, -⟩ := hv
  have hint : ∀ {upper : Option Int} {v : Json}, isPositiveInt upper v = true →
      1 ≤ v.asInt ∧ ∀ u, upper = some u → v.asInt ≤ u := by
    intro upper v hv
    cases v with
    | int i => simpa [isPositiveInt, Json.asInt, Option.all_eq_true] using hv
    | _ => simp [isPositiveInt] at hv
  refine ⟨(hint hmax).1, (hint hmax).2 _ rfl, (hint httl).1, ?_⟩
  intro d hd
  have hget := Json.str?_eq_some.mp hd
  obtain ⟨s, hs, hid⟩ := hdepends (by simp [hget])
  rw [hget] at hs
  rwa [Json.str.inj hs]

end Event

/-! ### The fields of a state -/

/-- The statuses in which an attempt is under way or its outcome is being settled. -/
def TaskStatus.isHeld : TaskStatus → Bool
  | claimed => true
  | running => true
  | verifying => true
  | accepted => true
  | retryPending => true
  | _ => false

def Named (id : Option Str) : Prop :=
  ∃ s, id = some s ∧ isId s

def TaskState.verified (s : TaskState) : Bool :=
  s.status = .complete && s.resolution = some .verified

/-- The bounds on the fields of a state. -/
structure TaskState.Lawful (s : TaskState) : Prop where
  id : isId s.taskId
  attempts : 0 ≤ s.attempt ∧ s.attempt ≤ MAX_ATTEMPTS_LIMIT
  budget : s.maxAttempts ≤ MAX_ATTEMPTS_LIMIT
  ttl : 1 ≤ s.leaseTtlS
  depends : ∀ d, s.dependsOn = some d → isId d
  queued : s.status = .queued → s.attempt < s.maxAttempts
  held : s.status.isHeld = true → 1 ≤ s.attempt ∧ Named s.dispatchId ∧ Named s.workerId
  pending : s.status = .verifying → Named s.pendingResultId
  accepted : s.status = .accepted ∨ s.verified = true →
    Named s.dispatchId ∧ Named s.acceptedResultId

theorem TaskState.Lawful.updated {s : TaskState} (h : s.Lawful) (seq : Option Int) :
  TaskState.Lawful { s with updatedSeq := seq }
  := ⟨h.id, h.attempts, h.budget, h.ttl, h.depends, h.queued, h.held, h.pending, h.accepted⟩

section Histories

variable [Platform]

theorem Event.named_dispatchId {e : Event} (h : Field.dispatchId ∈ (REQUIRED e.type).1) :
  Named e.dispatchId
  := by
  obtain ⟨d, hd⟩ := dispatchId_of_required h
  exact ⟨d, hd, isId_dispatchId hd⟩

theorem Event.named_workerId {e : Event} (h : Field.workerId ∈ (REQUIRED e.type).1) :
  Named e.workerId
  := by
  obtain ⟨w, hw⟩ := workerId_of_required h
  exact ⟨w, hw, isId_workerId hw⟩

theorem Event.named_resultId {e : Event} (h : Field.resultId ∈ (REQUIRED e.type).1) :
  Named e.resultId
  := by
  obtain ⟨r, hr⟩ := resultId_of_required h
  exact ⟨r, hr, isId_resultId hr⟩

theorem lawful_created {e : Event} (h : e.type = .taskCreated) :
  (created e).Lawful
  := by
  obtain ⟨hmin, hmax, httl, hdepends⟩ := Event.created_bounds h
  obtain ⟨id, hid⟩ := Event.taskId_of_task (e := e) (by rw [h]; rfl)
  have hlimit : (0 : Int) ≤ MAX_ATTEMPTS_LIMIT := by decide
  constructor
  · simpa [created, hid] using Event.isId_taskId hid
  · exact ⟨le_refl _, hlimit⟩
  · exact hmax
  · exact httl
  · exact hdepends
  · intro _
    show (0 : Int) < (created e).maxAttempts
    omega
  · simp [created, TaskStatus.isHeld]
  · simp [created]
  · simp [created, TaskState.verified]

theorem TaskState.Lawful.step {s s' : TaskState} {e : Event} (h : s.Lawful)
    (step : Step s e s') :
  s'.Lawful
  := by
  obtain ⟨hid, ⟨hmin, hmax⟩, hbudget, httl, hdepends, hqueued, hheld, hpending, haccepted⟩ := h
  cases step with
  | lateResult =>
    exact ⟨hid, ⟨hmin, hmax⟩, hbudget, httl, hdepends, hqueued, hheld, hpending, haccepted⟩
  | progress =>
    exact ⟨hid, ⟨hmin, hmax⟩, hbudget, httl, hdepends, hqueued, hheld, hpending, haccepted⟩
  | cancelRequested =>
    exact ⟨hid, ⟨hmin, hmax⟩, hbudget, httl, hdepends, hqueued, hheld, hpending, haccepted⟩
  | claimed type status _ attempt budget =>
    refine ⟨hid, ⟨?_, ?_⟩, hbudget, httl, hdepends, ?_, ?_, ?_, ?_⟩
    · simp only
      omega
    · simp only
      omega
    · simp
    · intro _
      refine ⟨?_, ?_, ?_⟩
      · simp only
        omega
      · apply Event.named_dispatchId
        simp [type, REQUIRED]
      · apply Event.named_workerId
        simp [type, REQUIRED]
    · simp
    · simp [TaskState.verified]
  | started type status =>
    refine ⟨hid, ⟨hmin, hmax⟩, hbudget, httl, hdepends, by simp, ?_, by simp,
      by simp [TaskState.verified]⟩
    · intro _
      apply hheld
      rw [status]
      rfl
  | resultReady type status =>
    refine ⟨hid, ⟨hmin, hmax⟩, hbudget, httl, hdepends, by simp, ?_, ?_,
      by simp [TaskState.verified]⟩
    · intro _
      apply hheld
      rw [status]
      rfl
    · intro _
      apply Event.named_resultId
      simp [type, REQUIRED]
  | resultAccepted type status _ result =>
    have hh := hheld (by rw [status]; rfl)
    refine ⟨hid, ⟨hmin, hmax⟩, hbudget, httl, hdepends, by simp, ?_, by simp, ?_⟩
    · intro _
      exact hh
    · intro _
      refine ⟨hh.2.1, ?_⟩
      simp only [result]
      exact hpending status
  | resultRejected type status =>
    refine ⟨hid, ⟨hmin, hmax⟩, hbudget, httl, hdepends, by simp, ?_, by simp,
      by simp [TaskState.verified]⟩
    · intro _
      apply hheld
      rw [status]
      rfl
  | complete type status =>
    refine ⟨hid, ⟨hmin, hmax⟩, hbudget, httl, hdepends, by simp, by simp [TaskStatus.isHeld],
      by simp, ?_⟩
    intro _
    apply haccepted
    left
    exact status
  | leaseExpired type status =>
    refine ⟨hid, ⟨hmin, hmax⟩, hbudget, httl, hdepends, by simp, ?_, by simp,
      by simp [TaskState.verified]⟩
    · intro _
      apply hheld
      cases hs : s.status <;> simp_all [TaskStatus.isActiveLease, TaskStatus.isHeld]
  | retryScheduled type status _ decision =>
    refine ⟨hid, ⟨hmin, hmax⟩, hbudget, httl, hdepends, ?_, by simp [TaskStatus.isHeld],
      by simp, by simp [TaskState.verified]⟩
    · intro _
      by_contra hattempt
      simp only [not_lt] at hattempt
      unfold decideAfterFailure at decision
      split_ifs at decision
  | retryAuthorized type status _ _ limit =>
    refine ⟨hid, ⟨hmin, hmax⟩, ?_, httl, hdepends, ?_, by simp [TaskStatus.isHeld],
      by simp, by simp [TaskState.verified]⟩
    · simp only [MAX_ATTEMPTS_LIMIT] at limit hbudget ⊢
      omega
    · simp only
      omega
  | _ =>
    exact ⟨hid, ⟨hmin, hmax⟩, hbudget, httl, hdepends, by simp, by simp [TaskStatus.isHeld],
      by simp, by simp [TaskState.verified]⟩

/-! ### What a step does to the attempt -/

variable {s s' : TaskState} {e : Event}

theorem Step.attempt_le (step : Step s e s') :
  s.attempt ≤ s'.attempt
  := by
  cases step with
  | claimed => simp only; omega
  | _ => exact le_refl _

def Claims (e : EventFields) (s : TaskState) : Prop :=
  e.type = .taskClaimed ∧ e.attempt = some s.attempt ∧ e.dispatchId = s.dispatchId ∧
    e.workerId = s.workerId

theorem Step.held_of (step : Step s e s') (h : s'.status.isHeld = true) :
  (Claims e.toEventFields s' ∧ s.attempt < s'.attempt) ∨
    (s.status.isHeld = true ∧ s'.attempt = s.attempt ∧ s'.dispatchId = s.dispatchId ∧
      s'.workerId = s.workerId)
  := by
  cases step with
  | claimed type _ _ attempt =>
    left
    refine ⟨⟨type, attempt, rfl, rfl⟩, ?_⟩
    simp only
    omega
  | leaseExpired _ status =>
    right
    refine ⟨?_, rfl, rfl, rfl⟩
    cases hs : s.status <;> simp_all [TaskStatus.isActiveLease, TaskStatus.isHeld]
  | lateResult => exact .inr ⟨h, rfl, rfl, rfl⟩
  | progress => exact .inr ⟨h, rfl, rfl, rfl⟩
  | cancelRequested => exact .inr ⟨h, rfl, rfl, rfl⟩
  | started _ status => exact .inr ⟨by rw [status]; rfl, rfl, rfl, rfl⟩
  | resultReady _ status => exact .inr ⟨by rw [status]; rfl, rfl, rfl, rfl⟩
  | resultAccepted _ status => exact .inr ⟨by rw [status]; rfl, rfl, rfl, rfl⟩
  | resultRejected _ status => exact .inr ⟨by rw [status]; rfl, rfl, rfl, rfl⟩
  | _ => simp [TaskStatus.isHeld] at h

theorem Step.active_of (step : Step s e s') (h : s'.status.isActiveLease = true) :
  s.attempt < s'.attempt ∨
    (s.status.isActiveLease = true ∧ s'.attempt = s.attempt ∧ e.type ≠ .leaseExpired ∧
      (s'.status = .claimed → s.status = .claimed ∧ e.type ≠ .taskStarted))
  := by
  cases step with
  | claimed =>
    left
    simp only
    omega
  | lateResult type => exact .inr ⟨h, rfl, by simp [type], fun hs => ⟨hs, by simp [type]⟩⟩
  | progress type => exact .inr ⟨h, rfl, by simp [type], fun hs => ⟨hs, by simp [type]⟩⟩
  | cancelRequested type =>
    exact .inr ⟨h, rfl, by simp [type], fun hs => ⟨hs, by simp [type]⟩⟩
  | started type status => exact .inr ⟨by rw [status]; rfl, rfl, by simp [type], by simp⟩
  | _ => simp [TaskStatus.isActiveLease] at h

theorem Step.verifying_of (step : Step s e s') (h : s'.status = .verifying) :
  (e.type = .resultReady ∧ e.dispatchId = s'.dispatchId ∧ e.resultId = s'.pendingResultId) ∨
    (s.status = .verifying ∧ s'.dispatchId = s.dispatchId ∧
      s'.pendingResultId = s.pendingResultId)
  := by
  cases step with
  | resultReady type _ fenced => exact .inl ⟨type, fenced.dispatch, rfl⟩
  | lateResult => exact .inr ⟨h, rfl, rfl⟩
  | progress => exact .inr ⟨h, rfl, rfl⟩
  | cancelRequested => exact .inr ⟨h, rfl, rfl⟩
  | _ => simp at h

theorem Step.fenced_of (step : Step s e s')
    (h : e.type = .taskStarted ∨ e.type = .leaseExpired) :
  s.status.isHeld = true ∧ e.attempt = some s.attempt ∧ e.dispatchId = s.dispatchId ∧
    s'.attempt = s.attempt ∧ s'.status ≠ .claimed ∧
      (e.type = .leaseExpired → s'.status.isActiveLease = false)
  := by
  cases step with
  | started type status fenced =>
    exact ⟨by rw [status]; rfl, fenced.attempt, fenced.dispatch, rfl, by simp, by simp [type]⟩
  | leaseExpired type status fenced =>
    refine ⟨?_, fenced.attempt, fenced.dispatch, rfl, by simp, fun _ => rfl⟩
    cases hs : s.status <;> simp_all [TaskStatus.isActiveLease, TaskStatus.isHeld]
  | _ => simp_all

/-! ### What the state says of the history -/

structure Recorded (events : List Event) (s : TaskState) : Prop where
  created : ∃ e ∈ events, e.type = .taskCreated
  claims : ∀ e ∈ events, e.type = .taskClaimed → ∃ n, e.attempt = some n ∧ n ≤ s.attempt
  starts : ∀ e ∈ events, e.type = .taskStarted →
    ∃ n, e.attempt = some n ∧ n ≤ s.attempt ∧ (n = s.attempt → s.status ≠ .claimed)
  expiries : ∀ e ∈ events, e.type = .leaseExpired →
    ∃ n, e.attempt = some n ∧ n ≤ s.attempt ∧ (n = s.attempt → s.status.isActiveLease = false)
  issued : ∀ e ∈ events, e.type = .taskStarted ∨ e.type = .leaseExpired →
    ∃ c ∈ events, c.type = .taskClaimed ∧ c.attempt = e.attempt ∧ c.dispatchId = e.dispatchId
  current : s.status.isHeld = true → ∃ c ∈ events, Claims c.toEventFields s
  reported : s.status = .verifying → ∃ e ∈ events, e.type = .resultReady ∧
    e.dispatchId = s.dispatchId ∧ e.resultId = s.pendingResultId

variable {events : List Event}

theorem Recorded.step (h : Recorded events s) (step : Step s e s') :
  Recorded (events ++ [e]) s'
  := by
  obtain ⟨⟨c, hc, htype⟩, hclaims, hstarts, hexpiries, hissued, hcurrent, hreported⟩ := h
  have hle := step.attempt_le
  constructor
  · exact ⟨c, List.mem_append_left _ hc, htype⟩
  · intro f hf hclaimed
    rcases List.mem_append.mp hf with hf | hf
    · obtain ⟨n, hn, hns⟩ := hclaims f hf hclaimed
      exact ⟨n, hn, le_trans hns hle⟩
    · obtain rfl := List.mem_singleton.mp hf
      cases step with
      | claimed _ _ _ attempt => exact ⟨_, attempt, le_refl _⟩
      | _ => simp_all
  · intro f hf hstarted
    rcases List.mem_append.mp hf with hf | hf
    · obtain ⟨n, hn, hns, hclaimed⟩ := hstarts f hf hstarted
      refine ⟨n, hn, le_trans hns hle, ?_⟩
      rintro rfl hs'
      obtain hlt | ⟨-, heq, -, hsame⟩ := step.active_of (by rw [hs']; rfl)
      · omega
      · exact hclaimed heq (hsame hs').1
    · obtain rfl := List.mem_singleton.mp hf
      obtain ⟨-, hattempt, -, heq, hne, -⟩ := step.fenced_of (.inl hstarted)
      exact ⟨_, hattempt, hle, fun _ => hne⟩
  · intro f hf hexpired
    rcases List.mem_append.mp hf with hf | hf
    · obtain ⟨n, hn, hns, hinactive⟩ := hexpiries f hf hexpired
      refine ⟨n, hn, le_trans hns hle, ?_⟩
      rintro rfl
      by_contra hactive
      obtain hlt | ⟨hs, heq, -⟩ := step.active_of (by simpa using hactive)
      · omega
      · simp [hinactive heq] at hs
    · obtain rfl := List.mem_singleton.mp hf
      obtain ⟨-, hattempt, -, heq, -, hinactive⟩ := step.fenced_of (.inr hexpired)
      exact ⟨_, hattempt, hle, fun _ => hinactive hexpired⟩
  · intro f hf htype'
    rcases List.mem_append.mp hf with hf | hf
    · obtain ⟨d, hd, hclaim⟩ := hissued f hf htype'
      exact ⟨d, List.mem_append_left _ hd, hclaim⟩
    · obtain rfl := List.mem_singleton.mp hf
      obtain ⟨hheld, hattempt, hdispatch, -⟩ := step.fenced_of htype'
      obtain ⟨d, hd, hdtype, hdattempt, hddispatch, -⟩ := hcurrent hheld
      exact ⟨d, List.mem_append_left _ hd, hdtype, hdattempt.trans hattempt.symm,
        hddispatch.trans hdispatch.symm⟩
  · intro hheld
    obtain ⟨hclaims, -⟩ | ⟨hs, hattempt, hdispatch, hworker⟩ := step.held_of hheld
    · exact ⟨e, by simp, hclaims⟩
    · obtain ⟨d, hd, hclaims⟩ := hcurrent hs
      refine ⟨d, List.mem_append_left _ hd, ?_⟩
      unfold Claims
      rwa [hattempt, hdispatch, hworker]
  · intro hverifying
    obtain ⟨htype', hdispatch, hresult⟩ | ⟨hs, hdispatch, hresult⟩ := step.verifying_of hverifying
    · exact ⟨e, by simp, htype', hdispatch, hresult⟩
    · obtain ⟨d, hd, hready⟩ := hreported hs
      refine ⟨d, List.mem_append_left _ hd, ?_⟩
      rwa [hdispatch, hresult]

theorem Recorded.updated (h : Recorded events s) (seq : Option Int) :
  Recorded events { s with updatedSeq := seq }
  := ⟨h.created, h.claims, h.starts, h.expiries, h.issued, h.current, h.reported⟩

theorem recorded_created {e : Event} (h : e.type = .taskCreated) :
  Recorded [e] (created e)
  := by
  have hother : ∀ {t : EventType}, t ≠ .taskCreated → ∀ f ∈ [e], f.type ≠ t := by
    intro t ht f hf
    obtain rfl := List.mem_singleton.mp hf
    rw [h]
    exact ht.symm
  constructor
  · exact ⟨e, by simp, h⟩
  · intro f hf hclaimed
    exact absurd hclaimed (hother (by simp) f hf)
  · intro f hf hstarted
    exact absurd hstarted (hother (by simp) f hf)
  · intro f hf hexpired
    exact absurd hexpired (hother (by simp) f hf)
  · rintro f hf (hstarted | hexpired)
    · exact absurd hstarted (hother (by simp) f hf)
    · exact absurd hexpired (hother (by simp) f hf)
  · simp [Courier.created, TaskStatus.isHeld]
  · simp [Courier.created]

theorem history_of_run {I : List Event → TaskState → Prop}
    (hcreated : ∀ e : Event, e.type = .taskCreated → I [e] (Courier.created e))
    (hstep : ∀ before s e s', I before s → e.taskId = some s.taskId → Step s e s' →
      I (before ++ [e]) { s' with updatedSeq := e.seq })
    {state : Option TaskState} (hsystem : ∀ e ∈ events, e.type.isSystem = false)
    (hrun : Accepts apply none events state) :
  ∀ s, state = some s → I events s
  := by
  have h : (∀ e ∈ events, e.type.isSystem = false) →
      (state = none → events = []) ∧ ∀ s, state = some s → I events s := by
    refine Accepts.history (I := fun events state => (∀ e ∈ events, e.type.isSystem = false) →
      (state = none → events = []) ∧ ∀ s, state = some s → I events s) ?_ ?_ hrun
    · intro before t e t' ih ht hbefore
      obtain ⟨hnone, hsome⟩ := ih fun f hf => hbefore f (List.mem_append_left _ hf)
      have hs := hbefore e (by simp)
      cases apply_iff.mp ht with
      | system type => simp [hs] at type
      | created type =>
        refine ⟨by simp, ?_⟩
        rintro s ⟨⟩
        obtain rfl := hnone rfl
        exact hcreated e type
      | step _ _ task step =>
        refine ⟨by simp, ?_⟩
        rintro s ⟨⟩
        exact hstep _ _ _ _ (hsome _ rfl) task step
    · simp
  exact (h hsystem).2

theorem recorded_of_run {state : Option TaskState}
    (hsystem : ∀ e ∈ events, e.type.isSystem = false) (hrun : Accepts apply none events state) :
  ∀ s, state = some s → s.Lawful ∧ Recorded events s
  := by
  refine history_of_run (I := fun events s => s.Lawful ∧ Recorded events s) ?_ ?_ hsystem hrun
  · intro e type
    exact ⟨lawful_created type, recorded_created type⟩
  · rintro before s e s' ⟨hlawful, hrecorded⟩ - step
    exact ⟨(hlawful.step step).updated _, (hrecorded.step step).updated _⟩

end Histories

end Courier
