import Courier.Controller.Inputs

/-!
# Failures that leave the effect open

A task that must not be repeated blindly is blocked when a started attempt failed for a reason that leaves the effect
open.  The verifier keeps the first 500 characters of the reason, and what it cut off is not seen.
-/

namespace Courier

open Except Program Run Text Controller
open Json (truthy)

def uncertainReason (reason : Str) : Bool :=
  occurs (text "timeout") (lower reason) || occurs (text "lease-lost") (lower reason)
    || occurs (text "lease_lost") (lower reason)

theorem uncertainReason_ne_nil {reason : Str} (h : uncertainReason reason = true) :
  reason ≠ []
  := by
  rintro rfl
  revert h
  decide

section Runs

variable [Platform]

theorem started_of_run {events : List Event} {state : Option TaskState}
    (hsystem : ∀ e ∈ events, e.type.isSystem = false) (hrun : Accepts apply none events state) :
  ∀ s, state = some s → s.status = .running ∨ s.status = .verifying → s.started = true
  := by
  refine history_of_run (I := fun _ s => s.status = .running ∨ s.status = .verifying →
    s.started = true) ?_ ?_ hsystem hrun
  · intro e _ hstatus
    simp [created] at hstatus
  · intro before s e s' ih _ step hstatus
    cases step with
    | started => rfl
    | lateResult | progress | cancelRequested => exact ih hstatus
    | resultReady _ status => exact ih (.inl status)
    | _ => simp at hstatus

/-! ### The verdict on a failure -/

theorem verdict_of_failure {finding : Finding} {s : TaskState} {result : EventFields} {reason : Str}
    (houtcome : result.get (text "outcome") = .str (text "failure"))
    (hreason : result.get (text "reason") = .str reason) (hne : reason ≠ []) :
  (runVerifier finding s result).accepted = false ∧
    (runVerifier finding s result).reason = reason.take MAX_VERDICT_REASON
  := by
  have htruthy : truthy (Json.str reason) = true := by simpa [truthy] using hne
  have hfailed : ¬ Json.str (text "failure") = .str (text "success") := by decide
  simp [runVerifier, houtcome, hfailed, reportedReason, hreason, htruthy]

omit [Platform] in
theorem outcome_of_rejected {s : TaskState} {verdict : Verdict}
    (hstarted : s.started = true) (heffect : mayAutoRetry s.effectClass = false)
    (hne : verdict.reason ≠ []) :
  (decideAfterFailure (rejected s verdict)).outcome = .blocked ↔
    uncertainReason verdict.reason = true
  := by
  have huncertain : uncertainRejection (rejected s verdict) = uncertainReason verdict.reason := by
    simp [uncertainRejection, rejected, hne, uncertainReason, Bool.or_assoc]
  have hkind : (rejected s verdict).failureKind = some .rejected := rfl
  unfold decideAfterFailure
  rw [huncertain, hkind]
  cases hreason : uncertainReason verdict.reason with
  | true =>
    rw [if_pos ⟨.inr rfl, hstarted, heffect⟩]
    simp [Decision.outcome]
  | false =>
    rw [if_neg (by simp)]
    split_ifs <;> simp [Decision.outcome]

/-! ### The verification of a failure -/

theorem wp_verifyDecide_settles {c : Controller} {index : Nat} (finding : Finding)
    {v : Verification} {s : TaskState}
    (h : Consistent (fun _ => False) (fun _ => False) False (fun _ => False) c)
    (hstopping : c.stopping = false) (hv : c.verifying[index]? = some v)
    (hs : c.journal.task v.task.taskId = some s) (hstatus : s.status = .verifying)
    (hpending : s.pendingResultId = v.task.pendingResultId)
    (hdispatch : s.dispatchId = v.task.dispatchId) :
  wp (Controller.verifyDecide index finding false)
    (fun _ c' => ∃ s', c'.journal.task v.task.taskId = some s' ∧
      s'.status = verdictOutcome s (runVerifier finding v.task v.result.toEventFields))
    (fun _ _ => True) c
  := by
  have hid : s.taskId = v.task.taskId := Journal.taskId_of_task hs
  have h₁ := Controller.consistent_unverify h hv
  rw [← hid] at hs h₁
  have hknown : ({ c with verifying := c.verifying.eraseIdx index } : Controller).journal.task
      s.taskId = some s := hs
  simp only [Controller.verifyDecide, wp_bind, wp_get, hv, wp_set, Controller.wp_locked]
  refine ⟨by simp, fun _ => ?_⟩
  rw [if_neg (by simp [hstopping]), ← hid, wp_bind, Controller.wp_readTask_known hknown, wp_bind,
    Controller.wp_require, if_neg (by simp [hstatus, hpending, hdispatch])]
  apply wp_mono (Controller.wp_settle h₁ hs hstatus (wf_verifier _ _ _))
  · rintro _ c' ⟨-, hsettles⟩
    exact hsettles.task
  · simp

structure Wanted (c : Controller) (index : Nat) (s : TaskState) (ready : Event) : Prop where
  stopping : c.stopping = false
  begun : ∃ v, c.verifying[index]? = some v ∧ v.task.taskId = s.taskId ∧
    s.pendingResultId = v.task.pendingResultId ∧ s.dispatchId = v.task.dispatchId
  task : c.journal.task s.taskId = some s
  status : s.status = .verifying
  accepted : ready ∈ c.journal.events ∧ ready.type = .resultReady ∧
    ready.dispatchId = s.dispatchId ∧ ready.resultId = s.pendingResultId

theorem result_of_wanted {c : Controller} {index : Nat} {s : TaskState} {ready : Event}
    {v : Verification} {P : Bool → Prop} {Q : Prop} {L : EventType → Prop} {X : Str → Prop}
    (h : Consistent L P Q X { c with raised := [] }) (hwanted : Wanted c index s ready)
    (hv : c.verifying[index]? = some v) :
  v.result = ready ∧ s.pendingResultId = v.task.pendingResultId ∧ s.dispatchId = v.task.dispatchId ∧
    v.task.taskId = s.taskId
  := by
  obtain ⟨w, hw, hid, hpending, hdispatch⟩ := hwanted.begun
  obtain rfl := Option.some.inj (hv.symm.trans hw)
  obtain ⟨hready, htype, hrdispatch, hrid⟩ := hwanted.accepted
  obtain ⟨hmem, hvtype, hvdispatch, hvid, -⟩ := h.reports v (List.mem_of_getElem? hv)
  refine ⟨?_, hpending, hdispatch, hid⟩
  apply h.written.unique_of_default hmem hready (by rw [hvtype, htype]) (by simp [htype])
  · rw [hvtype, hvdispatch, hvid, ← hpending, ← hdispatch]
    rfl
  · rw [htype, hrdispatch, hrid]
    rfl

/-- A failure of a started attempt for an uncertain reason blocks its task exactly if the part of the reason that is
kept is uncertain. -/
theorem blocked_iff_uncertain {c : Controller} {index : Nat} {finding : Finding} {s : TaskState}
    {ready : Event} {reason : Str} (hreached : Controller.Reached (fun _ _ _ => True) c)
    (hwanted : Wanted c index s ready) (heffect : s.effectClass ≠ RETRY_SAFE_EFFECT_CLASS)
    (houtcome : ready.get (text "outcome") = .str (text "failure"))
    (hreason : ready.get (text "reason") = .str reason) (huncertain : uncertainReason reason = true)
    (hdone : (c.step (.verifyDecide index finding false)).1 = .ok .done) :
  (((c.step (.verifyDecide index finding false)).2.journal.task s.taskId).map TaskState.status =
      some .blocked ↔
    uncertainReason (reason.take MAX_VERDICT_REASON) = true)
  := by
  have hmode : c.mode = .normal := by
    cases hmode : c.mode with
    | normal => rfl
    | booting => simp [Controller.step, hmode] at hdone
  have hconsistent := (sound_of_reached hreached).consistent hmode
  obtain ⟨v, hv, -⟩ := hwanted.begun
  obtain ⟨hresult, hpending, hdispatch, hid⟩ := result_of_wanted hconsistent hwanted hv
  have hs : c.journal.task v.task.taskId = some s := by rw [hid, hwanted.task]
  obtain ⟨hfailed, hkept⟩ := @verdict_of_failure _ finding v.task v.result.toEventFields reason
    (by rw [hresult, houtcome]) (by rw [hresult, hreason]) (uncertainReason_ne_nil huncertain)
  have hstarted : s.started = true :=
    started_of_run (fun _ => Journal.not_system_of_eventsOf) (c.journal.run_of_task s.taskId) s
      hwanted.task (.inr hwanted.status)
  have hmain := wp_verifyDecide_settles finding hconsistent hwanted.stopping hv hs
    hwanted.status hpending hdispatch
  have hperform : wp (Controller.perform (.verifyDecide index finding false))
      (fun _ c' => ∃ s', c'.journal.task v.task.taskId = some s' ∧
        s'.status = verdictOutcome s (runVerifier finding v.task v.result.toEventFields))
      (fun _ _ => True) { c with raised := [] } := by
    rw [Controller.perform, wp_map]
    exact hmain
  obtain ⟨s', hs', hstatus⟩ := (Controller.step_of_wp hmode (by simp) (by simp) hperform).1 _ hdone
  have hne : (runVerifier finding v.task v.result.toEventFields).reason ≠ [] := by
    simpa [hkept, MAX_VERDICT_REASON] using uncertainReason_ne_nil huncertain
  rw [verdictOutcome, if_neg (by simp [hfailed])] at hstatus
  rw [← hid, hs', Option.map_some, Option.some.injEq, hstatus,
    outcome_of_rejected hstarted (by simp [mayAutoRetry, heffect]) hne, hkept]

end Runs

section Example

local instance uncertainPlatform : Platform := Platform.plain

def startedRequests : List Request :=
  [.boot 1 plainBuild 0,
    .createTask (.obj [(text "adapter", .str (text "echo")),
      (text "effect_class", .str (text "non_idempotent")), (text "lease_ttl_s", .int 30),
      (text "max_attempts", .int 2), (text "params", .obj [])]) (numberedUuid 0) false,
    .claim (.obj [(text "worker_id", .str (text "w"))]) (numberedUuid 1) 0 false,
    .start (.obj [(text "dispatch_id", .str (Controller.newDispatchId (numberedUuid 1)))]) false]

theorem not_retry_safe :
  text "non_idempotent" ≠ RETRY_SAFE_EFFECT_CLASS
  := by
  decide +kernel

/-- The worker reports that the attempt failed. -/
def failedRequest (reason : Str) : Request :=
  .result (.obj [(text "artifacts", .arr []),
    (text "dispatch_id", .str (Controller.newDispatchId (numberedUuid 1))),
    (text "outcome", .str (text "failure")), (text "reason", .str reason),
    (text "result_id", .str (text "r")), (text "retryable", .bool false)]) false

def failed (reason : Str) : Controller :=
  (freshFailing fun _ => false).run (startedRequests ++ [failedRequest reason, .verifyTake false])

theorem blocked_iff_uncertain_timeout :
  (((failed (text "Timeout")).step (.verifyDecide 0 .missing false)).2.journal.task
      (numberedTask 0)).map TaskState.status = some .blocked ↔
    uncertainReason ((text "Timeout").take MAX_VERDICT_REASON) = true
  := by
  have hrun : (freshFailing fun _ => false).Admits (fun _ _ _ => True)
        (startedRequests ++ [failedRequest (text "Timeout"), .verifyTake false]) ∧
      (failed (text "Timeout")).stopping = false ∧
      ((failed (text "Timeout")).verifying[0]?.any fun v => v.task.taskId = numberedTask 0 &&
        v.task.pendingResultId = some (text "r") &&
        v.task.dispatchId = some (Controller.newDispatchId (numberedUuid 1))) = true ∧
      (((failed (text "Timeout")).journal.task (numberedTask 0)).any fun s =>
        s.status = .verifying && s.pendingResultId = some (text "r") &&
        s.dispatchId = some (Controller.newDispatchId (numberedUuid 1)) &&
        s.effectClass = text "non_idempotent") = true ∧
      ((failed (text "Timeout")).journal.events.any fun e => e.type = .resultReady &&
        e.resultId = some (text "r") &&
        e.dispatchId = some (Controller.newDispatchId (numberedUuid 1)) &&
        e.get (text "outcome") = .str (text "failure") &&
        e.get (text "reason") = .str (text "Timeout")) = true ∧
      uncertainReason (text "Timeout") = true ∧
      ((failed (text "Timeout")).step (.verifyDecide 0 .missing false)).1 = .ok .done := by
    decide +kernel
  obtain ⟨hadmits, hstopping, hverifying, htask, hready, huncertain, hdone⟩ := hrun
  obtain ⟨v, hv, hvwanted⟩ := (Option.any_eq_true _ _).mp hverifying
  obtain ⟨s, hs, hwanted⟩ := (Option.any_eq_true _ _).mp htask
  obtain ⟨e, he, haccepted⟩ := List.any_eq_true.mp hready
  simp only [Bool.and_eq_true, decide_eq_true_eq] at hvwanted hwanted haccepted
  obtain ⟨⟨hvid, hvpending⟩, hvdispatch⟩ := hvwanted
  obtain ⟨⟨⟨hstatus, hpending⟩, hdispatch⟩, heffect⟩ := hwanted
  obtain ⟨⟨⟨⟨htype, hrid⟩, hrdispatch⟩, houtcome⟩, hreason⟩ := haccepted
  have hid : s.taskId = numberedTask 0 := Journal.taskId_of_task hs
  have hreached : Controller.Reached (fun _ _ _ => True) (failed (text "Timeout")) :=
    reached_of_admits hadmits
  have hblocked := blocked_iff_uncertain hreached (s := s)
    ⟨hstopping, ⟨v, hv, hvid.trans hid.symm, hpending.trans hvpending.symm,
      hdispatch.trans hvdispatch.symm⟩, by rw [hid, hs], hstatus,
      ⟨he, htype, hrdispatch.trans hdispatch.symm, hrid.trans hpending.symm⟩⟩
    (fun h => not_retry_safe (heffect.symm.trans h)) houtcome hreason huncertain hdone
  rwa [hid] at hblocked

def overlongReason : Str :=
  List.replicate 500 97 ++ text "timeout"

/-- A started task that must not be repeated blindly fails, although its worker reported a
timeout: the verifier has cut it off. -/
theorem not_blocked :
  ∃ c : Controller, Controller.Reached (fun _ _ _ => True) c ∧
    ((c.journal.task (numberedTask 0)).any fun s =>
      s.status = .running && s.effectClass ≠ RETRY_SAFE_EFFECT_CLASS) = true ∧
    overlongReason.length ≤ 2000 ∧ uncertainReason overlongReason = true ∧
    (∃ reply, (c.step (failedRequest overlongReason)).1 = .ok (.reported reply)) ∧
    ((c.run [failedRequest overlongReason, .verifyTake false]).step
      (.verifyDecide 0 .missing false)).1 = .ok .done ∧
    (((c.run [failedRequest overlongReason, .verifyTake false]).step
      (.verifyDecide 0 .missing false)).2.journal.task (numberedTask 0)).map TaskState.status =
        some .failed
  := by
  have hrun : (freshFailing fun _ => false).Admits (fun _ _ _ => True) startedRequests ∧
      ((((freshFailing fun _ => false).run startedRequests).journal.task (numberedTask 0)).any
        fun s => s.status = .running && s.effectClass ≠ RETRY_SAFE_EFFECT_CLASS) = true ∧
      overlongReason.length ≤ 2000 ∧ uncertainReason overlongReason = true ∧
      (((freshFailing fun _ => false).run startedRequests).step (failedRequest overlongReason)).1 =
        .ok (.reported ⟨.acceptedForVerify, numberedTask 0, some 5⟩) ∧
      ((((freshFailing fun _ => false).run startedRequests).run [failedRequest overlongReason,
        .verifyTake false]).step (.verifyDecide 0 .missing false)).1 = .ok .done ∧
      (((((freshFailing fun _ => false).run startedRequests).run [failedRequest overlongReason,
        .verifyTake false]).step (.verifyDecide 0 .missing false)).2.journal.task
          (numberedTask 0)).map TaskState.status = some .failed := by
    decide +kernel
  obtain ⟨hadmits, htask, hlength, huncertain, hreported, hdone, hfailed⟩ := hrun
  exact ⟨_, reached_of_admits hadmits, htask, hlength, huncertain, ⟨_, hreported⟩, hdone, hfailed⟩

end Example

end Courier
