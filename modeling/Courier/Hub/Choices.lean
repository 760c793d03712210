import Courier.Controller.Acceptance
import Courier.Hub

/-!
# The choices of a blocked task

The card of a blocked task offers a decision when the controller takes it.  The card judges by the state of the
task alone, and so does the controller: what the journal knows beside the state is never in the way.
-/

namespace Courier.Hub

open Except Program Text Controller

section Runs

variable [Platform]

/-- The controller does not answer the decision as a repetition, and the task is no longer blocked. -/
def Takes (c : Controller) (id : Str) (card : NeedsYou) (decision actor reason : Str) : Prop :=
  ∃ reply, (c.step (.resolve id (.obj (decisionFields decision card.blockedAttempt actor reason)) false)).1 =
    .ok (.resolved reply) ∧ reply.duplicate = false ∧ reply.status ≠ .blocked

/-- The controller runs, and the surroundings do not fail it. -/
structure Running (c : Controller) : Prop where
  normal : c.mode = .normal
  going : c.stopping = false
  works : c.Works 4

structure Honoured (c : Controller) (s : TaskState) (card : NeedsYou) (actor reason : Str) : Prop where
  taken : ∀ choice ∈ card.choices, Takes c s.taskId card choice.decision actor reason
  retried : (copyFor s).retryOffered = true →
    ((∃ choice ∈ card.choices, choice.label = text "Try once more") ↔
      Takes c s.taskId card (text "retry_authorized") actor reason)

variable {c : Controller} {s : TaskState} {actor reason : Str} {events : List Event}

omit [Platform] in
theorem retryBlocked_eq_none (hcopy : (copyFor s).retryOffered = true) :
  retryBlocked s = none ↔ HumanDecision.retryAuthorized.Admitted s
  := by
  unfold retryBlocked HumanDecision.Admitted MAX_ATTEMPTS_LIMIT
  rw [if_neg (by simp [hcopy])]
  split_ifs with hrequested hlimit
  · simp [hrequested]
  · simp only [false_iff, forall_const, not_and, not_lt]
    exact fun _ => hlimit
  · simp only [true_iff, forall_const]
    exact ⟨by simpa using hrequested, by omega⟩

theorem admitted_of_choice {choice : Choice} (hchoice : choice ∈ (needsYouCard s events).choices) :
  ∃ decision : HumanDecision, choice.decision = decision.value ∧ decision.Admitted s
  := by
  have hcopy : (copyFor s).retryOffered = true := by
    unfold copyFor
    split <;> rfl
  simp only [needsYouCard, List.mem_append, List.mem_singleton] at hchoice
  rcases hchoice with (rfl | hchoice) | rfl
  · exact ⟨.effectConfirmed, rfl, by rintro ⟨⟩⟩
  · split at hchoice
    · simp at hchoice
    · next hnone =>
      obtain rfl := List.mem_singleton.mp hchoice
      exact ⟨.retryAuthorized, rfl, (retryBlocked_eq_none hcopy).mp hnone⟩
  · exact ⟨.cancel, rfl, by rintro ⟨⟩⟩

theorem offered_iff :
  (∃ choice ∈ (needsYouCard s events).choices, choice.label = text "Try once more") ↔ retryBlocked s = none
  := by
  have hconfirmed : text "It happened" ≠ text "Try once more" := by decide
  have hstopped : text "Stop here" ≠ text "Try once more" := by decide
  simp only [needsYouCard, List.mem_append, List.mem_singleton]
  constructor
  · rintro ⟨choice, (rfl | hchoice) | rfl, hlabel⟩
    · exact absurd hlabel hconfirmed
    · split at hchoice
      · simp at hchoice
      · next hnone => exact hnone
    · exact absurd hlabel hstopped
  · intro hnone
    rw [hnone]
    exact ⟨_, .inl (.inr (List.mem_singleton.mpr rfl)), rfl⟩

/-- In every run, the choices on the card of a blocked task are the decisions that the controller takes. -/
theorem honoured_of_reached (hplatform : Platform.Works) (hreached : Controller.Reached (fun _ _ _ => True) c)
    (hrunning : Running c) (hs : c.journal.task s.taskId = some s) (hstatus : s.status = .blocked)
    (h : Reasoned actor reason) :
  Honoured c s (needsYouCard s events) actor reason
  := by
  have hwritten := (sound_of_reached hreached).written
  have hasked := asked_of_reached hreached
  have htaken : ∀ decision : HumanDecision, decision.Admitted s →
      Takes c s.taskId (needsYouCard s events) decision.value actor reason := by
    intro decision hadmitted
    have hwp : wp (perform (.resolve s.taskId (.obj (decisionFields decision.value s.attempt actor reason)) false))
        (fun answer _ => answer = .resolved ⟨decision.outcome, decision.value, false⟩) (fun _ _ => False)
        { c with raised := [] } := by
      rw [perform, wp_map]
      apply wp_mono (wp_resolve_works (c := { c with raised := [] }) hplatform hwritten hasked
        ⟨hrunning.works.1, hrunning.works.2, hrunning.works.3, hrunning.works.4, hrunning.works.5⟩
        hrunning.normal hrunning.going hs hstatus hadmitted h)
      · rintro r _ rfl
        rfl
      · intro _ _ hraised
        exact hraised
    obtain ⟨hnormal, hraised⟩ := step_of_wp hrunning.normal (by simp) (by simp) hwp
    cases hanswer : (c.step (.resolve s.taskId
        (.obj (decisionFields decision.value s.attempt actor reason)) false)).1 with
    | ok answer =>
      refine ⟨⟨decision.outcome, decision.value, false⟩, ?_, rfl, ?_⟩
      · exact hanswer.trans (congrArg _ (hnormal answer hanswer))
      · cases decision <;> decide
    | error why => exact (hraised why hanswer).elim
  constructor
  · intro choice hchoice
    obtain ⟨decision, hdecision, hadmitted⟩ := admitted_of_choice hchoice
    rw [hdecision]
    exact htaken decision hadmitted
  · intro hcopy
    rw [offered_iff, retryBlocked_eq_none hcopy]
    constructor
    · exact htaken .retryAuthorized
    · rintro ⟨reply, hanswer, hduplicate, -⟩
      have hattempt := (overcome_of_run (fun _ => Journal.not_system_of_eventsOf) (hasked _)
        (c.journal.run_of_task s.taskId) s hs).begun hstatus
      have hlimit := (Journal.recorded_of_task hs).1.attempts.2
      have hwp : wp (perform (.resolve s.taskId
          (.obj (decisionFields (text "retry_authorized") s.attempt actor reason)) false))
          (fun answer _ => ∀ r, answer = .resolved r → r.duplicate = false →
            HumanDecision.retryAuthorized.Admitted s) (fun _ _ => True) { c with raised := [] } := by
        rw [perform, wp_map]
        apply wp_mono (wp_resolve_admitted (c := { c with raised := [] }) hs ⟨hattempt, hlimit⟩ h)
        · rintro r _ hadmitted _ ⟨⟩
          exact hadmitted
        · intro _ _ _
          trivial
      exact (step_of_wp hrunning.normal (by simp) (by simp) hwp).1 _ hanswer reply rfl hduplicate

end Runs

section Example

local instance platformChoices : Platform := Platform.plain

theorem works_plain :
  Platform.Works
  := by
  refine ⟨fun s c hc => ?_, fun _ => rfl⟩
  have hdigit := isDigit_of_mem_natDecimal hc
  simp only [isDigit, Bool.and_eq_true, decide_eq_true_eq] at hdigit
  simp only [isHexDigit, Bool.or_eq_true, Bool.and_eq_true, decide_eq_true_eq]
  omega

/-- A task that must not be repeated blindly loses its lease after it was started. -/
def blockedRequests : List Request :=
  [.boot 1 plainBuild 0,
    .createTask (.obj [(text "adapter", .str (text "echo")),
      (text "effect_class", .str (text "non_idempotent")), (text "lease_ttl_s", .int 30),
      (text "max_attempts", .int 2), (text "params", .obj [])]) (numberedUuid 0) false,
    .claim (.obj [(text "worker_id", .str (text "w"))]) (numberedUuid 1) 0 false,
    .start (.obj [(text "dispatch_id", .str (newDispatchId (numberedUuid 1)))]) false,
    .tick 31 false]

def blockedController : Controller :=
  (freshFailing fun _ => false).run blockedRequests

theorem reasoned_ana :
  Reasoned (text "desktop:ana") (text "seen")
  := by
  constructor <;> decide

/-- The choices on the card of a task that lost its lease are taken. -/
theorem honoured_blocked :
  ∃ s, blockedController.journal.task s.taskId = some s ∧ s.status = .blocked ∧
    Honoured blockedController s (needsYouCard s []) (text "desktop:ana") (text "seen")
  := by
  have hrun : (freshFailing fun _ => false).Admits (fun _ _ _ => True) blockedRequests ∧
      blockedController.mode = .normal ∧ blockedController.stopping = false ∧
      (∀ k < 4, (blockedController.draws k).fails = false) ∧
      (∀ k < 4, Encodable (blockedController.draws k).clock) ∧
      (∀ k < 4, (blockedController.draws k).eventId.hex ∉ blockedController.journal.events.map fun e => e.eventId) ∧
      (∀ k < 4, ∀ l < k, (blockedController.draws k).eventId.hex ≠ (blockedController.draws l).eventId.hex) ∧
      blockedController.journal.events.length + 4 < 2 ^ 63 ∧
      ((blockedController.journal.task (text "task-" ++ (numberedUuid 0).hex)).any fun s => s.status = .blocked) =
        true := by
    decide +kernel
  obtain ⟨hadmits, hmode, hstopping, hfails, hclock, hfresh, hdistinct, hroom, htask⟩ := hrun
  obtain ⟨s, hs, hstatus⟩ := (Option.any_eq_true _ _).mp htask
  rw [← Journal.taskId_of_task hs] at hs
  have hstatus : s.status = .blocked := of_decide_eq_true hstatus
  exact ⟨s, hs, hstatus, honoured_of_reached works_plain (reached_of_admits hadmits)
    ⟨hmode, hstopping, hfails, hclock, hfresh, hdistinct, hroom⟩ hs hstatus reasoned_ana⟩

end Example

end Courier.Hub
