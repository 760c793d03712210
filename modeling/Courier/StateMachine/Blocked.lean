import Courier.StateMachine.Replay

/-!
# Decisions about a blocked task

A blocked task waits for a human, and the event that lets it go names the attempt that is blocked.  A cancellation is
not compared with that attempt, so `DecidedWhenBlocked` holds of the histories in which it names it, and no task is
blocked again for an attempt that was authorised.
-/

namespace Courier

open Run

section Histories

variable [Platform]

/-- Somebody decides about the block of attempt `n`. -/
structure Decides (n : Int) (e : EventFields) : Prop where
  type : e.type ∈ [EventType.effectConfirmed, .retryAuthorized, .taskCancelled]
  actor : Event.HasActor e
  attempt : e.attempt = some n

def Unblocks (s : TaskState) (e : Event) : Prop :=
  s.status = .blocked ∧ ∃ s', apply (some s) e = .ok (some s') ∧ s'.status ≠ .blocked

structure DecidedWhenBlocked (events : List Event) : Prop where
  /-- What releases the task names an actor and the blocked attempt. -/
  decided : ∀ {before e after s}, events = before ++ e :: after →
    Accepts apply none before (some s) → Unblocks s e → Decides s.attempt e.toEventFields
  /-- What releases the task from one block does not name the attempt of an earlier one. -/
  current : ∀ {before block middle block' between e after s s'},
    events = before ++ block :: middle ++ block' :: between ++ e :: after →
    block.type = .taskBlocked → block'.type = .taskBlocked →
    Accepts apply none before (some s) →
    Accepts apply none (before ++ block :: middle ++ block' :: between) (some s') →
    Unblocks s' e → e.attempt ≠ some s.attempt

structure Proper (before : List Event) (s : TaskState) (e : Event) : Prop where
  cancelled : s.status = .blocked → e.type = .taskCancelled → e.attempt = some s.attempt
  blocked : s.status = .queued → e.type = .taskBlocked →
    ∀ x ∈ before, ¬ Authorizes s.attempt x.toEventFields

/-- Every step of a history is proper. -/
def AllProper (events : List Event) : Prop :=
  ∀ {before e after s}, events = before ++ e :: after → Accepts apply none before (some s) →
    Proper before s e

/-! ### Attempts never go back -/

/-- An attempt that was blocked is over: while it is the current one, the task waits or has
ended. -/
def TaskState.Stopped (n : Int) (s : TaskState) : Prop :=
  n ≤ s.attempt ∧ (s.attempt = n →
    s.status ∈ [TaskStatus.queued, .blocked] ∨ s.status.isTerminal = true)

open TaskState

theorem holdsUntil_stopped (n : Int) :
  HoldsUntil (fun _ => False) (Stopped n)
  := by
  constructor
  · intro _ _ h
    exact h
  · intro s e s' h step
    left
    obtain ⟨hn, hstatus⟩ := h
    cases step with
    | claimed =>
      constructor
      · simp only
        omega
      · simp only
        omega
    | lateResult => exact ⟨hn, hstatus⟩
    | progress => exact ⟨hn, hstatus⟩
    | cancelRequested => exact ⟨hn, hstatus⟩
    | started _ status =>
      exact ⟨hn, fun h => by simpa [status, TaskStatus.isTerminal] using hstatus h⟩
    | resultReady _ status =>
      exact ⟨hn, fun h => by simpa [status, TaskStatus.isTerminal] using hstatus h⟩
    | resultAccepted _ status =>
      exact ⟨hn, fun h => by simpa [status, TaskStatus.isTerminal] using hstatus h⟩
    | resultRejected _ status =>
      exact ⟨hn, fun h => by simpa [status, TaskStatus.isTerminal] using hstatus h⟩
    | leaseExpired _ status =>
      exact ⟨hn, fun h => by
        cases hs : s.status <;>
          simp_all [TaskStatus.isActiveLease, TaskStatus.isTerminal]⟩
    | _ => exact ⟨hn, by simp [TaskStatus.isTerminal]⟩

theorem holdsUntil_attempt (n : Int) :
  HoldsUntil (fun _ => False) (fun s => n ≤ s.attempt)
  := by
  constructor
  · intro _ _ h
    exact h
  · intro s e s' h step
    left
    cases step with
    | claimed =>
      simp only
      omega
    | _ => exact h

variable {s s' : TaskState} {e : Event}

theorem Step.not_blocked_of_waiting {n : Int}
    (h : (s.status = .blocked ∧ s.attempt = n) ∨ s.status.isTerminal = true)
    (step : Step s e s') :
  e.type ≠ .taskBlocked
  := by
  intro type
  obtain ⟨hs, -⟩ | hs := h
  · cases step <;> simp_all
  · simp [(step.of_terminal hs).2] at type

theorem holdsUntil_waiting (n : Int) :
  HoldsUntil (fun e => Authorizes n e.toEventFields)
    (fun s => (s.status = .blocked ∧ s.attempt = n) ∨ s.status.isTerminal = true)
  := by
  constructor
  · intro _ _ h
    exact h
  · intro s e s' h step
    obtain ⟨hs, hn⟩ | hs := h
    · obtain h' | h' | h' := step.of_blocked hs hn
      · exact .inl (.inl h')
      · exact .inl (.inr h')
      · exact .inr h'
    · left
      right
      rw [(step.of_terminal hs).1]
      exact hs

theorem Step.of_type_blocked (step : Step s e s')
    (type : e.type = .taskBlocked) :
  (s.status = .retryPending ∨ s.status = .queued) ∧ s'.status = .blocked ∧
    s'.attempt = s.attempt
  := by
  cases step with
  | blocked _ status => exact ⟨status, rfl, rfl⟩
  | _ => simp_all

/-! ### Histories -/

theorem Unblocks.decides {before : List Event}
    (h : Unblocks s e) (hproper : Proper before s e) :
  Decides s.attempt e.toEventFields
  := by
  obtain ⟨hs, s', happly, hs'⟩ := h
  generalize hstate : some s' = state at happly
  cases apply_iff.mp happly with
  | system =>
    cases hstate
    exact absurd hs hs'
  | step _ _ _ step =>
    cases hstate
    cases step with
    | cancelledBlocked type _ _ actor =>
    exact ⟨by simp [type], Event.hasActor_of_get actor, hproper.cancelled hs type⟩
    | effectConfirmed type _ attempt =>
    refine ⟨by simp [type], ?_, attempt⟩
    apply Event.hasActor_of_humanDecision
    simp [type, EventType.isHumanDecision]
    | retryAuthorized type _ attempt =>
    refine ⟨by simp [type], ?_, attempt⟩
    apply Event.hasActor_of_humanDecision
    simp [type, EventType.isHumanDecision]
    | lateResult => exact absurd hs hs'
    | cancelRequested => exact absurd hs hs'
    | _ => simp_all [TaskStatus.isActiveLease]

theorem attempt_lt_of_blocks {before middle between : List Event} {block block' : Event}
    (hblock : block.type = .taskBlocked) (hblock' : block'.type = .taskBlocked)
    (hs : Accepts apply none before (some s))
    (hrun : Accepts apply none (before ++ block :: middle ++ block' :: between) (some s'))
    (hproper : ∀ {t}, Accepts apply none (before ++ block :: middle) (some t) →
      Proper (before ++ block :: middle) t block') :
  s.attempt < s'.attempt
  := by
  obtain ⟨t, t', hpre, hstep', -, hbetween⟩ :=
    step_at hrun (by simp [hblock', EventType.isSystem]) (by simp [hblock'])
  obtain ⟨u, u', hbefore, hstep, -, hmiddle⟩ :=
    step_at hpre (by simp [hblock, EventType.isSystem]) (by simp [hblock])
  cases Accepts.unique hs hbefore
  obtain ⟨-, hu', hattempt⟩ := hstep.of_type_blocked hblock
  obtain ⟨hstatus, -, hattempt'⟩ := hstep'.of_type_blocked hblock'
  have hstopped : Stopped s.attempt t := by
    apply (holdsUntil_stopped _).always _ hmiddle
    exact ⟨by simp [hattempt], fun _ => .inl (by simp [hu'])⟩
  have hauth : ∃ x ∈ middle, Authorizes s.attempt x.toEventFields := by
    obtain h | h := (holdsUntil_waiting s.attempt).run
      ((holdsUntil_waiting s.attempt).updated _ block.seq (.inl ⟨hu', hattempt⟩)) hmiddle
    · exact h
    · exact absurd hblock' (hstep'.not_blocked_of_waiting h)
  have hlt : s.attempt < t.attempt := by
    obtain ⟨hle, hwaiting⟩ := hstopped
    by_contra hnot
    have heq : t.attempt = s.attempt := by omega
    have hqueued : t.status = .queued := by
      obtain hretry | hqueued := hstatus
      · have hwait := hwaiting heq
        simp [hretry, TaskStatus.isTerminal] at hwait
      · exact hqueued
    obtain ⟨x, hx, hxauth⟩ := hauth
    apply (hproper hpre).blocked hqueued hblock' x _ (heq ▸ hxauth)
    simp [hx]
  have hle : t.attempt ≤ s'.attempt := by
    apply (holdsUntil_attempt t.attempt).always _ hbetween
    simp [hattempt']
  omega

/-- A history whose steps are proper releases a blocked task by decisions about that block
only. -/
theorem decidedWhenBlocked_of_proper {events : List Event} (hproper : AllProper events) :
  DecidedWhenBlocked events
  := by
  constructor
  · intro before e after s hsplit hs hunblocks
    exact hunblocks.decides (hproper hsplit hs)
  · intro before block middle block' between e after s s' hsplit hblock hblock' hs hs' hunblocks
    have hdecides := hunblocks.decides (hproper hsplit hs')
    have hlt : s.attempt < s'.attempt := by
      apply attempt_lt_of_blocks hblock hblock' hs hs'
      intro t ht
      exact hproper (by simpa using hsplit) ht
    rw [hdecides.attempt]
    simp only [ne_eq, Option.some.injEq]
    omega

end Histories

section Example

local instance blockedPlatform : Platform := Platform.plain

def decisionHistory (decisions : List EventFields) : List Event :=
  lostLeaseHistory.take 5 ++ decisions.filterMap fun f => (Event.build f).toOption

def confirmedHistory : List Event :=
  decisionHistory
    [{ type := .effectConfirmed, taskId := some (text "t"), attempt := some 1
       eventId := text "e6", tsUtc := text "6Z"
       payload := [(text "actor", .str (text "ann")), (text "reason", .str (text "seen"))] }]

theorem decidedWhenBlocked_confirmedHistory :
  DecidedWhenBlocked confirmedHistory
  := by
  apply decidedWhenBlocked_of_proper
  have hevents : ∀ e ∈ confirmedHistory, e.type ≠ .taskCancelled ∧ e.type ≠ .retryAuthorized := by
    decide +kernel
  intro before e after s hsplit _
  constructor
  · intro _ type
    exact absurd type (hevents e (by simp [hsplit])).1
  · intro _ _ x hx hauth
    exact absurd hauth.1 (hevents x (by simp [hsplit, hx])).2

/-- A cancellation by somebody who does not say which block it is about. -/
def blindCancellation : Event where
  type := .taskCancelled
  taskId := some (text "t")
  eventId := text "e7"
  tsUtc := text "7Z"
  payload := [(text "actor", .str (text "ann"))]
  canonical := by decide +kernel
  shallow := rfl
  keyed := by decide +kernel
  valid := by decide +kernel

def blockedHistory : List Event :=
  decisionHistory
    [{ type := .taskCancelRequested, taskId := some (text "t"), eventId := text "e6"
       tsUtc := text "6Z" }]

def blockedState : TaskState :=
  { lostLeaseState with
    status := .blocked, attempt := 1, dispatchId := some (text "d1"), started := true
    cancelRequested := true, failureKind := some .leaseLost
    lastReason := some (text "lost"), decidedBy := none }

theorem accepts_blockedHistory :
  Accepts apply none blockedHistory (some blockedState)
  := by
  unfold Accepts
  decide +kernel

/-- The fold accepts a cancellation of a blocked task that does not say which block it is
about. -/
theorem not_decidedWhenBlocked :
  (∃ state, Accepts apply none (blockedHistory ++ [blindCancellation]) state) ∧
    ¬ DecidedWhenBlocked (blockedHistory ++ [blindCancellation])
  := by
  have hcancelled : apply (some blockedState) blindCancellation = .ok (some
      { blockedState with
        status := .cancelled, resolution := some .cancelledEffectUnknown
        decidedBy := some (text "ann") }) := by
    decide +kernel
  constructor
  · exact ⟨_, accepts_concat.mpr ⟨_, accepts_blockedHistory, hcancelled⟩⟩
  · intro h
    have hdecides := h.decided rfl accepts_blockedHistory ⟨rfl, _, hcancelled, by decide⟩
    cases hdecides.attempt

end Example

end Courier
