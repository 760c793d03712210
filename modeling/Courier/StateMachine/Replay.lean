import Courier.StateMachine.Steps
import Courier.Library.Run

/-!
# No blind replay

After a lease was lost on a started attempt, a task whose effect is not known to be idempotent goes through `BLOCKED`
and is claimed again only when a human authorises it.
-/

namespace Courier

open Run

/-! ### The events the property is about -/

def Starts (n : Int) (e : EventFields) : Prop :=
  e.type = .taskStarted ∧ e.attempt = some n

def LosesLease (n : Int) (e : EventFields) : Prop :=
  e.type = .leaseExpired ∧ e.attempt = some n

def Authorizes (n : Int) (e : EventFields) : Prop :=
  e.type = .retryAuthorized ∧ e.attempt = some n ∧ Event.HasActor e

def AllowsRetry (e : EventFields) : Prop :=
  e.type = .resultRejected ∧ e.get (text "retryable") = .bool true

/-! ### What holds of a task that lost a lease -/

namespace TaskState

/-- Attempt `n` has started: it is not going to be claimed again, and a running attempt is
a started one. -/
def Begun (n : Int) (s : TaskState) : Prop :=
  n ≤ s.attempt ∧ (s.attempt = n → s.status ≠ .claimed) ∧
    (s.status = .running → s.started = true)

/-- The lease of the started attempt `n` was lost, and nothing was decided yet. -/
def Lost (n : Int) (s : TaskState) : Prop :=
  s.effectClass ≠ RETRY_SAFE_EFFECT_CLASS ∧ s.attempt = n ∧ s.status = .retryPending
    ∧ s.failureKind = some .leaseLost ∧ s.started = true

def Held (n : Int) (s : TaskState) : Prop :=
  Lost n s ∨ (s.status = .blocked ∧ s.attempt = n) ∨ s.status.isTerminal = true

/-- Attempt `n` was started, and it takes an authorisation or a verdict before another one
starts. -/
def Spent (n : Int) (s : TaskState) : Prop :=
  Held n s ∨ s.effectClass ≠ RETRY_SAFE_EFFECT_CLASS ∧ s.attempt = n ∧ s.started = true ∧
    (s.status ∈ [TaskStatus.running, .verifying, .accepted] ∨
      s.status = .retryPending ∧ s.failureKind = some .rejected ∧ s.retryable = some false)

theorem Lost.decide {n : Int} {s : TaskState} (h : Lost n s) :
  decideAfterFailure s = .block
  := by
  obtain ⟨hclass, -, -, hkind, hstarted⟩ := h
  have hretry : mayAutoRetry s.effectClass = false := by simpa [mayAutoRetry] using hclass
  simp [decideAfterFailure, hkind, hstarted, hretry]

theorem decide_of_rejected {s : TaskState} (hkind : s.failureKind = some .rejected)
    (hretry : s.retryable = some false) :
  decideAfterFailure s ≠ .retry
  := by
  unfold decideAfterFailure
  split_ifs <;> simp_all

end TaskState

/-! ### Lifting steps to runs of the fold -/

def Known (I : TaskState → Prop) (state : Option TaskState) : Prop :=
  ∃ s, state = some s ∧ I s

section Histories

variable [Platform]

structure HoldsUntil (release : Event → Prop) (I : TaskState → Prop) : Prop where
  updated : ∀ s seq, I s → I { s with updatedSeq := seq }
  step : ∀ s e s', I s → Step s e s' → I s' ∨ release e

variable {I : TaskState → Prop}

theorem HoldsUntil.known {release : Event → Prop}
    (h : HoldsUntil release I) (state : Option TaskState) (e : Event)
    (state' : Option TaskState) (hI : Known I state) (ha : apply state e = .ok state') :
  Known I state' ∨ release e
  := by
  obtain ⟨s, rfl, hs⟩ := hI
  cases apply_iff.mp ha with
  | system => exact .inl ⟨s, rfl, hs⟩
  | step _ _ _ step =>
    obtain hs' | hrelease := h.step _ _ _ hs step
    · exact .inl ⟨_, rfl, h.updated _ _ hs'⟩
    · exact .inr hrelease

variable {s s' : TaskState} {events : List Event}

theorem HoldsUntil.run {release : Event → Prop}
    (h : HoldsUntil release I) (hs : I s)
    (hrun : Accepts apply (some s) events (some s')) :
  (∃ e ∈ events, release e) ∨ I s'
  := by
  obtain hrelease | ⟨t, ht, hI⟩ := Accepts.until h.known ⟨s, rfl, hs⟩ hrun
  · exact .inl hrelease
  · cases ht
    exact .inr hI

theorem HoldsUntil.always (h : HoldsUntil (fun _ => False) I) (hs : I s)
    (hrun : Accepts apply (some s) events (some s')) :
  I s'
  := by
  obtain ⟨e, -, he⟩ | hI := h.run hs hrun
  · exact absurd he id
  · exact hI

theorem known_of_run {state : Option TaskState}
    (hrun : Accepts apply (some s) events state) :
  ∃ s', state = some s'
  := by
  have htrue : HoldsUntil (fun _ => False) fun _ => True :=
    ⟨fun _ _ _ => trivial, fun _ _ _ _ _ => .inl trivial⟩
  obtain ⟨e, -, he⟩ | ⟨s', hs', -⟩ := Accepts.until htrue.known ⟨s, rfl, trivial⟩ hrun
  · exact absurd he id
  · exact ⟨s', hs'⟩

theorem known_of_split {state state' : Option TaskState} {before after : List Event} {e : Event}
    (hrun : Accepts apply state (before ++ e :: after) state') (hs : e.type.isSystem = false) :
  ∃ s, state' = some s
  := by
  obtain ⟨t, u, -, hu, hafter⟩ := accepts_split.mp hrun
  cases apply_iff.mp hu with
  | system type => simp [hs] at type
  | created => exact known_of_run hafter
  | step => exact known_of_run hafter

theorem effectClass_of_run
    (hrun : Accepts apply (some s) events (some s')) :
  s'.effectClass = s.effectClass
  := by
  have h : HoldsUntil (fun _ => False) fun t => t.effectClass = s.effectClass := by
    constructor
    · intro _ _ ht
      exact ht
    · intro t e t' ht step
      left
      cases step <;> exact ht
  apply h.always rfl hrun

/-! ### What each step preserves -/

open TaskState

theorem holdsUntil_begun (n : Int) :
  HoldsUntil (fun _ => False) (Begun n)
  := by
  constructor
  · intro _ _ h
    exact h
  · intro s e s' h step
    left
    obtain ⟨hn, hclaimed, hrunning⟩ := h
    cases step with
    | claimed _ _ _ attempt =>
      refine ⟨by simp only; omega, ?_, ?_⟩
      · simp only
        omega
      · simp
    | started => exact ⟨hn, by simp, by simp⟩
    | lateResult => exact ⟨hn, hclaimed, hrunning⟩
    | progress => exact ⟨hn, hclaimed, hrunning⟩
    | cancelRequested => exact ⟨hn, hclaimed, hrunning⟩
    | _ => exact ⟨hn, by simp, by simp⟩

variable {n : Int} {e : Event}

theorem Step.of_lost (h : Lost n s)
    (step : Step s e s') :
  (Lost n s' ∧ e.type ∈ [EventType.lateResultDiscarded, .taskCancelRequested]) ∨
    (e.type = .taskBlocked ∧ s'.status = .blocked ∧ s'.attempt = n)
  := by
  have hdecide := h.decide
  obtain ⟨hclass, hn, hs, hkind, hstarted⟩ := h
  cases step with
  | lateResult type => exact .inl ⟨⟨hclass, hn, hs, hkind, hstarted⟩, by simp [type]⟩
  | cancelRequested type => exact .inl ⟨⟨hclass, hn, hs, hkind, hstarted⟩, by simp [type]⟩
  | blocked type => exact .inr ⟨type, rfl, hn⟩
  | failed _ _ certain => exact absurd ⟨hs, hdecide⟩ certain
  | cancelled _ _ _ certain => exact absurd ⟨hs, hdecide⟩ certain
  | retryScheduled _ _ _ decision => simp [hdecide] at decision
  | _ => simp_all [TaskStatus.isActiveLease]

theorem holdsUntil_lost (n : Int) :
  HoldsUntil (fun e => e.type = .taskBlocked) (Lost n)
  := by
  constructor
  · intro _ _ h
    exact h
  · intro s e s' h step
    obtain ⟨h', -⟩ | ⟨hblocked, -⟩ := step.of_lost h
    · exact .inl h'
    · exact .inr hblocked

theorem Step.of_terminal (h : s.status.isTerminal = true)
    (step : Step s e s') :
  s'.status = s.status ∧ e.type = .lateResultDiscarded
  := by
  by_cases hl : e.type = .lateResultDiscarded
  · cases step <;> simp_all
  · simp [step.not_terminal hl] at h

theorem Step.of_blocked (hs : s.status = .blocked)
    (hn : s.attempt = n) (step : Step s e s') :
  (s'.status = .blocked ∧ s'.attempt = n) ∨ s'.status.isTerminal = true ∨ Authorizes n e.toEventFields
  := by
  cases step with
  | lateResult => exact .inl ⟨hs, hn⟩
  | cancelRequested => exact .inl ⟨hs, hn⟩
  | cancelledBlocked => exact .inr (.inl rfl)
  | effectConfirmed => exact .inr (.inl rfl)
  | retryAuthorized type _ attempt =>
    have hactor : Event.HasActor e.toEventFields := by
      apply Event.hasActor_of_humanDecision
      simp [type, EventType.isHumanDecision]
    exact .inr (.inr ⟨type, hn ▸ attempt, hactor⟩)
  | _ => simp_all [TaskStatus.isActiveLease]

theorem holdsUntil_held (n : Int) :
  HoldsUntil (fun e => Authorizes n e.toEventFields) (Held n)
  := by
  constructor
  · intro _ _ h
    exact h
  · intro s e s' h step
    obtain hlost | ⟨hs, hn⟩ | hterminal := h
    · obtain ⟨h', -⟩ | ⟨-, h'⟩ := step.of_lost hlost
      · exact .inl (.inl h')
      · exact .inl (.inr (.inl h'))
    · obtain h' | h' | h' := step.of_blocked hs hn
      · exact .inl (.inr (.inl h'))
      · exact .inl (.inr (.inr h'))
      · exact .inr h'
    · left
      right
      right
      rw [(step.of_terminal hterminal).1]
      exact hterminal

theorem Step.of_spent (h : Spent n s)
    (step : Step s e s') :
  Spent n s' ∨ Authorizes n e.toEventFields ∨ AllowsRetry e.toEventFields
  := by
  obtain hheld | ⟨hclass, hn, hstarted, hstatus⟩ := h
  · obtain h' | h' := (holdsUntil_held n).step s e s' hheld step
    · exact .inl (.inl h')
    · exact .inr (.inl h')
  · cases step with
    | lateResult => exact .inl (.inr ⟨hclass, hn, hstarted, hstatus⟩)
    | cancelRequested => exact .inl (.inr ⟨hclass, hn, hstarted, hstatus⟩)
    | progress => exact .inl (.inr ⟨hclass, hn, hstarted, hstatus⟩)
    | resultReady => exact .inl (.inr ⟨hclass, hn, hstarted, .inl (by simp)⟩)
    | resultAccepted => exact .inl (.inr ⟨hclass, hn, hstarted, .inl (by simp)⟩)
    | resultRejected type =>
      obtain ⟨b, hb⟩ := Event.retryable_of_rejected type
      cases b with
      | true => exact .inr (.inr ⟨type, hb⟩)
      | false => exact .inl (.inr ⟨hclass, hn, hstarted, .inr (by simp [hb, Json.asBool])⟩)
    | complete => exact .inl (.inl (.inr (.inr rfl)))
    | leaseExpired => exact .inl (.inl (.inl ⟨hclass, hn, rfl, rfl, hstarted⟩))
    | failed => exact .inl (.inl (.inr (.inr rfl)))
    | cancelled => exact .inl (.inl (.inr (.inr rfl)))
    | blocked => exact .inl (.inl (.inr (.inl ⟨rfl, hn⟩)))
    | retryScheduled _ status _ decision =>
      obtain hs | ⟨-, hkind, hretry⟩ := hstatus
      · simp [status] at hs
      · exact absurd decision (decide_of_rejected hkind hretry)
    | _ => simp_all

theorem holdsUntil_spent (n : Int) :
  HoldsUntil (fun e => Authorizes n e.toEventFields ∨ AllowsRetry e.toEventFields) (Spent n)
  := by
  constructor
  · intro _ _ h
    exact h
  · intro s e s' h step
    exact step.of_spent h

/-! ### Whole histories -/

theorem begun_of_start (h : Starts n e.toEventFields)
    (step : Step s e s') :
  Begun n s' ∧ s'.attempt = n ∧ s'.status = .running ∧ s'.started = true
  := by
  obtain ⟨type, attempt⟩ := h
  cases step with
  | started _ _ fenced =>
    have hn : s.attempt = n := by simpa [fenced.attempt] using attempt
    exact ⟨⟨by simp only; omega, by simp, by simp⟩, hn, rfl, rfl⟩
  | _ => simp_all

theorem lost_of_leaseExpired
    (hclass : s.effectClass ≠ RETRY_SAFE_EFFECT_CLASS) (hbegun : Begun n s)
    (h : LosesLease n e.toEventFields) (step : Step s e s') :
  Lost n s'
  := by
  obtain ⟨type, attempt⟩ := h
  obtain ⟨-, hclaimed, hrunning⟩ := hbegun
  cases step with
  | leaseExpired _ status fenced =>
    have hn : s.attempt = n := by simpa [fenced.attempt] using attempt
    have hs : s.status = .running := by
      cases hs : s.status <;> simp_all [TaskStatus.isActiveLease]
    exact ⟨hclass, hn, rfl, rfl, hrunning hs⟩
  | _ => simp_all

/-- What a history of a task says about repeating its effect. -/
structure NoBlindReplay (events : List Event) : Prop where
  /-- After a started attempt lost its lease, a claim needs an authorisation. -/
  claim_authorized : ∀ {n before start between loss after claim rest},
    events = before ++ start :: between ++ loss :: after ++ claim :: rest →
    Starts n start.toEventFields → LosesLease n loss.toEventFields → claim.type = .taskClaimed →
    ∃ e ∈ after, Authorizes n e.toEventFields
  /-- Between two starts there is an authorisation or a verdict that allows a retry. -/
  starts_separated : ∀ {n before start between again rest},
    events = before ++ start :: between ++ again :: rest →
    Starts n start.toEventFields → again.type = .taskStarted →
    ∃ e ∈ between, Authorizes n e.toEventFields ∨ AllowsRetry e.toEventFields
  /-- After a started attempt lost its lease, the task is blocked before anything else is
  decided. -/
  blocked_first : ∀ {n before start between loss after e rest},
    events = before ++ start :: between ++ loss :: after ++ e :: rest →
    Starts n start.toEventFields → LosesLease n loss.toEventFields →
    e.type.isSystem = false →
    e.type ∉ [EventType.lateResultDiscarded, .taskCancelRequested, .taskBlocked] →
    ∃ b ∈ after, b.type = .taskBlocked

theorem step_at {before after : List Event}
    (hrun : Accepts apply none (before ++ e :: after) (some s))
    (hs : e.type.isSystem = false) (hc : e.type ≠ .taskCreated) :
  ∃ t t' : TaskState, Accepts apply none before (some t) ∧ Step t e t' ∧
    t'.effectClass = s.effectClass ∧
    Accepts apply (some { t' with updatedSeq := e.seq }) after (some s)
  := by
  obtain ⟨t, u, ht, hu, hafter⟩ := accepts_split.mp hrun
  cases apply_iff.mp hu with
  | system type => simp [hs] at type
  | created type => exact absurd type hc
  | step _ _ _ step => exact ⟨_, _, ht, step, (effectClass_of_run hafter).symm, hafter⟩

theorem Step.effectClass_eq (step : Step s e s') :
  s'.effectClass = s.effectClass
  := by
  cases step <;> rfl

theorem lost_at {before between after : List Event}
    {start loss : Event}
    (hrun : Accepts apply none (before ++ start :: between ++ loss :: after) (some s))
    (hclass : s.effectClass ≠ RETRY_SAFE_EFFECT_CLASS)
    (hstart : Starts n start.toEventFields) (hloss : LosesLease n loss.toEventFields) :
  ∃ t : TaskState, Lost n t ∧ Accepts apply (some t) after (some s)
  := by
  obtain ⟨t, t', hpre, hstep, hclass', hafter⟩ :=
    step_at hrun (by simp [hloss.1, EventType.isSystem]) (by simp [hloss.1])
  obtain ⟨u, u', -, hstep', -, hbetween⟩ :=
    step_at hpre (by simp [hstart.1, EventType.isSystem]) (by simp [hstart.1])
  have hbegun : Begun n t := by
    apply (holdsUntil_begun n).always _ hbetween
    exact (begun_of_start hstart hstep').1
  have hlost : Lost n t' := by
    apply lost_of_leaseExpired _ hbegun hloss hstep
    rw [← hstep.effectClass_eq, hclass']
    exact hclass
  exact ⟨_, (holdsUntil_lost n).updated _ _ hlost, hafter⟩

theorem Step.not_claimed_of_held (h : Held n s)
    (step : Step s e s') :
  e.type ≠ .taskClaimed
  := by
  intro type
  obtain ⟨-, -, hs, -, -⟩ | ⟨hs, -⟩ | hs := h
  · cases step <;> simp_all
  · cases step <;> simp_all
  · simp [(step.of_terminal hs).2] at type

theorem Step.not_started_of_spent (h : Spent n s)
    (step : Step s e s') :
  e.type ≠ .taskStarted
  := by
  intro type
  have hs : s.status = .claimed := by
    cases step <;> simp_all
  obtain (⟨-, -, hs', -, -⟩ | ⟨hs', -⟩ | hs') | ⟨-, -, -, hs' | ⟨hs', -⟩⟩ := h
  · simp [hs] at hs'
  · simp [hs] at hs'
  · simp [hs, TaskStatus.isTerminal] at hs'
  · simp [hs] at hs'
  · simp [hs] at hs'

/-- No blind replay: the history of a task whose effect is not known to be idempotent repeats
it on a human's or a verifier's word only. -/
theorem no_blind_replay {events : List Event} {s : TaskState}
    (hrun : Accepts apply none events (some s))
    (hclass : s.effectClass ≠ RETRY_SAFE_EFFECT_CLASS) :
  NoBlindReplay events
  := by
  constructor
  · intro n before start between loss after claim rest hsplit hstart hloss hclaim
    subst hsplit
    obtain ⟨t, t', hpre, hstep, hclass', -⟩ :=
      step_at hrun (by simp [hclaim, EventType.isSystem]) (by simp [hclaim])
    have htclass : t.effectClass ≠ RETRY_SAFE_EFFECT_CLASS := by
      rw [← hstep.effectClass_eq, hclass']
      exact hclass
    obtain ⟨u, hlost, hafter⟩ := lost_at hpre htclass hstart hloss
    obtain hauth | hheld := (holdsUntil_held n).run (.inl hlost) hafter
    · exact hauth
    · exact absurd hclaim (hstep.not_claimed_of_held hheld)
  · intro n before start between again rest hsplit hstart hagain
    subst hsplit
    obtain ⟨t, t', hpre, hstep, hclass', -⟩ :=
      step_at hrun (by simp [hagain, EventType.isSystem]) (by simp [hagain])
    obtain ⟨u, u', -, hstep', huclass, hbetween⟩ :=
      step_at hpre (by simp [hstart.1, EventType.isSystem]) (by simp [hstart.1])
    obtain ⟨-, hn, hrunning, hstarted⟩ := begun_of_start hstart hstep'
    have hspent : Spent n u' := by
      right
      refine ⟨?_, hn, hstarted, .inl (by simp [hrunning])⟩
      rw [huclass, ← hstep.effectClass_eq, hclass']
      exact hclass
    obtain hrelease | hspent' := (holdsUntil_spent n).run
      ((holdsUntil_spent n).updated _ start.seq hspent) hbetween
    · exact hrelease
    · exact absurd hagain (hstep.not_started_of_spent hspent')
  · intro n before start between loss after e rest hsplit hstart hloss hsystem htype
    subst hsplit
    have hcreated : e.type ≠ .taskCreated := by
      intro hcreated
      obtain ⟨t, u, ht, hu, -⟩ := accepts_split.mp hrun
      cases apply_iff.mp hu with
      | system type => simp [hsystem] at type
      | created =>
        obtain ⟨_, hnone⟩ := known_of_split ht (by simp [hloss.1, EventType.isSystem])
        cases hnone
      | step _ type => exact type hcreated
    obtain ⟨t, t', hpre, hstep, hclass', -⟩ := step_at hrun hsystem hcreated
    have htclass : t.effectClass ≠ RETRY_SAFE_EFFECT_CLASS := by
      rw [← hstep.effectClass_eq, hclass']
      exact hclass
    obtain ⟨u, hlost, hafter⟩ := lost_at hpre htclass hstart hloss
    obtain hblocked | hlost' := (holdsUntil_lost n).run hlost hafter
    · exact hblocked
    · obtain ⟨-, htype'⟩ | ⟨htype', -⟩ := hstep.of_lost hlost'
      · simp_all
      · simp_all

end Histories

section Example

local instance replayPlatform : Platform := Platform.plain

def lostLeaseFields : List EventFields :=
  [{ type := .taskCreated, taskId := some (text "t"), eventId := text "e1", tsUtc := text "1Z"
     payload := [(text "adapter", .str (text "echo")), (text "effect_class", .str (text "non_idempotent")),
       (text "lease_ttl_s", .int 30), (text "max_attempts", .int 2), (text "params", .obj [])] },
   { type := .taskClaimed, taskId := some (text "t"), attempt := some 1
     dispatchId := some (text "d1"), workerId := some (text "w"), eventId := text "e2"
     tsUtc := text "2Z", payload := [(text "ttl_s", .int 30)] },
   { type := .taskStarted, taskId := some (text "t"), attempt := some 1
     dispatchId := some (text "d1"), workerId := some (text "w"), eventId := text "e3"
     tsUtc := text "3Z" },
   { type := .leaseExpired, taskId := some (text "t"), attempt := some 1
     dispatchId := some (text "d1"), workerId := some (text "w"), eventId := text "e4"
     tsUtc := text "4Z", payload := [(text "reason", .str (text "ttl"))] },
   { type := .taskBlocked, taskId := some (text "t"), eventId := text "e5"
     tsUtc := text "5Z", payload := [(text "reason", .str (text "lost"))] },
   { type := .retryAuthorized, taskId := some (text "t"), attempt := some 1, eventId := text "e6"
     tsUtc := text "6Z"
     payload := [(text "actor", .str (text "ann")), (text "reason", .str (text "checked"))] },
   { type := .taskClaimed, taskId := some (text "t"), attempt := some 2
     dispatchId := some (text "d2"), workerId := some (text "w"), eventId := text "e7"
     tsUtc := text "7Z", payload := [(text "ttl_s", .int 30)] }]

def lostLeaseHistory : List Event :=
  lostLeaseFields.filterMap fun f => (Event.build f).toOption

def lostLeaseState : TaskState where
  taskId := text "t"
  status := .claimed
  adapter := text "echo"
  params := .obj []
  effectClass := text "non_idempotent"
  maxAttempts := 2
  leaseTtlS := 30
  timeoutS := none
  attempt := 2
  dispatchId := some (text "d2")
  workerId := some (text "w")
  decidedBy := some (text "ann")

theorem accepts_lostLeaseHistory :
  Accepts apply none lostLeaseHistory (some lostLeaseState)
  := by
  unfold Accepts
  decide +kernel

theorem no_blind_replay_lostLease :
  NoBlindReplay lostLeaseHistory
  := by
  apply no_blind_replay accepts_lostLeaseHistory
  decide

end Example

end Courier
