import Courier.StateMachine

/-!
# What the customer sees

The hub shows a task by its state and its events, and nothing of its own: a card in one of three piles, and a
receipt that answers the questions of the customer.
-/

namespace Courier.Hub

open Text

/-! ### Piles -/

inductive Pile where
  | needsYou
  | working
  | done
  deriving DecidableEq

def WORKING_STATUSES : List Str :=
  [text "QUEUED", text "CLAIMED", text "RUNNING", text "VERIFYING", text "ACCEPTED", text "RETRY_PENDING"]

def DONE_STATUSES : List Str :=
  [text "COMPLETE", text "FAILED", text "CANCELLED"]

def pileOf (task : TaskState) : Except Exc Pile :=
  let status := task.status.value
  if status = text "BLOCKED" then .ok .needsYou
  else if status ∈ DONE_STATUSES then .ok .done
  else if status ∈ WORKING_STATUSES then .ok .working
  else .error .valueError

/-! ### Texts -/

/-- What a repeated attempt of an adapter would mean. -/
structure AdapterCopy where
  title : Str
  action : Str
  repeatConsequence : Str
  retryOffered : Bool

def DEFAULT_COPY : AdapterCopy where
  title := text "Courier task"
  action := text "carry out the action"
  repeatConsequence := text "The action may happen twice."
  retryOffered := true

def copyFor (task : TaskState) : AdapterCopy :=
  if task.adapter = text "synthetic" then {
    title := text "Synthetic test task"
    action := text "write the test file"
    repeatConsequence := text "The test file may be written a second time."
    retryOffered := true }
  else DEFAULT_COPY

def titleOf (task : TaskState) : Str :=
  match Json.get task.params.asMembers (text "title") with
  | .str title => if strip title = [] then (copyFor task).title else (strip title).take 120
  | _ => (copyFor task).title

def displayActor (actor : Option Str) : Str :=
  match actor with
  | none => text "a person"
  | some actor =>
      if actor = [] then text "a person"
      else
        let name := (actor.dropWhile (· ≠ 58)).drop 1
        if 58 ∈ actor ∧ name ≠ [] then name else actor

def capitalize (s : Str) : Str :=
  upper (s.take 1) ++ lower (s.drop 1)

/-- What is told of an event, if anything. -/
def PLAIN_STEPS : EventType → Option Str
  | .taskCreated => text "You asked Courier to do this"
  | .taskClaimed => none
  | .taskStarted => text "Courier started the work"
  | .taskProgress => none
  | .resultReady => text "A result came back"
  | .resultAccepted => text "Courier checked the result"
  | .resultRejected => text "Courier did not accept the result"
  | .taskComplete => text "Finished"
  | .leaseExpired => text "The work was interrupted"
  | .taskRetryScheduled => text "Courier planned another try"
  | .taskBlocked => text "Courier stopped and asked you to decide"
  | .taskFailed => text "Courier couldn't complete this safely"
  | .taskCancelRequested => text "Stop was requested"
  | .taskCancelled => text "Stopped"
  | .effectConfirmed => text "A person confirmed it happened"
  | .retryAuthorized => text "A person authorised one more attempt"
  | .lateResultDiscarded => text "A late report arrived after Courier stopped waiting"
  | .controllerStarted => none
  | .controllerStopped => none

/-! ### Outcomes -/

inductive DoneOutcome where
  | verified
  | humanConfirmed
  | couldNotComplete
  | stopped
  | uncertain
  | completedUnlabelled
  deriving DecidableEq

def doneOutcome (task : TaskState) : Except Exc DoneOutcome :=
  let status := task.status.value
  if status = text "COMPLETE" then
    if task.resolution = some .verified then .ok .verified
    else if task.resolution = some .effectConfirmed then .ok .humanConfirmed
    else .ok .completedUnlabelled
  else if status = text "FAILED" then .ok .couldNotComplete
  else if status = text "CANCELLED" then
    .ok (if task.resolution = some .cancelledEffectUnknown then .uncertain else .stopped)
  else .error .valueError

/-- How a finished task is shown. -/
structure OutcomeCopy where
  outcome : DoneOutcome
  label : Str
  explanation : Str
  mark : Str

/-- The label, the explanation and the mark of an outcome. -/
def copyOf (outcome : DoneOutcome) (who : Str) : OutcomeCopy :=
  match outcome with
  | .verified => ⟨.verified, text "Checked by Courier",
      text "Courier checked the result against the evidence.", text "check"⟩
  | .humanConfirmed => ⟨.humanConfirmed, text "Confirmed by " ++ who,
      who ++ text " confirmed it happened. Courier did not verify it.", text "signature"⟩
  | .couldNotComplete => ⟨.couldNotComplete, text "Couldn't complete this safely",
      text "Courier stopped because it could not finish this safely.", text "open-ring"⟩
  | .stopped => ⟨.stopped, text "Stopped", text "This was stopped before it finished.", text "gate"⟩
  | .uncertain => ⟨.uncertain, text "Outcome uncertain",
      text "Courier stopped trying. The earlier action may already have happened.", text "gate-question"⟩
  | .completedUnlabelled => ⟨.completedUnlabelled, text "Completed",
      text "Finished, but this record does not say how it was checked.", text "neutral"⟩

def outcomeCopy (task : TaskState) : Except Exc OutcomeCopy := do
  let outcome ← doneOutcome task
  let copy := copyOf outcome (displayActor task.decidedBy)
  if outcome = .stopped ∧ task.started ∧ task.effectClass ≠ text "idempotent" then
    return { copy with
      explanation := text "Stopped after the action had started. Part of it may already have happened."
      mark := text "gate-question" }
  else return copy

/-! ### Work -/

/-- The phase of a task that is under way. -/
structure WorkingPhase where
  phase : Str
  label : Str
  next : Str

def workingPhase (task : TaskState) : Except Exc WorkingPhase :=
  let status := task.status.value
  if task.cancelRequested then
    .ok ⟨text "stopping", text "Stopping", text "Courier is stopping at the next safe point."⟩
  else if status = text "QUEUED" then
    .ok ⟨text "waiting", text "Waiting to start",
      text "Courier starts this as soon as a worker is free."⟩
  else if status ∈ [text "CLAIMED", text "RUNNING", text "RETRY_PENDING"] then
    .ok ⟨text "in_progress", text "In progress", text "Courier expects a result from the running work."⟩
  else if status ∈ [text "VERIFYING", text "ACCEPTED"] then
    .ok ⟨text "checking", text "Checking the result",
      text "Courier is checking the result against the evidence."⟩
  else .error .valueError

structure Authority where
  may : List Str
  mustAsk : List Str
  note : Str

def authorityOf (task : TaskState) : Authority :=
  let action := (copyFor task).action
  let note := text "Standing permissions you grant ahead of time are not available yet."
  if task.effectClass = text "idempotent" then {
    may := [capitalize action,
      text "Try again by itself after an interruption (repeating is safe for this task)"]
    mustAsk := [text "Nothing else: this task has no step that needs your approval"]
    note := note }
  else {
    may := [capitalize action ++ text " once"]
    mustAsk := [text "Anything after an unclear outcome: it never repeats this on its own"]
    note := note }

/-! ### Questions -/

/-- A decision that is offered. -/
structure Choice where
  decision : Str
  label : Str
  explains : Str
  confirm : Option Str

structure LateReport where
  what : Str
  outcome : Json
  at_ : Str

/-- The question that a blocked task asks. -/
structure NeedsYou where
  question : Str
  why : Str
  next : Str
  consequence : Str
  choices : List Choice
  retryUnavailableReason : Option Str
  evidence : List LateReport
  blockedAttempt : Int

def retryBlocked (task : TaskState) : Option Str :=
  if ¬ (copyFor task).retryOffered then text "Trying again is not offered for this kind of action."
  else if task.cancelRequested then text "Stop was already requested, so Courier won't try again."
  else if 100 ≤ task.attempt then text "The attempt limit is reached."
  else none

variable [Platform]

def needsYouCard (task : TaskState) (events : List Event) : NeedsYou :=
  let copy := copyFor task
  let retry : List Choice := match retryBlocked task with
    | some _ => []
    | none => [⟨text "retry_authorized", text "Try once more",
        text "One more try, authorised by you. " ++ copy.repeatConsequence,
        text "Courier couldn't tell whether it managed to " ++ copy.action
          ++ text ". Trying again could repeat it. " ++ copy.repeatConsequence⟩]
  { question := text "Did Courier manage to " ++ copy.action ++ text "?"
    why := text "Courier lost contact while trying to " ++ copy.action
      ++ text ", before it could confirm whether that happened."
    next := text "The next step is your decision. Courier will not continue this on its own."
    consequence := copy.repeatConsequence
    choices := [⟨text "effect_confirmed", text "It happened",
        text "Mark it done as confirmed by you. Courier will not run it again.", none⟩] ++ retry ++
      [⟨text "cancel", text "Stop here",
        text "Courier stops trying. The earlier action may still have happened.", none⟩]
    retryUnavailableReason := retryBlocked task
    evidence := (events.filter fun e => e.type = .lateResultDiscarded).map fun e =>
      ⟨text "A late report arrived", e.get (text "outcome"), e.tsUtc⟩
    blockedAttempt := task.attempt }

/-! ### Cards -/

/-- Something that happened. -/
structure PlainStep where
  what : Str
  at_ : Str

def lastChange (events : List Event) : Option PlainStep :=
  events.reverse.findSome? fun e => (PLAIN_STEPS e.type).map fun step => ⟨step, e.tsUtc⟩

/-- A card.  What a pile does not show is missing. -/
structure Card where
  id : Str
  title : Str
  pile : Pile
  lastChange : Option PlainStep
  label : Str
  next : Option Str := none
  needsYou : Option NeedsYou := none
  phase : Option Str := none
  authority : Option Authority := none
  stop : Option (Str × Str) := none
  outcome : Option DoneOutcome := none
  explanation : Option Str := none
  mark : Option Str := none

def card (task : TaskState) (events : List Event) : Except Exc Card := do
  match ← pileOf task with
  | .needsYou =>
      let question := needsYouCard task events
      return {
        id := task.taskId, title := titleOf task, pile := .needsYou, lastChange := lastChange events
        label := text "Courier needs you to decide something"
        next := question.next
        needsYou := question }
  | .working =>
      let phase ← workingPhase task
      return {
        id := task.taskId, title := titleOf task, pile := .working, lastChange := lastChange events
        label := phase.label
        phase := phase.phase
        next := phase.next
        authority := authorityOf task
        stop := (text "Stop", text "Courier stops at the next safe point. If the action already "
          ++ text "started, its result may still arrive.") }
  | .done =>
      let copy ← outcomeCopy task
      return {
        id := task.taskId, title := titleOf task, pile := .done, lastChange := lastChange events
        label := copy.label
        outcome := copy.outcome
        explanation := copy.explanation
        mark := copy.mark }

/-! ### Receipts -/

/-- A decision of a human. -/
structure DecisionLine where
  who : Str
  decided : Str
  reason : Json
  at_ : Str

/-- A file that was reported. -/
structure EvidenceLine where
  name : Str
  accepted : Bool
  deriving DecidableEq

/-- The answers to the questions of the customer. -/
structure Receipt where
  understood : Str
  authorized : Authority
  tried : List PlainStep
  resumed : Bool
  happened : Str
  howKnown : Str
  decisions : List DecisionLine
  changedLater : List PlainStep
  evidence : List EvidenceLine

/-- How far the search for a continued retry has come. -/
structure Continued where
  seenRetry : Bool
  startedAfter : Bool

def Continued.step (c : Continued) (e : Event) : Continued :=
  if e.type = .taskRetryScheduled then ⟨true, false⟩
  else if e.type = .taskStarted ∧ c.seenRetry then { c with startedAfter := true }
  else if e.type = .taskBlocked then { c with startedAfter := false }
  else c

def continuedAfterRetry (events : List Event) : Bool :=
  let c := events.foldl Continued.step ⟨false, false⟩
  c.seenRetry && c.startedAfter

/-- The steps that are told, each once in a row. -/
def tried (events : List Event) : List PlainStep :=
  events.foldl (fun steps e =>
    match PLAIN_STEPS e.type with
    | some step =>
        if steps.getLast?.map PlainStep.what = some step then steps else steps ++ [⟨step, e.tsUtc⟩]
    | none => steps) []

def decisionLine? (events : List Event) (e : Event) : Option DecisionLine :=
  let actor := e.get (text "actor")
  if e.type ∈ [EventType.effectConfirmed, .retryAuthorized] ∨
      e.type ∈ [EventType.taskCancelRequested, .taskCancelled] ∧ actor.truthy then
    if e.type = .taskCancelRequested ∧
        ∃ c ∈ events, c.type = .taskCancelled ∧ c.get (text "actor") = actor then none
    else some {
      who := displayActor actor.str?
      decided := if e.type = .taskCancelled then text "Chose to stop" else (PLAIN_STEPS e.type).getD []
      reason := e.get (text "reason")
      at_ := e.tsUtc }
  else none

/-- The name of a file: what follows the last slash of its path. -/
def fileName (path : Str) : Str :=
  (path.reverse.takeWhile (· ≠ 47)).reverse

/-- The names of the files that a result reports. -/
def artifactNames (e : Event) : List Str :=
  (e.get (text "artifacts")).asItems.filterMap fun
    | .obj artifact =>
        let path := Json.get artifact (text "path")
        if path.truthy then some (fileName (pyStr path)) else none
    | _ => none

def accepts (events : List Event) (e : Event) : Bool :=
  events.any fun a => a.type = .resultAccepted ∧ a.resultId = e.resultId

/-- The files that were reported, each with whether it was accepted. -/
def evidenceLines (events : List Event) : List EvidenceLine :=
  (events.filter fun e => e.type = .resultReady).flatMap fun e =>
    (artifactNames e).map fun name => ⟨name, accepts events e⟩

def howKnown (task : TaskState) (events : List Event) (pile : Pile) : Except Exc Str := do
  let accepted := events.any fun e => e.type = .resultAccepted
  let rejected := events.any fun e => e.type = .resultRejected
  let checked := text "Checked by Courier: the result matched the evidence it was checked against."
  match pile with
  | .done =>
      let outcome ← doneOutcome task
      if outcome = .couldNotComplete then
        return if rejected then text "Courier checked the result and did not accept it."
          else text "Courier could not get a result it could check."
      else if accepted then return checked
      else if outcome = .humanConfirmed then
        return text "Confirmed by " ++ displayActor task.decidedBy ++ text ". Courier did not verify it."
      else return text "Courier has no verified evidence that this happened."
  | _ => return if accepted then checked else text "Not known yet."

def happened (task : TaskState) (pile : Pile) : Except Exc Str :=
  match pile with
  | .done => OutcomeCopy.label <$> outcomeCopy task
  | .needsYou => .ok (text "Unclear: Courier is waiting for your decision")
  | .working => WorkingPhase.label <$> workingPhase task

def receipt (task : TaskState) (events : List Event) : Except Exc Receipt := do
  let pile ← pileOf task
  let how ← howKnown task events pile
  let what ← happened task pile
  return {
    understood := text "Courier was asked to " ++ (copyFor task).action ++ text " (" ++ titleOf task
      ++ text ")."
    authorized := authorityOf task
    tried := tried events
    resumed := continuedAfterRetry events
    happened := what
    howKnown := how
    decisions := events.filterMap (decisionLine? events)
    changedLater := (events.filter fun e => e.type = .lateResultDiscarded).map fun e =>
      ⟨text "A late report arrived after Courier stopped waiting", e.tsUtc⟩
    evidence := evidenceLines events }

end Courier.Hub
