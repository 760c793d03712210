import Courier.Controller.Api

/-!
# The work between requests

The ticker expires leases, the verifier settles results, and a boot rebuilds the memory of the
controller from the journal.  `Controller.step` is one step of the whole: any request, tick,
phase of a verification, stop, crash or boot.
-/

namespace Courier

open Except Program Text

def Lease.postponed (lease : Lease) (gap : Rat) : Lease :=
  { lease with deadline := lease.deadline + gap }

/-- `build_identity`. -/
structure Build where
  version : Str
  buildId : Option Str
  sourceSha256 : Option Str
  python : Str

def Build.record (build : Build) : Members :=
  [(text "build_id", Event.optionJson build.buildId), (text "python", .str build.python),
    (text "source_sha256", Event.optionJson build.sourceSha256),
    (text "version", .str build.version)]

variable [Platform]

namespace Controller

/-! ### The ticker -/

/-- What `tick` journals for a lease that has run out. -/
def expiredDraft (s : TaskState) (lease : Lease) : Draft where
  type := .leaseExpired
  taskId := s.taskId
  attempt := s.attempt
  dispatchId := s.dispatchId
  workerId := s.workerId
  payload := [(text "reason", .str lease.reason.value)]

/-- Expire leases: each is dropped, then the loss is journaled and decided about. -/
def expireLeases : List Lease → Act Unit
  | [] => return ()
  | lease :: rest => do
      modify fun c => { c with leases := c.leases.erase lease.dispatchId }
      if let some s := ← readTask lease.taskId then
        if s.dispatchId = some lease.dispatchId ∧ s.status.isActiveLease then
          let _ ← record (expiredDraft s lease)
          let task ← readTask s.taskId
          let s ← require task
          Controller.decide s
      expireLeases rest

/-- The leases after a gap between two ticks, which means that the machine slept. -/
def extendLeases (c : Controller) (now : Rat) : Dict Str Lease :=
  match c.lastTick with
  | some last =>
      if now - last > SUSPEND_GAP_S then c.leases.map fun lease => lease.postponed (now - last)
      else c.leases
  | none => c.leases

def tick (now : Rat) (busy : Bool) : Act Unit := do
  let c ← get
  if c.mode ≠ .normal ∨ c.stopping then
    return ()
  locked busy do
    let c ← get
    let leases := c.extendLeases now
    set { c with leases := leases, lastTick := some now }
    expireLeases (leases.values.filter fun lease => lease.deadline ≤ now)

/-! ### The verifier -/

/-- The first half of `verify_next`: take a task from the queue and read its result.  It
returns false if the queue is empty. -/
def verifyTake (busy : Bool) : Act Bool := do
  let c ← get
  match c.verifyQueue with
  | [] => return false
  | taskId :: rest =>
      set { c with verifyQueue := rest }
      locked busy do
        let task ← readTask taskId
        match task with
        | none => return true
        | some s =>
            if s.status ≠ .verifying then
              return true
            let result ← readEventByKey (resultKey s.dispatchId s.pendingResultId)
            let result ← require result
            modify fun c => { c with verifying := c.verifying ++ [⟨s, result⟩] }
            return true

/-- What `verify_next` journals for a verdict. -/
def verdictDraft (s : TaskState) (verdict : Verdict) : Draft where
  type := if verdict.accepted then .resultAccepted else .resultRejected
  taskId := s.taskId
  attempt := s.attempt
  dispatchId := s.dispatchId
  resultId := s.pendingResultId
  payload :=
    if verdict.accepted then
      [(text "reason", .str verdict.reason), (text "verifier", .obj verdict.verifier)]
    else
      [(text "reason", .str (if verdict.reason = [] then text "rejected" else verdict.reason)),
        (text "retryable", .bool verdict.retryable), (text "verifier", .obj verdict.verifier)]

/-- Journal a verdict and what follows from it. -/
def settle (s : TaskState) (verdict : Verdict) : Act Unit := do
  let _ ← record (verdictDraft s verdict)
  let task ← readTask s.taskId
  let s ← require task
  if verdict.accepted then complete s else Controller.decide s

/-- The second half of `verify_next`, once the verifier has come to a finding. -/
def verifyDecide (index : Nat) (finding : Finding) (busy : Bool) : Act Unit := do
  let c ← get
  match c.verifying[index]? with
  | none => return ()
  | some v =>
      set { c with verifying := c.verifying.eraseIdx index }
      locked busy do
        let c ← get
        if c.stopping then
          return ()
        let task ← readTask v.task.taskId
        let s ← require task
        if s.status ≠ .verifying ∨ s.pendingResultId ≠ v.task.pendingResultId
            ∨ s.dispatchId ≠ v.task.dispatchId then
          return ()
        settle s (runVerifier finding v.task v.result.toEventFields)

/-! ### Boot and stop -/

/-- Give a task one fresh lease, queue its verification, or journal what is left to do. -/
def recoverTask (now : Rat) (s : TaskState) : Act Unit :=
  match s.status with
  | .claimed => grace s
  | .running => grace s
  | .verifying => modify fun c => { c with verifyQueue := c.verifyQueue ++ [s.taskId] }
  | .accepted => complete s
  | .retryPending => Controller.decide s
  | .queued =>
      if s.cancelRequested then do
        let _ ← record { type := .taskCancelled, taskId := s.taskId }
      else pure ()
  | _ => pure ()
where
  grace (s : TaskState) : Act Unit := do
    let dispatchId ← require s.dispatchId
    let workerId ← require s.workerId
    modify fun c => { c with leases := c.leases.set dispatchId {
      taskId := s.taskId, dispatchId, workerId, ttlS := s.leaseTtlS
      deadline := now + s.leaseTtlS, reason := .restartGrace } }

/-- The loop of `_recover`. -/
def recoverTasks (now : Rat) : List TaskState → Act Unit
  | [] => return ()
  | s :: rest => do
      recoverTask now s
      recoverTasks now rest

/-- `boot`, on a journal that has passed its inspection. -/
def boot (pid : Int) (build : Build) (now : Rat) : Act Unit := do
  modify fun c => { c with mode := .normal, headSeq := c.journal.head.1 }
  let _ ← record {
    type := .controllerStarted
    payload := [(text "build", .obj build.record), (text "pid", .int pid)] }
  let c ← get
  recoverTasks now (c.journal.listTasks none)

def stop (pid : Int) (busy : Bool) : Act Unit := do
  modify fun c => { c with stopping := true }
  tryCatch (locked busy do
    let c ← get
    if c.mode = .normal then
      let _ ← record {
        type := .controllerStopped, payload := [(text "pid", .int pid)] }) fun
    | .api _ => return ()
    | why => throw why

end Controller

/-! ### Steps of the controller -/

/-- What the controller may be asked or may do next. -/
inductive Request where
  | createTask (body : Json) (uuid : Uuid) (busy : Bool)
  | claim (body : Json) (uuid : Uuid) (now : Rat) (busy : Bool)
  | start (body : Json) (busy : Bool)
  | heartbeat (body : Json) (now : Rat) (busy : Bool)
  | result (body : Json) (busy : Bool)
  | cancel (taskId : Str) (body : Json) (busy : Bool)
  | resolve (taskId : Str) (body : Json) (busy : Bool)
  | tick (now : Rat) (busy : Bool)
  | verifyTake (busy : Bool)
  | verifyDecide (index : Nat) (finding : Finding) (busy : Bool)
  | stop (pid : Int) (busy : Bool)
  | boot (pid : Int) (build : Build) (now : Rat)
  | crash

inductive Answer where
  | created (reply : CreateReply)
  | claimed (reply : Option ClaimReply)
  | started (reply : StartReply)
  | beaten (reply : HeartbeatReply)
  | reported (reply : ResultReply)
  | cancelled (status : TaskStatus)
  | resolved (reply : ResolveReply)
  | verified (found : Bool)
  | done
  deriving DecidableEq

namespace Controller

/-- What a running controller does with a request. -/
def perform : Request → Act Answer
  | .createTask body uuid busy => .created <$> createTask body uuid busy
  | .claim body uuid now busy => .claimed <$> claim body uuid now busy
  | .start body busy => .started <$> start body busy
  | .heartbeat body now busy => .beaten <$> heartbeat body now busy
  | .result body busy => .reported <$> result body busy
  | .cancel taskId body busy => .cancelled <$> cancel taskId body busy
  | .resolve taskId body busy => .resolved <$> resolve taskId body busy
  | .tick now busy => (fun _ => .done) <$> tick now busy
  | .verifyTake busy => .verified <$> verifyTake busy
  | .verifyDecide index finding busy => (fun _ => .done) <$> verifyDecide index finding busy
  | .stop pid busy => (fun _ => .done) <$> stop pid busy
  | .boot pid build now => (fun _ => .done) <$> boot pid build now
  | .crash => pure .done

/-- One step: a boot starts from the journal alone, and leaves no controller if it fails; a
controller that is not running does nothing. -/
def step (c : Controller) (request : Request) : Except Exc Answer × Controller :=
  match request with
  | .crash => (.ok .done, fresh c.journal c.draws)
  | .boot pid build now =>
      match perform (.boot pid build now) (fresh c.journal c.draws) with
      | .ok answer c' => (.ok answer, c')
      | .error why c' =>
          (.error why, { fresh c'.journal c'.draws with raised := c'.raised })
  | request =>
      if c.mode = .booting then (.error .environment, { c with raised := [] })
      else match perform request { c with raised := [] } with
        | .ok answer c' => (.ok answer, c')
        | .error why c' => (.error why, c')

end Controller

end Courier
